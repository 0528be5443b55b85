import ShiftReduce.Proofs.FirstFollow.Derivation
import ShiftReduce.Proofs.FirstFollow.LeftCorner

/-!
# Rightmost derivations

A rightmost derivation replaces the last nonterminal of a form, so that only terminals stand behind
it (`Grammar.DerivesRightmost`).  The accepting production takes part: a form may be the reserved
nonterminal alone, and in no other form does it occur (`DerivesRightmost.eq_or_forall_mem`).

A terminal string that is derived at all has a rightmost derivation (`Derives.rightmost`), by
induction over a forest that derives it: the trees are worked off from the right.

If every nonterminal derives a terminal string (`Grammar.Productive`) and no body is blank, then a
terminal is in FIRST of a symbol exactly if the symbol derives a string that begins with it
(`exists_derives_of_mem_firstOf`, `mem_firstOf_of_derives`).
-/

namespace ShiftReduce

/-- Beside the symbol of a form of one symbol there is nothing. -/
theorem eq_of_append_cons_eq_singleton {before behind : List Symbol} {x y : Symbol}
    (h : before ++ x :: behind = [y]) : before = [] ∧ x = y ∧ behind = [] := by
  rcases List.append_eq_singleton_iff.1 h with ⟨hbefore, hcons⟩ | ⟨-, hcons⟩
  · obtain ⟨hxy, hbehind⟩ := List.cons.inj hcons
    exact ⟨hbefore, hxy, hbehind⟩
  · contradiction

namespace Grammar

variable {g : Grammar} {symbols symbols' : List Symbol}

/-- The last nonterminal of a form is replaced by what a production for it matches. -/
inductive RewritesRightmost (g : Grammar) : List Symbol → List Symbol → Prop
  | rule {r : Rule} (before : List Symbol) (word : List Terminal) : r ∈ g.allRules →
      RewritesRightmost g (before ++ .nonterminal r.head :: word.map .terminal)
        (before ++ r.matched ++ word.map .terminal)

/-- A form comes from another by replacing the last nonterminal, again and again. -/
def DerivesRightmost (g : Grammar) : List Symbol → List Symbol → Prop :=
  Relation.ReflTransGen g.RewritesRightmost

/-- What is rewritten may have a row in front of it and a string of terminals behind it. -/
theorem RewritesRightmost.within (h : g.RewritesRightmost symbols symbols') (before : List Symbol)
    (word : List Terminal) : g.RewritesRightmost (before ++ symbols ++ word.map .terminal)
      (before ++ symbols' ++ word.map .terminal) := by
  obtain ⟨left, right, hr⟩ := h
  simpa using RewritesRightmost.rule (before ++ left) (right ++ word) hr

namespace DerivesRightmost

theorem refl (symbols : List Symbol) : g.DerivesRightmost symbols symbols :=
  Relation.ReflTransGen.refl

theorem trans {symbols'' : List Symbol} (h : g.DerivesRightmost symbols symbols')
    (h' : g.DerivesRightmost symbols' symbols'') : g.DerivesRightmost symbols symbols'' :=
  Relation.ReflTransGen.trans h h'

theorem within (h : g.DerivesRightmost symbols symbols') (before : List Symbol)
    (word : List Terminal) : g.DerivesRightmost (before ++ symbols ++ word.map .terminal)
      (before ++ symbols' ++ word.map .terminal) :=
  Relation.ReflTransGen.lift (before ++ · ++ word.map Symbol.terminal)
    (fun _ _ (hstep : g.RewritesRightmost _ _) => hstep.within before word) _ _ h

theorem of_rule {r : Rule} (hr : r ∈ g.allRules) (before : List Symbol) (word : List Terminal) :
    g.DerivesRightmost (before ++ .nonterminal r.head :: word.map .terminal)
      (before ++ r.matched ++ word.map .terminal) :=
  Relation.ReflTransGen.single (.rule before word hr)

/-- In what comes from the reserved nonterminal it does not occur again, and neither does the
blank. -/
theorem eq_or_forall_mem (hg : g.WellFormed)
    (h : g.DerivesRightmost [.nonterminal .accept] symbols) : symbols = [.nonterminal .accept] ∨
      ∀ x ∈ symbols, x ≠ .nonterminal .accept ∧ x ≠ .terminal g.blank := by
  induction h with
  | refl => exact .inl rfl
  | tail _ hstep ih =>
      obtain @⟨r, before, word, hr⟩ := hstep
      right
      intro x hx
      rw [List.append_assoc, List.mem_append, List.mem_append] at hx
      have haround : x ∈ before ∨ x ∈ word.map .terminal →
          x ≠ .nonterminal .accept ∧ x ≠ .terminal g.blank := by
        intro hx
        rcases ih with heq | hall
        · -- Around the reserved nonterminal there is nothing.
          obtain ⟨hbefore, -, hword⟩ := eq_of_append_cons_eq_singleton heq
          simp [hbefore, hword] at hx
        · apply hall x
          rw [List.mem_append, List.mem_cons]
          exact hx.imp_right .inr
      rcases hx with hx | hx | hx
      · exact haround (.inl hx)
      · obtain ⟨hdeclares, hblank⟩ := hg.declares_of_mem_matched hr hx
        refine ⟨?_, hblank⟩
        rintro rfl
        exact g.vocabulary.not_declares_accept hdeclares
      · exact haround (.inr hx)

end DerivesRightmost

/-- In a row with terminals at its end a nonterminal stands before these. -/
private theorem exists_eq_of_append_map {middle front behind : List Symbol} {word : List Terminal}
    {n : Nonterminal}
    (h : middle ++ word.map .terminal = front ++ .nonterminal n :: behind) :
    ∃ right, middle = front ++ .nonterminal n :: right ∧
      behind = right ++ word.map .terminal := by
  have hword : ∀ left : List Symbol, word.map .terminal ≠ left ++ .nonterminal n :: behind := by
    intro left heq
    have hmem : Symbol.nonterminal n ∈ word.map .terminal := by simp [heq]
    simp at hmem
  rcases List.append_eq_append_iff.1 h with ⟨left, -, heq⟩ | ⟨rest, rfl, heq⟩
  · exact absurd heq (hword left)
  · rcases List.cons_eq_append_iff.1 heq with ⟨-, heq⟩ | ⟨right, rfl, rfl⟩
    · exact absurd heq (hword [])
    · exact ⟨right, rfl, rfl⟩

/-- A nonterminal of a rewritten form has been there before, or stands in the body that is new. -/
theorem exists_eq_of_rewritten {before middle front behind : List Symbol} {word : List Terminal}
    {n : Nonterminal}
    (h : before ++ middle ++ word.map .terminal = front ++ .nonterminal n :: behind) :
    (∃ rest, before = front ++ .nonterminal n :: rest ∧
      behind = rest ++ middle ++ word.map .terminal) ∨
    ∃ left right, middle = left ++ .nonterminal n :: right ∧ front = before ++ left ∧
      behind = right ++ word.map .terminal := by
  rw [List.append_assoc] at h
  rcases List.append_eq_append_iff.1 h with ⟨left, rfl, heq⟩ | ⟨rest, rfl, heq⟩
  · obtain ⟨right, rfl, rfl⟩ := exists_eq_of_append_map heq
    exact .inr ⟨left, right, rfl, rfl, rfl⟩
  · rcases List.cons_eq_append_iff.1 heq with ⟨rfl, hmiddle⟩ | ⟨rest, rfl, rfl⟩
    · obtain ⟨right, rfl, rfl⟩ := @exists_eq_of_append_map middle [] behind word n hmiddle
      exact .inr ⟨[], right, rfl, by simp, rfl⟩
    · exact .inl ⟨rest, rfl, by simp⟩

/-! ## Derived strings -/

/-- From terminals nothing else is derived. -/
theorem Derives.eq_of_map_terminal {word : List Terminal}
    (h : g.Derives (word.map .terminal) symbols) : symbols = word.map .terminal := by
  rcases Relation.ReflTransGen.cases_head h with heq | ⟨_, hstep, -⟩
  · exact heq.symm
  · generalize hform : word.map Symbol.terminal = form at hstep
    obtain @⟨r, before, behind, -⟩ := hstep
    have hmem : Symbol.nonterminal r.head ∈ word.map .terminal := by simp [hform]
    simp at hmem

/-- The leaves of trees have a rightmost derivation from the row of their symbols. -/
theorem Forest.exists_derivesRightmost {trees : List Tree} (h : g.Forest symbols trees) :
    ∃ word : List Terminal,
      (Tree.leavesOfAll trees).map (·.1) = word.map (fun t => g.vocabulary.number (.terminal t)) ∧
      g.DerivesRightmost symbols (word.map .terminal) := by
  induction h with
  | nil => exact ⟨[], by simp, .refl []⟩
  | leaf t text _ ih =>
      obtain ⟨word, hleaves, hderives⟩ := ih
      exact ⟨t :: word, by simp [hleaves], by simpa using hderives.within [.terminal t] []⟩
  | @node r children symbols trees hr _ _ ihchildren ih =>
      obtain ⟨first, hfirst, hchildren⟩ := ihchildren
      obtain ⟨word, hleaves, hderives⟩ := ih
      refine ⟨first ++ word, by simp [hfirst, hleaves], ?_⟩
      -- The trees behind the first one are worked off before it.
      have hrest : g.DerivesRightmost (.nonterminal r.head :: symbols)
          (.nonterminal r.head :: word.map .terminal) := by
        simpa using hderives.within [.nonterminal r.head] []
      have hhead : g.DerivesRightmost (.nonterminal r.head :: word.map .terminal)
          (r.matched ++ word.map .terminal) := .of_rule (mem_allRules_of_mem hr) [] word
      have hbody := hchildren.within [] word
      rw [List.map_append]
      exact hrest.trans (hhead.trans hbody)

/-- A string that is derived has trees, with its terminals on their leaves. -/
theorem Derives.exists_forest {word : List Terminal} (h : g.Derives symbols (word.map .terminal)) :
    ∃ trees, g.Forest symbols trees ∧ (Tree.leavesOfAll trees).map (·.1) =
      word.map fun t => g.vocabulary.number (.terminal t) := by
  -- The texts do not matter here.
  have htokens : (word.map fun t => (g.vocabulary.number (.terminal t), "")).map (·.1) =
      word.map fun t => g.vocabulary.number (.terminal t) := by simp
  obtain ⟨trees, hf, hleaves⟩ := exists_forest_of_derives h htokens
  exact ⟨trees, hf, hleaves ▸ htokens⟩

/-- A string that is derived has a rightmost derivation. -/
theorem Derives.rightmost {word : List Terminal} (h : g.Derives symbols (word.map .terminal)) :
    g.DerivesRightmost symbols (word.map .terminal) := by
  obtain ⟨trees, hf, hleaves⟩ := h.exists_forest
  obtain ⟨word', hword, hderives⟩ := hf.exists_derivesRightmost
  rw [hleaves] at hword
  obtain rfl : word = word' :=
    List.map_injective_iff.2 (fun _ _ => Vocabulary.number_terminal_inj) hword
  exact hderives

/-! ## Productive grammars -/

/-- Every nonterminal derives a string of terminals. -/
def Productive (g : Grammar) : Prop :=
  ∀ n, g.vocabulary.Declares (.nonterminal n) →
    ∃ word : List Terminal, g.Derives [.nonterminal n] (word.map .terminal)

/-- Then so does every row of symbols. -/
theorem Productive.exists_derives (h : g.Productive)
    (hsymbols : ∀ x ∈ symbols, g.vocabulary.Declares x) :
    ∃ word : List Terminal, g.Derives symbols (word.map .terminal) := by
  induction symbols with
  | nil => exact ⟨[], .refl []⟩
  | cons x symbols ih =>
      obtain ⟨hx, hsymbols⟩ := List.forall_mem_cons.1 hsymbols
      obtain ⟨rest, hrest⟩ := ih hsymbols
      obtain ⟨word, hword⟩ : ∃ word : List Terminal, g.Derives [x] (word.map .terminal) := by
        cases x with
        | terminal t => exact ⟨[t], .refl _⟩
        | nonterminal n => exact h n hx
      refine ⟨word ++ rest, ?_⟩
      rw [List.map_append]
      exact hword.append hrest

variable (hg : g.WellFormed) (hfree : g.EpsilonFree)

include hg hfree

/-- What stands at the left corner of a nonterminal begins a row that it derives. -/
theorem Begins.exists_derives {n : Nonterminal} {t : Terminal} (h : g.Begins n t)
    (hn : n ≠ .accept) : ∃ rest, (∀ x ∈ rest, g.vocabulary.Declares x) ∧
      g.Derives [.nonterminal n] (.terminal t :: rest) := by
  induction h with
  | @terminal r t rest hr hbody =>
      have hderives := Derives.of_rule (WellFormed.mem_rules_of_head_ne hr hn)
      rw [hfree.matched_eq hg hr, hbody] at hderives
      refine ⟨rest, fun x hx => hg.declares_of_mem_body hr ?_, hderives⟩
      exact hbody ▸ List.mem_cons_of_mem _ hx
  | @nonterminal r m t rest hr hbody _ ih =>
      have hm : m ≠ .accept := by
        rintro rfl
        exact hg.accept_not_mem_body hr (hbody ▸ List.mem_cons_self)
      obtain ⟨more, hmore, hfirst⟩ := ih hm
      have hderives := Derives.of_rule (WellFormed.mem_rules_of_head_ne hr hn)
      rw [hfree.matched_eq hg hr, hbody] at hderives
      refine ⟨more ++ rest, fun x hx => ?_, hderives.trans (hfirst.within [] rest)⟩
      rcases List.mem_append.1 hx with hx | hx
      · exact hmore x hx
      · exact hg.declares_of_mem_body hr (hbody ▸ List.mem_cons_of_mem _ hx)

/-- A terminal in FIRST of a symbol begins a string that the symbol and what comes behind it
derive. -/
theorem exists_derives_of_mem_firstOf (hproductive : g.Productive) {x : Symbol}
    {rest : List Symbol} (hx : g.vocabulary.Declares x)
    (hrest : ∀ y ∈ rest, g.vocabulary.Declares y) {t : Terminal}
    (ht : t ∈ g.firstFollow.firstOf x) :
    ∃ word : List Terminal, g.Derives (x :: rest) ((t :: word).map .terminal) := by
  obtain ⟨more, hmore, hfirst⟩ : ∃ more, (∀ y ∈ more, g.vocabulary.Declares y) ∧
      g.Derives [x] (.terminal t :: more) := by
    cases x with
    | terminal u =>
        obtain rfl := OrderedSet.mem_single.1 ht
        exact ⟨[], by simp, .refl _⟩
    | nonterminal n =>
        exact (FirstFollow.begins_of_mem_first hg hfree ht).exists_derives hg hfree hx.1
  obtain ⟨word, hword⟩ : ∃ word : List Terminal, g.Derives (more ++ rest) (word.map .terminal) := by
    apply hproductive.exists_derives
    intro y hy
    exact (List.mem_append.1 hy).elim (hmore y) (hrest y)
  refine ⟨word, (hfirst.within [] rest).trans ?_⟩
  simpa using hword.within [.terminal t] []

/-- What comes first in a string that a symbol and the row behind it derive is in FIRST of the
symbol.  There is such a terminal, whatever comes behind the string. -/
theorem mem_firstOf_of_derives {x : Symbol} {rest : List Symbol} {word : List Terminal}
    (h : g.Derives (x :: rest) (word.map .terminal)) {behind t : Terminal}
    (ht : (word ++ [behind]).head? = some t) : t ∈ g.firstFollow.firstOf x := by
  obtain ⟨trees, hf, hleaves⟩ := h.exists_forest
  rw [← List.singleton_append] at hf
  obtain ⟨left, right, rfl, hleft, -⟩ := hf.split
  obtain ⟨tree, rfl⟩ := hleft.exists_eq_singleton
  -- The symbol derives something, and that comes first.
  have hne := hleft.leaves_ne_nil hg hfree (List.cons_ne_nil x [])
  rw [Tree.leavesOfAll_cons, Tree.leavesOfAll_nil, List.append_nil] at hne
  obtain ⟨leaf, more, hmore⟩ := List.exists_cons_of_ne_nil hne
  rw [List.singleton_append, Tree.leavesOfAll_cons, hmore, List.cons_append, List.map_cons,
    eq_comm, List.map_eq_cons_iff] at hleaves
  obtain ⟨u, word, rfl, hu, -⟩ := hleaves
  obtain rfl := Option.some.inj ht
  obtain ⟨number, text⟩ := leaf
  obtain rfl : _ = number := hu
  exact hg.closed_firstFollow.mem_firstOf_of_leaf hg hleft hmore

end Grammar

end ShiftReduce
