import ShiftReduce.Proofs.FirstFollow.LeastSolution
import ShiftReduce.Proofs.FirstFollow.LeftCorner
import ShiftReduce.Proofs.FirstFollow.SententialForms

/-!
# What FIRST holds beyond the derivations

FIRST of a nonterminal misses nothing that the nonterminal yields, but it holds more.  The blank
means that a symbol may be passed over, and it gets into FIRST of whatever begins with a symbol
that has it: a nonterminal has the blank if and only if a production with a blank body is at its
left corner (`hasBlank_iff_begins`), whether or not it vanishes.  So terminals come from two
places where no derivation finds them (`not_first_sound_strayTerminals`): from behind a
nonterminal that does not vanish, and from FOLLOW of a nonterminal at the front that does vanish,
but that has other neighbours elsewhere.

A loose derivation may drop every nonterminal with the blank (`Grammar.Loosens`).  With these
derivations the two places are described exactly (`mem_firstOf_iff_foundLoosely`).

## Strategy

* What a loose derivation finds is in FIRST, one step at a time, just as for sentential forms.
* Conversely the terminals that loose derivations find solve the equations of FIRST
  (`solves_foundLoosely`), and FIRST is within every solution (`Solves.within`).
-/

namespace ShiftReduce

namespace Grammar

variable {g : Grammar} {symbols symbols' : List Symbol}

/-- A nonterminal of a form is replaced, or it is dropped for the blank at its left corner. -/
inductive Loosens (g : Grammar) : List Symbol → List Symbol → Prop
  | unfold {symbols symbols' : List Symbol} : g.Unfolds symbols symbols' → Loosens g symbols symbols'
  | drop {n : Nonterminal} (before behind : List Symbol) : g.Begins n g.blank →
      Loosens g (before ++ .nonterminal n :: behind) (before ++ behind)

/-- A form comes from another by replacing nonterminals and dropping some. -/
def YieldsLoosely (g : Grammar) : List Symbol → List Symbol → Prop :=
  Relation.ReflTransGen g.Loosens

/-! ## Derivations in front of other symbols -/

theorem Unfolds.within (h : g.Unfolds symbols symbols') (front rear : List Symbol) :
    g.Unfolds (front ++ (symbols ++ rear)) (front ++ (symbols' ++ rear)) := by
  obtain ⟨before, behind, hr⟩ := h
  simpa [List.append_assoc] using Unfolds.rule (front ++ before) (behind ++ rear) hr

theorem Yields.within (h : g.Yields symbols symbols') (front rear : List Symbol) :
    g.Yields (front ++ (symbols ++ rear)) (front ++ (symbols' ++ rear)) :=
  Relation.ReflTransGen.lift (fun form => front ++ (form ++ rear))
    (fun _ _ (hstep : g.Unfolds _ _) => hstep.within front rear) _ _ h

/-- A form changes at its front or behind it. -/
theorem Unfolds.cons_cases {x : Symbol} {rest : List Symbol}
    (h : g.Unfolds (x :: rest) symbols') :
    (∃ r ∈ g.allRules, x = .nonterminal r.head ∧ symbols' = r.matched ++ rest) ∨
      ∃ rest', g.Unfolds rest rest' ∧ symbols' = x :: rest' := by
  generalize hsymbols : x :: rest = symbols at h
  obtain @⟨r, before, behind, hr⟩ := h
  cases before with
  | nil =>
      rw [List.nil_append, List.cons.injEq] at hsymbols
      obtain ⟨rfl, rfl⟩ := hsymbols
      exact .inl ⟨r, hr, rfl, rfl⟩
  | cons y before =>
      rw [List.cons_append, List.cons.injEq] at hsymbols
      obtain ⟨rfl, rfl⟩ := hsymbols
      exact .inr ⟨_, .rule before behind hr, rfl⟩

theorem not_unfolds_nil : ¬ g.Unfolds [] symbols' := by
  generalize hsymbols : [] = symbols
  rintro ⟨before, behind, hr⟩
  simp at hsymbols

theorem Loosens.append (h : g.Loosens symbols symbols') (rear : List Symbol) :
    g.Loosens (symbols ++ rear) (symbols' ++ rear) := by
  cases h with
  | unfold h => exact .unfold (h.within [] rear)
  | drop before behind hblank =>
      simpa [List.append_assoc] using Loosens.drop before (behind ++ rear) hblank

theorem YieldsLoosely.append (h : g.YieldsLoosely symbols symbols') (rear : List Symbol) :
    g.YieldsLoosely (symbols ++ rear) (symbols' ++ rear) :=
  Relation.ReflTransGen.lift (· ++ rear)
    (fun _ _ (hstep : g.Loosens _ _) => hstep.append rear) _ _ h

theorem yieldsLoosely_of_rule {r : Rule} (hr : r ∈ g.allRules) :
    g.YieldsLoosely [.nonterminal r.head] r.matched := by
  have hstep := Unfolds.rule [] [] hr
  rw [List.nil_append, List.nil_append, List.append_nil] at hstep
  exact Relation.ReflTransGen.single (.unfold hstep)

/-- Nonterminals with the blank at a left corner may be dropped from the front of a form. -/
theorem yieldsLoosely_of_droppable {front : List Symbol}
    (h : ∀ x ∈ front, ∃ n, x = .nonterminal n ∧ g.Begins n g.blank) (rest : List Symbol) :
    g.YieldsLoosely (front ++ rest) rest := by
  induction front with
  | nil => exact .refl
  | cons x front ih =>
      rw [List.forall_mem_cons] at h
      obtain ⟨⟨n, rfl, hblank⟩, hfront⟩ := h
      exact .head (.drop [] (front ++ rest) hblank) (ih hfront)

/-- Where nothing has the blank at a left corner without deriving the empty form, loose
derivations yield no more than others. -/
theorem YieldsLoosely.yields (hexact : ∀ n, g.Begins n g.blank → g.Yields [.nonterminal n] [])
    (h : g.YieldsLoosely symbols symbols') : g.Yields symbols symbols' := by
  induction h with
  | refl => exact .refl
  | tail _ hstep ih =>
      cases hstep with
      | unfold hstep => exact ih.tail hstep
      | drop before behind hblank => exact ih.trans ((hexact _ hblank).within before behind)

end Grammar

namespace FirstFollow

variable {g : Grammar} {s : FirstFollow} {symbols symbols' : List Symbol} {n : Nonterminal}

/-! ## The blank -/

/-- Closed sets hold whatever stands at a left corner. -/
theorem Closed.mem_first_of_begins (hs : s.Closed g) {t : Terminal} (h : g.Begins n t) :
    t ∈ s.first.get n := by
  induction h with
  | terminal hr hbody =>
      exact hs.first _ hr _ (hbody ▸ mem_ofBody_cons (OrderedSet.mem_single.2 rfl))
  | nonterminal hr hbody _ ih => exact hs.first _ hr _ (hbody ▸ mem_ofBody_cons ih)

/-- Everything, except for the blank, which is where it stands at a left corner. -/
def blankAtCorner (g : Grammar) : TerminalFamily := fun n => {t | t = g.blank → g.Begins n g.blank}

/-- If the first symbol of a body has the blank at a left corner, then so has the head. -/
theorem begins_blank_of_body {r : Rule} (hr : r ∈ g.allRules) {x : Symbol} {rest : List Symbol}
    (hbody : r.body = x :: rest) (hx : g.blank ∈ (blankAtCorner g).of x) :
    g.Begins r.head g.blank := by
  cases x with
  | terminal u =>
      obtain rfl : g.blank = u := hx
      exact .terminal hr hbody
  | nonterminal m => exact .nonterminal hr hbody (hx rfl)

theorem solves_blankAtCorner (hg : g.WellFormed) :
    Solves g (blankAtCorner g) (fun _ => Set.univ) where
  symbol := by
    rintro r hr i y hy hbefore t ht rfl
    obtain ⟨x, rest, hbody⟩ := List.exists_cons_of_ne_nil (hg.ne_nil_of_mem hr)
    apply begins_blank_of_body hr hbody
    cases i with
    | zero =>
        obtain rfl : x = y := by simpa [hbody] using hy
        exact ht
    | succ i => exact hbefore x (by simp [hbody])
  beyond := by
    rintro r hr hall t - rfl
    obtain ⟨x, rest, hbody⟩ := List.exists_cons_of_ne_nil (hg.ne_nil_of_mem hr)
    exact begins_blank_of_body hr hbody (hall x (hbody ▸ List.mem_cons_self))
  next := fun _ _ _ _ _ _ _ _ _ => Set.mem_univ _
  last := fun _ _ _ _ _ _ _ _ => Set.mem_univ _

theorem blank_mem_first_iff (hg : g.WellFormed) :
    g.blank ∈ g.firstFollow.first.get n ↔ g.Begins n g.blank :=
  ⟨fun h => (solves_blankAtCorner hg).within.first n _ h rfl,
    hg.closed_firstFollow.mem_first_of_begins⟩

/-- A nonterminal has the blank if and only if it has the blank at a left corner. -/
theorem hasBlank_iff_begins (hg : g.WellFormed) (n : Nonterminal) :
    g.firstFollow.hasBlank g (.nonterminal n) = true ↔ g.Begins n g.blank := by
  rw [hasBlank, decide_eq_true_iff]
  exact blank_mem_first_iff hg

/-- A symbol that a production matches may be dropped if it has the blank. -/
theorem exists_begins_blank (hg : g.WellFormed) {r : Rule} (hr : r ∈ g.allRules) {x : Symbol}
    (hx : x ∈ r.matched) (hblank : g.blank ∈ g.firstFollow.firstOf x) :
    ∃ n, x = .nonterminal n ∧ g.Begins n g.blank := by
  cases x with
  | nonterminal n => exact ⟨n, rfl, (blank_mem_first_iff hg).1 hblank⟩
  | terminal u =>
      obtain rfl := OrderedSet.mem_single.1 hblank
      exact absurd rfl (hg.declares_of_mem_matched hr hx).2

/-! ## What loose derivations find is in FIRST -/

theorem Closed.mem_ofBody_of_loosens (hs : s.Closed g) (hg : g.WellFormed)
    (h : g.Loosens symbols symbols') {t : Terminal} {beyond : OrderedSet Terminal}
    (ht : t ∈ s.ofBody g.blank beyond symbols') : t ∈ s.ofBody g.blank beyond symbols := by
  cases h with
  | unfold h => exact hs.mem_ofBody_of_unfolds hg h ht
  | drop before behind hblank =>
      exact mem_ofBody_append_of_imp (mem_ofBody_of_rest (hs.mem_first_of_begins hblank)) ht

/-- A form lends whatever the forms that it yields loosely lend. -/
theorem Closed.mem_ofBody_of_yieldsLoosely (hs : s.Closed g) (hg : g.WellFormed)
    (h : g.YieldsLoosely symbols symbols') {t : Terminal} {beyond : OrderedSet Terminal}
    (ht : t ∈ s.ofBody g.blank beyond symbols') : t ∈ s.ofBody g.blank beyond symbols := by
  induction h using Relation.ReflTransGen.head_induction_on with
  | refl => exact ht
  | head hstep _ ih => exact hs.mem_ofBody_of_loosens hg hstep ih

/-- FIRST of a nonterminal has all of FIRST of a symbol at the front of what it yields loosely. -/
theorem Closed.mem_first_of_front (hs : s.Closed g) (hg : g.WellFormed) {x : Symbol}
    {rest : List Symbol} (h : g.YieldsLoosely [.nonterminal n] (x :: rest)) {t : Terminal}
    (ht : t ∈ s.firstOf x) : t ∈ s.first.get n := by
  have hlent := hs.mem_ofBody_of_yieldsLoosely hg h (mem_ofBody_cons ht : t ∈ s.ofBody _ ∅ _)
  rcases mem_ofBody.1 hlent with ⟨i, y, hy, -, ht⟩ | ⟨-, ht⟩
  · obtain rfl : y = .nonterminal n := by simpa using List.mem_of_getElem? hy
    exact ht
  · exact absurd ht (OrderedSet.not_mem_empty t)

/-- If a form may be dropped as a whole, then all of its symbols have the blank. -/
theorem Closed.blank_mem_of_yieldsLoosely_nil (hs : s.Closed g) (hg : g.WellFormed)
    (h : g.YieldsLoosely symbols []) : ∀ x ∈ symbols, g.blank ∈ s.firstOf x := by
  induction h using Relation.ReflTransGen.head_induction_on with
  | refl => intro x hx; contradiction
  | head hstep _ ih =>
      cases hstep with
      | unfold hstep => exact hs.blank_mem_of_unfolds hg hstep ih
      | drop before behind hblank =>
          rw [List.forall_mem_append] at ih
          rw [List.forall_mem_append, List.forall_mem_cons]
          exact ⟨ih.1, hs.mem_first_of_begins hblank, ih.2⟩

/-! ## FIRST holds only what loose derivations find -/

/-- A terminal is found from a nonterminal: at the front of what the nonterminal yields loosely
there is the terminal, or there is a nonterminal that has the terminal in FOLLOW and a production
that may be dropped. -/
def FoundLoosely (g : Grammar) (n : Nonterminal) (t : Terminal) : Prop :=
  (∃ rest, g.YieldsLoosely [.nonterminal n] (.terminal t :: rest)) ∨
    ∃ m rest, g.YieldsLoosely [.nonterminal n] (.nonterminal m :: rest) ∧
      (∃ r ∈ g.productionsOf m, g.YieldsLoosely r.matched []) ∧
      t ∈ g.firstFollow.followOf (.nonterminal m)

/-- What is found from the nonterminal at the front of a form is found from where the form comes. -/
theorem FoundLoosely.of_front {m : Nonterminal} {rest : List Symbol}
    (hfront : g.YieldsLoosely [.nonterminal n] (.nonterminal m :: rest)) {t : Terminal}
    (h : FoundLoosely g m t) : FoundLoosely g n t := by
  have extend : ∀ x behind, g.YieldsLoosely [.nonterminal m] (x :: behind) →
      g.YieldsLoosely [.nonterminal n] (x :: (behind ++ rest)) :=
    fun x behind hx => hfront.trans (hx.append rest)
  rcases h with ⟨behind, hderived⟩ | ⟨k, behind, hk, hdropped, ht⟩
  · exact .inl ⟨_, extend _ behind hderived⟩
  · exact .inr ⟨k, _, extend _ behind hk, hdropped, ht⟩

/-- The part of FIRST that loose derivations find, together with the blank. -/
def foundFamily (g : Grammar) : TerminalFamily :=
  fun n => {t | t ∈ g.firstFollow.first.get n ∧ (t ≠ g.blank → FoundLoosely g n t)}

theorem mem_firstOf_of_found {x : Symbol} {t : Terminal} (ht : t ∈ (foundFamily g).of x) :
    t ∈ g.firstFollow.firstOf x := by
  cases x with
  | terminal u => exact OrderedSet.mem_single.2 ht
  | nonterminal n => exact ht.1

/-- Up to a place in a body, behind symbols with the blank, all may be dropped. -/
theorem yieldsLoosely_drop (hg : g.WellFormed) {r : Rule} (hr : r ∈ g.allRules) (i : Nat)
    (hbefore : ∀ x ∈ r.matched.take i, g.blank ∈ g.firstFollow.firstOf x) :
    g.YieldsLoosely [.nonterminal r.head] (r.matched.drop i) := by
  have hdropped : g.YieldsLoosely (r.matched.take i ++ r.matched.drop i) (r.matched.drop i) := by
    apply Grammar.yieldsLoosely_of_droppable
    intro x hx
    exact exists_begins_blank hg hr (List.mem_of_mem_take hx) (hbefore x hx)
  rw [List.take_append_drop] at hdropped
  exact (Grammar.yieldsLoosely_of_rule hr).trans hdropped

theorem solves_foundLoosely (hg : g.WellFormed) :
    Solves g (foundFamily g) g.firstFollow.followFamily := by
  have hs := hg.closed_firstFollow
  refine ⟨?symbol, ?beyond, ?next, ?last⟩
  case symbol =>
    intro r hr i y hy hbefore t ht
    have hblanks := fun x hx => mem_firstOf_of_found (hbefore x hx)
    refine ⟨hs.first r hr t (mem_ofBody.2 (.inl ⟨i, y, hy, hblanks, mem_firstOf_of_found ht⟩)), ?_⟩
    intro hne
    -- A blank body has only the blank to lend.
    have hbody : r.matched = r.body := by
      unfold Rule.matched
      split
      · rename_i hepsilon
        obtain rfl : y = .terminal g.blank := by
          have hmem := List.mem_of_getElem? hy
          rwa [(hg.isEpsilon_iff_of_mem hr).1 hepsilon, List.mem_singleton] at hmem
        exact absurd ht hne
      · rfl
    have hfront : g.YieldsLoosely [.nonterminal r.head] (y :: r.matched.drop (i + 1)) := by
      rw [← hbody] at hy hblanks
      obtain ⟨hi, rfl⟩ := List.getElem?_eq_some_iff.1 hy
      rw [List.getElem_cons_drop]
      exact yieldsLoosely_drop hg hr i hblanks
    cases y with
    | terminal u =>
        obtain rfl : t = u := ht
        exact .inl ⟨_, hfront⟩
    | nonterminal m => exact (ht.2 hne).of_front hfront
  case beyond =>
    intro r hr hall t ht
    have hblanks := fun x hx => mem_firstOf_of_found (hall x hx)
    refine ⟨hs.first r hr t (mem_ofBody.2 (.inr ⟨hblanks, ht⟩)), fun _ => ?_⟩
    refine .inr ⟨r.head, [], .refl, ⟨r, g.mem_productionsOf.2 ⟨hr, rfl⟩, ?_⟩, ht⟩
    have hmatched : ∀ x ∈ r.matched, ∃ n, x = .nonterminal n ∧ g.Begins n g.blank := by
      intro x hx
      refine exists_begins_blank hg hr hx (hblanks x ?_)
      rwa [← Rule.matched_eq_body (List.ne_nil_of_mem hx)]
    simpa using Grammar.yieldsLoosely_of_droppable hmatched []
  case next =>
    intro r hr i n x hn hx t ht
    exact hs.solves.next r hr i n x hn hx (mem_of_firstFamily.2 (mem_firstOf_of_found ht))
  case last => exact hs.solves.last

/-- A terminal other than the blank is in FIRST of a nonterminal if and only if it is found there by
a derivation that may also drop the nonterminals with the blank: at the front of a form, or in
FOLLOW of a nonterminal at the front of a form, one of whose productions can be dropped as a whole.
The nonterminals with the blank are those that have it at a left corner, and where all of these
derive the empty form, the loose derivations are those of the grammar. -/
theorem mem_firstOf_iff_foundLoosely {declarations : List Declaration}
    (hg : Grammar.define declarations = .ok g) (n : Nonterminal) {t : Terminal}
    (ht : t ≠ g.blank) :
    (t ∈ g.firstFollow.firstOf (.nonterminal n) ↔ FoundLoosely g n t) ∧
    (∀ m, g.firstFollow.hasBlank g (.nonterminal m) = true ↔ g.Begins m g.blank) ∧
    ((∀ m, g.Begins m g.blank → g.Yields [.nonterminal m] []) →
      ∀ symbols symbols', g.YieldsLoosely symbols symbols' → g.Yields symbols symbols') := by
  have hg := Grammar.wellFormed_of_define hg
  have hs := hg.closed_firstFollow
  refine ⟨⟨fun h => ((solves_foundLoosely hg).within.first n t h).2 ht, ?_⟩,
    fun m => hasBlank_iff_begins hg m, fun hexact _ _ h => h.yields hexact⟩
  rintro (⟨rest, h⟩ | ⟨m, rest, h, ⟨r, hr, hdropped⟩, hfollow⟩)
  · exact hs.mem_first_of_front hg h (OrderedSet.mem_single.2 rfl)
  · obtain ⟨hmem, rfl⟩ := g.mem_productionsOf.1 hr
    have hblanks := hs.blank_mem_of_yieldsLoosely_nil hg hdropped
    exact hs.mem_first_of_front hg h (hs.mem_head_of_mem_follow hg hmem hblanks hfollow)

/-- `S := x N c | x B z`, `N := B | B a`, `B := Blank`. -/
def foreignFollow : List Declaration :=
  [.sentinel .blank "Blank", .sentinel .endMarker "$", .terminal "x", .terminal "c",
    .terminal "z", .terminal "a", .nonterminal "S", .nonterminal "N", .nonterminal "B", .start ⟨1⟩,
    .rule (.nonterminal ⟨1⟩) [.terminal ⟨2⟩, .nonterminal ⟨2⟩, .terminal ⟨3⟩],
    .rule (.nonterminal ⟨1⟩) [.terminal ⟨2⟩, .nonterminal ⟨3⟩, .terminal ⟨4⟩],
    .rule (.nonterminal ⟨2⟩) [.nonterminal ⟨3⟩],
    .rule (.nonterminal ⟨2⟩) [.nonterminal ⟨3⟩, .terminal ⟨5⟩],
    .rule (.nonterminal ⟨3⟩) [.terminal ⟨0⟩]]

/-- Here `N` and `B`, the nonterminals with the blank, do vanish, and `S` does not have it.  The `z`
in FIRST of `N` is from FOLLOW of the `B` at the front of what `N` yields. -/
theorem mem_firstOf_iff_foundLoosely_foreignFollow : ∃ g, Grammar.define foreignFollow = .ok g ∧
    (⟨4⟩ : Terminal) ≠ g.blank ∧
    (⟨4⟩ ∈ g.firstFollow.firstOf (.nonterminal ⟨2⟩) ↔ FoundLoosely g ⟨2⟩ ⟨4⟩) ∧
    ⟨4⟩ ∈ g.firstFollow.firstOf (.nonterminal ⟨2⟩) ∧
    (∀ m, g.firstFollow.hasBlank g (.nonterminal m) = true ↔ g.Begins m g.blank) ∧
    g.firstFollow.hasBlank g (.nonterminal ⟨2⟩) = true ∧
    g.firstFollow.hasBlank g (.nonterminal ⟨1⟩) = false ∧
    (∀ m, g.Begins m g.blank → g.Yields [.nonterminal m] []) ∧
    ∀ symbols symbols', g.YieldsLoosely symbols symbols' → g.Yields symbols symbols' := by
  have hpasses : Grammar.passes foreignFollow (fun g => g.blank = ⟨0⟩ ∧
      (⟨4⟩ : Terminal) ∈ g.firstFollow.firstOf (.nonterminal ⟨2⟩) ∧
      (g.firstFollow.hasBlank g (.nonterminal ⟨2⟩) = true ∧
        g.firstFollow.hasBlank g (.nonterminal ⟨1⟩) = false) ∧
      (⟨4, ⟨2⟩, [.nonterminal ⟨3⟩], false⟩ : Rule) ∈ g.allRules ∧
      (⟨6, ⟨3⟩, [.terminal ⟨0⟩], true⟩ : Rule) ∈ g.allRules ∧
      ∀ r ∈ g.allRules, r.body.head? ∈ [some (.terminal ⟨0⟩), some (.nonterminal ⟨2⟩),
        some (.nonterminal ⟨3⟩)] → r.head = ⟨2⟩ ∨ r.head = ⟨3⟩) = true := by decide +kernel
  obtain ⟨g, hg, hcheck⟩ := Grammar.exists_of_passes hpasses
  obtain ⟨hblank, hmem, hhas, hunit, hvoid, hheads⟩ := of_decide_eq_true hcheck
  have hne : (⟨4⟩ : Terminal) ≠ g.blank := by simp [hblank]
  have hb : g.Yields [.nonterminal ⟨3⟩] [] := .single (.rule [] [] hvoid)
  have hn : g.Yields [.nonterminal ⟨2⟩] [] := .head (.rule [] [] hunit) hb
  -- The bodies of `S` begin with `x`, so that the blank gets no further than to `N`.
  have hcorner : ∀ m t, g.Begins m t → t = ⟨0⟩ → m = ⟨2⟩ ∨ m = ⟨3⟩ := by
    intro m t h ht
    induction h with
    | terminal hr hbody => exact hheads _ hr (by simp [hbody, ht])
    | nonterminal hr hbody _ ih =>
        rcases ih ht with rfl | rfl <;> exact hheads _ hr (by simp [hbody])
  have hexact : ∀ m, g.Begins m g.blank → g.Yields [.nonterminal m] [] := by
    intro m h
    rcases hcorner m _ h hblank with rfl | rfl
    · exact hn
    · exact hb
  obtain ⟨hiff, hcorners, hyields⟩ := mem_firstOf_iff_foundLoosely hg ⟨2⟩ hne
  exact ⟨g, hg, hne, hiff, hmem, hcorners, hhas.1, hhas.2, hexact, hyields hexact⟩

/-! ## Terminals that no derivation finds -/

/-- `S := N | B z`, `N := A C w`, `A := B d`, `C := B c`, `B := Blank`. -/
def strayTerminals : List Declaration :=
  [.sentinel .blank "Blank", .sentinel .endMarker "$", .terminal "w", .terminal "z",
    .terminal "d", .terminal "c", .nonterminal "S", .nonterminal "N", .nonterminal "A",
    .nonterminal "C", .nonterminal "B", .start ⟨1⟩,
    .rule (.nonterminal ⟨1⟩) [.nonterminal ⟨2⟩],
    .rule (.nonterminal ⟨1⟩) [.nonterminal ⟨5⟩, .terminal ⟨3⟩],
    .rule (.nonterminal ⟨2⟩) [.nonterminal ⟨3⟩, .nonterminal ⟨4⟩, .terminal ⟨2⟩],
    .rule (.nonterminal ⟨3⟩) [.nonterminal ⟨5⟩, .terminal ⟨4⟩],
    .rule (.nonterminal ⟨4⟩) [.nonterminal ⟨5⟩, .terminal ⟨5⟩],
    .rule (.nonterminal ⟨5⟩) [.terminal ⟨0⟩]]

/-- The forms that `N` of `strayTerminals` yields: `N` itself, and those that begin with `A`, with
`B d` or with `d`. -/
inductive StrayForm : List Symbol → Prop
  | whole : StrayForm [.nonterminal ⟨2⟩]
  | left (rest : List Symbol) : StrayForm (.nonterminal ⟨3⟩ :: rest)
  | vanishing (rest : List Symbol) : StrayForm (.nonterminal ⟨5⟩ :: .terminal ⟨4⟩ :: rest)
  | found (rest : List Symbol) : StrayForm (.terminal ⟨4⟩ :: rest)

theorem StrayForm.unfolds
    (hrules : ∀ r ∈ g.allRules,
      (r.head = ⟨2⟩ → r.matched = [.nonterminal ⟨3⟩, .nonterminal ⟨4⟩, .terminal ⟨2⟩]) ∧
      (r.head = ⟨3⟩ → r.matched = [.nonterminal ⟨5⟩, .terminal ⟨4⟩]) ∧
      (r.head = ⟨5⟩ → r.matched = []))
    (h : StrayForm symbols) (hstep : g.Unfolds symbols symbols') : StrayForm symbols' := by
  cases h with
  | whole =>
      rcases hstep.cons_cases with ⟨r, hr, hhead, rfl⟩ | ⟨rest', hrest, -⟩
      · rw [(hrules r hr).1 (Symbol.nonterminal.inj hhead).symm]
        exact .left _
      · exact absurd hrest Grammar.not_unfolds_nil
  | left rest =>
      rcases hstep.cons_cases with ⟨r, hr, hhead, rfl⟩ | ⟨rest', -, rfl⟩
      · rw [(hrules r hr).2.1 (Symbol.nonterminal.inj hhead).symm]
        exact .vanishing rest
      · exact .left rest'
  | vanishing rest =>
      rcases hstep.cons_cases with ⟨r, hr, hhead, rfl⟩ | ⟨rest', hrest, rfl⟩
      · rw [(hrules r hr).2.2 (Symbol.nonterminal.inj hhead).symm]
        exact .found rest
      · obtain ⟨_, _, hhead, -⟩ | ⟨behind, -, rfl⟩ := hrest.cons_cases
        · cases hhead
        · exact .vanishing behind
  | found rest =>
      obtain ⟨_, _, hhead, -⟩ | ⟨rest', -, rfl⟩ := hstep.cons_cases
      · cases hhead
      · exact .found rest'

/-- `N` yields no form that begins with `w` or `z`, nor does it yield the empty form, but both are
in FIRST of `N`: `w` for the blanks of `A` and `C`, which do not vanish, and `z` from FOLLOW of
`B`. -/
theorem not_first_sound_strayTerminals : ∃ g, Grammar.define strayTerminals = .ok g ∧
    ∀ t ∈ [(⟨2⟩ : Terminal), ⟨3⟩], t ≠ g.blank ∧ t ∈ g.firstFollow.firstOf (.nonterminal ⟨2⟩) ∧
      ¬ ((∃ rest, g.Yields [.nonterminal ⟨2⟩] (.terminal t :: rest)) ∨
        g.Yields [.nonterminal ⟨2⟩] [] ∧ t ∈ g.firstFollow.followOf (.nonterminal ⟨2⟩)) := by
  have hpasses : Grammar.passes strayTerminals (fun g =>
      (∀ r ∈ g.allRules,
        (r.head = ⟨2⟩ → r.matched = [.nonterminal ⟨3⟩, .nonterminal ⟨4⟩, .terminal ⟨2⟩]) ∧
        (r.head = ⟨3⟩ → r.matched = [.nonterminal ⟨5⟩, .terminal ⟨4⟩]) ∧
        (r.head = ⟨5⟩ → r.matched = [])) ∧
      ∀ t ∈ [(⟨2⟩ : Terminal), ⟨3⟩],
        t ≠ g.blank ∧ t ∈ g.firstFollow.firstOf (.nonterminal ⟨2⟩)) = true := by decide +kernel
  obtain ⟨g, hg, hcheck⟩ := Grammar.exists_of_passes hpasses
  obtain ⟨hrules, hstray⟩ := of_decide_eq_true hcheck
  have hforms : ∀ {form : List Symbol}, g.Yields [.nonterminal ⟨2⟩] form → StrayForm form := by
    intro form h
    induction h with
    | refl => exact .whole
    | tail _ hstep ih => exact ih.unfolds hrules hstep
  refine ⟨g, hg, fun t ht => ⟨(hstray t ht).1, (hstray t ht).2, ?_⟩⟩
  rintro (⟨rest, h⟩ | ⟨h, -⟩)
  · cases hforms h
    simp at ht
  · cases hforms h

end FirstFollow

end ShiftReduce
