import Mathlib.Tactic.Common
import ShiftReduce.Grammar.Definition

/-!
# What every defined grammar satisfies

Nothing in the type of a grammar keeps its rules from using symbols that no vocabulary
declares, or from bearing the same number.  A definition does: `Draft.WellFormed` holds
before the first declaration and is kept by every one of them, and what is left of it
when the draft is finished is `Grammar.WellFormed`.

## Strategy

The declarations change a draft in three ways only: they extend the vocabulary, they set
one of the three marked symbols, or they add a rule.  What is declared stays declared, so
the first way concerns nothing but the new symbol.  A blank that is declared late is the
one delicate case: it is a new terminal, hence in the body of no rule so far.
-/

namespace ShiftReduce

/-! ## Vocabularies that grow -/

namespace Vocabulary

/-- One vocabulary declares all that another one does. -/
structure Extends (v v' : Vocabulary) : Prop where
  terminals_le : v.terminals.length ≤ v'.terminals.length
  nonterminals_le : v.nonterminals.length ≤ v'.nonterminals.length

theorem Extends.declares {v v' : Vocabulary} (h : v.Extends v') {x : Symbol}
    (hx : v.Declares x) : v'.Declares x := by
  cases x with
  | terminal t => exact Nat.lt_of_lt_of_le hx h.terminals_le
  | nonterminal n => exact ⟨hx.1, Nat.lt_of_lt_of_le hx.2 h.nonterminals_le⟩

theorem not_declares_accept (v : Vocabulary) : ¬ v.Declares (.nonterminal .accept) :=
  fun h => h.1 rfl

end Vocabulary

/-! ## Drafts -/

namespace Draft

/-- The invariant of a definition. -/
structure WellFormed (d : Draft) : Prop where
  accept_declared : 0 < d.vocabulary.nonterminals.length
  number_eq : ∀ i r, d.rules[i]? = some r → r.number = firstRuleNumber + i
  head_declared : ∀ r ∈ d.rules, d.vocabulary.Declares (.nonterminal r.head)
  body_declared : ∀ r ∈ d.rules, ∀ x ∈ r.body, d.vocabulary.Declares x
  body_ne_nil : ∀ r ∈ d.rules, r.body ≠ []
  isEpsilon_iff : ∀ r ∈ d.rules,
    r.isEpsilon = true ↔ ∃ b, d.blank = some b ∧ r.body = [.terminal b]
  blank_alone : ∀ r ∈ d.rules, ∀ b, d.blank = some b → .terminal b ∈ r.body →
    r.body = [.terminal b]
  distinct : d.rules.Pairwise fun r r' => ¬ (r.head = r'.head ∧ r.body = r'.body)
  start_declared : ∀ n, d.startSymbol = some n → d.vocabulary.Declares (.nonterminal n)
  sentinel_declared : ∀ part t, d.sentinel? part = some t →
    d.vocabulary.Declares (.terminal t)
  sentinels_ne : ∀ e b, d.endMarker = some e → d.blank = some b → e ≠ b

theorem wellFormed_empty : empty.WellFormed where
  accept_declared := Nat.zero_lt_one
  number_eq := by intro i r h; simp [empty] at h
  head_declared := by intro r h; simp [empty] at h
  body_declared := by intro r h; simp [empty] at h
  body_ne_nil := by intro r h; simp [empty] at h
  isEpsilon_iff := by intro r h; simp [empty] at h
  blank_alone := by intro r h; simp [empty] at h
  distinct := List.Pairwise.nil
  start_declared := by intro n h; simp [empty] at h
  sentinel_declared := by intro part t h; cases part <;> simp [empty, sentinel?] at h
  sentinels_ne := by intro e b h; simp [empty] at h

/-- A larger vocabulary is as good. -/
theorem WellFormed.extend {d : Draft} (hd : d.WellFormed) {v : Vocabulary}
    (h : d.vocabulary.Extends v) : { d with vocabulary := v }.WellFormed where
  accept_declared := Nat.lt_of_lt_of_le hd.accept_declared h.nonterminals_le
  number_eq := hd.number_eq
  head_declared := fun r hr => h.declares (hd.head_declared r hr)
  body_declared := fun r hr x hx => h.declares (hd.body_declared r hr x hx)
  body_ne_nil := hd.body_ne_nil
  isEpsilon_iff := hd.isEpsilon_iff
  blank_alone := hd.blank_alone
  distinct := hd.distinct
  start_declared := fun n hn => h.declares (hd.start_declared n hn)
  sentinel_declared := fun part t ht => h.declares (hd.sentinel_declared part t ht)
  sentinels_ne := hd.sentinels_ne

/-! ### Symbols -/

theorem addTerminal_eq_ok {d d' : Draft} {entry : TerminalEntry} {t : Terminal}
    (h : d.addTerminal entry = .ok (t, d')) :
    t = ⟨d.vocabulary.terminals.length⟩ ∧
      d' = { d with vocabulary.terminals := d.vocabulary.terminals ++ [entry] } := by
  unfold addTerminal at h
  split at h
  · contradiction
  · split at h
    · contradiction
    · split at h
      · contradiction
      · injection h with h
        injection h with ht hd
        exact ⟨ht.symm, hd.symm⟩

theorem addNonterminal_eq_ok {d d' : Draft} {name : String} {n : Nonterminal}
    (h : d.addNonterminal name = .ok (n, d')) :
    n = ⟨d.vocabulary.nonterminals.length⟩ ∧
      d' = { d with vocabulary.nonterminals := d.vocabulary.nonterminals ++ [name] } := by
  unfold addNonterminal at h
  split at h
  · contradiction
  · split at h
    · contradiction
    · split at h
      · contradiction
      · injection h with h
        injection h with hn hd
        exact ⟨hn.symm, hd.symm⟩

theorem WellFormed.addTerminal {d d' : Draft} (hd : d.WellFormed) {entry : TerminalEntry}
    {t : Terminal} (h : d.addTerminal entry = .ok (t, d')) : d'.WellFormed := by
  obtain ⟨-, rfl⟩ := addTerminal_eq_ok h
  exact hd.extend ⟨by simp, Nat.le_refl _⟩

theorem WellFormed.addNonterminal {d d' : Draft} (hd : d.WellFormed) {name : String}
    {n : Nonterminal} (h : d.addNonterminal name = .ok (n, d')) : d'.WellFormed := by
  obtain ⟨-, rfl⟩ := addNonterminal_eq_ok h
  exact hd.extend ⟨Nat.le_refl _, by simp⟩

/-- A terminal that is about to be declared is in no body yet. -/
private theorem WellFormed.fresh_not_mem_body {d : Draft} (hd : d.WellFormed) {r : Rule}
    (hr : r ∈ d.rules) : Symbol.terminal ⟨d.vocabulary.terminals.length⟩ ∉ r.body := by
  intro h
  have : d.vocabulary.terminals.length < d.vocabulary.terminals.length :=
    hd.body_declared r hr _ h
  omega

/-- No sentinel is a terminal that is about to be declared. -/
private theorem WellFormed.sentinel_ne_fresh {d : Draft} (hd : d.WellFormed) (part : Sentinel)
    {t : Terminal} (h : d.sentinel? part = some t) : t ≠ ⟨d.vocabulary.terminals.length⟩ := by
  rintro rfl
  have : d.vocabulary.terminals.length < d.vocabulary.terminals.length :=
    hd.sentinel_declared part _ h
  omega

theorem addSentinel_eq_ok {d d' : Draft} {part : Sentinel} {name : String} {t : Terminal}
    (h : d.addSentinel part name = .ok (t, d')) :
    d.sentinel? part = none ∧ ∃ d₁, d.addTerminal ⟨name, some part⟩ = .ok (t, d₁) ∧
      d' = d₁.setSentinel t part := by
  unfold addSentinel at h
  split at h
  · contradiction
  · rename_i hnone
    cases hadd : d.addTerminal ⟨name, some part⟩ with
    | error e => simp [hadd, Except.map] at h
    | ok added =>
        simp only [hadd, Except.map, Except.ok.injEq, Prod.mk.injEq] at h
        obtain ⟨rfl, rfl⟩ := h
        exact ⟨by simpa using hnone, added.2, rfl, rfl⟩

/-- A declared terminal may become the end marker, if it is not the blank. -/
theorem WellFormed.setEndMarker {d : Draft} (hd : d.WellFormed) {t : Terminal}
    (ht : d.vocabulary.Declares (.terminal t)) (hne : ∀ b, d.blank = some b → t ≠ b) :
    (d.setSentinel t .endMarker).WellFormed := by
  refine { hd with sentinel_declared := ?_, sentinels_ne := ?_ }
  · intro part u hu
    cases part with
    | endMarker =>
        obtain rfl : t = u := Option.some.inj hu
        exact ht
    | blank => exact hd.sentinel_declared .blank u hu
  · intro e b he hb
    obtain rfl : t = e := Option.some.inj he
    exact hne b hb

/-- A declared terminal may become the blank, if there is none and it is in no body.  So the
rules that are there need not be looked at again. -/
theorem WellFormed.setBlank {d : Draft} (hd : d.WellFormed) {t : Terminal}
    (hnone : d.blank = none) (ht : d.vocabulary.Declares (.terminal t))
    (hfresh : ∀ r ∈ d.rules, Symbol.terminal t ∉ r.body)
    (hne : ∀ e, d.endMarker = some e → e ≠ t) : (d.setSentinel t .blank).WellFormed := by
  refine { hd with
    isEpsilon_iff := ?_, blank_alone := ?_, sentinel_declared := ?_, sentinels_ne := ?_ }
  · intro r hr
    have hepsilon := hd.isEpsilon_iff r hr
    simp only [hnone, reduceCtorEq, false_and, exists_false, iff_false] at hepsilon
    constructor
    · intro h
      exact absurd h hepsilon
    · rintro ⟨b, hb, hbody⟩
      obtain rfl : t = b := Option.some.inj hb
      exact absurd (hbody ▸ List.mem_singleton.2 rfl) (hfresh r hr)
  · intro r hr b hb hmem
    obtain rfl : t = b := Option.some.inj hb
    exact absurd hmem (hfresh r hr)
  · intro part u hu
    cases part with
    | endMarker => exact hd.sentinel_declared .endMarker u hu
    | blank =>
        obtain rfl : t = u := Option.some.inj hu
        exact ht
  · intro e b he hb
    obtain rfl : t = b := Option.some.inj hb
    exact hne e he

theorem WellFormed.addSentinel {d d' : Draft} (hd : d.WellFormed) {part : Sentinel}
    {name : String} {t : Terminal} (h : d.addSentinel part name = .ok (t, d')) :
    d'.WellFormed := by
  obtain ⟨hnone, d₁, hadd, rfl⟩ := addSentinel_eq_ok h
  have hd₁ := hd.addTerminal hadd
  obtain ⟨rfl, rfl⟩ := addTerminal_eq_ok hadd
  have hdeclared : d.vocabulary.terminals.length < (d.vocabulary.terminals ++
      [(⟨name, some part⟩ : TerminalEntry)]).length := by simp
  cases part with
  | endMarker =>
      apply hd₁.setEndMarker hdeclared
      intro b hb
      exact (hd.sentinel_ne_fresh .blank hb).symm
  | blank =>
      apply hd₁.setBlank hnone hdeclared
      · intro r hr
        exact hd.fresh_not_mem_body hr
      · intro e he
        exact hd.sentinel_ne_fresh .endMarker he

/-! ### Rules -/

theorem dropBlanks_of_forall {b : Terminal} {body : List Symbol}
    (h : ∀ x ∈ body, x = .terminal b) : dropBlanks b body = [.terminal b] := by
  have hkept : body.filter (· ≠ .terminal b) = [] := by simpa using h
  rw [dropBlanks, hkept]
  rfl

theorem dropBlanks_of_not_forall {b : Terminal} {body : List Symbol}
    (h : ¬ ∀ x ∈ body, x = .terminal b) :
    dropBlanks b body = body.filter (· ≠ .terminal b) := by
  have hkept : (body.filter (· ≠ .terminal b)).isEmpty = false := by simpa using h
  simp only [dropBlanks, hkept]
  rfl

theorem dropBlanks_cases (b : Terminal) (body : List Symbol) :
    dropBlanks b body = [.terminal b] ∨
      (dropBlanks b body ≠ [] ∧ Symbol.terminal b ∉ dropBlanks b body ∧
        ∀ x ∈ dropBlanks b body, x ∈ body) := by
  by_cases hall : ∀ x ∈ body, x = .terminal b
  · exact .inl (dropBlanks_of_forall hall)
  · rw [dropBlanks_of_not_forall hall]
    exact .inr ⟨by simpa using hall, by simp, fun x hx => (List.mem_filter.1 hx).1⟩

theorem nextRule_number (d : Draft) (head : Nonterminal) (body : List Symbol) :
    (d.nextRule head body).number = firstRuleNumber + d.rules.length := by
  unfold nextRule
  cases d.blank <;> rfl

theorem nextRule_head (d : Draft) (head : Nonterminal) (body : List Symbol) :
    (d.nextRule head body).head = head := by
  unfold nextRule
  cases d.blank <;> rfl

theorem addRule_eq_ok {d d' : Draft} {head : Nonterminal} {body : List Symbol} {number : Nat}
    (h : d.addRule head body = .ok (number, d')) :
    body ≠ [] ∧ (∀ x ∈ body, d.vocabulary.Declares x) ∧
      (∀ r ∈ d.rules, ¬ (r.head = head ∧ r.body = (d.nextRule head body).body)) ∧
      number = (d.nextRule head body).number ∧
      d' = { d with rules := d.rules ++ [d.nextRule head body] } := by
  unfold addRule at h
  dsimp only at h
  split at h
  · contradiction
  · rename_i hne
    split at h
    · contradiction
    · rename_i hbody
      split at h
      · contradiction
      · rename_i hnew
        split at h
        · contradiction
        · injection h with h
          injection h with hn hd
          refine ⟨by simpa [List.isEmpty_iff] using hne, by simpa using hbody, ?_, hn.symm,
            hd.symm⟩
          intro r hr
          simpa using fun hh hb => hnew (List.any_eq_true.2
            ⟨r, hr, by simpa [nextRule_head] using And.intro hh hb⟩)

/-- The rule that a draft adds next has a body and a mark as they should be. -/
theorem WellFormed.nextRule {d : Draft} (hd : d.WellFormed) (head : Nonterminal)
    {body : List Symbol} (hne : body ≠ []) (hbody : ∀ x ∈ body, d.vocabulary.Declares x) :
    (d.nextRule head body).body ≠ [] ∧
      (∀ x ∈ (d.nextRule head body).body, d.vocabulary.Declares x) ∧
      ((d.nextRule head body).isEpsilon = true ↔
        ∃ b, d.blank = some b ∧ (d.nextRule head body).body = [.terminal b]) ∧
      ∀ b, d.blank = some b → .terminal b ∈ (d.nextRule head body).body →
        (d.nextRule head body).body = [.terminal b] := by
  cases hb : d.blank with
  | none => simp [Draft.nextRule, hb, hne]; exact hbody
  | some b =>
      simp only [Draft.nextRule, hb, decide_eq_true_eq, Option.some.injEq, exists_eq_left',
        true_and]
      rcases dropBlanks_cases b body with h | ⟨hne', hmem, hsub⟩
      · refine ⟨by simp [h], ?_, fun _ hb' _ => hb' ▸ h⟩
        intro x hx
        obtain rfl : x = .terminal b := by simpa [h] using hx
        exact hd.sentinel_declared .blank b hb
      · refine ⟨hne', fun x hx => hbody x (hsub x hx), ?_⟩
        rintro _ rfl h
        exact absurd h hmem

theorem WellFormed.addRule {d d' : Draft} (hd : d.WellFormed) {head : Nonterminal}
    {body : List Symbol} {number : Nat} (hhead : d.vocabulary.Declares (.nonterminal head))
    (h : d.addRule head body = .ok (number, d')) : d'.WellFormed := by
  obtain ⟨hne, hbody, hnew, -, rfl⟩ := addRule_eq_ok h
  obtain ⟨hne', hbody', hepsilon, hblank⟩ := hd.nextRule head hne hbody
  have hmem : ∀ r, r ∈ d.rules ++ [d.nextRule head body] →
      r ∈ d.rules ∨ r = d.nextRule head body := by
    intro r hr
    simpa using hr
  refine { hd with
    number_eq := ?_, head_declared := ?_, body_declared := ?_, body_ne_nil := ?_,
    isEpsilon_iff := ?_, blank_alone := ?_, distinct := ?_ }
  · intro i r hi
    rcases Nat.lt_or_ge i d.rules.length with hlt | hge
    · exact hd.number_eq i r (by simpa [List.getElem?_append_left hlt] using hi)
    · rw [List.getElem?_append_right hge] at hi
      obtain ⟨hlt, rfl⟩ := List.getElem?_eq_some_iff.1 hi
      have hi0 : i - d.rules.length = 0 := by simpa using hlt
      simp only [hi0, List.getElem_cons_zero, nextRule_number]
      omega
  · intro r hr
    rcases hmem r hr with hr | rfl
    · exact hd.head_declared r hr
    · rw [nextRule_head]
      exact hhead
  · intro r hr
    rcases hmem r hr with hr | rfl
    exacts [hd.body_declared r hr, hbody']
  · intro r hr
    rcases hmem r hr with hr | rfl
    exacts [hd.body_ne_nil r hr, hne']
  · intro r hr
    rcases hmem r hr with hr | rfl
    exacts [hd.isEpsilon_iff r hr, hepsilon]
  · intro r hr
    rcases hmem r hr with hr | rfl
    exacts [hd.blank_alone r hr, hblank]
  · refine List.pairwise_append.2 ⟨hd.distinct, by simp, ?_⟩
    intro r hr r' hr'
    obtain rfl := List.mem_singleton.1 hr'
    rw [nextRule_head]
    exact hnew r hr

/-! ### One declaration after another -/

theorem map_eq_ok {ε α β : Type} {f : α → β} {x : Except ε α} {b : β}
    (h : x.map f = .ok b) : ∃ a, x = .ok a ∧ f a = b := by
  cases x with
  | error e => simp [Except.map] at h
  | ok a => exact ⟨a, rfl, by simpa [Except.map] using h⟩

/-- What one declaration keeps. -/
theorem WellFormed.declare {d d' : Draft} (hd : d.WellFormed) {declaration : Declaration}
    {declared : Declared} (h : d.declare declaration = .ok (declared, d')) : d'.WellFormed := by
  cases declaration with
  | terminal name =>
      obtain ⟨⟨t, d₁⟩, hadd, he⟩ := map_eq_ok h
      cases he
      exact hd.addTerminal hadd
  | nonterminal name =>
      obtain ⟨⟨n, d₁⟩, hadd, he⟩ := map_eq_ok h
      cases he
      exact hd.addNonterminal hadd
  | sentinel part name =>
      obtain ⟨⟨t, d₁⟩, hadd, he⟩ := map_eq_ok h
      cases he
      exact hd.addSentinel hadd
  | start symbol =>
      simp only [Draft.declare] at h
      split at h
      · rename_i hdeclared
        cases h
        refine { hd with start_declared := ?_ }
        rintro _ ⟨⟩
        exact hdeclared
      · contradiction
  | rule head body =>
      cases head with
      | terminal t => contradiction
      | nonterminal head =>
          simp only [Draft.declare] at h
          split at h
          · rename_i hhead
            obtain ⟨⟨number, d₁⟩, hadd, he⟩ := map_eq_ok h
            cases he
            exact hd.addRule hhead hadd
          · contradiction

/-- What every declaration keeps, a list of declarations keeps. -/
theorem foldlM_declare {P : Draft → Prop}
    (hstep : ∀ {d d' : Draft} {declaration : Declaration} {declared : Declared}, P d →
      d.declare declaration = .ok (declared, d') → P d')
    {declarations : List Declaration} {d d' : Draft} (hd : P d)
    (h : declarations.foldlM (fun d declaration => (d.declare declaration).map (·.2)) d = .ok d') :
    P d' := by
  induction declarations generalizing d with
  | nil =>
      cases h
      exact hd
  | cons declaration declarations ih =>
      rw [List.foldlM_cons] at h
      cases hdeclare : d.declare declaration with
      | error e => rw [hdeclare] at h; contradiction
      | ok declared =>
          rw [hdeclare] at h
          exact ih (hstep hd hdeclare) h

end Draft

/-! ## Grammars -/

namespace Grammar

/-- What every grammar that has been defined satisfies. -/
structure WellFormed (g : Grammar) : Prop where
  accept_declared : 0 < g.vocabulary.nonterminals.length
  number_eq : ∀ i r, g.rules[i]? = some r → r.number = Draft.firstRuleNumber + i
  head_declared : ∀ r ∈ g.rules, g.vocabulary.Declares (.nonterminal r.head)
  body_declared : ∀ r ∈ g.rules, ∀ x ∈ r.body, g.vocabulary.Declares x
  body_ne_nil : ∀ r ∈ g.rules, r.body ≠ []
  isEpsilon_iff : ∀ r ∈ g.rules, r.isEpsilon = true ↔ r.body = [.terminal g.blank]
  blank_alone : ∀ r ∈ g.rules, .terminal g.blank ∈ r.body → r.body = [.terminal g.blank]
  distinct : g.rules.Pairwise fun r r' => ¬ (r.head = r'.head ∧ r.body = r'.body)
  start_declared : g.vocabulary.Declares (.nonterminal g.startSymbol)
  endMarker_declared : g.vocabulary.Declares (.terminal g.endMarker)
  blank_declared : g.vocabulary.Declares (.terminal g.blank)
  endMarker_ne_blank : g.endMarker ≠ g.blank

theorem wellFormed_of_finish {d : Draft} (hd : d.WellFormed) {g : Grammar}
    (h : d.finish = .ok g) : g.WellFormed := by
  unfold Draft.finish at h
  split at h
  · contradiction
  · contradiction
  · contradiction
  · rename_i start last blank hs he hb
    cases h
    exact {
      accept_declared := hd.accept_declared
      number_eq := hd.number_eq
      head_declared := hd.head_declared
      body_declared := hd.body_declared
      body_ne_nil := hd.body_ne_nil
      isEpsilon_iff := fun r hr => by simpa [hb] using hd.isEpsilon_iff r hr
      blank_alone := fun r hr => hd.blank_alone r hr blank hb
      distinct := hd.distinct
      start_declared := hd.start_declared start hs
      endMarker_declared := hd.sentinel_declared .endMarker last he
      blank_declared := hd.sentinel_declared .blank blank hb
      endMarker_ne_blank := hd.sentinels_ne last blank he hb }

/-- A definition that succeeds finishes a draft, and that has whatever the empty draft has and every
declaration keeps. -/
theorem exists_finish_of_define {P : Draft → Prop} (hempty : P Draft.empty)
    (hstep : ∀ {d d' : Draft} {declaration : Declaration} {declared : Declared}, P d →
      d.declare declaration = .ok (declared, d') → P d')
    {declarations : List Declaration} {g : Grammar} (h : define declarations = .ok g) :
    ∃ d : Draft, P d ∧ d.finish = .ok g := by
  unfold define at h
  cases hfold : declarations.foldlM
      (fun d declaration => (d.declare declaration).map (·.2)) Draft.empty with
  | error e => rw [hfold] at h; contradiction
  | ok d =>
      rw [hfold] at h
      exact ⟨d, Draft.foldlM_declare hstep hempty hfold, h⟩

/-- A definition that succeeds gives a well-formed grammar. -/
theorem wellFormed_of_define {declarations : List Declaration} {g : Grammar}
    (h : define declarations = .ok g) : g.WellFormed := by
  obtain ⟨d, hd, hfinish⟩ := exists_finish_of_define Draft.wellFormed_empty
    (fun hd hdeclare => hd.declare hdeclare) h
  exact wellFormed_of_finish hd hfinish

/-! ## One grammar -/

/-- Whether declarations give a grammar that passes a check. -/
def passes (declarations : List Declaration) (check : Grammar → Bool) : Bool :=
  match define declarations with
  | .error _ => false
  | .ok g => check g

theorem exists_of_passes {declarations : List Declaration} {check : Grammar → Bool}
    (h : passes declarations check = true) :
    ∃ g, define declarations = .ok g ∧ check g = true := by
  unfold passes at h
  cases hg : define declarations with
  | error e => simp [hg] at h
  | ok g => exact ⟨g, rfl, by simpa [hg] using h⟩

end Grammar

end ShiftReduce
