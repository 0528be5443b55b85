import ShiftReduce.Proofs.Automaton.Build
import ShiftReduce.Proofs.Grammar.Numbering
import ShiftReduce.Table.Export

/-!
# What the table of an automaton says

`Automaton.table` is read back: in a state, before the number of a symbol, the table says to
shift exactly where the automaton has a transition, and to reduce exactly where the automaton
has a reduction (`action_of_transition?`, `action_of_reduce?`, `action_cases`).
-/

namespace ShiftReduce

namespace State

variable {g : Grammar} {s : State}

/-- The entry for a symbol is in the column of its number. -/
theorem getElem?_row {v : Vocabulary} {x : Symbol} (hx : x ∈ v.symbols) :
    (s.row v)[v.number x]? = some (s.entry x) := by
  obtain ⟨i, hi⟩ := List.mem_iff_getElem?.1 hx
  have hnumber := (Vocabulary.getElem?_symbols_iff.1 hi).2
  simp [row, hnumber, hi]

/-- The other entries are empty. -/
theorem getElem?_row_cases {v : Vocabulary} {n : Nat} {entry : Int}
    (h : (s.row v)[n]? = some entry) :
    entry = 0 ∨ ∃ x ∈ v.symbols, v.number x = n ∧ entry = s.entry x := by
  cases n with
  | zero =>
      have : (0 : Int) = entry := by simpa [row] using h
      exact .inl this.symm
  | succ i =>
      obtain ⟨x, hx, hentry⟩ : ∃ x, v.symbols[i]? = some x ∧ s.entry x = entry := by
        simpa [row] using h
      obtain ⟨hmem, hnumber⟩ := Vocabulary.getElem?_symbols_iff.1 hx
      exact .inr ⟨x, hmem, hnumber, hentry.symm⟩

theorem entry_of_transition? (hs : s.Settled g) {x : Symbol} {q : Nat}
    (h : s.transition? x = some q) : s.entry x = q := by
  cases x with
  | terminal t =>
      cases hr : s.reduce? t with
      | none => simp [entry, hr, h]
      | some r =>
          rw [hs.transition?_of_reduce? hr] at h
          contradiction
  | nonterminal n => simp [entry, h]

theorem entry_of_reduce? {t : Terminal} {r : Rule} (h : s.reduce? t = some r) :
    s.entry (.terminal t) = -r.number := by
  simp [entry, h]

theorem entry_cases (s : State) (x : Symbol) :
    (s.transition? x = none ∧ s.entry x = 0) ∨
    (∃ q, s.transition? x = some q ∧ s.entry x = q) ∨
    ∃ t r, x = .terminal t ∧ s.reduce? t = some r ∧ s.entry x = -r.number := by
  cases x with
  | terminal t =>
      cases hr : s.reduce? t with
      | some r => exact .inr (.inr ⟨t, r, rfl, hr, entry_of_reduce? hr⟩)
      | none =>
          cases ht : s.transition? (.terminal t) with
          | none => exact .inl ⟨rfl, by simp [entry, hr, ht]⟩
          | some q => exact .inr (.inl ⟨q, rfl, by simp [entry, hr, ht]⟩)
  | nonterminal n =>
      cases ht : s.transition? (.nonterminal n) with
      | none => exact .inl ⟨rfl, by simp [entry, ht]⟩
      | some q => exact .inr (.inl ⟨q, rfl, by simp [entry, ht]⟩)

end State

namespace Automaton

variable {g : Grammar} {a : Automaton} {q n : Nat}

/-- Only the head of the accepting production has its number. -/
theorem number_eq_acceptSymbol_iff {m : Nonterminal} :
    g.vocabulary.number (.nonterminal m) = (a.table g).acceptSymbol ↔ m = .accept := by
  constructor
  · intro h
    have hindex : m.index = Nonterminal.accept.index := by
      simpa [table, Vocabulary.number] using h
    exact congrArg Nonterminal.mk hindex
  · rintro rfl
    rfl

/-- The reduction that a production stands for. -/
def reduction (g : Grammar) (r : Rule) : Action :=
  .reduce r.number (g.vocabulary.number (.nonterminal r.head)) r.arity

theorem decode_shift {target : Nat} (h : target ≠ 0) :
    (a.table g).decode (target : Int) = .shift target := by
  simp [ParseTable.decode, h, Nat.pos_of_ne_zero h]

theorem decode_reduce (hg : g.WellFormed) {r : Rule} (hr : r ∈ g.allRules) :
    (a.table g).decode (-(r.number : Int)) = reduction g r := by
  obtain ⟨i, hi, hri⟩ := hg.getElem?_of_mem hr
  have hne : ¬ (-(r.number : Int) = 0) := by omega
  have hneg : ¬ (0 < -(r.number : Int)) := by omega
  have habs : (-(r.number : Int)).natAbs = i + 1 := by omega
  have hheads : (a.table g).heads[i + 1]? =
      some (g.vocabulary.number (.nonterminal r.head)) := by
    simp [table, hri]
  have hlengths : (a.table g).lengths[i + 1]? = some r.arity := by
    simp [table, hri]
  unfold ParseTable.decode
  rw [if_neg hne, if_neg hneg]
  simp only [habs, hheads, hlengths]
  rw [reduction, hi]

theorem action_of_lt (hq : q < a.states.length) : (a.table g).action q n =
    match ((a.look q).row g.vocabulary)[n]? with
    | none => .fault .symbol
    | some entry => (a.table g).decode entry := by
  have hrow : (a.table g).actions[q]? = some ((a.look q).row g.vocabulary) := by
    simp [table, look, hq]
  unfold ParseTable.action
  split
  case h_1 hnone =>
    have habsurd := hrow.symm.trans hnone
    contradiction
  case h_2 row hsome =>
    obtain rfl := Option.some.inj (hrow.symm.trans hsome)
    rfl

theorem action_of_length_le (hq : a.states.length ≤ q) :
    (a.table g).action q n = .fault .state := by
  have hrow : (a.table g).actions[q]? = none := by
    simp [table, hq]
  simp only [ParseTable.action, hrow]

/-- In a state that is there, a terminal calls for a transition, a reduction or failure. -/
theorem action_terminal_cases (hq : q < a.states.length) {t : Terminal}
    (ht : .terminal t ∈ g.vocabulary.symbols) :
    (∃ target, (a.look q).transition? (.terminal t) = some target) ∨
    (∃ r, (a.look q).reduce? t = some r) ∨
    (a.table g).action q (g.vocabulary.number (.terminal t)) = .fail := by
  rcases (a.look q).entry_cases (.terminal t) with ⟨-, hentry⟩ | ⟨target, htarget, -⟩ |
    ⟨u, r, hu, hr, -⟩
  · refine .inr (.inr ?_)
    rw [action_of_lt hq, State.getElem?_row ht, hentry]
    rfl
  · exact .inl ⟨target, htarget⟩
  · obtain rfl := Symbol.terminal.inj hu
    exact .inr (.inl ⟨r, hr⟩)

section Consistent

variable (hg : g.WellFormed) (ha : a.Consistent g)

include hg ha

/-- Where there is a transition, the table says to shift. -/
theorem action_of_transition? {x : Symbol} {target : Nat}
    (h : (a.look q).transition? x = some target) :
    (a.table g).action q (g.vocabulary.number x) = .shift target := by
  rw [action_of_lt (Consistent.lt_length_of_transition? h),
    State.getElem?_row (ha.declares_of_transition? hg h).mem_symbols]
  rw [State.entry_of_transition? (ha.settled q) h]
  exact decode_shift (ha.ne_zero_of_transition? h)

/-- Where there is a reduction, the table says to reduce. -/
theorem action_of_reduce? {t : Terminal} {r : Rule} (h : (a.look q).reduce? t = some r) :
    (a.table g).action q (g.vocabulary.number (.terminal t)) = reduction g r := by
  obtain ⟨d, -, -, -, ht⟩ := ha.exists_of_reduce? h
  have hq : q < a.states.length := by
    by_contra hq
    have habsent : a.look q = .absent := by
      rw [look, List.getElem?_eq_none (Nat.not_lt.1 hq), Option.getD_none]
    rw [habsent] at h
    contradiction
  rw [action_of_lt hq, State.getElem?_row (ha.declares_of_expects hg ht).mem_symbols]
  rw [State.entry_of_reduce? h]
  exact decode_reduce hg (ha.mem_allRules_of_reduce? h)

/-- The table says to shift or to reduce only where the automaton does. -/
theorem action_cases (q n : Nat) :
    (∃ x target, x ∈ g.vocabulary.symbols ∧ n = g.vocabulary.number x ∧
      (a.look q).transition? x = some target ∧ (a.table g).action q n = .shift target) ∨
    (∃ t r, .terminal t ∈ g.vocabulary.symbols ∧ n = g.vocabulary.number (.terminal t) ∧
      (a.look q).reduce? t = some r ∧ (a.table g).action q n = reduction g r) ∨
    (a.table g).action q n = .fail ∨ ∃ fault, (a.table g).action q n = .fault fault := by
  rcases Nat.lt_or_ge q a.states.length with hq | hq
  · cases hrow : ((a.look q).row g.vocabulary)[n]? with
    | none =>
        have haction : (a.table g).action q n = .fault .symbol := by
          rw [action_of_lt hq, hrow]
        exact .inr (.inr (.inr ⟨.symbol, haction⟩))
    | some entry =>
        rcases State.getElem?_row_cases hrow with rfl | ⟨x, hx, rfl, -⟩
        · have haction : (a.table g).action q n = .fail := by
            rw [action_of_lt hq, hrow]
            rfl
          exact .inr (.inr (.inl haction))
        · rcases (a.look q).entry_cases x with ⟨-, hentry⟩ | ⟨target, ht, -⟩ | ⟨t, r, rfl, hr, -⟩
          · have haction : (a.table g).action q (g.vocabulary.number x) = .fail := by
              rw [action_of_lt hq, State.getElem?_row hx, hentry]
              rfl
            exact .inr (.inr (.inl haction))
          · exact .inl ⟨x, target, hx, rfl, ht, action_of_transition? hg ha ht⟩
          · exact .inr (.inl ⟨t, r, hx, rfl, hr, action_of_reduce? hg ha hr⟩)
  · exact .inr (.inr (.inr ⟨.state, action_of_length_le hq⟩))

end Consistent

end Automaton

end ShiftReduce
