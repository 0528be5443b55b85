import Mathlib.Data.Set.Function
import Mathlib.Order.Interval.Set.Basic
import ShiftReduce.Grammar.Samples
import ShiftReduce.Proofs.Automaton.Path
import ShiftReduce.Proofs.Grammar.Limits
import ShiftReduce.Proofs.Parser.Run
import ShiftReduce.Proofs.Table.Actions

/-!
# The table of an automaton is a code for it

All that the table of an automaton says is what the automaton has, and it says all of it
(`ParseTable.Encodes`, `Automaton.encodes_table`): the columns are those of the symbols, and from an
entry one can tell a transition, a reduction and failure apart.

Three things are behind this.  No transition leads back to the start state, so that zero is free to
stand for failure; no terminal calls for a transition and a reduction at once; and every production
has a number of its own.  No entry goes beyond a signed word of 32 bits, since productions are
limited in number (`Grammar.Limited`), unless there are so many states.

The entries and numbers of a `ParseTable` have no width.  Where they are kept in words of 32 bits,
a table with fewer than `2 ^ 31` states is still the same (`Automaton.inWords_table`), and so is
all that is said of a parser with this table.
-/

namespace ShiftReduce

/-! ## Numbers of symbols -/

namespace Vocabulary

variable {v : Vocabulary}

theorem number_pos (v : Vocabulary) (x : Symbol) : 1 ≤ v.number x := by
  cases x <;> exact Nat.le_add_left 1 _

theorem number_le_length {x : Symbol} (hx : x ∈ v.symbols) : v.number x ≤ v.symbols.length := by
  obtain ⟨i, hi⟩ := List.mem_iff_getElem?.1 hx
  rw [(getElem?_symbols_iff.1 hi).2]
  exact (List.getElem?_eq_some_iff.1 hi).1

/-- Every number from one on is the number of a symbol, as long as there are symbols. -/
theorem exists_number_eq {n : Nat} (hpos : 1 ≤ n) (hle : n ≤ v.symbols.length) :
    ∃ x ∈ v.symbols, v.number x = n := by
  obtain ⟨i, rfl⟩ := Nat.exists_eq_add_of_le' hpos
  exact ⟨_, getElem?_symbols_iff.1 (List.getElem?_eq_getElem hle)⟩

theorem bijOn_number (v : Vocabulary) :
    Set.BijOn v.number {x | x ∈ v.symbols} (Set.Icc 1 v.symbols.length) := by
  refine ⟨?_, ?_, ?_⟩
  · intro x hx
    exact ⟨v.number_pos x, number_le_length hx⟩
  · intro x hx y hy h
    exact number_inj hx hy h
  · intro n hn
    exact exists_number_eq hn.1 hn.2

theorem bijOn_number_terminals (v : Vocabulary) :
    Set.BijOn v.number {x | x ∈ v.symbols ∧ ∃ t, x = .terminal t}
      (Set.Icc 1 v.terminals.length) := by
  refine ⟨?_, ?_, ?_⟩
  · intro x hx
    exact ⟨v.number_pos x, (number_le_iff hx.1).2 hx.2⟩
  · intro x hx y hy h
    exact number_inj hx.1 hy.1 h
  · intro n hn
    have hle : n ≤ v.symbols.length := by
      rw [length_symbols]
      exact hn.2.trans (Nat.le_add_right _ _)
    obtain ⟨x, hx, rfl⟩ := exists_number_eq hn.1 hle
    exact ⟨x, ⟨hx, (number_le_iff hx).1 hn.2⟩, rfl⟩

end Vocabulary

/-! ## Codes -/

/-- A table is a code for an automaton: the columns of its rows are those of the symbols, and the
entry for a symbol tells what the state has there. -/
structure ParseTable.Encodes (g : Grammar) (a : Automaton) (t : ParseTable) : Prop where
  /-- The symbols have the numbers from one on, and the reserved one is among them. -/
  symbols : .nonterminal .accept ∈ g.vocabulary.symbols ∧
    Set.BijOn g.vocabulary.number {x | x ∈ g.vocabulary.symbols}
      (Set.Icc 1 g.vocabulary.symbols.length)
  /-- The terminals have the first of these numbers. -/
  terminals : Set.BijOn g.vocabulary.number {x | x ∈ g.vocabulary.symbols ∧ ∃ u, x = .terminal u}
    (Set.Icc 1 t.terminalCount)
  isShift : ∀ x ∈ g.vocabulary.symbols,
    t.isShift (g.vocabulary.number x) = true ↔ ∃ u, x = .terminal u
  shift : ∀ q < a.states.length, ∀ x ∈ g.vocabulary.symbols, ∀ target,
    t.action q (g.vocabulary.number x) = .shift target ↔ (a.look q).transition? x = some target
  reduce : ∀ q < a.states.length, ∀ x ∈ g.vocabulary.symbols, ∀ rule head length,
    t.action q (g.vocabulary.number x) = .reduce rule head length ↔
      ∃ u r, x = .terminal u ∧ (a.look q).reduce? u = some r ∧ rule = r.number ∧
        head = g.vocabulary.number (.nonterminal r.head) ∧ length = r.arity
  fail : ∀ q < a.states.length, ∀ x ∈ g.vocabulary.symbols,
    t.action q (g.vocabulary.number x) = .fail ↔
      (a.look q).transition? x = none ∧ ∀ u, x = .terminal u → (a.look q).reduce? u = none
  noFault : ∀ q < a.states.length, ∀ x ∈ g.vocabulary.symbols, ∀ fault,
    t.action q (g.vocabulary.number x) ≠ .fault fault
  /-- There is a row for each state, with a column for each symbol.  The column of no symbol and
  those of the blank and of the reserved nonterminal are empty. -/
  columns : t.actions.size = a.states.length ∧ ∀ row ∈ t.actions,
    row.size = g.vocabulary.symbols.length + 1 ∧ row[0]? = some 0 ∧
    row[g.vocabulary.number (.terminal g.blank)]? = some 0 ∧
    row[g.vocabulary.number (.nonterminal .accept)]? = some 0
  /-- Every entry is a signed word. -/
  fits : ∀ row ∈ t.actions, ∀ entry ∈ row, -2 ^ 31 ≤ entry ∧ entry < 2 ^ 31

/-! ## The table of an automaton -/

theorem State.size_row (v : Vocabulary) (s : State) : (s.row v).size = v.symbols.length + 1 := by
  simp [State.row]

theorem State.getElem?_row_zero (v : Vocabulary) (s : State) : (s.row v)[0]? = some 0 := by
  simp [State.row]

/-- Where there is neither a transition nor a reduction, the entry is empty. -/
theorem State.entry_eq_zero {s : State} {x : Symbol} (htransition : s.transition? x = none)
    (hreduce : ∀ t, x = .terminal t → s.reduce? t = none) : s.entry x = 0 := by
  cases x with
  | terminal t => simp [entry, htransition, hreduce t rfl]
  | nonterminal n => simp [entry, htransition]

namespace Automaton

variable {g : Grammar} {a : Automaton}

/-- The rows of the table are those of the states. -/
theorem exists_row_eq {row : Array Int} (h : row ∈ (a.table g).actions) :
    ∃ q < a.states.length, row = (a.look q).row g.vocabulary := by
  obtain ⟨q, hq, rfl⟩ := Array.mem_iff_getElem.1 h
  have hlt : q < a.states.length := by simpa [table] using hq
  exact ⟨q, hlt, by simp [table, look, hlt]⟩

variable (hg : g.WellFormed) (ha : a.Consistent g)

include hg ha

/-- Before a symbol there is a transition, a reduction or neither, and the table says which. -/
theorem action_number_cases {q : Nat} (hq : q < a.states.length) {x : Symbol}
    (hx : x ∈ g.vocabulary.symbols) :
    (∃ target, (a.look q).transition? x = some target ∧
      (a.table g).action q (g.vocabulary.number x) = .shift target) ∨
    (∃ t r, x = .terminal t ∧ (a.look q).reduce? t = some r ∧
      (a.table g).action q (g.vocabulary.number x) = reduction g r) ∨
    ((a.look q).transition? x = none ∧ (∀ t, x = .terminal t → (a.look q).reduce? t = none) ∧
      (a.table g).action q (g.vocabulary.number x) = .fail) := by
  cases htransition : (a.look q).transition? x with
  | some target => exact .inl ⟨target, rfl, action_of_transition? hg ha htransition⟩
  | none =>
      by_cases hreduce : ∀ t, x = .terminal t → (a.look q).reduce? t = none
      · refine .inr (.inr ⟨rfl, hreduce, ?_⟩)
        rw [action_of_lt hq, State.getElem?_row hx, State.entry_eq_zero htransition hreduce]
        rfl
      · push Not at hreduce
        obtain ⟨t, rfl, hsome⟩ := hreduce
        obtain ⟨r, hr⟩ := Option.ne_none_iff_exists'.1 hsome
        exact .inr (.inl ⟨t, r, rfl, hr, action_of_reduce? hg ha hr⟩)

/-- The blank and the reserved nonterminal are before no transition and no reduction. -/
theorem entry_unused (q : Nat) : (a.look q).entry (.terminal g.blank) = 0 ∧
    (a.look q).entry (.nonterminal .accept) = 0 := by
  constructor
  · apply State.entry_eq_zero
    · apply Option.eq_none_iff_forall_ne_some.2
      intro target htarget
      exact ha.ne_blank_of_transition? htarget rfl
    · intro t ht
      obtain rfl := Symbol.terminal.inj ht
      apply Option.eq_none_iff_forall_ne_some.2
      intro r hr
      exact ((ha.settled q).reduce?_eq_some_iff.1 hr).1 rfl
  · apply State.entry_eq_zero
    · apply Option.eq_none_iff_forall_ne_some.2
      intro target htarget
      exact g.vocabulary.not_declares_accept (ha.declares_of_transition? hg htarget)
    · intro t ht
      contradiction

omit hg in
/-- Entries are as large as the numbers of states and productions. -/
theorem entry_bounds (hlimited : g.Limited) (hsmall : a.states.length < 2 ^ 31) (q : Nat)
    (x : Symbol) : -2 ^ 31 ≤ (a.look q).entry x ∧ (a.look q).entry x < 2 ^ 31 := by
  rcases (a.look q).entry_cases x with ⟨-, hentry⟩ | ⟨target, htarget, hentry⟩ |
    ⟨t, r, rfl, hr, hentry⟩
  · rw [hentry]
    decide
  · have hlt := ha.target_lt_length htarget
    rw [hentry]
    omega
  · have hnumber := hlimited.number_lt r (ha.mem_allRules_of_reduce? hr)
    rw [hentry]
    simp only [Draft.idLimit] at hnumber
    omega

omit hg in
theorem entries_fit (hlimited : g.Limited) (hsmall : a.states.length < 2 ^ 31) :
    ∀ row ∈ (a.table g).actions, ∀ entry ∈ row, -2 ^ 31 ≤ entry ∧ entry < 2 ^ 31 := by
  intro row hrow entry hentry
  obtain ⟨q, -, rfl⟩ := exists_row_eq hrow
  obtain ⟨i, hi⟩ := Array.mem_iff_getElem?.1 hentry
  rcases State.getElem?_row_cases hi with rfl | ⟨x, -, -, rfl⟩
  · decide
  · exact entry_bounds ha hlimited hsmall q x

omit hg ha

/-- The table of an automaton with fewer than `2 ^ 31` states is a code for it. -/
theorem encodes_table {declarations : List Declaration}
    (hg : Grammar.define declarations = .ok g) {merging : Merging}
    (ha : build g merging = .ok a) (hsmall : a.states.length < 2 ^ 31) :
    (a.table g).Encodes g a := by
  have hlimited := Grammar.limited_of_define hg
  have hg := Grammar.wellFormed_of_define hg
  have ha := consistent_of_build hg ha
  have haccept : .nonterminal .accept ∈ g.vocabulary.symbols :=
    Vocabulary.nonterminal_mem_symbols.2 hg.accept_declared
  constructor
  case symbols => exact ⟨haccept, g.vocabulary.bijOn_number⟩
  case terminals => exact g.vocabulary.bijOn_number_terminals
  case isShift =>
    intro x hx
    rw [ParseTable.isShift, decide_eq_true_eq]
    exact Vocabulary.number_le_iff hx
  case shift =>
    intro q hq x hx target
    refine ⟨fun h => ?_, action_of_transition? hg ha⟩
    rcases action_number_cases hg ha hq hx with ⟨target', ht, haction⟩ | ⟨t, r, -, -, haction⟩ |
      ⟨-, -, haction⟩
    · obtain rfl := Action.shift.inj (h.symm.trans haction)
      exact ht
    · cases h.symm.trans haction
    · cases h.symm.trans haction
  case reduce =>
    intro q hq x hx rule head length
    constructor
    · intro h
      rcases action_number_cases hg ha hq hx with ⟨target, -, haction⟩ | ⟨t, r, rfl, hr, haction⟩ |
        ⟨-, -, haction⟩
      · cases h.symm.trans haction
      · obtain ⟨hrule, hhead, hlength⟩ := Action.reduce.inj (h.symm.trans haction)
        exact ⟨t, r, rfl, hr, hrule, hhead, hlength⟩
      · cases h.symm.trans haction
    · rintro ⟨t, r, rfl, hr, rfl, rfl, rfl⟩
      exact action_of_reduce? hg ha hr
  case fail =>
    intro q hq x hx
    constructor
    · intro h
      rcases action_number_cases hg ha hq hx with ⟨target, -, haction⟩ | ⟨t, r, -, -, haction⟩ |
        ⟨htransition, hreduce, -⟩
      · cases h.symm.trans haction
      · cases h.symm.trans haction
      · exact ⟨htransition, hreduce⟩
    · rintro ⟨htransition, hreduce⟩
      rw [action_of_lt hq, State.getElem?_row hx, State.entry_eq_zero htransition hreduce]
      rfl
  case noFault =>
    intro q hq x hx fault h
    rcases action_number_cases hg ha hq hx with ⟨target, -, haction⟩ | ⟨t, r, -, -, haction⟩ |
      ⟨-, -, haction⟩
    · cases h.symm.trans haction
    · cases h.symm.trans haction
    · cases h.symm.trans haction
  case columns =>
    refine ⟨by simp [table], fun row hrow => ?_⟩
    obtain ⟨q, -, rfl⟩ := exists_row_eq hrow
    obtain ⟨hblank, hreserved⟩ := entry_unused hg ha q
    refine ⟨State.size_row _ _, State.getElem?_row_zero _ _, ?_, ?_⟩
    · rw [State.getElem?_row hg.blank_declared.mem_symbols, hblank]
    · rw [State.getElem?_row haccept, hreserved]
  case fits => exact entries_fit ha hlimited hsmall

/-- The table of a grammar with a part that may be left out: before `:` and over the part there is
a transition, before `=` the part is reduced without a node, and before `id` there is failure. -/
theorem encodes_table_optional : ∃ g a, Grammar.define Samples.optional = .ok g ∧
    build g .lalr = .ok a ∧ a.states.length < 2 ^ 31 ∧ (a.table g).Encodes g a ∧
    (a.table g).action 3 5 = .shift 5 ∧ (a.table g).action 3 10 = .shift 4 ∧
    (a.table g).action 3 6 = .reduce 4 10 0 ∧ (a.table g).action 3 4 = .fail := by
  have hpasses : passes Samples.optional .lalr (fun g a => a.states.length < 2 ^ 31 ∧
      (a.table g).action 3 5 = .shift 5 ∧ (a.table g).action 3 10 = .shift 4 ∧
      (a.table g).action 3 6 = .reduce 4 10 0 ∧ (a.table g).action 3 4 = .fail) = true := by
    decide +kernel
  obtain ⟨g, a, hg, ha, hcheck⟩ := exists_of_passes hpasses
  obtain ⟨hsmall, hcells⟩ := of_decide_eq_true hcheck
  exact ⟨g, a, hg, ha, hsmall, encodes_table hg ha hsmall, hcells⟩

end Automaton

/-! ## Words -/

namespace ParseTable

/-- The table with its numbers in words of 32 bits, signed ones for the entries and unsigned ones
for all else.  What does not fit is wrapped. -/
def inWords (t : ParseTable) : ParseTable where
  terminalCount := t.terminalCount % 2 ^ 32
  heads := t.heads.map (· % 2 ^ 32)
  lengths := t.lengths.map (· % 2 ^ 32)
  actions := t.actions.map fun row => row.map (Int.bmod · (2 ^ 32))
  names := t.names
  acceptSymbol := t.acceptSymbol % 2 ^ 32
  endSymbol := t.endSymbol % 2 ^ 32

/-- All numbers of a table fit in words. -/
structure FitsWords (t : ParseTable) : Prop where
  terminalCount : t.terminalCount < 2 ^ 32
  heads : ∀ head ∈ t.heads, head < 2 ^ 32
  lengths : ∀ length ∈ t.lengths, length < 2 ^ 32
  actions : ∀ row ∈ t.actions, ∀ entry ∈ row, -2 ^ 31 ≤ entry ∧ entry < 2 ^ 31
  acceptSymbol : t.acceptSymbol < 2 ^ 32
  endSymbol : t.endSymbol < 2 ^ 32

theorem FitsWords.inWords_eq {t : ParseTable} (ht : t.FitsWords) : t.inWords = t := by
  have map_eq : ∀ {α : Type} {f : α → α} (xs : Array α), (∀ x ∈ xs, f x = x) → xs.map f = xs :=
    fun xs h => (Array.map_congr_left h).trans (Array.map_id' xs)
  have hrow : ∀ row ∈ t.actions, row.map (Int.bmod · (2 ^ 32)) = row := by
    intro row hrow
    apply map_eq
    intro entry hentry
    obtain ⟨hlow, hhigh⟩ := ht.actions row hrow entry hentry
    exact Int.bmod_eq_of_le_mul_two (by push_cast; omega) (by push_cast; omega)
  have hheads : ∀ head ∈ t.heads, head % 2 ^ 32 = head :=
    fun head hhead => Nat.mod_eq_of_lt (ht.heads head hhead)
  have hlengths : ∀ length ∈ t.lengths, length % 2 ^ 32 = length :=
    fun length hlength => Nat.mod_eq_of_lt (ht.lengths length hlength)
  rw [inWords, map_eq t.heads hheads, map_eq t.lengths hlengths, map_eq t.actions hrow,
    Nat.mod_eq_of_lt ht.terminalCount, Nat.mod_eq_of_lt ht.acceptSymbol,
    Nat.mod_eq_of_lt ht.endSymbol]

end ParseTable

/-- The numbers of symbols are far below the limit of words. -/
theorem Grammar.Limited.number_lt_word {g : Grammar} (hlimited : g.Limited) {x : Symbol}
    (hx : x ∈ g.vocabulary.symbols) : g.vocabulary.number x < 2 ^ 32 := by
  have hle := Vocabulary.number_le_length hx
  have hterminals := hlimited.terminals_le
  have hnonterminals := hlimited.nonterminals_le
  simp only [Draft.idLimit] at hterminals hnonterminals
  rw [Vocabulary.length_symbols] at hle
  omega

namespace Automaton

variable {g : Grammar} {a : Automaton}

/-- The table of an automaton with fewer than `2 ^ 31` states is the same in words, unless a body is
too long for its length to fit. -/
theorem inWords_table {declarations : List Declaration}
    (hg : Grammar.define declarations = .ok g) {merging : Merging}
    (ha : build g merging = .ok a) (hsmall : a.states.length < 2 ^ 31)
    (hbodies : ∀ r ∈ g.rules, r.body.length < 2 ^ 32) : (a.table g).inWords = a.table g := by
  have hlimited := Grammar.limited_of_define hg
  have hg := Grammar.wellFormed_of_define hg
  have ha := consistent_of_build hg ha
  apply ParseTable.FitsWords.inWords_eq
  constructor
  case terminalCount =>
    exact Nat.lt_of_le_of_lt hlimited.terminals_le (by decide)
  case heads =>
    intro head hhead
    obtain rfl | ⟨r, hr, rfl⟩ : head = 0 ∨ ∃ r ∈ g.allRules,
        g.vocabulary.number (.nonterminal r.head) = head := by simpa [table] using hhead
    · decide
    · exact hlimited.number_lt_word (Vocabulary.nonterminal_mem_symbols.2 (hg.head_lt_of_mem hr))
  case lengths =>
    intro length hlength
    obtain rfl | ⟨r, hr, rfl⟩ : length = 0 ∨ ∃ r ∈ g.allRules, r.arity = length := by
      simpa [table] using hlength
    · decide
    · have hbody : r.body.length < 2 ^ 32 := by
        rcases Grammar.mem_allRules.1 hr with rfl | hr
        · exact Nat.one_lt_two_pow (by decide)
        · exact hbodies r hr
      exact Nat.lt_of_le_of_lt r.arity_le hbody
  case actions => exact entries_fit ha hlimited hsmall
  case acceptSymbol =>
    exact hlimited.number_lt_word (Vocabulary.nonterminal_mem_symbols.2 hg.accept_declared)
  case endSymbol => exact hlimited.number_lt_word hg.endMarker_declared.mem_symbols

end Automaton

end ShiftReduce
