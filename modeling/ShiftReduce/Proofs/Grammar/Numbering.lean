import Mathlib.Tactic.Common
import ShiftReduce.Vocabulary

/-!
# The numbers of symbols

`Vocabulary.number` gives the symbols of a vocabulary the numbers from one on, terminals
first, and `Vocabulary.symbols` lists them in that order.  So the list is the inverse of
the number (`getElem?_symbols_iff`), and the number tells declared symbols apart.
-/

namespace ShiftReduce.Vocabulary

variable {v : Vocabulary}

@[simp] theorem terminal_mem_symbols {t : Terminal} :
    Symbol.terminal t ∈ v.symbols ↔ t.index < v.terminals.length := by
  simp [symbols]

@[simp] theorem nonterminal_mem_symbols {n : Nonterminal} :
    Symbol.nonterminal n ∈ v.symbols ↔ n.index < v.nonterminals.length := by
  simp [symbols]

theorem Declares.mem_symbols {x : Symbol} (h : v.Declares x) : x ∈ v.symbols := by
  cases x with
  | terminal t => exact terminal_mem_symbols.2 h
  | nonterminal n => exact nonterminal_mem_symbols.2 h.2

/-- The terminals come first. -/
private theorem getElem?_symbols_terminal {i : Nat} (hi : i < v.terminals.length) :
    v.symbols[i]? = some (.terminal ⟨i⟩) := by
  rw [symbols, List.getElem?_append_left (by simpa [terminalList] using hi)]
  simp [terminalList, hi]

/-- The nonterminals come behind all terminals. -/
private theorem getElem?_symbols_nonterminal {j : Nat} (hj : j < v.nonterminals.length) :
    v.symbols[v.terminals.length + j]? = some (.nonterminal ⟨j⟩) := by
  have hlength : (v.terminalList.map Symbol.terminal).length = v.terminals.length := by
    simp [terminalList]
  rw [symbols, List.getElem?_append_right (by omega), hlength, Nat.add_sub_cancel_left]
  simp [nonterminalList, hj]

/-- The list of the symbols holds each of them at its number. -/
theorem getElem?_symbols_iff {x : Symbol} {i : Nat} :
    v.symbols[i]? = some x ↔ x ∈ v.symbols ∧ v.number x = i + 1 := by
  constructor
  · intro h
    rcases Nat.lt_or_ge i v.terminals.length with hi | hi
    · obtain rfl := Option.some.inj ((getElem?_symbols_terminal hi).symm.trans h)
      exact ⟨terminal_mem_symbols.2 hi, rfl⟩
    · obtain ⟨j, rfl⟩ := Nat.exists_eq_add_of_le hi
      have hlt := (List.getElem?_eq_some_iff.1 h).1
      rw [length_symbols] at hlt
      have hj : j < v.nonterminals.length := by omega
      obtain rfl := Option.some.inj ((getElem?_symbols_nonterminal hj).symm.trans h)
      exact ⟨nonterminal_mem_symbols.2 hj, rfl⟩
  · rintro ⟨hx, hnumber⟩
    cases x with
    | terminal t =>
        obtain rfl : t.index = i := by simpa [number] using hnumber
        exact getElem?_symbols_terminal (terminal_mem_symbols.1 hx)
    | nonterminal n =>
        obtain rfl : i = v.terminals.length + n.index := by
          simp only [number] at hnumber
          omega
        exact getElem?_symbols_nonterminal (nonterminal_mem_symbols.1 hx)

/-- The number tells symbols apart. -/
theorem number_inj {x y : Symbol} (hx : x ∈ v.symbols) (hy : y ∈ v.symbols)
    (h : v.number x = v.number y) : x = y := by
  obtain ⟨i, hi⟩ := List.mem_iff_getElem?.1 hx
  have hnumber := (getElem?_symbols_iff.1 hi).2
  exact Option.some.inj (hi.symm.trans (getElem?_symbols_iff.2 ⟨hy, h ▸ hnumber⟩))

theorem number_terminal_inj {t u : Terminal}
    (h : v.number (.terminal t) = v.number (.terminal u)) : t = u := by
  cases t; cases u
  simpa [number] using h

/-- Terminals have the smaller numbers. -/
theorem number_le_iff {x : Symbol} (hx : x ∈ v.symbols) :
    v.number x ≤ v.terminals.length ↔ ∃ t, x = .terminal t := by
  cases x with
  | terminal t =>
      have : t.index < v.terminals.length := terminal_mem_symbols.1 hx
      simpa [number] using Nat.succ_le_of_lt this
  | nonterminal n =>
      simp only [number, reduceCtorEq, exists_false, iff_false]
      omega

end ShiftReduce.Vocabulary
