/-!
# Symbols and their names

A vocabulary lists the declared terminals and nonterminals.  A symbol is named by
its place in one of the two lists, so `Terminal` and `Nonterminal` are indices,
and a symbol may well be one that no vocabulary declares.

The first nonterminal is reserved: it is the head of the accepting production,
which no grammar declares itself.

For tables the symbols are numbered from one, terminals first: this is
`Vocabulary.number`, and `Vocabulary.symbols` lists the symbols in that order.
-/

namespace ShiftReduce

/-- A terminal, by its place among the declared terminals. -/
structure Terminal where
  index : Nat
deriving DecidableEq

/-- A nonterminal, by its place among the nonterminals. -/
structure Nonterminal where
  index : Nat
deriving DecidableEq

namespace Nonterminal

/-- The reserved head of the accepting production. -/
def accept : Nonterminal := ⟨0⟩

/-- Nonterminals are ordered by their places. -/
def order (m n : Nonterminal) : Ordering := compare m.index n.index

instance : Std.TransCmp order :=
  inferInstanceAs (Std.TransCmp (compareOn Nonterminal.index))

instance : Std.LawfulEqCmp order where
  eq_of_compare h := congrArg Nonterminal.mk (Std.LawfulEqCmp.compare_eq_iff_eq.1 h)

end Nonterminal

/-- A symbol of a production. -/
inductive Symbol where
  | terminal (t : Terminal)
  | nonterminal (n : Nonterminal)
deriving DecidableEq

/-- The two terminals that play a part of their own: one ends the input, the
other stands for the empty string. -/
inductive Sentinel where
  | endMarker
  | blank
deriving DecidableEq

/-- The word that messages use for a sentinel. -/
def Sentinel.text : Sentinel → String
  | .endMarker => "end"
  | .blank => "blank"

/-- What is declared of a terminal. -/
structure TerminalEntry where
  name : String
  sentinel : Option Sentinel := none

/-- The declared symbols, in the order of declaration. -/
structure Vocabulary where
  terminals : List TerminalEntry
  /-- The names of the nonterminals, the reserved one first. -/
  nonterminals : List String

namespace Vocabulary

/-- The vocabulary before anything is declared. -/
def initial : Vocabulary := ⟨[], ["$start"]⟩

variable (v : Vocabulary)

/-- Whether a production may use the symbol: it is declared, and not reserved. -/
def Declares : Symbol → Prop
  | .terminal t => t.index < v.terminals.length
  | .nonterminal n => n ≠ .accept ∧ n.index < v.nonterminals.length

instance : (s : Symbol) → Decidable (v.Declares s)
  | .terminal t => inferInstanceAs (Decidable (t.index < v.terminals.length))
  | .nonterminal n =>
    inferInstanceAs (Decidable (n ≠ .accept ∧ n.index < v.nonterminals.length))

/-- What is declared of a terminal, if it is declared. -/
def entry? (t : Terminal) : Option TerminalEntry := v.terminals[t.index]?

/-- The name of a symbol; an undeclared one has none. -/
def name? : Symbol → Option String
  | .terminal t => (v.entry? t).map (·.name)
  | .nonterminal n => v.nonterminals[n.index]?

/-- The name of a symbol, empty if it is undeclared. -/
def name (s : Symbol) : String := (v.name? s).getD ""

/-! ### Numbering -/

/-- The terminals, in the order of declaration. -/
def terminalList : List Terminal := (List.range v.terminals.length).map Terminal.mk

/-- The nonterminals, the reserved one first. -/
def nonterminalList : List Nonterminal :=
  (List.range v.nonterminals.length).map Nonterminal.mk

/-- All symbols, in the order of their numbers. -/
def symbols : List Symbol :=
  v.terminalList.map Symbol.terminal ++ v.nonterminalList.map Symbol.nonterminal

/-- The number of a symbol in a table.  Zero is the number of none. -/
def number : Symbol → Nat
  | .terminal t => t.index + 1
  | .nonterminal n => v.terminals.length + n.index + 1

@[simp] theorem mem_terminalList {t : Terminal} :
    t ∈ v.terminalList ↔ t.index < v.terminals.length := by
  simp only [terminalList, List.mem_map, List.mem_range]
  exact ⟨fun ⟨_, h, e⟩ => e ▸ h, fun h => ⟨_, h, rfl⟩⟩

@[simp] theorem mem_nonterminalList {n : Nonterminal} :
    n ∈ v.nonterminalList ↔ n.index < v.nonterminals.length := by
  simp only [nonterminalList, List.mem_map, List.mem_range]
  exact ⟨fun ⟨_, h, e⟩ => e ▸ h, fun h => ⟨_, h, rfl⟩⟩

@[simp] theorem length_symbols :
    v.symbols.length = v.terminals.length + v.nonterminals.length := by
  simp [symbols, terminalList, nonterminalList]

end Vocabulary

end ShiftReduce
