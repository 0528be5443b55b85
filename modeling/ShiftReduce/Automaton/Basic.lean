import ShiftReduce.ItemSet.Basic

/-!
# Automata

The automaton of a grammar has an item set in each of its states, and transitions
on symbols.  In some states, on some terminals, a production is reduced.

States are numbered from zero in the order in which they are found; zero is the
start state.
-/

namespace ShiftReduce

/-- What becomes of lookaheads that reach a state which is already known. -/
inductive Merging where
  /-- The state keeps the lookaheads that it was found with. -/
  | firstFound
  /-- The state takes them in, and so do the states after it. -/
  | lalr
deriving DecidableEq

/-- A state of an automaton. -/
structure State where
  items : ItemSet
  /-- The states next to this one, in the order of `ItemSet.nextSymbols`. -/
  transitions : List (Symbol × Nat) := []
  /-- The productions to reduce, by the terminal that comes next. -/
  reduces : List (Terminal × Rule) := []

namespace State

variable (s : State)

/-- The state reached over a symbol. -/
def transition? (x : Symbol) : Option Nat := s.transitions.lookup x

/-- The production to reduce before a terminal. -/
def reduce? (t : Terminal) : Option Rule := s.reduces.lookup t

/-- The transitions on terminals. -/
def shifts : List (Terminal × Nat) :=
  s.transitions.filterMap fun
    | (.terminal t, target) => some (t, target)
    | (.nonterminal _, _) => none

/-- The transitions on nonterminals. -/
def gotos : List (Nonterminal × Nat) :=
  s.transitions.filterMap fun
    | (.nonterminal n, target) => some (n, target)
    | (.terminal _, _) => none

end State

/-- An automaton: its states, by number. -/
structure Automaton where
  states : List State

namespace Automaton

/-- The number of the state in which every run begins. -/
def startState : Nat := 0

/-- The state of a number. -/
def state? (a : Automaton) (id : Nat) : Option State := a.states[id]?

end Automaton

end ShiftReduce
