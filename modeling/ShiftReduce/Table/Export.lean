import ShiftReduce.Automaton.Basic
import ShiftReduce.Table.Basic

/-!
# The table of an automaton

An automaton becomes a parse table by numbering the symbols as `Vocabulary.number`
does and laying the states out as rows.  Column zero is empty, since no symbol has the
number zero, and so is the entry of production zero.
-/

namespace ShiftReduce

/-- The entry of a state for a symbol. -/
def State.entry (s : State) : Symbol → Int
  | .terminal t =>
    match s.reduce? t with
    | some rule => -rule.number
    | none => (s.transition? (.terminal t)).getD 0
  | .nonterminal n => (s.transition? (.nonterminal n)).getD 0

/-- The row of a state, one entry for each symbol number. -/
def State.row (v : Vocabulary) (s : State) : Array Int :=
  (0 :: v.symbols.map s.entry).toArray

/-- The parse table of an automaton of a grammar. -/
def Automaton.table (g : Grammar) (a : Automaton) : ParseTable where
  terminalCount := g.vocabulary.terminals.length
  heads := (0 :: g.allRules.map fun r => g.vocabulary.number (.nonterminal r.head)).toArray
  lengths := (0 :: g.allRules.map Rule.arity).toArray
  actions := (a.states.map (State.row g.vocabulary)).toArray
  names := ("" :: g.vocabulary.symbols.map g.vocabulary.name).toArray
  acceptSymbol := g.vocabulary.number (.nonterminal .accept)
  endSymbol := g.vocabulary.number (.terminal g.endMarker)

end ShiftReduce
