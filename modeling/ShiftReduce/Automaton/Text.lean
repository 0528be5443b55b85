import ShiftReduce.Automaton.Conflict
import ShiftReduce.ItemSet.Text

/-!
# The dump of an automaton

Every state is shown under its number, with its items, its shifts, its gotos and its
reductions, one entry on a line.  A blank line stands between two states.
-/

namespace ShiftReduce

/-- A section of a dump: its title, then its entries. -/
private def dumpSection (title : String) (entries : List String) : String :=
  "## " ++ title ++ "\n" ++ String.join (entries.map fun entry => "- " ++ entry ++ "\n")

/-- A state under its number. -/
def State.text (g : Grammar) (id : Nat) (s : State) : String :=
  let v := g.vocabulary
  let shift := fun (t, target) => v.name (.terminal t) ++ " => shift(" ++ stateText target ++ ")"
  let goto := fun (n, target) => v.name (.nonterminal n) ++ " => goto(" ++ stateText target ++ ")"
  let reduce := fun (t, rule) =>
    v.name (.terminal t) ++ " => reduce(" ++ Rule.text v rule ++ ")"
  "#### State " ++ stateText id ++ "\n" ++
  "## items\n" ++ s.items.text g ++
  dumpSection "shifts" (s.shifts.map shift) ++
  dumpSection "gotos" (s.gotos.map goto) ++
  dumpSection "reduces" (s.reduces.map reduce)

/-- All states of an automaton. -/
def Automaton.text (g : Grammar) (a : Automaton) : String :=
  "\n".intercalate (a.states.mapIdx fun id s => s.text g id)

end ShiftReduce
