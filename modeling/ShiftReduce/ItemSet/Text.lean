import ShiftReduce.Grammar.Text
import ShiftReduce.ItemSet.Basic

/-!
# The text of items

An item is written as its rule with a dot at the marker and its lookaheads in
brackets, as in `E := E . + T  [$ +]`; a pending nonterminal with all of its
productions, as in `T := . T * F | F  [$ +]`.
-/

namespace ShiftReduce

/-- The names of the lookaheads in brackets. -/
def lookaheadText (v : Vocabulary) (lookaheads : OrderedSet Terminal) : String :=
  "  [" ++ " ".intercalate (lookaheads.toList.map fun t => v.name (.terminal t)) ++ "]"

/-- A body with a dot before the symbol at the marker.  A marker past the end of the
body shows no dot. -/
def dottedBody (v : Vocabulary) : Nat → List Symbol → String
  | 0, body => " ." ++ v.spaced body
  | _ + 1, [] => ""
  | marker + 1, x :: rest => " " ++ v.name x ++ dottedBody v marker rest

/-- An item on one line. -/
def Item.text (v : Vocabulary) (k : Item) : String :=
  v.name (.nonterminal k.core.rule.head) ++ " :=" ++
  dottedBody v k.core.marker k.core.rule.body ++ lookaheadText v k.lookaheads

/-- A pending nonterminal on one line. -/
def Pending.text (g : Grammar) (p : Pending) : String :=
  let bodies := (g.productionsOf p.symbol).map fun r => g.vocabulary.spaced r.body
  g.vocabulary.name (.nonterminal p.symbol) ++ " := ." ++ " |".intercalate bodies ++
  lookaheadText g.vocabulary p.lookaheads

/-- An item set, each entry on a line of its own. -/
def ItemSet.text (g : Grammar) (s : ItemSet) : String :=
  let entries := s.kernels.map (Item.text g.vocabulary) ++ s.pendings.map (Pending.text g)
  String.join (entries.map fun entry => "- " ++ entry ++ "\n")

end ShiftReduce
