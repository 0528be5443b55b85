import ShiftReduce.Grammar.Basic
import ShiftReduce.OrderedSet

/-!
# Items and item sets

An item is a production with a marker in its body and the terminals that may
follow it, its lookaheads.  The item without its lookaheads is its core.

An item set is what a parser knows in one of its states.  It consists of kernel
items and of pending nonterminals: those that may come next, each of which stands
for all of its productions, with the marker at the start and with lookaheads in
common.  `ItemSet.items` lists both as items; what moves on, what comes next and
what may be reduced are read off that list.
-/

namespace ShiftReduce

/-- A production with a marker in its body. -/
structure DottedRule where
  rule : Rule
  /-- The number of body symbols before the marker. -/
  marker : Nat
deriving DecidableEq

namespace DottedRule

variable (d : DottedRule)

/-- The symbol right after the marker. -/
def next? : Option Symbol := d.rule.body[d.marker]?

/-- The symbol after the next one. -/
def beyond? : Option Symbol := d.rule.body[d.marker + 1]?

/-- The marker moved over the next symbol. -/
def advance : DottedRule := ⟨d.rule, d.marker + 1⟩

/-- Whether the production may be reduced: the marker is at the end of its body, or
the body is the blank alone. -/
def isReducible : Bool := d.marker = d.rule.body.length || d.rule.isEpsilon

/-- The order of cores: by production, then by marker. -/
def order (d e : DottedRule) : Ordering :=
  (compare d.rule.number e.rule.number).then (compare d.marker e.marker)

instance : Std.TransCmp order :=
  inferInstanceAs (Std.TransCmp (compareLex (compareOn fun d : DottedRule => d.rule.number)
    (compareOn fun d : DottedRule => d.marker)))

/-- Puts a core in its place in an ordered list, unless it is there. -/
def insertInto (d : DottedRule) : List DottedRule → List DottedRule
  | [] => [d]
  | e :: rest =>
    match d.order e with
    | .lt => d :: e :: rest
    | .eq => e :: rest
    | .gt => e :: insertInto d rest

end DottedRule

/-- A core with its lookaheads. -/
structure Item where
  core : DottedRule
  lookaheads : OrderedSet Terminal
deriving DecidableEq

namespace Item

/-- The item with more lookaheads. -/
def expect (k : Item) (more : OrderedSet Terminal) : Item := ⟨k.core, k.lookaheads ∪ more⟩

/-- The item with the marker moved over the next symbol. -/
def advance (k : Item) : Item := ⟨k.core.advance, k.lookaheads⟩

/-- Adds an item to a list: its lookaheads go to the item of the same core, and only
if there is none it becomes an item of its own. -/
def gather : List Item → Item → List Item
  | [], new => [new]
  | k :: rest, new =>
    if k.core = new.core then k.expect new.lookaheads :: rest else k :: gather rest new

/-- Gives the lookaheads of an item to the item of the same core, if there is one. -/
def inform : List Item → Item → List Item
  | [], _ => []
  | k :: rest, new =>
    if k.core = new.core then k.expect new.lookaheads :: rest else k :: inform rest new

/-- The cores of some items, each once and in order. -/
def cores (items : List Item) : List DottedRule :=
  items.foldr (fun k cores => k.core.insertInto cores) []

/-- The symbols after the markers of some items, in the order in which the items bring
them up.  The blank is not one of them. -/
def nextSymbols (g : Grammar) (items : List Item) : List Symbol :=
  (OrderedSet.ofList (items.filterMap (·.core.next?))).toList.filter (· ≠ .terminal g.blank)

/-- The kernel that some items reach across a symbol. -/
def across (x : Symbol) (items : List Item) : List Item :=
  ((items.filter (·.core.next? = some x)).map advance).foldl gather []

end Item

/-- A nonterminal that may come next, with what may follow it. -/
structure Pending where
  symbol : Nonterminal
  lookaheads : OrderedSet Terminal
deriving DecidableEq

/-- The productions of a pending nonterminal as items, the marker at the start. -/
def Pending.items (g : Grammar) (p : Pending) : List Item :=
  (g.productionsOf p.symbol).map fun r => ⟨⟨r, 0⟩, p.lookaheads⟩

/-- Kernel items and the nonterminals that they lead to. -/
structure ItemSet where
  kernels : List Item
  pendings : List Pending

namespace ItemSet

/-- The entry of a pending nonterminal. -/
def pending? (s : ItemSet) (n : Nonterminal) : Option Pending :=
  s.pendings.find? (·.symbol = n)

/-- The cores of the kernel, each once and in order. -/
def cores (s : ItemSet) : List DottedRule := Item.cores s.kernels

/-- Lets the kernel take in the lookaheads of a list of items. -/
def inform (s : ItemSet) (seed : List Item) : ItemSet :=
  { s with kernels := seed.foldl Item.inform s.kernels }

variable (g : Grammar) (s : ItemSet)

/-- All items: the kernel, then those of the pending nonterminals. -/
def items : List Item := s.kernels ++ s.pendings.flatMap (Pending.items g)

/-- The symbols that the set has a transition on. -/
def nextSymbols : List Symbol := Item.nextSymbols g (s.items g)

/-- The kernel that is reached over a symbol. -/
def advance (x : Symbol) : List Item := Item.across x (s.items g)

/-- The transitions of the set: each symbol that comes next, and the kernel that is
reached over it. -/
def edges : List (Symbol × List Item) :=
  let items := s.items g
  (Item.nextSymbols g items).map fun x => (x, Item.across x items)

theorem edges_eq : s.edges g = (s.nextSymbols g).map fun x => (x, s.advance g x) := rfl

/-- The productions that may be reduced, each with the lookaheads that call for it. -/
def reductions : List (Rule × OrderedSet Terminal) :=
  ((s.items g).filter (·.core.isReducible)).map fun k => (k.core.rule, k.lookaheads)

end ItemSet

end ShiftReduce
