/-!
# Parse tables

A parse table is what a parser needs of an automaton: states, symbols and productions
are numbers, and every table is indexed by them.  Number zero is neither a symbol nor
a production.

A table may come from elsewhere than an automaton, so nothing is assumed of it: a row
may be short and an entry may lead nowhere.  `ParseTable.action` tells such faults
from an entry that means failure.

The numbers and entries of a table have no width here.  A table that is kept in words of
32 bits is the same as long as everything fits.  For the table of an automaton that means
fewer than `2 ^ 31` states (`Automaton.inWords_table`).
-/

namespace ShiftReduce

/-- A parse table. -/
structure ParseTable where
  /-- The terminals have the numbers from one to this one. -/
  terminalCount : Nat
  /-- The head of each production. -/
  heads : Array Nat
  /-- How many nodes a reduction by each production takes. -/
  lengths : Array Nat
  /-- For each state and each symbol: a positive entry is the next state, a negative
  one a production to reduce by, and zero means failure. -/
  actions : Array (Array Int)
  /-- The name of each symbol. -/
  names : Array String
  /-- The head of the accepting production. -/
  acceptSymbol : Nat
  /-- The terminal at the end of every input. -/
  endSymbol : Nat

/-- What a table lacks. -/
inductive TableFault where
  | state
  | symbol
  | rule
deriving DecidableEq

/-- The wording of a fault. -/
def TableFault.message : TableFault → String
  | .state => "incorrect state"
  | .symbol => "incorrect symbol"
  | .rule => "incorrect production rule"

/-- What to do in a state before a symbol. -/
inductive Action where
  | shift (target : Nat)
  | reduce (rule head length : Nat)
  | fail
  | fault (fault : TableFault)
deriving DecidableEq

namespace ParseTable

variable (t : ParseTable)

/-- The state in which every run begins. -/
def initialState : Nat := 0

/-- What an entry of the action table stands for. -/
def decode (entry : Int) : Action :=
  if entry = 0 then .fail
  else if 0 < entry then .shift entry.toNat
  else
    let rule := entry.natAbs
    match t.heads[rule]?, t.lengths[rule]? with
    | some head, some length => .reduce rule head length
    | _, _ => .fault .rule

/-- What to do in a state before a symbol. -/
def action (state symbol : Nat) : Action :=
  match t.actions[state]? with
  | none => .fault .state
  | some row =>
    match row[symbol]? with
    | none => .fault .symbol
    | some entry => t.decode entry

/-- Whether a transition on the symbol consumes a token. -/
def isShift (symbol : Nat) : Bool := symbol ≤ t.terminalCount

/-- The name of a symbol. -/
def name (symbol : Nat) : String := t.names.getD symbol "<unknown>"

end ParseTable

end ShiftReduce
