import ShiftReduce.Parser.Tree
import ShiftReduce.Table.Basic

/-!
# The shift-reduce parser

A parser is driven by a parse table.  Its `Configuration` holds a stack of states, a
stack of the trees built so far, what it has read or reduced but not yet moved over,
and the input that is left.

`Configuration.step` is one move: the parser takes the symbol that comes next, and
shifts, reduces or halts as the table says.  A reduction puts the head of the
production in front of what comes next, so the transition on it is a move of its own.
`Configuration.run` repeats the move.  A parser may keep reducing without ever taking
another token, and so the number of moves is bounded by an argument.
-/

namespace ShiftReduce

/-- A token of the input. -/
structure Token where
  symbol : Nat
  text : String
deriving DecidableEq

/-- An input: tokens, and failures of the source that they come from, each with its
message.  Nothing is added to it, so the end symbol has to be in it. -/
abbrev Input := List (Except String Token)

/-- A symbol that comes next: a token of the input, or the head of a production just
reduced, which has no text. -/
structure Lookahead where
  symbol : Nat
  text : Option String
deriving DecidableEq

/-- Why a parser gave up. -/
inductive ParseError where
  /-- The source of the tokens failed. -/
  | source (message : String)
  | unexpectedEnd
  | unexpectedToken (symbol state : Nat)
  | table (fault : TableFault)
  | emptyStateStack
  | emptyNodeStack
deriving DecidableEq

/-- The wording of an error. -/
def ParseError.message (t : ParseTable) : ParseError → String
  | source message => "from lexer: " ++ message
  | unexpectedEnd => "unexpected EOI"
  | unexpectedToken symbol state =>
    "unexpected token `" ++ t.name symbol ++ "' in state " ++ toString state
  | table fault => "from parse table: " ++ fault.message
  | emptyStateStack => "empty state stack"
  | emptyNodeStack => "empty node stack"

/-- What a parser gives in the end. -/
abbrev Verdict := Except ParseError Tree

/-- A parser in the middle of its work.  All stacks have their top first. -/
structure Configuration where
  states : List Nat
  /-- What comes next, before any further input. -/
  pending : List Lookahead
  nodes : List Tree
  input : Input

/-- The outcome of a move. -/
inductive Move where
  | next (c : Configuration)
  | halt (verdict : Verdict) (c : Configuration)

namespace Configuration

/-- The configuration before the first move. -/
def start (input : Input) : Configuration := ⟨[ParseTable.initialState], [], [], input⟩

/-- Takes what comes next. -/
def take (c : Configuration) : Except ParseError Lookahead × Configuration :=
  match c.pending, c.input with
  | lookahead :: pending, _ => (.ok lookahead, { c with pending := pending })
  | [], [] => (.error .unexpectedEnd, c)
  | [], .error message :: input => (.error (.source message), { c with input := input })
  | [], .ok token :: input => (.ok ⟨token.symbol, some token.text⟩, { c with input := input })

/-- Moves over a symbol into another state.  A token becomes a leaf; the tree of a
nonterminal is on the stack already. -/
def shift (t : ParseTable) (c : Configuration) (lookahead : Lookahead) (target : Nat) :
    Configuration :=
  let leaf := if t.isShift lookahead.symbol then
      [Tree.leaf lookahead.symbol (lookahead.text.getD "")]
    else []
  { c with states := target :: c.states, nodes := leaf ++ c.nodes }

/-- Joins the topmost trees under the head of a production. -/
def reduce (t : ParseTable) (c : Configuration) (head length : Nat) : Move :=
  let top := c.nodes.take length
  if top.length < length then .halt (.error .emptyNodeStack) c
  else
    let tree := Tree.node head top.reverse
    let c := { c with nodes := c.nodes.drop length }
    if head = t.acceptSymbol then .halt (.ok tree) c
    else
      match c.states.drop length with
      | [] => .halt (.error .emptyStateStack) c
      | states => .next { c with
          states := states
          pending := ⟨head, none⟩ :: c.pending
          nodes := tree :: c.nodes }

/-- The two checks of a reduction, as conditions on the heights of the stacks. -/
theorem reduce_eq (t : ParseTable) (c : Configuration) (head length : Nat) :
    reduce t c head length =
    if c.nodes.length < length then .halt (.error .emptyNodeStack) c
    else
      let tree := Tree.node head (c.nodes.take length).reverse
      let rest := c.nodes.drop length
      if head = t.acceptSymbol then .halt (.ok tree) { c with nodes := rest }
      else if c.states.length ≤ length then .halt (.error .emptyStateStack) { c with nodes := rest }
      else .next ⟨c.states.drop length, ⟨head, none⟩ :: c.pending, tree :: rest, c.input⟩ := by
  have hn : (c.nodes.take length).length < length ↔ c.nodes.length < length := by
    rw [List.length_take]
    omega
  have hs : c.states.length ≤ length ↔ c.states.drop length = [] := List.drop_eq_nil_iff.symm
  simp only [reduce, hn, hs]
  refine ite_congr rfl (fun _ => rfl) fun _ => ite_congr rfl (fun _ => rfl) fun _ => ?_
  rcases c.states.drop length with _ | ⟨top, states⟩ <;> rfl

/-- One move. -/
def step (t : ParseTable) (c : Configuration) : Move :=
  match c.take with
  | (.error e, c) => .halt (.error e) c
  | (.ok lookahead, c) =>
    match c.states with
    | [] => .halt (.error .emptyStateStack) c
    | current :: _ =>
      match t.action current lookahead.symbol with
      | .shift target => .next (c.shift t lookahead target)
      | .reduce _ head length =>
        reduce t { c with pending := lookahead :: c.pending } head length
      | .fail => .halt (.error (.unexpectedToken lookahead.symbol current)) c
      | .fault fault => .halt (.error (.table fault)) c

/-- Moves until the parser halts, which it may not do within the bound. -/
def run (t : ParseTable) : Nat → Configuration → Option (Verdict × Configuration)
  | 0, _ => none
  | fuel + 1, c =>
    match step t c with
    | .next c => run t fuel c
    | .halt verdict c => some (verdict, c)

end Configuration

/-- A parser: its table, and the configuration in which it last halted. -/
structure Parser where
  table : ParseTable
  configuration : Configuration

namespace Parser

/-- A parser that has not parsed anything. -/
def ofTable (t : ParseTable) : Parser := ⟨t, ⟨[], [], [], []⟩⟩

/-- Parses an input from the start state on, whatever was parsed before.  The result
is missing if the parser has not halted within the bound on its moves. -/
def parse (fuel : Nat) (p : Parser) (input : Input) : Option (Verdict × Parser) :=
  ((Configuration.start input).run p.table fuel).map fun (verdict, c) => (verdict, ⟨p.table, c⟩)

end Parser

end ShiftReduce
