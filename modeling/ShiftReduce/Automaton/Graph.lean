import ShiftReduce.Automaton.Basic
import ShiftReduce.ItemSet.Expansion

/-!
# Graphs of item sets

A graph holds the states of an automaton while their lookaheads may still grow.  A
state whose kernel has grown is dirty, since its pending nonterminals and the states
after it have yet to hear of it.  `StateGraph.propagate` cleans one dirty state after
another until all of them know what they should.
-/

namespace ShiftReduce

/-- The states found so far, and those whose kernels have grown. -/
structure StateGraph where
  states : Array State := #[]
  dirty : Queue Nat compare := .empty

namespace StateGraph

/-- Lets the kernel of a state take in the lookaheads of some items.  The state is
dirty if any of them is new to it. -/
def inform (c : StateGraph) (id : Nat) (seed : List Item) : StateGraph :=
  match c.states[id]? with
  | none => c
  | some state =>
    let items := state.items.inform seed
    if items.kernels = state.items.kernels then c
    else ⟨c.states.setIfInBounds id { state with items := items }, c.dirty.enqueue id⟩

variable (g : Grammar) (sets : FirstFollow)

/-- Whether no state is dirty. -/
def isClean (c : StateGraph) : Bool := c.dirty.isEmpty

/-- Cleans the state that has been dirty longest: its pending nonterminals are found
anew, and the states after it are informed. -/
def cleanNext (c : StateGraph) : StateGraph :=
  match c.dirty.pop with
  | none => c
  | some (id, dirty) =>
    match c.states[id]? with
    | none => { c with dirty := dirty }
    | some state =>
      let refreshed := state.items.refresh g sets
      let items := refreshed.items g
      let c : StateGraph :=
        ⟨c.states.setIfInBounds id { state with items := refreshed }, dirty⟩
      state.transitions.foldl (fun c (x, target) => c.inform target (Item.across x items)) c

/-- More steps than propagation can take: a state gets dirty again only by a lookahead
that one of its kernel items has not had before. -/
def propagationBound (c : StateGraph) : Nat :=
  c.states.size +
  (c.states.toList.flatMap (·.items.kernels)).length * g.vocabulary.terminals.length + 1

/-- The graph without dirty states. -/
def propagate (c : StateGraph) : StateGraph :=
  runUntil isClean (cleanNext g sets) (propagationBound g c) c

end StateGraph

end ShiftReduce
