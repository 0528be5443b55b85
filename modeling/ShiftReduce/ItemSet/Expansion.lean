import ShiftReduce.FirstFollow
import ShiftReduce.ItemSet.Basic
import ShiftReduce.Queue

/-!
# Expanding a kernel

Expansion finds the nonterminals that may come next in a kernel, and what may follow
each of them.  An item with `Y` after the marker makes `Y` pending, and so does a
production of a pending nonterminal whose body begins with `Y`.  In both cases `Y`
may be followed by FIRST of the symbol after it, or, if there is none, by whatever
may follow the item.

Pending nonterminals whose lookaheads have grown wait in a queue, since their
productions then have more to hand on.

* `ItemSet.ofKernels`: the item set of a kernel.
* `ItemSet.close`: the same, but a kernel with two blank productions is refused.
-/

namespace ShiftReduce

/-- An expansion under way: what is pending so far, and whose productions are still
to be looked at. -/
structure Expansion where
  pendings : List Pending := []
  queue : Queue Nonterminal Nonterminal.order := .empty

namespace Expansion

/-- Adds lookaheads to the entry of a nonterminal, which is made if there is none. -/
def await (n : Nonterminal) (lookaheads : OrderedSet Terminal) : List Pending → List Pending
  | [] => [⟨n, lookaheads⟩]
  | p :: rest =>
    if p.symbol = n then ⟨n, p.lookaheads ∪ lookaheads⟩ :: rest
    else p :: await n lookaheads rest

/-- What may follow a symbol of a body: FIRST of the symbol after it, or else what
may follow the whole body. -/
def following (sets : FirstFollow) (beyond : Option Symbol) (own : OrderedSet Terminal) :
    OrderedSet Terminal :=
  match beyond with
  | some x => sets.firstOf x
  | none => own

/-- The lookaheads of a pending nonterminal so far. -/
def lookaheads (e : Expansion) (n : Nonterminal) : OrderedSet Terminal :=
  match e.pendings.find? (·.symbol = n) with
  | some p => p.lookaheads
  | none => ∅

/-- Whether a nonterminal is pending with all of these lookaheads already. -/
def knows (e : Expansion) (n : Nonterminal) (lookaheads : OrderedSet Terminal) : Bool :=
  match e.pendings.find? (·.symbol = n) with
  | some p => lookaheads.toList.all fun t => decide (t ∈ p.lookaheads)
  | none => false

/-- Makes the nonterminal after the marker of a kernel item pending. -/
def fromKernel (sets : FirstFollow) (e : Expansion) (k : Item) : Expansion :=
  match k.core.next? with
  | some (.nonterminal n) =>
    ⟨await n (following sets k.core.beyond? k.lookaheads) e.pendings, e.queue.enqueue n⟩
  | _ => e

/-- Makes the first symbol of a production pending, if it is a nonterminal. -/
def fromRule (sets : FirstFollow) (e : Expansion) (r : Rule) : Expansion :=
  match r.body with
  | .nonterminal n :: rest =>
    let lookaheads := following sets rest.head? (e.lookaheads r.head)
    if e.knows n lookaheads then e
    else ⟨await n lookaheads e.pendings, e.queue.enqueue n⟩
  | _ => e

/-- Whether no nonterminal waits. -/
def isDone (e : Expansion) : Bool := e.queue.isEmpty

/-- Looks at the productions of the nonterminal that has waited longest. -/
def next (g : Grammar) (sets : FirstFollow) (e : Expansion) : Expansion :=
  match e.queue.pop with
  | none => e
  | some (n, queue) => (g.productionsOf n).foldl (fromRule sets) ⟨e.pendings, queue⟩

/-- More steps than an expansion can take: every nonterminal that enters the queue
again has one more lookahead than before. -/
def bound (g : Grammar) (kernels : List Item) : Nat :=
  (g.vocabulary.nonterminals.length + kernels.length + 1) *
  (g.vocabulary.terminals.length + (kernels.flatMap (·.lookaheads.toList)).length + 2)

/-- The expansion of a kernel before its first step. -/
def start (sets : FirstFollow) (kernels : List Item) : Expansion :=
  kernels.foldl (fromKernel sets) {}

/-- The finished expansion of a kernel. -/
def ofKernels (g : Grammar) (sets : FirstFollow) (kernels : List Item) : Expansion :=
  runUntil isDone (next g sets) (bound g kernels) (start sets kernels)

end Expansion

/-- A kernel holds more than one blank production. -/
structure EpsilonClash where
  /-- The blank productions of the kernel, in its order. -/
  rules : List Rule
deriving DecidableEq

/-- The wording of a clash. -/
def EpsilonClash.message (c : EpsilonClash) : String :=
  "found " ++ toString c.rules.length ++ " epsilon productions in one kernel"

namespace ItemSet

/-- The item set of a kernel. -/
def ofKernels (g : Grammar) (sets : FirstFollow) (kernels : List Item) : ItemSet :=
  ⟨kernels, (Expansion.ofKernels g sets kernels).pendings⟩

/-- The item set of the kernel as it is now. -/
def refresh (g : Grammar) (sets : FirstFollow) (s : ItemSet) : ItemSet :=
  ofKernels g sets s.kernels

/-- The clash of a kernel with more than one blank production. -/
def clash? (kernels : List Item) : Option EpsilonClash :=
  let rules := (kernels.map (·.core.rule)).filter (·.isEpsilon)
  if 1 < rules.length then some ⟨rules⟩ else none

/-- The item set of a kernel with at most one blank production. -/
def close (g : Grammar) (sets : FirstFollow) (kernels : List Item) : Except EpsilonClash ItemSet :=
  match clash? kernels with
  | some clash => .error clash
  | none => .ok (ofKernels g sets kernels)

end ItemSet

end ShiftReduce
