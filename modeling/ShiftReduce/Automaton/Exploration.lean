import ShiftReduce.Automaton.Graph
import Std.Data.TreeMap

/-!
# Exploring the states of a grammar

The states and transitions of an automaton are found from the start state on, state
by state and symbol by symbol.  The kernel that a state reaches over a symbol leads to
the state with the same cores, or to a new one.  With `Merging.lalr` a known state takes
in the lookaheads of every kernel that leads to it, and may get dirty by that.

States are looked up by their cores in an index, since there may be very many of them.
The index stands for an insertion-ordered map, the counterpart to the sets of
`OrderedSet`, whose order is never looked at: it is asked for the number of given cores
and extended by cores that it does not have.  The key is the sorted list of the cores
without repetition (`Item.cores`), so that kernels are told apart as sets.  The states
themselves and the transitions of each of them are in such maps, too.  Their order is
looked at, and it is that of insertion: keys are new whenever they are inserted, so an
array and a list that grow at the end have the same order.
-/

namespace ShiftReduce

/-- An exploration under way. -/
structure Exploration where
  graph : StateGraph := {}
  /-- The number of the state that has these cores in its kernel. -/
  index : Std.TreeMap (List DottedRule) Nat (List.compareLex DottedRule.order) := {}
  /-- How many states have their transitions.  The other states wait for theirs. -/
  explored : Nat := 0

namespace Exploration

variable (g : Grammar) (sets : FirstFollow) (merging : Merging)

/-- The state of a kernel, which is made if no state has the same cores. -/
def intern (e : Exploration) (kernel : List Item) : Nat × Exploration :=
  let cores := Item.cores kernel
  match e.index[cores]? with
  | some id =>
    match merging with
    | .firstFound => (id, e)
    | .lalr => (id, { e with graph := e.graph.inform id kernel })
  | none =>
    let id := e.graph.states.size
    (id, { e with
      graph.states := e.graph.states.push { items := .ofKernels g sets kernel }
      index := e.index.insert cores id })

/-- Adds a transition over a symbol to the state of a kernel, from the first state that
waits for its transitions. -/
def connect (e : Exploration) (edge : Symbol × List Item) : Exploration :=
  let (target, e) := e.intern g sets merging edge.2
  let link (state : State) : State :=
    { state with transitions := state.transitions ++ [(edge.1, target)] }
  { e with graph.states := e.graph.states.modify e.explored link }

/-- Whether all states have their transitions. -/
def isDone (e : Exploration) : Bool := e.graph.states.size ≤ e.explored

/-- Gives the first state that waits for its transitions its own.  Their kernels are
taken before any of them is interned: a state that leads to itself may grow on the
way. -/
def next (e : Exploration) : Exploration :=
  match e.graph.states[e.explored]? with
  | none => e
  | some state =>
    let e := (state.items.edges g).foldl (connect g sets merging) e
    { e with explored := e.explored + 1 }

/-- The kernel of the start state: the accepting production before its body, with the
end marker to follow. -/
def startKernel : List Item := [⟨⟨g.acceptRule, 0⟩, .single g.endMarker⟩]

/-- The start state alone, which waits for its transitions. -/
def start : Exploration := (intern g sets .firstFound {} (startKernel g)).2

/-- More states than there can be: each has a kernel of its own, made of items of the
grammar. -/
def bound : Nat :=
  Nat.pow 2 ((g.allRules.flatMap (·.body)).length + g.allRules.length) + 1

/-- The finished exploration: all states that the start state leads to, with their
transitions. -/
def full : Exploration := runUntil isDone (next g sets merging) (bound g) (start g sets)

/-- The exploration that is given up as soon as it has come to the mark. -/
def upTo (mark : Exploration → Bool) : Exploration :=
  runUntil (doneOrAt mark isDone) (next g sets merging) (bound g) (start g sets)

/-! ### What has been explored

With `Merging.firstFound` a state that has been explored does not change any more.
-/

/-- One exploration goes on from another and leaves alone what that one has explored. -/
structure Extends (e e' : Exploration) : Prop where
  explored_le : e.explored ≤ e'.explored
  size_le : e.graph.states.size ≤ e'.graph.states.size
  explored_le_size : e'.explored ≤ e'.graph.states.size
  states_eq : ∀ i < e.explored, e'.graph.states[i]? = e.graph.states[i]?

theorem Extends.trans {e e' e'' : Exploration} (h : e.Extends e') (h' : e'.Extends e'') :
    e.Extends e'' :=
  ⟨Nat.le_trans h.explored_le h'.explored_le, Nat.le_trans h.size_le h'.size_le,
    h'.explored_le_size, fun i hi =>
      (h'.states_eq i (Nat.lt_of_lt_of_le hi h.explored_le)).trans (h.states_eq i hi)⟩

theorem Extends.refl {e : Exploration} (h : e.explored ≤ e.graph.states.size) : e.Extends e :=
  ⟨Nat.le_refl _, Nat.le_refl _, h, fun _ _ => rfl⟩

theorem extends_intern {e : Exploration} (h : e.explored ≤ e.graph.states.size)
    (kernel : List Item) : e.Extends (e.intern g sets .firstFound kernel).2 := by
  unfold intern
  dsimp only
  split
  · exact Extends.refl h
  · refine ⟨Nat.le_refl _, by simp, by simpa using Nat.le_succ_of_le h, fun i hi => ?_⟩
    simp [Array.getElem?_push, show i ≠ e.graph.states.size by omega]

theorem explored_intern (e : Exploration) (kernel : List Item) :
    (e.intern g sets .firstFound kernel).2.explored = e.explored := by
  unfold intern
  dsimp only
  split <;> rfl

/-- Transitions are added to no state but the one that is being explored. -/
theorem extends_connect {e : Exploration} (h : e.explored ≤ e.graph.states.size)
    (edge : Symbol × List Item) : e.Extends (e.connect g sets .firstFound edge) := by
  have hi := extends_intern g sets h edge.2
  have he := explored_intern g sets e edge.2
  refine hi.trans ⟨Nat.le_refl _, by simp [connect], by simpa [connect] using hi.explored_le_size,
    fun i hlt => ?_⟩
  simp only [connect]
  rw [Array.getElem?_modify, if_neg (by omega)]

theorem explored_connect (e : Exploration) (edge : Symbol × List Item) :
    (e.connect g sets .firstFound edge).explored = e.explored :=
  explored_intern g sets e edge.2

theorem extends_foldl_connect {e : Exploration} (h : e.explored ≤ e.graph.states.size)
    (edges : List (Symbol × List Item)) :
    e.Extends (edges.foldl (connect g sets .firstFound) e) ∧
    (edges.foldl (connect g sets .firstFound) e).explored = e.explored := by
  induction edges generalizing e with
  | nil => exact ⟨Extends.refl h, rfl⟩
  | cons edge edges ih =>
    have hc := extends_connect g sets h edge
    have he := explored_connect g sets e edge
    obtain ⟨hf, hfe⟩ := ih hc.explored_le_size
    exact ⟨hc.trans hf, hfe.trans he⟩

theorem extends_next {e : Exploration} (h : e.explored ≤ e.graph.states.size) :
    e.Extends (e.next g sets .firstFound) := by
  unfold next
  split
  · exact Extends.refl h
  · rename_i state hs
    have hlt : e.explored < e.graph.states.size := (Array.getElem?_eq_some_iff.1 hs).1
    obtain ⟨hf, he⟩ := extends_foldl_connect g sets h (state.items.edges g)
    refine ⟨by simp [he], hf.size_le, ?_, hf.states_eq⟩
    have := hf.size_le
    simp only [he]
    omega

/-- A run of the exploration leaves alone what has been explored before it. -/
theorem extends_runUntil (fuel : Nat) {e : Exploration} (h : e.explored ≤ e.graph.states.size) :
    e.Extends (runUntil isDone (next g sets .firstFound) fuel e) :=
  runUntil_invariant (fun _ he _ => he.trans (extends_next g sets he.explored_le_size)) fuel
    (Extends.refl h)

/-- An exploration that is given up early comes to a mark, and the whole exploration goes
on from there. -/
theorem upTo_eq_full_or (mark : Exploration → Bool) :
    upTo g sets .firstFound mark = full g sets .firstFound ∨
    (mark (upTo g sets .firstFound mark) = true ∧
      (upTo g sets .firstFound mark).Extends (full g sets .firstFound)) := by
  have hstart : (start g sets).explored ≤ (start g sets).graph.states.size :=
    Nat.le_trans (Nat.le_of_eq (explored_intern g sets {} (startKernel g))) (Nat.zero_le _)
  refine (runUntil_doneOrAt (bound g) (start g sets)).imp id fun ⟨n, hn, h, hm⟩ => ?_
  have hfull : full g sets .firstFound = runUntil isDone (next g sets .firstFound) (bound g - n)
      (upTo g sets .firstFound mark) := by
    rw [upTo, h, ← runUntil_add, Nat.add_sub_of_le hn, full]
  refine ⟨by rwa [upTo, h], hfull ▸ extends_runUntil g sets _ ?_⟩
  rw [upTo, h]
  exact (extends_runUntil g sets n hstart).explored_le_size

end Exploration

end ShiftReduce
