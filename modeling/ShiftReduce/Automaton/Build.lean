import ShiftReduce.Automaton.Conflict
import ShiftReduce.Automaton.Exploration

/-!
# Building the automaton of a grammar

The reductions are settled state by state on the graph of item sets, and the first
conflict is the result.

With `Merging.firstFound` a state does not change any more once it has been explored.
So exploration is given up at the first state in conflict: the states before it are
settled as they would be on the whole graph, which may be very much larger.
`Automaton.build_eq` says that this does not change the result.
-/

namespace ShiftReduce

/-- The whole graph of a grammar, in which no state is dirty. -/
def StateGraph.ofGrammar (g : Grammar) (sets : FirstFollow) : Merging → StateGraph
  | .firstFound => (Exploration.full g sets .firstFound).graph
  | .lalr => (Exploration.full g sets .lalr).graph.propagate g sets

/-- Whether the state explored last is in conflict. -/
def Exploration.inConflict (g : Grammar) (e : Exploration) : Bool :=
  match e.explored with
  | 0 => false
  | last + 1 =>
    match e.graph.states[last]? with
    | none => false
    | some state => !(state.settle g last).isOk

/-- The states of a graph, settled. -/
def StateGraph.settle (g : Grammar) (c : StateGraph) : Except BuildError Automaton :=
  (State.settleFrom g 0 c.states.toList).map Automaton.mk

/-- The automaton of a grammar. -/
def Automaton.build (g : Grammar) (merging : Merging) : Except BuildError Automaton :=
  let sets := g.firstFollow
  match merging with
  | .firstFound => (Exploration.upTo g sets .firstFound (·.inConflict g)).graph.settle g
  | .lalr => (StateGraph.ofGrammar g sets .lalr).settle g

/-! ### Giving up early -/

theorem Exploration.exists_of_inConflict {g : Grammar} {e : Exploration}
    (h : e.inConflict g = true) :
    ∃ last state, e.explored = last + 1 ∧ e.graph.states[last]? = some state ∧
      (state.settle g last).isOk = false := by
  unfold inConflict at h
  split at h
  · contradiction
  · rename_i last he
    split at h
    · contradiction
    · rename_i state hs
      exact ⟨last, state, he, hs, by simpa using h⟩

/-- An exploration that goes on after a conflict does not change the answer. -/
theorem Exploration.settle_of_extends {g : Grammar} {e e' : Exploration} (h : e.Extends e')
    (conflict : e.inConflict g = true) : e'.graph.settle g = e.graph.settle g := by
  obtain ⟨last, state, he, hs, hc⟩ := exists_of_inConflict conflict
  have same : ∀ i ≤ last, e'.graph.states.toList[i]? = e.graph.states.toList[i]? := fun i hi => by
    simpa using h.states_eq i (by omega)
  have mem : e.graph.states.toList[last]? = some state := by simpa using hs
  simp only [StateGraph.settle, State.settleFrom_congr same
    ((same last (Nat.le_refl last)).trans mem) (by rwa [Nat.zero_add])]

/-- The automaton is the whole graph, settled. -/
theorem Automaton.build_eq (g : Grammar) (merging : Merging) :
    build g merging = (StateGraph.ofGrammar g g.firstFollow merging).settle g := by
  cases merging with
  | lalr => rfl
  | firstFound =>
    rcases Exploration.upTo_eq_full_or g g.firstFollow (·.inConflict g) with h | ⟨conflict, h⟩
    · simp only [build, StateGraph.ofGrammar, h]
    · exact (Exploration.settle_of_extends h conflict).symm

end ShiftReduce
