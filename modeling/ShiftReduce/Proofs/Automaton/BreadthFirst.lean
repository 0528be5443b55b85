import ShiftReduce.Proofs.Automaton.Conflicts
import ShiftReduce.Proofs.Parser.Run

/-!
# Breadth first

The states of an automaton are numbered breadth first: for every state but the first let the first
transition into it be the one whose source has the least number, and among those of one source the
one that is listed first.  The source comes before the state, and the places of the first
transitions are in the order of the states (`Automaton.breadthFirst_of_build`).

A state is what its first transition has made of it.  With `Merging.firstFound` the first lookaheads
are kept, so the kernel is that which the source reaches, and the pending nonterminals are those
that expansion finds for it.  With `Merging.lalr` lookaheads have been added since, to the state and
to its source, but the cores and the pending nonterminals are the same and in the same order.
-/

namespace ShiftReduce

namespace Automaton

variable {g : Grammar} {a : Automaton} {merging : Merging}

/-- A state is as it was made for the kernel that another one reaches over a symbol.  With
`Merging.lalr` this is said of the cores and of the pending nonterminals only. -/
def MadeOver (g : Grammar) (a : Automaton) : Merging → Nat → Symbol → Nat → Prop
  | .firstFound, p, x, q =>
    (a.look q).items.kernels = (a.look p).items.advance g x ∧
    ItemSet.close g g.firstFollow ((a.look p).items.advance g x) = .ok (a.look q).items
  | .lalr, p, x, q =>
    (a.look q).kernel = ((a.look p).items.advance g x).map (·.core) ∧
    ∃ made, ItemSet.close g g.firstFollow ((a.look p).items.advance g x) = .ok made ∧
      (a.look q).items.pendings.map (·.symbol) = made.pendings.map (·.symbol)

/-- The automaton has the skeletons that the exploration has come to. -/
theorem skeleton_of_build (hg : g.WellFormed) (h : build g merging = .ok a) (q : Nat) :
    (a.look q).skeleton =
      ((Exploration.full g g.firstFollow .firstFound).graph.look q).skeleton := by
  have halike := StateGraph.alike_full_ofGrammar hg merging
  rw [build_eq] at h
  obtain ⟨hitems, htransitions, -⟩ := look_of_settle h q
  rw [← halike.look q, State.skeleton, State.skeleton, State.kernel, State.kernel, hitems,
    htransitions]

/-- With `Merging.firstFound` it has their items as well. -/
theorem items_of_build (h : build g .firstFound = .ok a) (q : Nat) :
    (a.look q).items = ((Exploration.full g g.firstFollow .firstFound).graph.look q).items := by
  rw [build_eq] at h
  exact (look_of_settle h q).1

/-- A kernel with the cores of a state is not refused. -/
theorem close_of_map_core_eq (hg : g.WellFormed) (h : build g merging = .ok a) {q : Nat}
    {kernels : List Item} (hcores : (a.look q).kernel = kernels.map (·.core)) :
    ItemSet.close g g.firstFollow kernels = .ok (.ofKernels g g.firstFollow kernels) := by
  refine ItemSet.close_eq_ok_iff.2 ⟨ItemSet.clash?_eq_none fun d hd => ?_, rfl⟩
  rw [build_eq] at h
  rw [← hcores, kernel_of_settle h] at hd
  exact StateGraph.isEpsilon_kernel_ofGrammar hg merging q d hd

/-- A state that has been found over a transition is as it was made for it. -/
theorem madeOver_of_foundAt (hg : g.WellFormed) (h : build g merging = .ok a) {look : Nat → State}
    (hskeleton : ∀ r, (a.look r).skeleton = (look r).skeleton)
    (hitems : merging = .firstFound → ∀ r, (a.look r).items = (look r).items) {q p i : Nat}
    {x : Symbol} (hfound : FoundAt g g.firstFollow look q p i x) : a.MadeOver g merging p x q := by
  -- Cores are advanced without regard to lookaheads.
  have hadvance : ((a.look p).items.advance g x).map (·.core) =
      ((look p).items.advance g x).map (·.core) :=
    State.map_core_advance_of_skeleton_eq g x (hskeleton p)
  have hkernel : (a.look q).kernel = ((look p).items.advance g x).map (·.core) := by
    rw [State.kernel_eq_of_skeleton_eq (hskeleton q), State.kernel, hfound.items]
    rfl
  have hclose := close_of_map_core_eq hg h (hkernel.trans hadvance.symm)
  cases merging with
  | firstFound =>
      rw [MadeOver, hclose, hitems rfl, hfound.items, hitems rfl]
      exact ⟨rfl, rfl⟩
  | lalr =>
      have hrules : ∀ k ∈ (look p).items.advance g x, k.core.rule ∈ g.allRules := by
        intro k hk
        have hmem : k.core ∈ (a.look q).kernel := hkernel ▸ List.mem_map_of_mem hk
        exact ((consistent_of_build hg h).shaped.kernel_of q _ hmem).1
      refine ⟨hkernel.trans hadvance.symm, _, hclose, ?_⟩
      rw [State.symbols_eq_of_skeleton_eq (hskeleton q), hfound.items]
      exact (Expansion.symbols_ofKernels_congr hg hg.declared_firstFollow hrules hadvance).symm

/-- The states of an automaton are numbered breadth first, and each is what its first transition has
made of it. -/
structure BreadthFirst (g : Grammar) (merging : Merging) (a : Automaton) : Prop where
  /-- The first transition into a state comes from a state before it. -/
  first : ∀ q < a.states.length, q ≠ 0 → ∃ p i x, IsLeast (entries a.look q) (toLex (p, i)) ∧
    p < q ∧ (a.look p).transitions[i]? = some (x, q) ∧ a.MadeOver g merging p x q
  /-- The first transitions are in the order of the states that they lead to. -/
  ordered : ∀ q q' place place', q ≠ 0 → q < q' → q' < a.states.length →
    IsLeast (entries a.look q) place → IsLeast (entries a.look q') place' → place < place'

/-- Every automaton is numbered breadth first. -/
theorem breadthFirst_of_build {declarations : List Declaration}
    (hg : Grammar.define declarations = .ok g) (h : build g merging = .ok a) :
    BreadthFirst g merging a := by
  have hg := Grammar.wellFormed_of_define hg
  have hnumbered := Exploration.numbered_full g g.firstFollow
  have hskeleton := skeleton_of_build hg h
  have htransitions := fun p => State.transitions_eq_of_skeleton_eq (hskeleton p)
  have hentries := entries_congr htransitions
  constructor
  case first =>
    intro q hq hne
    have hsize : a.states.length =
        (Exploration.full g g.firstFollow .firstFound).graph.states.size := by
      rw [build_eq] at h
      rw [length_of_settle h, (StateGraph.alike_full_ofGrammar hg merging).size]
    obtain ⟨p, i, x, hfound⟩ := hnumbered.found q (hsize ▸ hq) hne
    have hitems : merging = .firstFound → ∀ r, (a.look r).items =
        ((Exploration.full g g.firstFollow .firstFound).graph.look r).items := by
      rintro rfl
      exact items_of_build h
    refine ⟨p, i, x, hentries ▸ hfound.least, hfound.lt, ?_,
      madeOver_of_foundAt hg h hskeleton hitems hfound⟩
    rw [htransitions]
    exact hfound.edge
  case ordered =>
    intro q q' place place' hne hlt _ hplace hplace'
    rw [hentries] at hplace hplace'
    exact hnumbered.lt hne hlt hplace hplace'

/-- The state behind `e` is entered from two states, with one lookahead each, and it has that of the
first. -/
theorem breadthFirst_of_build_lateLookahead : ∃ g a,
    Grammar.define Samples.lateLookahead = .ok g ∧ build g .firstFound = .ok a ∧
    BreadthFirst g .firstFound a ∧
    ((a.look 2).transitions[1]? = some (.terminal ⟨6⟩, 5) ∧
      ((a.look 2).items.advance g (.terminal ⟨6⟩)).map (·.lookaheads.toList) = [[⟨4⟩]]) ∧
    ((a.look 3).transitions[1]? = some (.terminal ⟨6⟩, 5) ∧
      ((a.look 3).items.advance g (.terminal ⟨6⟩)).map (·.lookaheads.toList) = [[⟨5⟩]]) ∧
    (a.look 5).items.kernels.map (·.lookaheads.toList) = [[⟨4⟩]] := by
  have hpasses : passes Samples.lateLookahead .firstFound (fun g a => decide
      (((a.look 2).transitions[1]? = some (.terminal ⟨6⟩, 5) ∧
        ((a.look 2).items.advance g (.terminal ⟨6⟩)).map (·.lookaheads.toList) = [[⟨4⟩]]) ∧
      ((a.look 3).transitions[1]? = some (.terminal ⟨6⟩, 5) ∧
        ((a.look 3).items.advance g (.terminal ⟨6⟩)).map (·.lookaheads.toList) = [[⟨5⟩]]) ∧
      (a.look 5).items.kernels.map (·.lookaheads.toList) = [[⟨4⟩]])) = true := by
    decide +kernel
  obtain ⟨g, a, hg, h, hcheck⟩ := exists_of_passes hpasses
  exact ⟨g, a, hg, h, breadthFirst_of_build hg h, of_decide_eq_true hcheck⟩

end Automaton

end ShiftReduce
