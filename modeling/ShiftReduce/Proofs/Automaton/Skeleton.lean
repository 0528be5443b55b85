import ShiftReduce.Proofs.Automaton.Build
import ShiftReduce.Proofs.ItemSet.Discovery

/-!
# The skeleton of an automaton

The skeleton of a state is what is left of it without lookaheads: its cores, its pending
nonterminals and its transitions, all in order.  Lookaheads have no influence on skeletons.  So
both kinds of merging come to the same states, under the same numbers and with the same
transitions (`alike_ofGrammar`).

## Strategy

Two explorations with the same skeletons take corresponding steps (`Alike.next`), since a kernel
is looked up by its cores, and a new state has the pending nonterminals that its cores ask for,
in the order in which they ask for them (`symbols_ofKernels_congr`).  Propagation changes no
skeleton either (`alike_propagate`).
-/

namespace ShiftReduce

/-! ## Skeletons -/

/-- A state without its lookaheads. -/
structure Skeleton where
  kernel : List DottedRule
  pending : List Nonterminal
  transitions : List (Symbol × Nat)

/-- The skeleton with a transition more. -/
def Skeleton.link (k : Skeleton) (edge : Symbol × Nat) : Skeleton :=
  { k with transitions := k.transitions ++ [edge] }

/-- What is left of a state without its lookaheads. -/
def State.skeleton (s : State) : Skeleton :=
  ⟨s.kernel, s.items.pendings.map (·.symbol), s.transitions⟩

/-- The pending nonterminals are those of any kernel with the same cores. -/
def Skeleton.Ordered (g : Grammar) (sets : FirstFollow) (k : Skeleton) : Prop :=
  ∀ kernels : List Item, kernels.map (·.core) = k.kernel →
    (Expansion.ofKernels g sets kernels).pendings.map (·.symbol) = k.pending

namespace State

variable {s s' : State}

theorem kernel_eq_of_skeleton_eq (h : s'.skeleton = s.skeleton) : s'.kernel = s.kernel :=
  congrArg Skeleton.kernel h

theorem symbols_eq_of_skeleton_eq (h : s'.skeleton = s.skeleton) :
    s'.items.pendings.map (·.symbol) = s.items.pendings.map (·.symbol) :=
  congrArg Skeleton.pending h

theorem transitions_eq_of_skeleton_eq (h : s'.skeleton = s.skeleton) :
    s'.transitions = s.transitions :=
  congrArg Skeleton.transitions h

/-- The skeleton determines the cores of the items. -/
theorem map_core_items_of_skeleton_eq (g : Grammar) (h : s'.skeleton = s.skeleton) :
    (s'.items.items g).map (·.core) = (s.items.items g).map (·.core) := by
  have hkernel : s'.items.kernels.map (·.core) = s.items.kernels.map (·.core) :=
    kernel_eq_of_skeleton_eq h
  rw [ItemSet.map_core_items, ItemSet.map_core_items, hkernel, symbols_eq_of_skeleton_eq h]

/-- And so the cores that are reached over a symbol. -/
theorem map_core_advance_of_skeleton_eq (g : Grammar) (x : Symbol)
    (h : s'.skeleton = s.skeleton) :
    (s'.items.advance g x).map (·.core) = (s.items.advance g x).map (·.core) := by
  rw [ItemSet.advance, ItemSet.advance, Item.map_core_across, Item.map_core_across,
    map_core_items_of_skeleton_eq g h]

end State

namespace StateGraph

/-- Two graphs have states with the same skeletons. -/
structure Alike (c c' : StateGraph) : Prop where
  size : c'.states.size = c.states.size
  look : ∀ q, (c'.look q).skeleton = (c.look q).skeleton

namespace Alike

variable {c c' c'' : StateGraph}

theorem refl (c : StateGraph) : c.Alike c := ⟨rfl, fun _ => rfl⟩

theorem symm (h : c.Alike c') : c'.Alike c := ⟨h.size.symm, fun q => (h.look q).symm⟩

theorem trans (h : c.Alike c') (h' : c'.Alike c'') : c.Alike c'' :=
  ⟨h'.size.trans h.size, fun q => (h'.look q).trans (h.look q)⟩

end Alike

/-- The pending nonterminals of all states are those that their cores ask for. -/
def Ordered (g : Grammar) (sets : FirstFollow) (c : StateGraph) : Prop :=
  ∀ q < c.states.size, (c.look q).skeleton.Ordered g sets

theorem Ordered.of_alike {g : Grammar} {sets : FirstFollow} {c c' : StateGraph}
    (h : c.Ordered g sets) (halike : c.Alike c') : c'.Ordered g sets := by
  intro q hq
  rw [halike.look]
  exact h q (halike.size ▸ hq)

/-- No state lists a pending nonterminal twice. -/
theorem Ordered.nodup {g : Grammar} {sets : FirstFollow} {c : StateGraph}
    (h : c.Ordered g sets) (q : Nat) : ((c.look q).items.pendings.map (·.symbol)).Nodup := by
  rcases Nat.lt_or_ge q c.states.size with hq | hq
  · show (c.look q).skeleton.pending.Nodup
    rw [← h q hq (c.look q).items.kernels rfl]
    exact Expansion.nodup_ofKernels
  · rw [look_of_size_le hq]
    exact List.nodup_nil

theorem alike_inform (c : StateGraph) (id : Nat) (seed : List Item) :
    c.Alike (c.inform id seed) where
  size := c.size_inform id seed
  look q := by
    rw [State.skeleton, c.kernel_inform, c.pendings_inform, c.transitions_inform, State.skeleton]

end StateGraph

/-! ## Exploration -/

namespace Exploration

variable {g : Grammar} {sets : FirstFollow} {merging merging' : Merging}

/-- Two explorations have come to the same states and know them under the same cores. -/
structure Alike (g : Grammar) (sets : FirstFollow) (e e' : Exploration) : Prop where
  graph : e.graph.Alike e'.graph
  index : e'.index = e.index
  explored : e'.explored = e.explored
  ordered : e.graph.Ordered g sets

/-- A kernel that is known changes no skeleton. -/
theorem intern_of_known (g : Grammar) (sets : FirstFollow) (merging : Merging)
    {e : Exploration} {kernel : List Item} {id : Nat} (h : e.index[Item.cores kernel]? = some id) :
    (e.intern g sets merging kernel).1 = id ∧
    e.graph.Alike (e.intern g sets merging kernel).2.graph ∧
    (e.intern g sets merging kernel).2.index = e.index ∧
    (e.intern g sets merging kernel).2.explored = e.explored := by
  unfold intern
  dsimp only
  rw [h]
  cases merging with
  | firstFound => exact ⟨rfl, .refl _, rfl, rfl⟩
  | lalr => exact ⟨rfl, e.graph.alike_inform id kernel, rfl, rfl⟩

/-- A kernel that is not known becomes a state. -/
theorem intern_of_new {e : Exploration} {kernel : List Item}
    (h : e.index[Item.cores kernel]? = none) :
    e.intern g sets merging kernel = (e.graph.states.size, { e with
      graph.states := e.graph.states.push { items := .ofKernels g sets kernel }
      index := e.index.insert (Item.cores kernel) e.graph.states.size }) := by
  unfold intern
  dsimp only
  rw [h]

/-- Connecting interns a kernel and adds a transition to the state that is being explored. -/
theorem skeleton_connect (e : Exploration) (x : Symbol) (kernel : List Item) (q : Nat) :
    ((e.connect g sets merging (x, kernel)).graph.look q).skeleton =
      if q = (e.intern g sets merging kernel).2.explored ∧
          q < (e.intern g sets merging kernel).2.graph.states.size then
        ((e.intern g sets merging kernel).2.graph.look q).skeleton.link
          (x, (e.intern g sets merging kernel).1)
      else ((e.intern g sets merging kernel).2.graph.look q).skeleton := by
  unfold connect
  dsimp only
  generalize (e.intern g sets merging kernel).2 = f
  rw [StateGraph.look, Array.getElem?_modify]
  rcases Nat.lt_or_ge q f.graph.states.size with hq | hq
  · by_cases hexplored : q = f.explored
    · rw [if_pos hexplored.symm, if_pos ⟨hexplored, hq⟩, StateGraph.getElem?_of_lt hq]
      rfl
    · rw [if_neg (Ne.symm hexplored), if_neg (fun h => hexplored h.1), StateGraph.look]
  · have habsent : ¬ (q = f.explored ∧ q < f.graph.states.size) :=
      fun h => absurd h.2 (Nat.not_lt.2 hq)
    rw [if_neg habsent, StateGraph.look, Array.getElem?_eq_none hq]
    split <;> rfl

section Steps

variable (merging merging') (hg : g.WellFormed) (hsets : sets.Declared g)

include hg hsets

/-- Kernels with the same cores lead to the same state. -/
theorem Alike.intern {e e' : Exploration} (h : Alike g sets e e') {kernel kernel' : List Item}
    (hcores : kernel'.map (·.core) = kernel.map (·.core))
    (hkernel : ∀ k ∈ kernel, k.core.rule ∈ g.allRules) :
    (e'.intern g sets merging' kernel').1 = (e.intern g sets merging kernel).1 ∧
    Alike g sets (e.intern g sets merging kernel).2 (e'.intern g sets merging' kernel').2 := by
  have hsame : e'.index[Item.cores kernel']? = e.index[Item.cores kernel]? := by
    rw [h.index, Item.cores_congr hcores]
  cases hindex : e.index[Item.cores kernel]? with
  | some id =>
      obtain ⟨hid, hgraph, hkeep, hexplored⟩ := intern_of_known g sets merging hindex
      obtain ⟨hid', hgraph', hkeep', hexplored'⟩ :=
        intern_of_known g sets merging' (hsame.trans hindex)
      refine ⟨hid'.trans hid.symm, hgraph.symm.trans (h.graph.trans hgraph'), ?_, ?_, ?_⟩
      · rw [hkeep', hkeep, h.index]
      · rw [hexplored', hexplored, h.explored]
      · exact h.ordered.of_alike hgraph
  | none =>
      have hordered : ∀ kernels : List Item, kernels.map (·.core) = kernel.map (·.core) →
          (Expansion.ofKernels g sets kernels).pendings.map (·.symbol) =
            (Expansion.ofKernels g sets kernel).pendings.map (·.symbol) :=
        fun _ hk => Expansion.symbols_ofKernels_congr hg hsets hkernel hk
      rw [intern_of_new hindex, intern_of_new (hsame.trans hindex)]
      refine ⟨h.graph.size, ⟨by simp [h.graph.size], fun q => ?_⟩, ?_, h.explored, fun q hq => ?_⟩
      · rw [StateGraph.look_push, StateGraph.look_push, h.graph.size]
        split
        · show Skeleton.mk (kernel'.map (·.core)) _ [] = Skeleton.mk (kernel.map (·.core)) _ []
          rw [hcores]
          exact congrArg (Skeleton.mk _ · []) (hordered kernel' hcores)
        · exact h.graph.look q
      · show e'.index.insert (Item.cores kernel') e'.graph.states.size = _
        rw [h.index, Item.cores_congr hcores, h.graph.size]
      · rw [StateGraph.look_push]
        split
        · exact hordered
        · rename_i hne
          have hlt : q < e.graph.states.size + 1 := by simpa using hq
          exact h.ordered q (by omega)

/-- Transitions over the same symbol to kernels with the same cores keep explorations alike. -/
theorem Alike.connect {e e' : Exploration} (h : Alike g sets e e') (x : Symbol)
    {kernel kernel' : List Item} (hcores : kernel'.map (·.core) = kernel.map (·.core))
    (hkernel : ∀ k ∈ kernel, k.core.rule ∈ g.allRules) :
    Alike g sets (e.connect g sets merging (x, kernel))
      (e'.connect g sets merging' (x, kernel')) := by
  obtain ⟨htarget, hi⟩ := h.intern merging merging' hg hsets hcores hkernel
  refine ⟨⟨?_, fun q => ?_⟩, hi.index, hi.explored, fun q hq => ?_⟩
  · simpa [Exploration.connect] using hi.graph.size
  · rw [skeleton_connect, skeleton_connect, htarget, hi.explored, hi.graph.size, hi.graph.look]
  · have hq' : q < (e.intern g sets merging kernel).2.graph.states.size := by
      simpa [Exploration.connect] using hq
    rw [skeleton_connect]
    split
    · exact hi.ordered q hq'
    · exact hi.ordered q hq'

theorem Alike.foldl_connect {e e' : Exploration} (h : Alike g sets e e') (symbols : List Symbol)
    {kernel kernel' : Symbol → List Item}
    (hcores : ∀ x, (kernel' x).map (·.core) = (kernel x).map (·.core))
    (hkernel : ∀ x, ∀ k ∈ kernel x, k.core.rule ∈ g.allRules) :
    Alike g sets
      ((symbols.map fun x => (x, kernel x)).foldl (Exploration.connect g sets merging) e)
      ((symbols.map fun x => (x, kernel' x)).foldl (Exploration.connect g sets merging') e') := by
  induction symbols generalizing e e' with
  | nil => exact h
  | cons x symbols ih =>
      exact ih (h.connect merging merging' hg hsets x (hcores x) (hkernel x))

/-- Corresponding steps. -/
theorem Alike.next {e e' : Exploration} (h : Alike g sets e e') (he : e.Sound g sets merging)
    (hdone : e.isDone = false) :
    Alike g sets (e.next g sets merging) (e'.next g sets merging') := by
  have hlt : e.explored < e.graph.states.size := by simpa [isDone] using hdone
  have hlt' : e'.explored < e'.graph.states.size := by
    rw [h.explored, h.graph.size]
    exact hlt
  rw [next_eq hlt, next_eq hlt', h.explored]
  -- The items of the two states have the same cores, and so have all kernels taken from them.
  have hlook := h.graph.look e.explored
  have hsymbols : (e'.graph.look e.explored).items.nextSymbols g =
      (e.graph.look e.explored).items.nextSymbols g :=
    Item.nextSymbols_congr (State.map_core_items_of_skeleton_eq g hlook)
  have hcores : ∀ x, ((e'.graph.look e.explored).items.advance g x).map (·.core) =
      ((e.graph.look e.explored).items.advance g x).map (·.core) :=
    fun x => State.map_core_advance_of_skeleton_eq g x hlook
  have hrules : ∀ x, ∀ k ∈ (e.graph.look e.explored).items.advance g x,
      k.core.rule ∈ g.allRules := fun x k hk => (he.shaped.of_advance k hk).1
  have hfold := h.foldl_connect merging merging' hg hsets
    ((e.graph.look e.explored).items.nextSymbols g) hcores hrules
  rw [hsymbols]
  exact ⟨hfold.graph, hfold.index, congrArg (· + 1) hfold.explored, hfold.ordered⟩

/-- Both kinds of merging explore the same states. -/
theorem alike_full : Alike g sets (full g sets merging) (full g sets merging') := by
  have hempty : Alike g sets {} {} := ⟨.refl _, rfl, rfl, fun q hq => absurd hq (Nat.not_lt_zero q)⟩
  have hrules : ∀ k ∈ startKernel g, k.core.rule ∈ g.allRules := by
    intro k hk
    obtain rfl := List.mem_singleton.1 hk
    exact Grammar.acceptRule_mem
  have hstart : Alike g sets (start g sets) (start g sets) :=
    (hempty.intern merging merging' hg hsets rfl hrules).2
  refine (runUntil_related
    (R := fun e e' => Alike g sets e e' ∧ e.Sound g sets merging) ?_ ?_ (bound g)
    ⟨hstart, sound_start hg hsets⟩).1
  · rintro e e' ⟨h, -⟩
    rw [isDone, isDone, h.explored, h.graph.size]
  · rintro e e' ⟨h, he⟩ hdone
    exact ⟨h.next merging merging' hg hsets he hdone, (he.next hg hsets hdone).1⟩

end Steps

end Exploration

/-! ## Propagation -/

namespace StateGraph

variable {g : Grammar} {sets : FirstFollow} {c : StateGraph}

theorem alike_spread (items : List Item) (transitions : List (Symbol × Nat)) :
    c.Alike (spread items transitions c) := by
  induction transitions generalizing c with
  | nil => exact .refl c
  | cons edge rest ih => exact (c.alike_inform _ _).trans ih

/-- Pending nonterminals that are found anew are the same, in the same order. -/
theorem Ordered.alike_renew (h : c.Ordered g sets) {id : Nat} {dirty : Queue Nat compare}
    (hlt : id < c.states.size) : c.Alike (c.renew g sets id dirty) where
  size := by simp [StateGraph.renew]
  look q := by
    rw [look_renew hlt]
    split
    · rename_i hq
      rw [hq]
      exact congrArg (Skeleton.mk (c.look id).kernel · (c.look id).transitions)
        (h id hlt (c.look id).items.kernels rfl)
    · rfl

theorem Sound.alike_cleanNext (hs : c.Sound g sets) (h : c.Ordered g sets) :
    c.Alike (c.cleanNext g sets) := by
  cases hpop : c.dirty.pop with
  | none =>
      rw [cleanNext_of_pop_none hpop]
      exact .refl c
  | some popped =>
      obtain ⟨id, dirty⟩ := popped
      have hlt : id < c.states.size :=
        hs.dirty_lt id (Queue.toList_of_pop hpop ▸ List.mem_cons_self)
      rw [cleanNext_of_pop hpop hlt]
      exact (h.alike_renew hlt).trans (alike_spread _ _)

/-- Propagation changes no skeleton. -/
theorem alike_propagate (hg : g.WellFormed) (hsets : sets.Declared g) (hs : c.Sound g sets)
    (h : c.Ordered g sets) : c.Alike (c.propagate g sets) := by
  refine (runUntil_invariant (P := fun c' => c.Alike c' ∧ c'.Sound g sets) ?_ _
    ⟨.refl c, hs⟩).1
  rintro c' ⟨halike, hs'⟩ -
  exact ⟨halike.trans (hs'.alike_cleanNext (h.of_alike halike)), hs'.cleanNext hg hsets⟩

/-- The graphs of a grammar have the same skeletons with both kinds of merging. -/
theorem alike_ofGrammar (hg : g.WellFormed) :
    (ofGrammar g g.firstFollow .firstFound).Alike (ofGrammar g g.firstFollow .lalr) ∧
      (ofGrammar g g.firstFollow .firstFound).Ordered g g.firstFollow := by
  have hsets := hg.declared_firstFollow
  have hfull := Exploration.alike_full .firstFound .lalr hg hsets
  have hordered := hfull.ordered.of_alike hfull.graph
  exact ⟨hfull.graph.trans (alike_propagate hg hsets (Automaton.sound_graph hg) hordered),
    hfull.ordered⟩

end StateGraph

end ShiftReduce
