import ShiftReduce.Proofs.Automaton.Build

/-!
# The construction of an automaton comes to an end

The loops of the construction are run with bounds on their steps.  None of them needs its bound:
each is the same loop as the one that goes on until its work is done (`Loop`), which comes to an
end for every grammar that has been defined.  These are the rounds of FIRST and FOLLOW, the
expansions of kernels, the exploration of states and the propagation of lookaheads.

The loops are nested.  An exploration makes a step only if the kernels of the state at hand can be
expanded (`Exploration.Explores`), and propagation only if that of the dirty state can
(`StateGraph.Cleans`).  `Automaton.Builds` puts the loops together, and what they come to is
`Automaton.build` (`builds_iff`).

## Strategy

For each loop there is a measure that its steps lower, as long as an invariant holds: the
terminals that may still be added to FIRST and FOLLOW; what waits in an expansion, with what may
still be found; the states that may still be explored; the dirty states, with the lookaheads
that kernels may still get.  The bounds were chosen to be no less than these measures at the
start, so a run within a bound is done in the end.  An expansion needs all rules of its kernel
to be productions of the grammar, and the invariants of the exploration and of the propagation
say so of every kernel that they come to.
-/

namespace ShiftReduce

/-! ## The loops without their bounds -/

/-- The rounds of FIRST and FOLLOW end with these sets. -/
def FirstFollow.Settles (g : Grammar) (sets : FirstFollow) : Prop :=
  ∃ last : Rounds, Loop (·.stable) (fun r r' => r' = r.next g (byHead g)) ⟨initial g, false⟩ last ∧
    last.sets = sets

/-- The expansion of a kernel ends with what is pending in its item set. -/
def Expansion.Expands (g : Grammar) (sets : FirstFollow) (kernels : List Item) : Prop :=
  ∃ last : Expansion, Loop isDone (fun e e' => e' = e.next g sets) (start sets kernels) last ∧
    (ItemSet.ofKernels g sets kernels).pendings = last.pendings

/-- One step of an exploration: the kernels that the state at hand leads to are expanded. -/
def Exploration.Explores (g : Grammar) (sets : FirstFollow) (merging : Merging)
    (e e' : Exploration) : Prop :=
  e' = e.next g sets merging ∧
    ∀ state, e.graph.states[e.explored]? = some state →
      ∀ edge ∈ state.items.edges g, Expansion.Expands g sets edge.2

/-- One step of propagation: the kernel of a dirty state is expanded anew. -/
def StateGraph.Cleans (g : Grammar) (sets : FirstFollow) (c c' : StateGraph) : Prop :=
  c' = c.cleanNext g sets ∧
    ∀ id dirty, c.dirty.pop = some (id, dirty) →
      Expansion.Expands g sets (c.look id).items.kernels

/-- The construction of an automaton, with no bound on any of its loops, ends with a result.  With
`Merging.firstFound` it is given up at the first state in conflict. -/
def Automaton.Builds (g : Grammar) (merging : Merging) (result : Except BuildError Automaton) :
    Prop :=
  ∃ sets, FirstFollow.Settles g sets ∧ Expansion.Expands g sets (Exploration.startKernel g) ∧
    match merging with
    | .firstFound => ∃ e, Loop (doneOrAt (·.inConflict g) Exploration.isDone)
          (Exploration.Explores g sets .firstFound) (Exploration.start g sets) e ∧
        result = e.graph.settle g
    | .lalr => ∃ e c, Loop Exploration.isDone (Exploration.Explores g sets .lalr)
          (Exploration.start g sets) e ∧
        Loop StateGraph.isClean (StateGraph.Cleans g sets) e.graph c ∧ result = c.settle g

/-! ## They end -/

variable {g : Grammar} {sets : FirstFollow}

theorem FirstFollow.settles_firstFollow (hg : g.WellFormed) : Settles g g.firstFollow :=
  ⟨_, loop_of_done (stable_rounds hg), rfl⟩

/-- Every kernel of items of the grammar is expanded in the end. -/
theorem Expansion.expands (hg : g.WellFormed) (hsets : sets.Declared g) {kernels : List Item}
    (hkernels : ∀ k ∈ kernels, k.core.rule ∈ g.allRules) : Expands g sets kernels :=
  ⟨_, loop_of_done (isDone_ofKernels hg hsets hkernels), rfl⟩

namespace Exploration

/-- The kernels that a state leads to are made of items of the grammar. -/
theorem Sound.rule_mem_of_mem_edges {merging : Merging} {e : Exploration}
    (h : e.Sound g sets merging) {q : Nat} {edge : Symbol × List Item}
    (hedge : edge ∈ (e.graph.look q).items.edges g) : ∀ k ∈ edge.2, k.core.rule ∈ g.allRules := by
  rw [ItemSet.edges_eq] at hedge
  obtain ⟨x, -, rfl⟩ := List.mem_map.1 hedge
  exact fun k hk => (h.shaped.of_advance k hk).1

theorem Sound.explores {merging : Merging} {e : Exploration} (hg : g.WellFormed)
    (hsets : sets.Declared g) (h : e.Sound g sets merging) :
    Explores g sets merging e (e.next g sets merging) := by
  refine ⟨rfl, fun state hstate edge hedge => Expansion.expands hg hsets ?_⟩
  rw [← StateGraph.look_of_getElem? hstate] at hedge
  exact h.rule_mem_of_mem_edges hedge

/-- The whole exploration ends. -/
theorem loop_full (hg : g.WellFormed) (hsets : sets.Declared g) (merging : Merging) :
    Loop isDone (Explores g sets merging) (start g sets) (full g sets merging) :=
  loop_runUntil (fun _ he hdone => (he.next hg hsets hdone).1) (fun _ he _ => he.explores hg hsets)
    (sound_start hg hsets) (sound_full merging hg hsets).2

/-- So does one that may be given up. -/
theorem loop_upTo (hg : g.WellFormed) (hsets : sets.Declared g) (merging : Merging)
    (mark : Exploration → Bool) : Loop (doneOrAt mark isDone) (Explores g sets merging)
      (start g sets) (upTo g sets merging mark) :=
  loop_runUntil (fun _ he hdone => (he.next hg hsets (Bool.or_eq_false_iff.1 hdone).2).1)
    (fun _ he _ => he.explores hg hsets) (sound_start hg hsets)
    (doneOrAt_upTo merging mark hg hsets)

end Exploration

namespace StateGraph

/-- The propagation of lookaheads ends. -/
theorem loop_propagate (hg : g.WellFormed) (hsets : sets.Declared g) {c : StateGraph}
    (h : c.Sound g sets) : Loop isClean (Cleans g sets) c (c.propagate g sets) := by
  apply loop_runUntil (P := Sound g sets) (fun _ hc _ => hc.cleanNext hg hsets) _ h
    (isClean_propagate hg hsets h)
  exact fun _ hc _ => ⟨rfl, fun id _ _ => Expansion.expands hg hsets (hc.shaped.rule_mem id)⟩

end StateGraph

/-! ## The whole construction -/

namespace Automaton

theorem builds_build (hg : g.WellFormed) (merging : Merging) :
    Builds g merging (build g merging) := by
  have hsets := hg.declared_firstFollow
  have hstart : Expansion.Expands g g.firstFollow (Exploration.startKernel g) := by
    apply Expansion.expands hg hsets
    intro k hk
    obtain rfl := List.mem_singleton.1 hk
    exact Grammar.acceptRule_mem
  refine ⟨g.firstFollow, FirstFollow.settles_firstFollow hg, hstart, ?_⟩
  cases merging with
  | firstFound => exact ⟨_, Exploration.loop_upTo hg hsets .firstFound _, rfl⟩
  | lalr =>
      exact ⟨_, _, Exploration.loop_full hg hsets .lalr,
        StateGraph.loop_propagate hg hsets (sound_graph hg), rfl⟩

/-- There is no more than one result. -/
theorem Builds.unique {merging : Merging} {result result' : Except BuildError Automaton}
    (h : Builds g merging result) (h' : Builds g merging result') : result = result' := by
  obtain ⟨sets, ⟨last, hlast, rfl⟩, -, h⟩ := h
  obtain ⟨sets', ⟨last', hlast', rfl⟩, -, h'⟩ := h'
  obtain rfl := hlast.unique (fun _ _ _ h h' => h.trans h'.symm) hlast'
  cases merging with
  | firstFound =>
      obtain ⟨e, he, rfl⟩ := h
      obtain ⟨e', he', rfl⟩ := h'
      rw [he.unique (fun _ _ _ h h' => h.1.trans h'.1.symm) he']
  | lalr =>
      obtain ⟨e, c, he, hc, rfl⟩ := h
      obtain ⟨e', c', he', hc', rfl⟩ := h'
      obtain rfl := he.unique (fun _ _ _ h h' => h.1.trans h'.1.symm) he'
      rw [hc.unique (fun _ _ _ h h' => h.1.trans h'.1.symm) hc']

/-- The construction of an automaton ends, with an automaton or with an error, and its result is
that of the loops within their bounds. -/
theorem builds_iff {declarations : List Declaration} (hg : Grammar.define declarations = .ok g)
    (merging : Merging) (result : Except BuildError Automaton) :
    Builds g merging result ↔ result = build g merging := by
  have hbuilds := builds_build (Grammar.wellFormed_of_define hg) merging
  constructor
  · exact fun h => h.unique hbuilds
  · rintro rfl
    exact hbuilds

/-- `S := S a | A | x`, `A := B`, `B := A`, `U := y U W`.  It has left recursion and a circle;
`U` is out of reach and derives no word, and `W` has no production. -/
def restless : List Declaration :=
  [.sentinel .blank "Blank", .sentinel .endMarker "$", .terminal "a", .terminal "x",
    .terminal "y", .nonterminal "S", .nonterminal "A", .nonterminal "B", .nonterminal "U",
    .nonterminal "W", .start ⟨1⟩,
    .rule (.nonterminal ⟨1⟩) [.nonterminal ⟨1⟩, .terminal ⟨2⟩],
    .rule (.nonterminal ⟨1⟩) [.nonterminal ⟨2⟩],
    .rule (.nonterminal ⟨1⟩) [.terminal ⟨3⟩],
    .rule (.nonterminal ⟨2⟩) [.nonterminal ⟨3⟩],
    .rule (.nonterminal ⟨3⟩) [.nonterminal ⟨2⟩],
    .rule (.nonterminal ⟨4⟩) [.terminal ⟨4⟩, .nonterminal ⟨4⟩, .nonterminal ⟨5⟩]]

/-- The loops come to an end in spite of the circle, and then it shows as a conflict. -/
theorem builds_iff_restless : ∃ g, Grammar.define restless = .ok g ∧
    ∀ merging, Builds g merging (.error (.reduceReduce 2 ⟨1⟩
      ⟨3, ⟨1⟩, [.nonterminal ⟨2⟩], false⟩ ⟨6, ⟨3⟩, [.nonterminal ⟨2⟩], false⟩)) := by
  have hpasses : Grammar.passes restless (fun g => [Merging.firstFound, .lalr].all fun merging =>
      match build g merging with
      | .ok _ => false
      | .error e => e = .reduceReduce 2 ⟨1⟩ ⟨3, ⟨1⟩, [.nonterminal ⟨2⟩], false⟩
          ⟨6, ⟨3⟩, [.nonterminal ⟨2⟩], false⟩) = true := by decide +kernel
  obtain ⟨g, hg, hcheck⟩ := Grammar.exists_of_passes hpasses
  refine ⟨g, hg, fun merging => (builds_iff hg merging _).2 ?_⟩
  have h := List.all_eq_true.1 hcheck merging (by cases merging <;> simp)
  cases hbuild : build g merging with
  | ok a => simp [hbuild] at h
  | error e =>
      rw [hbuild] at h
      rw [of_decide_eq_true h]

end Automaton

end ShiftReduce
