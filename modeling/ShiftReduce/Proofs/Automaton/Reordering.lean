import ShiftReduce.Proofs.Automaton.Canonical
import ShiftReduce.Proofs.Automaton.Conflicts
import ShiftReduce.Proofs.Automaton.LeastLookaheads
import ShiftReduce.Proofs.Grammar.Reordering

/-!
# Automata of reordered grammars

The order of the rules decides in which order states are found and so how they are numbered, and
in which order items and lookaheads are listed, but on nothing else, with `Merging.lalr`.  A state
of the one automaton has a mirror in the other, with the counterparts of its cores
(`State.Mirrors`), and mirrors have the same transitions and the same reductions, up to the numbers
of states and rules (`Reordered.transition?_mirror`, `Reordered.reduce?_mirror`).  If one of the
grammars has an automaton, so does the other (`Reordered.exists_build`).

## Strategy

Cores and transitions are those of the canonical collection, which is defined on sets and goes over
to the other grammar (`Reordered.canonical`).  Lookaheads are compared in one direction only: those
of the one side are due, and what is due is in the lookaheads of a saturated automaton of the other
side (`Reordered.mem_lookaheads`).  The one side may be a graph of which it is not known yet whether
its states can be settled; so it can be seen that they can.
-/

namespace ShiftReduce

/-! ## Cores of the other grammar -/

/-- A core with the counterpart of its rule in a grammar. -/
def DottedRule.onto (g : Grammar) (d : DottedRule) : DottedRule := ⟨g.counterpart d.rule, d.marker⟩

/-- What keeps the lookaheads of the counterparts. -/
def Keeper.onto (g : Grammar) : Keeper → Keeper
  | .kernel d => .kernel (d.onto g)
  | .pending n => .pending n

namespace DottedRule

variable (g g' : Grammar) (d : DottedRule)

theorem advance_onto : (d.onto g).advance = d.advance.onto g := rfl

theorem onto_onto : (d.onto g').onto g = d.onto g := rfl

variable {g d}

theorem onto_of_mem (hg : g.WellFormed) (hd : d.rule ∈ g.allRules) : d.onto g = d := by
  rw [onto, Grammar.counterpart_of_mem hg hd]

/-- Going over to another grammar and back changes nothing. -/
theorem image_onto_image_onto (hg : g.WellFormed) {cores : Set DottedRule}
    (hcores : ∀ d ∈ cores, d.rule ∈ g.allRules) : onto g '' (onto g' '' cores) = cores := by
  rw [Set.image_image]
  calc (fun d => (d.onto g').onto g) '' cores = id '' cores :=
        Set.image_congr fun d hd => onto_of_mem hg (hcores d hd)
    _ = cores := Set.image_id cores

end DottedRule

open DottedRule (onto)

/-! ## The canonical collection -/

namespace Grammar

theorem Closure.rule_mem {g : Grammar} {kernel : Set DottedRule}
    (hkernel : ∀ d ∈ kernel, d.rule ∈ g.allRules) {d : DottedRule} (h : g.Closure kernel d) :
    d.rule ∈ g.allRules := by
  cases h with
  | kernel hd => exact hkernel _ hd
  | production _ hr _ => exact hr

theorem Canonical.rule_mem {g : Grammar} {kernel : Set DottedRule} (h : g.Canonical kernel) :
    ∀ d ∈ kernel, d.rule ∈ g.allRules := by
  induction h with
  | start =>
      rintro _ rfl
      exact acceptRule_mem
  | goto _ _ _ ih =>
      rintro _ ⟨e, he, -, rfl⟩
      exact (Closure.rule_mem ih he : e.rule ∈ g.allRules)

namespace Reordered

variable {g g' : Grammar} (h : g.Reordered g') (hg : g.WellFormed) (hg' : g'.WellFormed)

include h hg hg'

theorem closure {kernel : Set DottedRule} {d : DottedRule} (hd : g.Closure kernel d) :
    g'.Closure (onto g' '' kernel) (d.onto g') := by
  induction hd with
  | kernel hd => exact .kernel (Set.mem_image_of_mem _ hd)
  | production _ hr hnext ih => exact .production ih (h.counterpart_mem hg hg' hr) hnext

theorem image_goto {kernel : Set DottedRule} (hkernel : ∀ d ∈ kernel, d.rule ∈ g.allRules)
    (x : Symbol) : onto g' '' g.goto kernel x = g'.goto (onto g' '' kernel) x := by
  apply Set.Subset.antisymm
  · rintro _ ⟨_, ⟨e, he, hnext, rfl⟩, rfl⟩
    exact ⟨e.onto g', h.closure hg hg' he, hnext, rfl⟩
  · rintro _ ⟨e, he, hnext, rfl⟩
    -- What comes next on the other side comes next here as well.
    have hback := h.symm.closure hg' hg he
    rw [DottedRule.image_onto_image_onto g' hg hkernel] at hback
    have hmem : e.rule ∈ g'.allRules := by
      apply Closure.rule_mem ?_ he
      rintro _ ⟨d, hd, rfl⟩
      exact h.counterpart_mem hg hg' (hkernel d hd)
    refine ⟨(e.onto g).advance, ⟨e.onto g, hback, hnext, rfl⟩, ?_⟩
    rw [← DottedRule.advance_onto, DottedRule.onto_onto, DottedRule.onto_of_mem hg' hmem]

omit hg in
theorem onto_start : (⟨g.acceptRule, 0⟩ : DottedRule).onto g' = ⟨g'.acceptRule, 0⟩ := by
  rw [← h.acceptRule_eq]
  exact DottedRule.onto_of_mem hg' acceptRule_mem

/-- The collection goes over to the other grammar. -/
theorem canonical {kernel : Set DottedRule} (hkernel : g.Canonical kernel) :
    g'.Canonical (onto g' '' kernel) := by
  induction hkernel with
  | start =>
      rw [Set.image_singleton, h.onto_start hg']
      exact .start
  | @goto kernel x hkernel hblank hne ih =>
      have hne' := hne.image (onto g')
      rw [h.image_goto hg hg' hkernel.rule_mem] at hne' ⊢
      exact .goto ih (h.blank_eq ▸ hblank) hne'

end Reordered

end Grammar

/-! ## Mirrors -/

/-- The second state has the counterparts of the cores of the first. -/
def State.Mirrors (g' : Grammar) (s s' : State) : Prop :=
  s'.kernelSet = onto g' '' s.kernelSet

theorem State.Mirrors.symm {g g' : Grammar} (hg : g.WellFormed) {s s' : State}
    (h : s.Mirrors g' s') (hs : ∀ d ∈ s.kernelSet, d.rule ∈ g.allRules) : s'.Mirrors g s := by
  rw [Mirrors, h, DottedRule.image_onto_image_onto g' hg hs]

/-- What is demanded in a state is a production of the grammar. -/
theorem Shaped.mem_allRules_of_mem_demands {g : Grammar} {look : Nat → State} (h : Shaped g look)
    {q : Nat} {t : Terminal} {r : Rule} (ht : (t, r) ∈ (look q).items.demands g) :
    r ∈ g.allRules := by
  obtain ⟨-, d, hd, -, rfl⟩ := State.mem_demands.1 ht
  exact ((h.inClosure_of_expects hd).of (h.kernel_of q)).1

/-- States with the cores and the transitions of the canonical collection, and without lookaheads
that are there for no reason. -/
structure Grounded (g : Grammar) (look : Nat → State) : Prop where
  shaped : Shaped g look
  canonical : ∀ p x q, (x, q) ∈ (look p).transitions → g.Canonical (look p).kernelSet
  due : ∀ q keeper t, t ∈ (look q).items.lookaheadsOf keeper →
    Due g g.firstFollow look q keeper t

theorem StateGraph.grounded_ofGrammar {g : Grammar} (hg : g.WellFormed) (merging : Merging) :
    Grounded g (ofGrammar g g.firstFollow merging).look where
  shaped := (due_ofGrammar hg merging).1
  canonical := fun _ _ _ hedge =>
    canonical_ofGrammar hg merging (lt_size_of_mem_transitions hedge)
  due := (due_ofGrammar hg merging).2

theorem Automaton.grounded_of_build {g : Grammar} (hg : g.WellFormed) {merging : Merging}
    {a : Automaton} (ha : build g merging = .ok a) : Grounded g a.look where
  shaped := (consistent_of_build hg ha).shaped
  canonical := fun _ _ _ hedge => canonical_kernelSet hg ha
    (Consistent.lt_length_of_transition?
      ((consistent_of_build hg ha).transition?_eq_some_iff.2 hedge))
  due := fun _ _ _ ht => due_of_build hg ha ht

namespace Grammar.Reordered

variable {g g' : Grammar} (h : g.Reordered g') (hg : g.WellFormed) (hg' : g'.WellFormed)
variable {look : Nat → State} (hlook : Grounded g look) {a' : Automaton} {q q' : Nat}

include h hg hg' hlook

/-! ### Transitions -/

/-- Mirrors have the same transitions, to states that are mirrors again. -/
theorem transition?_mirror (ha' : a'.Consistent g') (hmirror : (look q).Mirrors g' (a'.look q'))
    {p : Nat} {x : Symbol} (hedge : (x, p) ∈ (look q).transitions) :
    ∃ p', (a'.look q').transition? x = some p' ∧ (look p).Mirrors g' (a'.look p') := by
  have hgoto : g'.goto (a'.look q').kernelSet x = onto g' '' (look p).kernelSet := by
    rw [hmirror, hlook.shaped.kernelSet_of_mem_transitions hedge,
      h.image_goto hg hg' (hlook.canonical q x p hedge).rule_mem]
  obtain ⟨hblank, d, hd, hnext⟩ := hlook.shaped.next q x p hedge
  have hne : (g'.goto (a'.look q').kernelSet x).Nonempty := by
    refine ⟨_, d.onto g', ?_, hnext, rfl⟩
    rw [hmirror]
    exact h.closure hg hg' (inClosure_iff_closure.1 hd)
  obtain ⟨p', hp'⟩ := ha'.exists_transition?_iff.2 ⟨h.blank_eq ▸ hblank, hne⟩
  exact ⟨p', hp', (ha'.kernelSet_of_transition? hp').trans hgoto⟩

/-! ### Lookaheads -/

/-- The counterparts of the items of a state are kept in its mirror. -/
theorem keeps_mirror (ha' : a'.Consistent g') (hmirror : (look q).Mirrors g' (a'.look q'))
    {d : DottedRule} {keeper : Keeper} (hkeeps : (look q).items.Keeps g d keeper) :
    (a'.look q').items.Keeps g' (d.onto g') (keeper.onto g') := by
  cases hkeeps with
  | kernel hd =>
      have hd' : d.onto g' ∈ (a'.look q').kernelSet := by
        rw [hmirror]
        exact Set.mem_image_of_mem _ hd
      exact .kernel hd'
  | @pending n r hn hr =>
      obtain ⟨hmem, hhead⟩ := g.mem_productionsOf.1 hr
      refine .pending (ha'.mem_pendings_iff.2 ?_)
        (g'.mem_productionsOf.2 ⟨h.counterpart_mem hg hg' hmem, hhead⟩)
      obtain ⟨d, hd, hnext⟩ := ((hlook.shaped.pending q n).1 hn).exists_next
      refine ⟨d.onto g', ?_, hnext⟩
      rw [hmirror]
      exact h.closure hg hg' (inClosure_iff_closure.1 hd)

/-- What is due in a state is among the lookaheads of its mirror. -/
theorem mem_lookaheads (ha' : Automaton.build g' .lalr = .ok a') {keeper : Keeper} {t : Terminal}
    (hdue : Due g g.firstFollow look q keeper t) {q' : Nat} (hq' : q' < a'.states.length)
    (hmirror : (look q).Mirrors g' (a'.look q')) : t ∈ a'.lookaheads q' (keeper.onto g') := by
  have hsaturated := Automaton.saturated_of_build hg' ha'
  have hconsistent := hsaturated.toConsistent
  have hclosed := hsaturated.closed
  have hbelow := h.below_firstFollow hg hg'
  -- A state has one mirror only.
  have hunique : ∀ {q p p'}, p < a'.states.length → p' < a'.states.length →
      (look q).Mirrors g' (a'.look p) → (look q).Mirrors g' (a'.look p') → p = p' :=
    fun hp hp' hmirror hmirror' =>
      Automaton.eq_of_kernelSet hg' ha' hp hp' (hmirror.trans (Eq.symm hmirror'))
  induction hdue generalizing q' with
  | start =>
      have hstart : (look 0).Mirrors g' (a'.look Automaton.startState) := by
        rw [State.Mirrors, hconsistent.kernelSet_start, hlook.shaped.kernelSet_start,
          Set.image_singleton, h.onto_start hg']
      obtain rfl := hunique (Automaton.Path.start.lt_length hconsistent) hq' hstart hmirror
      rw [Keeper.onto, h.onto_start hg', ← h.endMarker_eq]
      exact hclosed.start
  | beyond hkeeps hn hx ht =>
      have hkeeps' := h.keeps_mirror hg hg' hlook hconsistent hmirror hkeeps
      exact hclosed.beyond q' _ _ _ _ hkeeps' hn hx _ (hbelow.firstOf ht)
  | last hkeeps hn hlast _ ih =>
      have hkeeps' := h.keeps_mirror hg hg' hlook hconsistent hmirror hkeeps
      exact hclosed.last q' _ _ _ hkeeps' hn hlast (ih hq' hmirror)
  | @advance p q x d keeper t hedge hkeeps hx _ ih =>
      -- The state before has a mirror too, from which a transition leads to this one.
      obtain ⟨p', hp', hmirror'⟩ :=
        hconsistent.exists_kernelSet_eq (h.canonical hg hg' (hlook.canonical p x q hedge))
      obtain ⟨q'', hedge', hmirror''⟩ :=
        h.transition?_mirror hg hg' hlook hconsistent hmirror' hedge
      obtain rfl := hunique (hconsistent.target_lt_length hedge') hq' hmirror'' hmirror
      exact hclosed.advance p' x q'' _ _ (hconsistent.transition?_eq_some_iff.1 hedge')
        (h.keeps_mirror hg hg' hlook hconsistent hmirror' hkeeps) hx (ih hp' hmirror')

/-! ### Reductions -/

/-- What is demanded in a state is reduced in its mirror. -/
theorem reduce?_of_mem_demands (ha' : Automaton.build g' .lalr = .ok a')
    (hq' : q' < a'.states.length) (hmirror : (look q).Mirrors g' (a'.look q')) {t : Terminal}
    {r : Rule} (ht : (t, r) ∈ (look q).items.demands g) :
    (a'.look q').reduce? t = some (g'.counterpart r) := by
  have hconsistent := Automaton.consistent_of_build hg' ha'
  obtain ⟨hblank, d, hd, hreducible, rfl⟩ := State.mem_demands.1 ht
  obtain ⟨keeper, hkeeps, hmem⟩ := ItemSet.expects_iff_exists_keeps.1 hd
  rw [(hconsistent.settled q').reduce?_eq_some_iff]
  refine ⟨h.blank_eq ▸ hblank, d.onto g', ItemSet.expects_iff_exists_keeps.2 ?_, hreducible, rfl⟩
  exact ⟨keeper.onto g', h.keeps_mirror hg hg' hlook hconsistent hmirror hkeeps,
    h.mem_lookaheads hg hg' hlook ha' (hlook.due q keeper t hmem) hq' hmirror⟩

omit hlook

/-- Mirrors have the same reductions. -/
theorem reduce?_mirror {a : Automaton} (ha : Automaton.build g .lalr = .ok a)
    (ha' : Automaton.build g' .lalr = .ok a') (hq' : q' < a'.states.length)
    (hmirror : (a.look q).Mirrors g' (a'.look q')) {t : Terminal} {r : Rule}
    (hr : (a.look q).reduce? t = some r) :
    (a'.look q').reduce? t = some (g'.counterpart r) := by
  have hsettled := (Automaton.consistent_of_build hg ha).settled q
  rw [State.reduce?, lookup_eq_some_iff_mem hsettled.distinct, hsettled.reduces_eq] at hr
  exact h.reduce?_of_mem_demands hg hg' (Automaton.grounded_of_build hg ha) ha' hq' hmirror hr

/-! ## Automata -/

/-- If a grammar has an automaton with `Merging.lalr`, so has every grammar that is reordered. -/
theorem exists_build (ha' : ∃ a', Automaton.build g' .lalr = .ok a') :
    ∃ a, Automaton.build g .lalr = .ok a := by
  obtain ⟨a', ha'⟩ := ha'
  have hconsistent := Automaton.consistent_of_build hg' ha'
  have hgrounded := StateGraph.grounded_ofGrammar hg .lalr
  rw [Automaton.build_eq]
  refine Automaton.exists_settle_iff.2 fun q hq => ?_
  obtain ⟨q', hq', hmirror⟩ := hconsistent.exists_kernelSet_eq
    (h.canonical hg hg' (StateGraph.canonical_ofGrammar hg .lalr hq))
  have hreduce : ∀ t r,
      (t, r) ∈ ((StateGraph.ofGrammar g g.firstFollow .lalr).look q).items.demands g →
      (a'.look q').reduce? t = some (g'.counterpart r) :=
    fun _ _ => h.reduce?_of_mem_demands hg hg' hgrounded ha' hq' hmirror
  -- What would be in conflict here is in conflict in the mirror.
  apply (StateGraph.regular_ofGrammar hg .lalr q).settleable hg
  · intro t r r' ht ht'
    have hmem := hgrounded.shaped.mem_allRules_of_mem_demands ht
    have hmem' := hgrounded.shaped.mem_allRules_of_mem_demands ht'
    exact eq_of_counterpart_eq hg g' hmem hmem'
      (Option.some.inj ((hreduce t r ht).symm.trans (hreduce t r' ht')))
  · intro t r ht
    rw [Option.eq_none_iff_forall_ne_some]
    intro target htarget
    obtain ⟨target', htarget', -⟩ := h.transition?_mirror hg hg' hgrounded hconsistent hmirror
      ((lookup_eq_some_iff_mem (hgrounded.shaped.nodup q)).1 htarget)
    have hnone := (hconsistent.settled q').transition?_of_reduce? (hreduce t r ht)
    exact Option.some_ne_none target' (htarget'.symm.trans hnone)

end Grammar.Reordered

end ShiftReduce
