import ShiftReduce.Grammar.Samples
import ShiftReduce.Proofs.Automaton.Due
import ShiftReduce.Proofs.Automaton.Granting
import ShiftReduce.Proofs.Automaton.Reachability

/-!
# The shape of kernels

The kernel of the start state is the accepting production before its body, and no transition leads
back there.  Every other state is entered over one symbol only, and that symbol comes right before
all markers of its kernel (`KernelAfter`), since the items of the kernel have moved over it.

The blank is not moved over, and a body with the blank in it is the blank alone.  So no production
with a blank body is in a kernel, and no kernel is refused for having two of them
(`ItemSet.exists_close`).  `BuildError.ambiguousEpsilon` is never the result of a build.

All of this holds of the states that have been found when a build fails, too (`StateGraph.found`).
-/

namespace ShiftReduce

/-! ## Items that have moved -/

/-- The core of an item that has moved over a symbol. -/
structure DottedRule.After (g : Grammar) (x : Symbol) (d : DottedRule) : Prop where
  rule_mem : d.rule ∈ g.allRules
  isEpsilon : d.rule.isEpsilon = false
  marker_pos : 1 ≤ d.marker
  marker_le : d.marker ≤ d.rule.body.length
  moved : d.rule.body[d.marker - 1]? = some x

/-- What moves over a symbol comes to stand after it. -/
theorem DottedRule.Of.after {g : Grammar} (hg : g.WellFormed) {d : DottedRule} (h : d.Of g)
    {x : Symbol} (hnext : d.next? = some x) (hblank : x ≠ .terminal g.blank) :
    d.advance.After g x where
  rule_mem := h.1
  isEpsilon := by
    apply Bool.eq_false_iff.2
    intro hepsilon
    have hmem : x ∈ d.rule.body := List.mem_of_getElem? hnext
    rw [(hg.isEpsilon_iff_of_mem h.1).1 hepsilon, List.mem_singleton] at hmem
    exact hblank hmem
  marker_pos := Nat.le_add_left 1 d.marker
  marker_le := (h.advance hnext).2
  moved := hnext

namespace ItemSet

/-- A kernel without productions with a blank body has no clash. -/
theorem clash?_eq_none {kernels : List Item}
    (h : ∀ d ∈ kernels.map (·.core), d.rule.isEpsilon = false) : clash? kernels = none := by
  have hrules : (kernels.map (·.core.rule)).filter (·.isEpsilon) = [] := by
    rw [List.filter_eq_nil_iff]
    intro r hr
    obtain ⟨k, hk, rfl⟩ := List.mem_map.1 hr
    rw [h k.core (List.mem_map_of_mem hk)]
    exact Bool.false_ne_true
  rw [clash?, hrules]
  rfl

/-- So it is not refused. -/
theorem exists_close (g : Grammar) (sets : FirstFollow) {kernels : List Item}
    (h : ∀ d ∈ kernels.map (·.core), d.rule.isEpsilon = false) :
    ∃ s, close g sets kernels = .ok s :=
  ⟨_, close_eq_ok_iff.2 ⟨clash?_eq_none h, rfl⟩⟩

end ItemSet

/-! ## Kernels -/

/-- The kernel of a state that is entered over a symbol. -/
structure KernelAfter (g : Grammar) (x : Symbol) (kernel : List DottedRule) : Prop where
  ne_nil : kernel ≠ []
  distinct : kernel.Nodup
  after : ∀ d ∈ kernel, d.After g x

/-- Only one symbol comes right before all markers. -/
theorem KernelAfter.unique {g : Grammar} {x y : Symbol} {kernel : List DottedRule}
    (hx : KernelAfter g x kernel) (hy : KernelAfter g y kernel) : x = y := by
  obtain ⟨d, hd⟩ := List.exists_mem_of_ne_nil kernel hx.ne_nil
  exact Option.some.inj ((hx.after d hd).moved.symm.trans (hy.after d hd).moved)

/-- The kernels of some states, and the symbols over which these are entered. -/
structure KernelShape (g : Grammar) (count : Nat) (look : Nat → State) : Prop where
  start : (look 0).kernel = [⟨g.acceptRule, 0⟩]
  start_not_entered : ∀ p x, (x, 0) ∉ (look p).transitions
  after : ∀ q < count, q ≠ 0 → ∃ x, KernelAfter g x (look q).kernel ∧
    (∃ p < q, (x, q) ∈ (look p).transitions) ∧
    ∀ p y, (y, q) ∈ (look p).transitions → y = x

namespace Shaped

variable {g : Grammar} {look : Nat → State} (hg : g.WellFormed) (h : Shaped g look)

include hg h

/-- The items that a state reaches over a symbol have moved over it. -/
theorem after_of_leadsTo {p : Nat} {x : Symbol} {kernel : List DottedRule}
    (hkernel : LeadsTo g (look p).kernel x kernel) (hblank : x ≠ .terminal g.blank) :
    ∀ d ∈ kernel, d.After g x := by
  intro d hd
  obtain ⟨e, he, hnext, rfl⟩ := (hkernel d).1 hd
  exact (he.of (h.kernel_of p)).after hg hnext hblank

theorem kernelAfter {p q : Nat} {x : Symbol} (hedge : (x, q) ∈ (look p).transitions) :
    KernelAfter g x (look q).kernel := by
  obtain ⟨hblank, e, he, hnext⟩ := h.next p x q hedge
  have hleads := h.target p x q hedge
  refine ⟨?_, h.distinct q, h.after_of_leadsTo hg hleads hblank⟩
  exact List.ne_nil_of_mem ((hleads _).2 ⟨e, he, hnext, rfl⟩)

theorem kernelShape {count : Nat}
    (hentered : ∀ q < count, q = 0 ∨ ∃ p < q, ∃ x, (x, q) ∈ (look p).transitions) :
    KernelShape g count look where
  start := h.start
  start_not_entered p x hedge := h.target_ne_zero hedge rfl
  after q hq hne := by
    obtain ⟨p, hp, x, hedge⟩ := (hentered q hq).resolve_left hne
    refine ⟨x, h.kernelAfter hg hedge, ⟨p, hp, hedge⟩, fun p' y hedge' => ?_⟩
    exact (h.kernelAfter hg hedge').unique (h.kernelAfter hg hedge)

/-- No kernel that a state reaches is refused. -/
theorem exists_close (sets : FirstFollow) {p : Nat} {x : Symbol} {kernel : List Item}
    (hedge : (x, kernel) ∈ (look p).items.edges g) :
    ∃ s, ItemSet.close g sets kernel = .ok s := by
  rw [ItemSet.edges_eq] at hedge
  obtain ⟨y, hy, heq⟩ := List.mem_map.1 hedge
  obtain ⟨rfl, rfl⟩ := Prod.mk.inj heq
  refine ItemSet.exists_close g sets fun d hd => ?_
  exact (h.after_of_leadsTo hg (h.leadsTo_advance p y) (Item.mem_nextSymbols.1 hy).2 d hd).isEpsilon

end Shaped

/-- No production with a blank body is in a kernel. -/
theorem KernelShape.isEpsilon {g : Grammar} {count : Nat} {look : Nat → State}
    (h : KernelShape g count look) {q : Nat} (hq : q < count) :
    ∀ d ∈ (look q).kernel, d.rule.isEpsilon = false := by
  intro d hd
  by_cases hzero : q = 0
  · rw [hzero, h.start, List.mem_singleton] at hd
    rw [hd]
    rfl
  · obtain ⟨x, hkernel, -⟩ := h.after q hq hzero
    exact (hkernel.after d hd).isEpsilon

/-! ## The states of a build -/

namespace StateGraph

variable {g : Grammar}

/-- The graph of the states that a build creates.  With `Merging.firstFound` no states are created
after the first conflict. -/
def found (g : Grammar) : Merging → StateGraph
  | .firstFound => (Exploration.upTo g g.firstFollow .firstFound (·.inConflict g)).graph
  | .lalr => ofGrammar g g.firstFollow .lalr

theorem settle_found (g : Grammar) (merging : Merging) :
    (found g merging).settle g = Automaton.build g merging := by
  cases merging <;> rfl

theorem shaped_found (hg : g.WellFormed) (merging : Merging) : Shaped g (found g merging).look := by
  cases merging with
  | firstFound => exact (Exploration.sound_upTo .firstFound _ hg hg.declared_firstFollow).shaped
  | lalr => exact (due_ofGrammar hg .lalr).1

theorem entered_found (hg : g.WellFormed) (merging : Merging) : (found g merging).Entered := by
  cases merging with
  | firstFound => exact (Exploration.numbered_upTo g g.firstFollow _).founded.entered
  | lalr => exact entered_ofGrammar hg .lalr

theorem kernelShape_found (hg : g.WellFormed) (merging : Merging) :
    KernelShape g (found g merging).states.size (found g merging).look :=
  (shaped_found hg merging).kernelShape hg (entered_found hg merging)

theorem kernelShape_ofGrammar (hg : g.WellFormed) (merging : Merging) :
    KernelShape g (ofGrammar g g.firstFollow merging).states.size
      (ofGrammar g g.firstFollow merging).look :=
  (due_ofGrammar hg merging).1.kernelShape hg (entered_ofGrammar hg merging)

/-- Settling states without blank productions in their kernels finds no clash. -/
theorem settle_ne_ambiguousEpsilon {c : StateGraph}
    (h : ∀ q, ∀ d ∈ (c.look q).kernel, d.rule.isEpsilon = false) (state : Nat)
    (clash : EpsilonClash) : c.settle g ≠ .error (.ambiguousEpsilon state clash) := by
  intro hsettle
  obtain ⟨q, n, hconflict, -⟩ :=
    firstConflict_of_settle (fun q => ItemSet.clash?_eq_none (h q)) hsettle
  contradiction

end StateGraph

/-- No build fails for two blank productions in one kernel, and the kernels of all states that it
creates have the same shape, whether it fails or not.  The kernels that it makes states of are that
of the start state and those that the states reach, and none of them is refused. -/
theorem kernelShape_of_build {declarations : List Declaration} {g : Grammar}
    (hg : Grammar.define declarations = .ok g) (merging : Merging) :
    (∀ state clash, Automaton.build g merging ≠ .error (.ambiguousEpsilon state clash)) ∧
    KernelShape g (StateGraph.found g merging).states.size (StateGraph.found g merging).look ∧
    (∃ s, ItemSet.close g g.firstFollow (Exploration.startKernel g) = .ok s) ∧
    (∀ p x kernel, (x, kernel) ∈ ((StateGraph.found g merging).look p).items.edges g →
      ∃ s, ItemSet.close g g.firstFollow kernel = .ok s) ∧
    ∀ a, Automaton.build g merging = .ok a → KernelShape g a.states.length a.look := by
  have hg := Grammar.wellFormed_of_define hg
  have hshape := StateGraph.kernelShape_found hg merging
  refine ⟨?_, hshape, ?_, fun p x kernel => ?_, fun a ha => ?_⟩
  · rw [← StateGraph.settle_found]
    refine StateGraph.settle_ne_ambiguousEpsilon fun q d hd => ?_
    exact hshape.isEpsilon (StateGraph.lt_size_of_mem_kernel hd) d hd
  · refine ItemSet.exists_close g g.firstFollow fun d hd => ?_
    obtain rfl := List.mem_singleton.1 hd
    rfl
  · exact (StateGraph.shaped_found hg merging).exists_close hg g.firstFollow
  · have hconsistent := Automaton.consistent_of_build hg ha
    apply hconsistent.shaped.kernelShape hg
    intro q hq
    refine (Automaton.exists_entry hg ha hq).imp_right fun ⟨p, hp, x, hx⟩ => ⟨p, hp, x, ?_⟩
    exact hconsistent.transition?_eq_some_iff.1 hx

/-- A sum without a side to associate to has a conflict, but no state of an irregular shape: the
state behind a whole sum has come over `E` with each of its two items. -/
theorem kernelShape_of_build_ambiguous : ∃ g,
    Grammar.define Samples.ambiguous = .ok g ∧ (Automaton.build g .firstFound).isOk = false ∧
    (∀ state clash, Automaton.build g .firstFound ≠ .error (.ambiguousEpsilon state clash)) ∧
    KernelShape g (StateGraph.found g .firstFound).states.size
      (StateGraph.found g .firstFound).look ∧
    ((StateGraph.found g .firstFound).look 4).kernel =
      [⟨⟨2, ⟨1⟩, [.nonterminal ⟨1⟩, .terminal ⟨2⟩, .nonterminal ⟨1⟩], false⟩, 3⟩,
        ⟨⟨2, ⟨1⟩, [.nonterminal ⟨1⟩, .terminal ⟨2⟩, .nonterminal ⟨1⟩], false⟩, 1⟩] := by
  have hpasses : Grammar.passes Samples.ambiguous (fun g => decide
      ((Automaton.build g .firstFound).isOk = false ∧
        ((StateGraph.found g .firstFound).look 4).kernel =
          [⟨⟨2, ⟨1⟩, [.nonterminal ⟨1⟩, .terminal ⟨2⟩, .nonterminal ⟨1⟩], false⟩, 3⟩,
            ⟨⟨2, ⟨1⟩, [.nonterminal ⟨1⟩, .terminal ⟨2⟩, .nonterminal ⟨1⟩], false⟩, 1⟩])) = true := by
    decide +kernel
  obtain ⟨g, hg, hcheck⟩ := Grammar.exists_of_passes hpasses
  obtain ⟨hfails, hkernel⟩ := of_decide_eq_true hcheck
  obtain ⟨hnever, hshape, -⟩ := kernelShape_of_build hg .firstFound
  exact ⟨g, hg, hfails, hnever, hshape, hkernel⟩

end ShiftReduce
