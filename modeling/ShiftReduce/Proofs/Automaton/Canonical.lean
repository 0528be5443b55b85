import Mathlib.Data.Set.Image
import ShiftReduce.Grammar.Samples
import ShiftReduce.Proofs.Automaton.Due
import ShiftReduce.Proofs.Automaton.Reachability
import ShiftReduce.Proofs.Parser.Run

/-!
# The canonical collection

Without their lookaheads the states of an automaton are the canonical collection of sets of items
(`Automaton.IsCanonical`): each set that comes from the accepting production by `Grammar.goto` is
the kernel of one state, and no other set is.  The kind of merging does not matter, and neither do
blank bodies, although no state is entered over the blank.

The collection is defined on sets of cores (`Grammar.Closure`, `Grammar.goto`,
`Grammar.Canonical`), without any order and without pending nonterminals.

## Strategy

A state keeps the nonterminals of its closure in place of their productions, and `Shaped` says
which these are.  So the closure of a kernel is what the state lists (`Consistent.mem_cores`), and
every transition is a `goto`.  From this one inclusion follows by going along the transitions of the
automaton, and the other by going back along them to the start state.
-/

namespace ShiftReduce

/-! ## Sets of cores -/

namespace Grammar

/-- The closure of a set of cores has the productions of every nonterminal that comes next in it,
with the marker at the start. -/
inductive Closure (g : Grammar) (kernel : Set DottedRule) : DottedRule → Prop
  | kernel {d : DottedRule} : d ∈ kernel → Closure g kernel d
  | production {d : DottedRule} {r : Rule} : Closure g kernel d → r ∈ g.allRules →
      d.next? = some (.nonterminal r.head) → Closure g kernel ⟨r, 0⟩

/-- The kernel that a kernel leads to over a symbol. -/
def goto (g : Grammar) (kernel : Set DottedRule) (x : Symbol) : Set DottedRule :=
  {d | ∃ e, g.Closure kernel e ∧ e.next? = some x ∧ e.advance = d}

/-- The collection of kernels that the accepting production leads to. -/
inductive Canonical (g : Grammar) : Set DottedRule → Prop
  | start : Canonical g {⟨g.acceptRule, 0⟩}
  | goto {kernel : Set DottedRule} {x : Symbol} : Canonical g kernel → x ≠ .terminal g.blank →
      (g.goto kernel x).Nonempty → Canonical g (g.goto kernel x)

end Grammar

/-- What is awaited stands for its productions in the closure. -/
theorem inClosure_iff_closure {g : Grammar} {kernel : List DottedRule} {d : DottedRule} :
    InClosure g kernel d ↔ g.Closure {e | e ∈ kernel} d := by
  constructor
  · have hawaited : ∀ {n : Nonterminal}, Awaited g kernel n →
        ∃ e, g.Closure {e | e ∈ kernel} e ∧ e.next? = some (.nonterminal n) := by
      intro n hn
      induction hn with
      | kernel he hnext => exact ⟨_, .kernel he, hnext⟩
      | @rule m n r rest _ hr hbody ih =>
          obtain ⟨hmem, rfl⟩ := g.mem_productionsOf.1 hr
          obtain ⟨e, he, hnext⟩ := ih
          exact ⟨⟨r, 0⟩, .production he hmem hnext, by simp [DottedRule.next?, hbody]⟩
    rintro (hd | ⟨hmarker, hrule, hn⟩)
    · exact .kernel hd
    · obtain ⟨r, marker⟩ := d
      obtain rfl : marker = 0 := hmarker
      obtain ⟨e, he, hnext⟩ := hawaited hn
      exact .production he hrule hnext
  · intro h
    induction h with
    | kernel hd => exact .inl hd
    | production _ hr hnext ih => exact ih.of_next? hnext (g.mem_productionsOf.2 ⟨hr, rfl⟩)

/-! ## States -/

/-- The cores of the kernel of a state, as a set. -/
def State.kernelSet (s : State) : Set DottedRule := {d | d ∈ s.kernel}

theorem State.mem_kernelSet {s : State} {d : DottedRule} : d ∈ s.kernelSet ↔ d ∈ s.kernel :=
  Iff.rfl

/-- The cores of a state: those of its kernel, and the productions of its pending nonterminals with
the marker at the start. -/
def State.cores (g : Grammar) (s : State) : Set DottedRule :=
  s.kernelSet ∪ {d | ∃ n ∈ s.items.pendings.map (·.symbol), ∃ r ∈ g.productionsOf n, d = ⟨r, 0⟩}

namespace Shaped

variable {g : Grammar} {look : Nat → State} (h : Shaped g look)

include h

theorem kernelSet_start : (look 0).kernelSet = {⟨g.acceptRule, 0⟩} := by
  ext d
  rw [State.mem_kernelSet, h.start, List.mem_singleton, Set.mem_singleton_iff]

/-- A transition leads from a kernel to the next one. -/
theorem kernelSet_of_mem_transitions {p q : Nat} {x : Symbol}
    (hedge : (x, q) ∈ (look p).transitions) :
    (look q).kernelSet = g.goto (look p).kernelSet x := by
  ext d
  have htarget := h.target p x q hedge d
  simp only [inClosure_iff_closure] at htarget
  exact htarget

theorem canonical_of_mem_transitions {p q : Nat} {x : Symbol}
    (hedge : (x, q) ∈ (look p).transitions) (hp : g.Canonical (look p).kernelSet) :
    g.Canonical (look q).kernelSet := by
  obtain ⟨hblank, d, hd, hnext⟩ := h.next p x q hedge
  rw [h.kernelSet_of_mem_transitions hedge]
  exact .goto hp hblank ⟨d.advance, d, inClosure_iff_closure.1 hd, hnext, rfl⟩

end Shaped

/-- The kernel of every state of a graph is in the collection. -/
theorem StateGraph.canonical_ofGrammar {g : Grammar} (hg : g.WellFormed) (merging : Merging)
    {q : Nat} (hq : q < (ofGrammar g g.firstFollow merging).states.size) :
    g.Canonical ((ofGrammar g g.firstFollow merging).look q).kernelSet := by
  obtain ⟨hshaped, -⟩ := due_ofGrammar hg merging
  -- A state is entered from one before it.
  induction q using Nat.strong_induction_on with
  | _ q ih =>
      rcases entered_ofGrammar hg merging q hq with rfl | ⟨p, hp, x, hedge⟩
      · exact hshaped.kernelSet_start ▸ .start
      · exact hshaped.canonical_of_mem_transitions hedge (ih p hp (hp.trans hq))

namespace Automaton

/-- The states of an automaton are the canonical collection of its grammar, with the transitions
that belong to it. -/
structure IsCanonical (g : Grammar) (a : Automaton) : Prop where
  /-- The start state has the accepting production before its body, and nothing else. -/
  start : startState < a.states.length ∧
    (a.look startState).kernel = [⟨g.acceptRule, 0⟩]
  /-- Two states have different kernels. -/
  distinct : ∀ p < a.states.length, ∀ q < a.states.length,
    (a.look p).kernelSet = (a.look q).kernelSet → p = q
  /-- The kernels are the canonical collection. -/
  collection : (fun q => (a.look q).kernelSet) '' {q | q < a.states.length} =
    {kernel | g.Canonical kernel}
  /-- Pending are the nonterminals that come next in the closure of the kernel. -/
  pending : ∀ q < a.states.length, ∀ n, n ∈ (a.look q).items.pendings.map (·.symbol) ↔
    ∃ d, g.Closure (a.look q).kernelSet d ∧ d.next? = some (.nonterminal n)
  /-- No nonterminal is pending twice. -/
  nodup : ∀ q < a.states.length, ((a.look q).items.pendings.map (·.symbol)).Nodup
  /-- There is a transition over every symbol that comes next, apart from the blank. -/
  transition : ∀ p < a.states.length, ∀ x, (∃ q, (a.look p).transition? x = some q) ↔
    x ≠ .terminal g.blank ∧ ∃ d ∈ (a.look p).cores g, d.next? = some x
  /-- A transition leads to the state of the items that it moves on. -/
  target : ∀ p < a.states.length, ∀ x q, (a.look p).transition? x = some q →
    q < a.states.length ∧
      (a.look q).kernelSet = {e | ∃ d ∈ (a.look p).cores g, d.next? = some x ∧ d.advance = e}
  /-- Transitions lead from the start state to every state. -/
  reachable : ∀ q < a.states.length, ∃ symbols, a.walk startState symbols = some q

variable {g : Grammar} {a : Automaton}

namespace Consistent

variable (ha : a.Consistent g)

include ha

/-- The cores of a state are the closure of its kernel. -/
theorem mem_cores {q : Nat} {d : DottedRule} :
    d ∈ (a.look q).cores g ↔ g.Closure (a.look q).kernelSet d := by
  rw [State.kernelSet, ← inClosure_iff_closure]
  constructor
  · rintro (hd | ⟨n, hn, r, hr, rfl⟩)
    · exact .inl hd
    · obtain ⟨hmem, rfl⟩ := g.mem_productionsOf.1 hr
      exact .inr ⟨rfl, hmem, (ha.shaped.pending q _).1 hn⟩
  · rintro (hd | ⟨hmarker, hrule, hn⟩)
    · exact .inl hd
    · obtain ⟨r, marker⟩ := d
      obtain rfl : marker = 0 := hmarker
      exact .inr ⟨_, (ha.shaped.pending q _).2 hn, r, g.mem_productionsOf.2 ⟨hrule, rfl⟩, rfl⟩

theorem mem_pendings_iff {q : Nat} {n : Nonterminal} :
    n ∈ (a.look q).items.pendings.map (·.symbol) ↔
      ∃ d, g.Closure (a.look q).kernelSet d ∧ d.next? = some (.nonterminal n) := by
  rw [ha.shaped.pending q n]
  constructor
  · intro hn
    obtain ⟨d, hd, hnext⟩ := hn.exists_next
    exact ⟨d, inClosure_iff_closure.1 hd, hnext⟩
  · rintro ⟨d, hd, hnext⟩
    rcases inClosure_iff_closure.2 hd with hd | ⟨hmarker, hrule, hawaited⟩
    · exact .kernel hd hnext
    · obtain ⟨r, marker⟩ := d
      obtain rfl : marker = 0 := hmarker
      obtain ⟨rest, hbody⟩ := List.head?_eq_some_iff.1 ((List.head?_eq_getElem? ..).trans hnext)
      exact .rule hawaited (g.mem_productionsOf.2 ⟨hrule, rfl⟩) hbody

/-- A transition leads from a kernel to the next one. -/
theorem kernelSet_of_transition? {p q : Nat} {x : Symbol}
    (h : (a.look p).transition? x = some q) :
    (a.look q).kernelSet = g.goto (a.look p).kernelSet x :=
  ha.shaped.kernelSet_of_mem_transitions (ha.transition?_eq_some_iff.1 h)

theorem exists_transition?_iff {p : Nat} {x : Symbol} :
    (∃ q, (a.look p).transition? x = some q) ↔
      x ≠ .terminal g.blank ∧ (g.goto (a.look p).kernelSet x).Nonempty := by
  constructor
  · rintro ⟨q, hq⟩
    obtain ⟨hblank, d, hd, hnext⟩ := ha.shaped.next p x q (ha.transition?_eq_some_iff.1 hq)
    exact ⟨hblank, d.advance, d, inClosure_iff_closure.1 hd, hnext, rfl⟩
  · rintro ⟨hblank, _, d, hd, hnext, rfl⟩
    obtain ⟨q, hq, -⟩ := ha.exists_transition? (inClosure_iff_closure.2 hd) hnext hblank
    exact ⟨q, hq⟩

theorem kernelSet_start : (a.look startState).kernelSet = {⟨g.acceptRule, 0⟩} :=
  ha.shaped.kernelSet_start

/-- Every kernel of the collection belongs to a state. -/
theorem exists_kernelSet_eq {kernel : Set DottedRule} (h : g.Canonical kernel) :
    ∃ q < a.states.length, (a.look q).kernelSet = kernel := by
  induction h with
  | start => exact ⟨startState, Path.start.lt_length ha, ha.kernelSet_start⟩
  | goto _ hblank hne ih =>
      obtain ⟨p, -, rfl⟩ := ih
      obtain ⟨q, hq⟩ := ha.exists_transition?_iff.2 ⟨hblank, hne⟩
      exact ⟨q, ha.target_lt_length hq, ha.kernelSet_of_transition? hq⟩

end Consistent

/-- The kernel of every state is in the collection. -/
theorem canonical_kernelSet (hg : g.WellFormed) {merging : Merging}
    (h : build g merging = .ok a) {q : Nat} (hq : q < a.states.length) :
    g.Canonical (a.look q).kernelSet := by
  rw [build_eq] at h
  rw [State.kernelSet, kernel_of_settle h]
  exact StateGraph.canonical_ofGrammar hg merging (length_of_settle h ▸ hq)

/-- No two states of an automaton have the same kernel. -/
theorem eq_of_kernelSet (hg : g.WellFormed) {merging : Merging} (h : build g merging = .ok a)
    {p q : Nat} (hp : p < a.states.length) (hq : q < a.states.length)
    (heq : (a.look p).kernelSet = (a.look q).kernelSet) : p = q := by
  rw [build_eq] at h
  rw [length_of_settle h] at hp hq
  apply StateGraph.eq_of_kernel hg merging hp hq
  intro d
  rw [← kernel_of_settle h, ← kernel_of_settle h]
  exact Set.ext_iff.1 heq d

/-- The states that are built are the canonical collection, with either kind of merging. -/
theorem isCanonical_of_build {declarations : List Declaration}
    (hg : Grammar.define declarations = .ok g) {merging : Merging}
    (h : build g merging = .ok a) : IsCanonical g a := by
  have hg := Grammar.wellFormed_of_define hg
  have ha := consistent_of_build hg h
  constructor
  case start => exact ⟨Path.start.lt_length ha, ha.shaped.start⟩
  case distinct => exact fun p hp q hq heq => eq_of_kernelSet hg h hp hq heq
  case collection =>
    apply Set.Subset.antisymm
    · rintro _ ⟨q, hq, rfl⟩
      exact canonical_kernelSet hg h hq
    · intro kernel hkernel
      exact ha.exists_kernelSet_eq hkernel
  case pending => exact fun q _ n => ha.mem_pendings_iff
  case nodup =>
    intro q _
    rw [build_eq] at h
    rw [(look_of_settle h q).1]
    exact StateGraph.nodup_pendings_ofGrammar hg merging q
  case transition =>
    intro p _ x
    rw [ha.exists_transition?_iff]
    simp only [ha.mem_cores]
    exact and_congr_right fun _ =>
      ⟨fun ⟨_, d, hd, hnext, _⟩ => ⟨d, hd, hnext⟩, fun ⟨d, hd, hnext⟩ => ⟨_, d, hd, hnext, rfl⟩⟩
  case target =>
    intro p _ x q hx
    refine ⟨ha.target_lt_length hx, ?_⟩
    simp only [ha.mem_cores]
    exact ha.kernelSet_of_transition? hx
  case reachable => exact fun q hq => exists_walk hg h hq

/-- The state before a part that may be left out.  It leads over the part and over its first
terminal, but not over the blank. -/
theorem isCanonical_of_build_optional : ∃ g a,
    Grammar.define Samples.optional = .ok g ∧ build g .firstFound = .ok a ∧ IsCanonical g a ∧
    (a.look 3).kernel = [⟨⟨2, ⟨1⟩, [.terminal ⟨2⟩, .terminal ⟨3⟩, .nonterminal ⟨2⟩, .terminal ⟨5⟩,
      .terminal ⟨6⟩], false⟩, 2⟩] ∧
    (a.look 3).items.pendings.map (·.symbol) = [⟨2⟩] ∧
    (a.look 3).transitions = [(.nonterminal ⟨2⟩, 4), (.terminal ⟨4⟩, 5)] ∧
    (a.look 5).kernel = [⟨⟨3, ⟨2⟩, [.terminal ⟨4⟩, .terminal ⟨3⟩], false⟩, 1⟩] := by
  have hpasses : passes Samples.optional .firstFound (fun _ a => decide
      ((a.look 3).kernel = [⟨⟨2, ⟨1⟩, [.terminal ⟨2⟩, .terminal ⟨3⟩, .nonterminal ⟨2⟩,
        .terminal ⟨5⟩, .terminal ⟨6⟩], false⟩, 2⟩] ∧
      (a.look 3).items.pendings.map (·.symbol) = [⟨2⟩] ∧
      (a.look 3).transitions = [(.nonterminal ⟨2⟩, 4), (.terminal ⟨4⟩, 5)] ∧
      (a.look 5).kernel = [⟨⟨3, ⟨2⟩, [.terminal ⟨4⟩, .terminal ⟨3⟩], false⟩, 1⟩])) = true := by
    decide +kernel
  obtain ⟨g, a, hg, h, hcheck⟩ := exists_of_passes hpasses
  exact ⟨g, a, hg, h, isCanonical_of_build hg h, of_decide_eq_true hcheck⟩

end Automaton

end ShiftReduce
