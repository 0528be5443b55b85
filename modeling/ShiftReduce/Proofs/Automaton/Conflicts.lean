import ShiftReduce.Grammar.Samples
import ShiftReduce.Proofs.Automaton.KernelShape

/-!
# Conflicts

An automaton is refused exactly if somewhere in its graph two claimants compete for a terminal
(`State.Contested`): a transition, an item of the kernel that has come to its end, or a production
with a blank body.  The error tells which ones, and it tells of the first conflict that there is, by
the number of the state, then by the order of the reductions and of their lookaheads
(`Automaton.verdict_build`).

The graph is `StateGraph.ofGrammar`, which knows of no conflicts, so it makes no difference that
with `Merging.firstFound` states are settled while others are still to be found.

## Strategy

Where granting stops, two demands are for the same terminal, or one demand is for the terminal of
a transition (`State.ConflictAt`).  To read claimants off the demands one has to know that a state
demands nothing twice, or a production would be in conflict with itself.  This holds in a state that
is `State.Regular`: it has no core and no pending nonterminal twice, and no production with a blank
body in its kernel, since such a production never moves on.
-/

namespace ShiftReduce

/-! ## Claimants -/

/-- What may claim a terminal in a state. -/
inductive Claimant where
  | transition (target : Nat)
  /-- An item of the kernel with the marker at its end. -/
  | completed (d : DottedRule)
  /-- A production of a pending nonterminal with a blank body. -/
  | blank (r : Rule)
deriving DecidableEq

/-- The production that a claimant asks to reduce. -/
def Claimant.rule? : Claimant → Option Rule
  | .transition _ => none
  | .completed d => some d.rule
  | .blank r => some r

namespace State

/-- A claimant has a claim on a terminal in a state. -/
inductive Claims (g : Grammar) (s : State) (t : Terminal) : Claimant → Prop
  | transition {target : Nat} : s.transition? (.terminal t) = some target →
      Claims g s t (.transition target)
  | completed {d : DottedRule} : Item.Expects s.items.kernels d t →
      d.marker = d.rule.body.length → Claims g s t (.completed d)
  | blank {r : Rule} : r ∈ g.allRules → r.isEpsilon = true →
      Pending.Expects s.items.pendings r.head t → Claims g s t (.blank r)

/-- Two claimants compete for a terminal, which is not the blank. -/
def Contested (g : Grammar) (s : State) (t : Terminal) : Prop :=
  t ≠ g.blank ∧ ∃ rival rival', rival ≠ rival' ∧ s.Claims g t rival ∧ s.Claims g t rival'

/-- An error tells of claimants that compete in the state of a number. -/
inductive Reports (g : Grammar) (s : State) (q : Nat) : BuildError → Prop
  | shiftReduce {t : Terminal} {target : Nat} {rival : Claimant} {r : Rule} : t ≠ g.blank →
      s.Claims g t (.transition target) → s.Claims g t rival → rival.rule? = some r →
      Reports g s q (.shiftReduce q t target r)
  | reduceReduce {t : Terminal} {rival rival' : Claimant} {first second : Rule} : t ≠ g.blank →
      s.Claims g t rival → s.Claims g t rival' → rival.rule? = some first →
      rival'.rule? = some second → first ≠ second →
      Reports g s q (.reduceReduce q t first second)

variable {g : Grammar} {s : State}

/-- A claimant is a transition or asks for a reduction. -/
theorem Claims.cases {t : Terminal} {rival : Claimant} (h : s.Claims g t rival) :
    (∃ target, rival = .transition target ∧ s.transition? (.terminal t) = some target) ∨
      ∃ r, rival.rule? = some r := by
  cases h with
  | transition htarget => exact .inl ⟨_, rfl, htarget⟩
  | completed _ _ => exact .inr ⟨_, rfl⟩
  | blank _ _ _ => exact .inr ⟨_, rfl⟩

/-- What is reported is a competition. -/
theorem Reports.exists_contested {q : Nat} {e : BuildError} (h : s.Reports g q e) :
    ∃ t, s.Contested g t := by
  cases h with
  | @shiftReduce t target rival r hblank hclaims hclaims' hr =>
      refine ⟨t, hblank, _, rival, ?_, hclaims, hclaims'⟩
      rintro rfl
      contradiction
  | @reduceReduce t rival rival' first second hblank hclaims hclaims' hfirst hsecond hne =>
      refine ⟨t, hblank, rival, rival', ?_, hclaims, hclaims'⟩
      rintro rfl
      exact hne (Option.some.inj (hfirst.symm.trans hsecond))

/-! ## Regular states -/

/-- A state whose productions can be told apart when they are reduced. -/
structure Regular (g : Grammar) (s : State) : Prop where
  rule_mem : ∀ d ∈ s.kernel, d.rule ∈ g.allRules
  isEpsilon : ∀ d ∈ s.kernel, d.rule.isEpsilon = false
  distinct : s.kernel.Nodup
  nodup : (s.items.pendings.map (·.symbol)).Nodup

end State

/-- No production is listed twice. -/
theorem Grammar.WellFormed.nodup_allRules {g : Grammar} (hg : g.WellFormed) : g.allRules.Nodup := by
  apply List.nodup_cons.2
  constructor
  · intro h
    exact (hg.head_declared _ h).1 rfl
  · refine hg.distinct.imp fun h heq => h ?_
    rw [heq]
    exact ⟨rfl, rfl⟩

/-- A production that has not moved yet may be reduced only if its body is blank. -/
theorem DottedRule.isReducible_start {g : Grammar} (hg : g.WellFormed) {r : Rule}
    (hr : r ∈ g.allRules) : (⟨r, 0⟩ : DottedRule).isReducible = r.isEpsilon := by
  have hne : 0 ≠ r.body.length := fun h => hg.ne_nil_of_mem hr (List.length_eq_zero_iff.1 h.symm)
  simp [isReducible, hne]

namespace State.Regular

variable {g : Grammar} {s : State}

theorem isReducible_iff (hs : s.Regular g) {d : DottedRule} (hd : d ∈ s.kernel) :
    d.isReducible = true ↔ d.marker = d.rule.body.length := by
  simp [DottedRule.isReducible, hs.isEpsilon d hd]

theorem clash?_eq_none (hs : s.Regular g) : ItemSet.clash? s.items.kernels = none :=
  ItemSet.clash?_eq_none hs.isEpsilon

variable (hg : g.WellFormed) (hs : s.Regular g)

include hg hs

/-- A production is demanded before a terminal if a claimant asks for it. -/
theorem mem_demands_iff {t : Terminal} {r : Rule} : (t, r) ∈ s.items.demands g ↔
    t ≠ g.blank ∧ ∃ rival, s.Claims g t rival ∧ rival.rule? = some r := by
  rw [mem_demands]
  refine and_congr_right fun _ => ⟨?_, ?_⟩
  · rintro ⟨d, ht, hreducible, rfl⟩
    rcases ItemSet.expects_items.1 ht with ht | ⟨hmarker, hrule, ht⟩
    · have hd : d ∈ s.kernel := Item.mem_core_of_expects ht
      exact ⟨_, .completed ht ((hs.isReducible_iff hd).1 hreducible), rfl⟩
    · obtain ⟨r, marker⟩ := d
      obtain rfl : marker = 0 := hmarker
      rw [DottedRule.isReducible_start hg hrule] at hreducible
      exact ⟨_, .blank hrule hreducible ht, rfl⟩
  · rintro ⟨rival, hclaims, hr⟩
    cases hclaims with
    | transition _ => contradiction
    | @completed d ht hmarker =>
        obtain rfl := Option.some.inj hr
        have hd : d ∈ s.kernel := Item.mem_core_of_expects ht
        exact ⟨d, ItemSet.expects_items.2 (.inl ht), (hs.isReducible_iff hd).2 hmarker, rfl⟩
    | @blank r' hrule hepsilon ht =>
        obtain rfl := Option.some.inj hr
        refine ⟨⟨r', 0⟩, ItemSet.expects_items.2 (.inr ⟨rfl, hrule, ht⟩), ?_, rfl⟩
        rwa [DottedRule.isReducible_start hg hrule]

omit hg in
/-- Claimants of a terminal that ask for the same production are the same. -/
theorem eq_of_rule?_eq {t : Terminal} {rival rival' : Claimant} {r : Rule}
    (h : s.Claims g t rival) (h' : s.Claims g t rival') (hr : rival.rule? = some r)
    (hr' : rival'.rule? = some r) : rival = rival' := by
  have hkernel : ∀ {d : DottedRule}, Item.Expects s.items.kernels d t →
      d.rule.isEpsilon = false := fun hd => hs.isEpsilon _ (Item.mem_core_of_expects hd)
  cases h with
  | transition _ => contradiction
  | @completed d hd hmarker =>
      obtain rfl := Option.some.inj hr
      cases h' with
      | transition _ => contradiction
      | @completed d' hd' hmarker' =>
          have hrule : d'.rule = d.rule := Option.some.inj hr'
          have hsame : d'.marker = d.marker := by rw [hmarker, hmarker', hrule]
          obtain ⟨rule, marker⟩ := d
          obtain ⟨rule', marker'⟩ := d'
          obtain rfl : rule' = rule := hrule
          obtain rfl : marker' = marker := hsame
          rfl
      | blank _ hepsilon _ =>
          obtain rfl := Option.some.inj hr'
          rw [hkernel hd] at hepsilon
          contradiction
  | blank _ hepsilon _ =>
      obtain rfl := Option.some.inj hr
      cases h' with
      | transition _ => contradiction
      | @completed d hd _ =>
          obtain rfl := Option.some.inj hr'
          rw [hkernel hd] at hepsilon
          contradiction
      | blank _ _ _ =>
          obtain rfl := Option.some.inj hr'
          rfl

/-- Items that may be reduced have different productions. -/
theorem pairwise_items : (s.items.items g).Pairwise fun k k' =>
    k.core.isReducible = true → k'.core.isReducible = true → k.core.rule ≠ k'.core.rule := by
  have hrules : ∀ p : Pending, (p.items g).Pairwise fun k k' => k.core.rule ≠ k'.core.rule :=
    fun p => List.pairwise_map.2 (hg.nodup_allRules.filter _)
  rw [ItemSet.items, List.pairwise_append]
  refine ⟨?_, ?_, ?_⟩
  · -- Within the kernel the markers would be the same as well.
    have hdistinct : s.items.kernels.Pairwise fun k k' => k.core ≠ k'.core :=
      List.pairwise_map.1 hs.distinct
    refine hdistinct.imp_of_mem fun {k k'} hk hk' hne hreducible hreducible' hrule => hne ?_
    have hmarker := (hs.isReducible_iff (List.mem_map_of_mem hk)).1 hreducible
    have hmarker' := (hs.isReducible_iff (List.mem_map_of_mem hk')).1 hreducible'
    calc k.core = ⟨k.core.rule, k.core.rule.body.length⟩ := by rw [← hmarker]
      _ = ⟨k'.core.rule, k'.core.rule.body.length⟩ := by rw [hrule]
      _ = k'.core := by rw [← hmarker']
  · -- Productions of different nonterminals have different heads.
    rw [List.pairwise_flatMap]
    refine ⟨fun p _ => (hrules p).imp fun hne _ _ => hne, ?_⟩
    have hsymbols : s.items.pendings.Pairwise fun p p' => p.symbol ≠ p'.symbol :=
      List.pairwise_map.1 hs.nodup
    refine hsymbols.imp fun hne k hk k' hk' _ _ hrule => hne ?_
    obtain ⟨r, hr, rfl⟩ := List.mem_map.1 hk
    obtain ⟨r', hr', rfl⟩ := List.mem_map.1 hk'
    obtain rfl : r = r' := hrule
    exact (g.mem_productionsOf.1 hr).2.symm.trans (g.mem_productionsOf.1 hr').2
  · -- A production of a pending nonterminal is reduced if its body is blank.
    intro k hk k' hk' _ hreducible hrule
    obtain ⟨p, -, hk'⟩ := List.mem_flatMap.1 hk'
    obtain ⟨r, hr, rfl⟩ := List.mem_map.1 hk'
    rw [DottedRule.isReducible_start hg (g.mem_productionsOf.1 hr).1] at hreducible
    have hkernel := hs.isEpsilon k.core (List.mem_map_of_mem hk)
    rw [hrule, hreducible] at hkernel
    contradiction

/-- Nothing is demanded twice. -/
theorem nodup_demands : (s.items.demands g).Nodup := by
  rw [ItemSet.demands, List.nodup_flatMap]
  constructor
  · rintro ⟨r, lookaheads⟩ -
    exact (lookaheads.nodup.filter _).map fun _ _ h => (Prod.mk.inj h).1
  · rw [ItemSet.reductions, List.pairwise_map, List.pairwise_filter]
    refine (pairwise_items hg hs).imp fun hne hreducible hreducible' => ?_
    rintro ⟨t, r⟩ ht ht'
    obtain ⟨_, _, heq⟩ := List.mem_map.1 ht
    obtain ⟨_, _, heq'⟩ := List.mem_map.1 ht'
    apply hne hreducible hreducible'
    exact (Prod.mk.inj heq).2.trans (Prod.mk.inj heq').2.symm

/-- A state can be settled if no terminal calls for two productions, or for one where there is a
transition. -/
theorem settleable
    (hrule : ∀ t r r', (t, r) ∈ s.items.demands g → (t, r') ∈ s.items.demands g → r = r')
    (htransition : ∀ t r, (t, r) ∈ s.items.demands g → s.transition? (.terminal t) = none) :
    s.Settleable g := by
  refine ⟨hs.clash?_eq_none, (hs.nodup_demands hg).map_on ?_, htransition⟩
  rintro ⟨t, r⟩ ht ⟨t', r'⟩ ht' heq
  obtain rfl : t = t' := heq
  rw [hrule t r r' ht ht']

/-- A place in conflict is reported with its claimants. -/
theorem reports_of_conflictAt {q n : Nat} {e : BuildError}
    (h : s.ConflictAt q (s.items.demands g) n e) : s.Reports g q e := by
  cases h with
  | shiftReduce hn htarget =>
      obtain ⟨hblank, rival, hclaims, hr⟩ :=
        (hs.mem_demands_iff hg).1 (List.mem_of_getElem? hn)
      exact .shiftReduce hblank (.transition htarget) hclaims hr
  | @reduceReduce m n t first second hlt hm hn =>
      obtain ⟨hblank, rival, hclaims, hfirst⟩ :=
        (hs.mem_demands_iff hg).1 (List.mem_of_getElem? hm)
      obtain ⟨-, rival', hclaims', hsecond⟩ :=
        (hs.mem_demands_iff hg).1 (List.mem_of_getElem? hn)
      refine .reduceReduce hblank hclaims hclaims' hfirst hsecond ?_
      rintro rfl
      -- The same demand would be at two places.
      have hsize := (List.getElem?_eq_some_iff.1 hm).1
      have hplace := (List.getElem?_inj hsize (hs.nodup_demands hg)).1 (hm.trans hn.symm)
      exact absurd hplace (Nat.ne_of_lt hlt)

/-- A terminal that is contested is in conflict at some place. -/
theorem exists_conflictAt {t : Terminal} (h : s.Contested g t) (q : Nat) :
    ∃ n e, s.ConflictAt q (s.items.demands g) n e := by
  obtain ⟨hblank, rival, rival', hne, hclaims, hclaims'⟩ := h
  have hplace : ∀ {rival : Claimant} {r : Rule}, s.Claims g t rival → rival.rule? = some r →
      ∃ n, (s.items.demands g)[n]? = some (t, r) := fun hclaims hr =>
    List.mem_iff_getElem?.1 ((hs.mem_demands_iff hg).2 ⟨hblank, _, hclaims, hr⟩)
  rcases hclaims.cases with ⟨target, rfl, htarget⟩ | ⟨r, hr⟩
  · rcases hclaims'.cases with ⟨target', rfl, htarget'⟩ | ⟨r', hr'⟩
    · -- There is one transition only.
      obtain rfl := Option.some.inj (htarget.symm.trans htarget')
      exact absurd rfl hne
    · obtain ⟨n, hn⟩ := hplace hclaims' hr'
      exact ⟨n, _, .shiftReduce hn htarget⟩
  · obtain ⟨m, hm⟩ := hplace hclaims hr
    rcases hclaims'.cases with ⟨target, rfl, htarget⟩ | ⟨r', hr'⟩
    · exact ⟨m, _, .shiftReduce hm htarget⟩
    · obtain ⟨n, hn⟩ := hplace hclaims' hr'
      rcases Nat.lt_trichotomy m n with hlt | rfl | hlt
      · exact ⟨n, _, .reduceReduce hlt hm hn⟩
      · obtain ⟨-, rfl⟩ := Prod.mk.inj (Option.some.inj (hm.symm.trans hn))
        exact absurd (hs.eq_of_rule?_eq hclaims hclaims' hr hr') hne
      · exact ⟨m, _, .reduceReduce hlt hn hm⟩

end State.Regular

/-! ## Graphs and automata -/

namespace StateGraph

variable {g : Grammar}

/-- A production with a blank body does not move on, so it is in no kernel. -/
theorem isEpsilon_kernel_ofGrammar (hg : g.WellFormed) (merging : Merging) (q : Nat) :
    ∀ d ∈ ((ofGrammar g g.firstFollow merging).look q).kernel, d.rule.isEpsilon = false :=
  fun d hd => (kernelShape_ofGrammar hg merging).isEpsilon (lt_size_of_mem_kernel hd) d hd

theorem regular_ofGrammar (hg : g.WellFormed) (merging : Merging) (q : Nat) :
    ((ofGrammar g g.firstFollow merging).look q).Regular g := by
  obtain ⟨hshaped, -⟩ := due_ofGrammar hg merging
  exact ⟨fun d hd => (hshaped.kernel_of q d hd).1, isEpsilon_kernel_ofGrammar hg merging q,
    hshaped.distinct q, nodup_pendings_ofGrammar hg merging q⟩

/-- A result is the verdict on a graph: an automaton with what the graph says is to be reduced, if
nothing is contested there, and the first conflict otherwise. -/
structure Verdict (g : Grammar) (c : StateGraph) (result : Except BuildError Automaton) : Prop where
  /-- There is an automaton unless two claimants compete in a state. -/
  exists_iff : (∃ a, result = .ok a) ↔
    ∀ q < c.states.size, ∀ t, ¬ (c.look q).Contested g t
  /-- The automaton has the states of the graph, and reduces before a terminal what lists it among
  its lookaheads. -/
  reduces : ∀ a, result = .ok a → a.states.length = c.states.size ∧ ∀ q < c.states.size,
    (a.look q).items = (c.look q).items ∧ (a.look q).transitions = (c.look q).transitions ∧
    ((a.look q).reduces.map (·.1)).Nodup ∧ ∀ t r, (t, r) ∈ (a.look q).reduces ↔
      t ≠ g.blank ∧ ∃ lookaheads, (r, lookaheads) ∈ (c.look q).items.reductions g ∧ t ∈ lookaheads
  /-- An error tells of claimants that compete. -/
  reports : ∀ e, result = .error e → ∃ q < c.states.size, (c.look q).Reports g q e
  /-- The error is the first conflict. -/
  error_iff : ∀ e, result = .error e ↔ c.FirstConflict g e

end StateGraph

/-- A production is demanded before its lookaheads. -/
theorem ItemSet.mem_demands_iff {g : Grammar} {s : ItemSet} {t : Terminal} {r : Rule} :
    (t, r) ∈ s.demands g ↔
      t ≠ g.blank ∧ ∃ lookaheads, (r, lookaheads) ∈ s.reductions g ∧ t ∈ lookaheads := by
  simp only [demands, List.mem_flatMap, List.mem_map, List.mem_filter, decide_eq_true_eq]
  constructor
  · rintro ⟨⟨r', lookaheads⟩, hr, u, ⟨hu, hblank⟩, heq⟩
    obtain ⟨rfl, rfl⟩ := Prod.mk.inj heq
    exact ⟨hblank, lookaheads, hr, hu⟩
  · rintro ⟨hblank, lookaheads, hr, ht⟩
    exact ⟨(r, lookaheads), hr, t, ⟨ht, hblank⟩, rfl⟩

namespace Automaton

variable {g : Grammar} {merging : Merging}

/-- In the graph of an automaton that has been built, no place is in conflict. -/
theorem not_conflictAt_of_build {a : Automaton} (h : build g merging = .ok a) (q n : Nat)
    (e : BuildError) : ¬ (StateGraph.ofGrammar g g.firstFollow merging).ConflictAt g q n e := by
  intro hconflict
  rw [build_eq] at h
  exact State.not_conflictAt_of_settleable (exists_settle_iff.1 ⟨a, h⟩ q hconflict.lt_size)
    hconflict

/-- The error of a build is the first conflict of the graph. -/
theorem firstConflict_of_build (hg : g.WellFormed) {e : BuildError}
    (h : build g merging = .error e) :
    (StateGraph.ofGrammar g g.firstFollow merging).FirstConflict g e := by
  rw [build_eq] at h
  exact StateGraph.firstConflict_of_settle
    (fun q => (StateGraph.regular_ofGrammar hg merging q).clash?_eq_none) h

/-- The error of a build tells of claimants that compete. -/
theorem reports_of_build (hg : g.WellFormed) {e : BuildError} (h : build g merging = .error e) :
    ∃ q < (StateGraph.ofGrammar g g.firstFollow merging).states.size,
      ((StateGraph.ofGrammar g g.firstFollow merging).look q).Reports g q e := by
  obtain ⟨q, n, hconflict, -⟩ := firstConflict_of_build hg h
  exact ⟨q, hconflict.lt_size,
    (StateGraph.regular_ofGrammar hg merging q).reports_of_conflictAt hg hconflict⟩

/-- The result of a build is the verdict on the graph of the grammar. -/
theorem verdict_build {declarations : List Declaration}
    (hg : Grammar.define declarations = .ok g) (merging : Merging) :
    (StateGraph.ofGrammar g g.firstFollow merging).Verdict g (build g merging) := by
  have hg := Grammar.wellFormed_of_define hg
  constructor
  case exists_iff =>
    constructor
    · rintro ⟨a, h⟩ q - t hcontested
      obtain ⟨n, e, hconflict⟩ :=
        (StateGraph.regular_ofGrammar hg merging q).exists_conflictAt hg hcontested q
      exact not_conflictAt_of_build h q n e hconflict
    · intro hnone
      cases h : build g merging with
      | ok a => exact ⟨a, rfl⟩
      | error e =>
          obtain ⟨q, hq, hreports⟩ := reports_of_build hg h
          obtain ⟨t, ht⟩ := hreports.exists_contested
          exact absurd ht (hnone q hq t)
  case reduces =>
    intro a h
    rw [build_eq] at h
    refine ⟨length_of_settle h, fun q _ => ?_⟩
    obtain ⟨hitems, htransitions, hsettled⟩ := look_of_settle h q
    refine ⟨hitems, htransitions, hsettled.distinct, fun t r => ?_⟩
    rw [hsettled.reduces_eq, hitems]
    exact ItemSet.mem_demands_iff
  case reports => exact fun e h => reports_of_build hg h
  case error_iff =>
    intro e
    refine ⟨firstConflict_of_build hg, fun hfirst => ?_⟩
    cases h : build g merging with
    | ok a =>
        obtain ⟨q, n, hconflict, -⟩ := hfirst
        exact absurd hconflict (not_conflictAt_of_build h q n e)
    | error e' => rw [hfirst.unique (firstConflict_of_build hg h)]

/-- The error of a grammar that has no automaton. -/
def refusal? (declarations : List Declaration) (merging : Merging) : Option BuildError :=
  match Grammar.define declarations with
  | .error _ => none
  | .ok g =>
    match build g merging with
    | .error e => some e
    | .ok _ => none

theorem exists_of_refusal? {declarations : List Declaration} {e : BuildError}
    (h : refusal? declarations merging = some e) :
    ∃ g, Grammar.define declarations = .ok g ∧ build g merging = .error e := by
  unfold refusal? at h
  cases hg : Grammar.define declarations with
  | error _ => simp [hg] at h
  | ok g =>
      rw [hg] at h
      dsimp only at h
      cases hbuild : build g merging with
      | error e' =>
          rw [hbuild] at h
          obtain rfl := Option.some.inj h
          exact ⟨g, rfl, hbuild⟩
      | ok a => simp [hbuild] at h

/-- Before `:` a type and a name are told apart with `Merging.firstFound` only. -/
theorem verdict_build_paramSpec : ∃ g e,
    Grammar.define Samples.paramSpec = .ok g ∧ build g .lalr = .error e ∧
    e = .reduceReduce 5 ⟨2⟩ ⟨7, ⟨4⟩, [.terminal ⟨4⟩], false⟩ ⟨8, ⟨5⟩, [.terminal ⟨4⟩], false⟩ ∧
    (StateGraph.ofGrammar g g.firstFollow .lalr).Verdict g (build g .lalr) ∧
    (StateGraph.ofGrammar g g.firstFollow .lalr).FirstConflict g e := by
  have hrefusal : refusal? Samples.paramSpec .lalr = some (.reduceReduce 5 ⟨2⟩
      ⟨7, ⟨4⟩, [.terminal ⟨4⟩], false⟩ ⟨8, ⟨5⟩, [.terminal ⟨4⟩], false⟩) := by decide +kernel
  obtain ⟨g, hg, h⟩ := exists_of_refusal? hrefusal
  exact ⟨g, _, hg, h, rfl, verdict_build hg .lalr, ((verdict_build hg .lalr).error_iff _).1 h⟩

end Automaton

end ShiftReduce
