import Mathlib.Logic.Relation
import ShiftReduce.Proofs.Automaton.Build
import ShiftReduce.Proofs.FirstFollow.LeftCorner

/-!
# Unit reductions

A unit reduction puts one nonterminal in the place of another.  A parser that does nothing else
keeps its stack as high as it is, and may come back to where it was.  In an automaton that is
built with `Merging.lalr` from a grammar without blank bodies, this does not happen: unit
reductions before one terminal never lead from a nonterminal back to it (`not_unitCycle`).

## Strategy

Reductions in a state may have their lookaheads from different states before, since states with
the same cores are merged.

* A unit reduction to `m` before `t` is a reason to go to a state where `t` is foreseen after
  `m` (`UnitStep.exists_foreseen`).
* From there on nothing is merged any more: a chain of unit reductions that ends in a nonterminal
  which `t` is foreseen to follow can be made in that state as well (`UnitStep.carry`).
* So there is a state with a cycle where `t` is foreseen after a nonterminal of the cycle.  The
  first reason for that does not come from the cycle.  It asks for another reduction before `t`
  or for a transition over `t`, where the automaton has the reductions of the cycle
  (`not_foreseen_of_closed`).
-/

namespace ShiftReduce.Automaton

open Relation (TransGen)

variable {g : Grammar} {a : Automaton} {p q : Nat} {n m : Nonterminal} {t : Terminal}

/-- Over a nonterminal, a state comes to another one that reduces just this nonterminal to the
next before a terminal. -/
def UnitStep (a : Automaton) (t : Terminal) (p : Nat) (n m : Nonterminal) : Prop :=
  ∃ q r, (a.look p).transition? (.nonterminal n) = some q ∧ (a.look q).reduce? t = some r ∧
    r.body = [.nonterminal n] ∧ r.head = m ∧ m ≠ .accept

/-! ## Transitions at left corners -/

section LeftCorners

variable (hg : g.WellFormed) (hfree : g.EpsilonFree) (ha : a.Consistent g)

include hg hfree ha

/-- There is a transition over what begins the next nonterminal. -/
theorem exists_transition?_of_begins (h : g.Begins n t) {d : DottedRule}
    (hd : InClosure g (a.look q).kernel d) (hn : d.next? = some (.nonterminal n)) :
    ∃ q', (a.look q).transition? (.terminal t) = some q' := by
  induction h generalizing d with
  | @terminal r t rest hr hbody =>
      have hclosure := hd.of_next? hn (g.mem_productionsOf.2 ⟨hr, rfl⟩)
      have hnext : (⟨r, 0⟩ : DottedRule).next? = some (.terminal t) := by
        simp [DottedRule.next?, hbody]
      have hblank := hfree.ne_blank_of_mem hg hr (hbody ▸ List.mem_cons_self)
      obtain ⟨q', hq', -⟩ := ha.exists_transition? hclosure hnext hblank
      exact ⟨q', hq'⟩
  | @nonterminal r m t rest hr hbody _ ih =>
      have hclosure := hd.of_next? hn (g.mem_productionsOf.2 ⟨hr, rfl⟩)
      have hnext : (⟨r, 0⟩ : DottedRule).next? = some (.nonterminal m) := by
        simp [DottedRule.next?, hbody]
      exact ih hclosure hnext

/-- No production is reduced before what begins the next symbol. -/
theorem reduce?_eq_none_of_next? {d : DottedRule} (hd : InClosure g (a.look q).kernel d)
    {x : Symbol} (hx : d.next? = some x) (ht : t ∈ g.firstFollow.firstOf x) :
    (a.look q).reduce? t = none := by
  have htransition : ∃ q', (a.look q).transition? (.terminal t) = some q' := by
    cases x with
    | terminal u =>
        obtain rfl := OrderedSet.mem_single.1 ht
        have hr := (hd.of (ha.shaped.kernel_of q)).1
        have hblank := hfree.ne_blank_of_mem hg hr (List.mem_of_getElem? hx)
        obtain ⟨q', hq', -⟩ := ha.exists_transition? hd hx hblank
        exact ⟨q', hq'⟩
    | nonterminal n =>
        have hbegins := FirstFollow.begins_of_mem_first hg hfree ht
        exact exists_transition?_of_begins hg hfree ha hbegins hd hx
  obtain ⟨q', hq'⟩ := htransition
  by_contra hne
  obtain ⟨r, hr⟩ := Option.ne_none_iff_exists'.1 hne
  rw [(ha.settled q).transition?_of_reduce? hr] at hq'
  contradiction

end LeftCorners

/-! ## Where lookaheads come from -/

/-- A production is reduced with the marker at the end, so its lookahead is one of the kernel. -/
theorem expects_kernel_of_reduce? (hg : g.WellFormed) (hfree : g.EpsilonFree)
    (ha : a.Consistent g) {r : Rule} (hr : (a.look q).reduce? t = some r) :
    Item.Expects (a.look q).items.kernels ⟨r, r.body.length⟩ t := by
  obtain ⟨⟨r, marker⟩, hd, hreducible, rfl, ht⟩ := ha.exists_of_reduce? hr
  have hmem : r ∈ g.allRules := (hd.of (ha.shaped.kernel_of q)).1
  obtain rfl : marker = r.body.length := by
    simpa [DottedRule.isReducible, hfree.isEpsilon_eq_false hg hmem] using hreducible
  have hpos : r.body.length ≠ 0 := by
    rw [Ne, List.length_eq_zero_iff]
    exact hg.ne_nil_of_mem hmem
  exact (ItemSet.expects_items.1 ht).resolve_right fun h => hpos h.1

/-- The lookahead of a unit reduction is foreseen in a state before. -/
theorem UnitStep.exists_foreseen (hg : g.WellFormed) (hfree : g.EpsilonFree) (ha : a.Consistent g)
    (h : UnitStep a t p n m) :
    ∃ p', Foreseen g g.firstFollow (a.look p').items.kernels m t := by
  obtain ⟨q, r, -, hr, hbody, rfl, haccept⟩ := h
  have hkernel := expects_kernel_of_reduce? hg hfree ha hr
  rw [hbody, List.length_singleton] at hkernel
  rcases ha.sourced.source q _ t hkernel with ⟨hstart, -⟩ | ⟨p', x, e, -, he, -, hadvance⟩
  · exact absurd (congrArg DottedRule.marker hstart) one_ne_zero
  obtain rfl : e = ⟨r, 0⟩ := DottedRule.advance_inj hadvance
  refine ⟨p', ?_⟩
  rcases ItemSet.expects_items.1 he with he | ⟨-, -, he⟩
  · obtain ⟨hstart, -⟩ := ha.sourced.eq_start he rfl
    have hrule : r = g.acceptRule := congrArg DottedRule.rule hstart
    exact absurd (congrArg Rule.head hrule) haccept
  · exact ha.foreseen p' _ t he

section Saturated

variable (ha : a.Saturated g)

include ha

/-- A production with one symbol left is reduced behind this symbol. -/
theorem reduce?_of_expects {d : DottedRule} {x : Symbol}
    (hq : (a.look p).transition? x = some q) (ht : (a.look p).Expects g d t)
    (hx : d.next? = some x) (hbeyond : d.beyond? = none) (hblank : t ≠ g.blank) :
    (a.look q).reduce? t = some d.rule := by
  have hmoved := ha.expects_advance hq ht hx
  have hlt : d.marker < d.rule.body.length := (List.getElem?_eq_some_iff.1 hx).1
  have hle : d.rule.body.length ≤ d.marker + 1 := List.getElem?_eq_none_iff.1 hbeyond
  have hreducible : d.advance.isReducible = true := by
    have hlength : d.marker + 1 = d.rule.body.length := by omega
    simp [DottedRule.isReducible, DottedRule.advance, hlength]
  exact (ha.settled q).reduce?_eq_some_iff.2 ⟨hblank, _, hmoved, hreducible, rfl⟩

/-- Where a terminal is foreseen after the head of a unit production, the production is reduced
before the terminal. -/
theorem exists_reduce?_of_foreseen {r : Rule} (hr : r ∈ g.allRules)
    (hbody : r.body = [.nonterminal n])
    (ht : Foreseen g g.firstFollow (a.look p).items.kernels r.head t) (hblank : t ≠ g.blank) :
    ∃ q, (a.look p).transition? (.nonterminal n) = some q ∧ (a.look q).reduce? t = some r := by
  have hexpects : (a.look p).Expects g ⟨r, 0⟩ t :=
    ItemSet.expects_items.2 (.inr ⟨rfl, hr, ha.expects p _ t ht⟩)
  have hnext : (⟨r, 0⟩ : DottedRule).next? = some (.nonterminal n) := by
    simp [DottedRule.next?, hbody]
  have hbeyond : (⟨r, 0⟩ : DottedRule).beyond? = none := by
    simp [DottedRule.beyond?, hbody]
  obtain ⟨q, hq, -⟩ :=
    ha.exists_transition? (ha.shaped.inClosure_of_expects hexpects) hnext (by simp)
  exact ⟨q, hq, reduce?_of_expects ha hq hexpects hnext hbeyond hblank⟩

/-- Where the terminal is foreseen after the result of a unit reduction, the reduction is made,
and the terminal is foreseen after what is reduced. -/
theorem UnitStep.carry {p' : Nat} (h : UnitStep a t p n m)
    (hm : Foreseen g g.firstFollow (a.look p').items.kernels m t) :
    UnitStep a t p' n m ∧ Foreseen g g.firstFollow (a.look p').items.kernels n t := by
  obtain ⟨q, r, -, hr, hbody, rfl, haccept⟩ := h
  obtain ⟨hblank, -⟩ := (ha.settled q).reduce?_eq_some_iff.1 hr
  have hmem := ha.mem_allRules_of_reduce? hr
  obtain ⟨q', hq', hreduce⟩ := exists_reduce?_of_foreseen ha hmem hbody hm hblank
  exact ⟨⟨q', r, hq', hreduce, hbody, rfl, haccept⟩,
    .last hm (g.mem_productionsOf.2 ⟨hmem, rfl⟩) hbody⟩

/-- A whole chain of unit reductions can be made there. -/
theorem carry_chain {p' : Nat} (h : TransGen (UnitStep a t p) n m)
    (hm : Foreseen g g.firstFollow (a.look p').items.kernels m t) :
    TransGen (UnitStep a t p') n m ∧
      Foreseen g g.firstFollow (a.look p').items.kernels n t := by
  induction h using TransGen.head_induction_on with
  | single hstep =>
      obtain ⟨hstep', hn⟩ := hstep.carry ha hm
      exact ⟨.single hstep', hn⟩
  | head hstep _ ih =>
      obtain ⟨hchain, hmid⟩ := ih
      obtain ⟨hstep', hn⟩ := hstep.carry ha hmid
      exact ⟨.head hstep' hchain, hn⟩

variable (hg : g.WellFormed) (hfree : g.EpsilonFree)

include hg hfree

/-- Where every nonterminal of some kind is reduced to another one of them before a terminal,
the terminal is not foreseen after any of them. -/
theorem not_foreseen_of_closed {C : Nonterminal → Prop}
    (hclosed : ∀ n, C n → ∃ m, UnitStep a t p n m ∧ C m) (hn : C n) :
    ¬ Foreseen g g.firstFollow (a.look p).items.kernels n t := by
  intro h
  induction h with
  | @kernel k n t hk hnext ht =>
      obtain ⟨m, ⟨q, r, hq, hr, hbody, rfl, haccept⟩, -⟩ := hclosed n hn
      have hd : InClosure g (a.look p).kernel k.core := .inl (List.mem_map_of_mem hk)
      cases hbeyond : k.core.beyond? with
      | some x =>
          -- The terminal begins what comes next, so there is a transition over it.
          rw [hbeyond] at ht
          have hmoved := ha.advance_mem_of_transition? hq hd hnext
          have hnone := reduce?_eq_none_of_next? hg hfree ha.toConsistent (.inl hmoved) hbeyond ht
          rw [hr] at hnone
          contradiction
      | none =>
          -- The item of the kernel has to be the unit production that is reduced.
          rw [hbeyond] at ht
          obtain ⟨hblank, -⟩ := (ha.settled q).reduce?_eq_some_iff.1 hr
          have hown : Item.Expects (a.look p).items.kernels k.core t := ⟨k, hk, rfl, ht⟩
          have hreduce := reduce?_of_expects ha hq (ItemSet.expects_items.2 (.inl hown)) hnext
            hbeyond hblank
          obtain rfl : r = k.core.rule := Option.some.inj (hr.symm.trans hreduce)
          have hmarker : k.core.marker = 0 := by
            have hlt : k.core.marker < k.core.rule.body.length :=
              (List.getElem?_eq_some_iff.1 hnext).1
            rw [hbody, List.length_singleton] at hlt
            omega
          obtain ⟨hstart, -⟩ := ha.sourced.eq_start hown hmarker
          exact haccept (congrArg (fun d => d.rule.head) hstart)
  | @beyond m n r' x rest t hm hr' hbody' ht =>
      -- There is a transition over the terminal where the reduction should be.
      obtain ⟨m', ⟨q, r, hq, hr, -⟩, -⟩ := hclosed n hn
      have hd : InClosure g (a.look p).kernel ⟨r', 0⟩ := by
        obtain ⟨hmem, rfl⟩ := g.mem_productionsOf.1 hr'
        exact .inr ⟨rfl, hmem, hm⟩
      have hnext : (⟨r', 0⟩ : DottedRule).next? = some (.nonterminal n) := by
        simp [DottedRule.next?, hbody']
      have hbeyond : (⟨r', 0⟩ : DottedRule).advance.next? = some x := by
        simp [DottedRule.next?, DottedRule.advance, hbody']
      have hmoved := ha.advance_mem_of_transition? hq hd hnext
      have hnone := reduce?_eq_none_of_next? hg hfree ha.toConsistent (.inl hmoved) hbeyond ht
      rw [hr] at hnone
      contradiction
  | @last m n r' t hm hr' hbody' ih =>
      -- The production is the one that is reduced, and its head is of the kind as well.
      obtain ⟨m', ⟨q, r, hq, hr, hbody, rfl, haccept⟩, hm'⟩ := hclosed n hn
      obtain ⟨hblank, -⟩ := (ha.settled q).reduce?_eq_some_iff.1 hr
      obtain ⟨hmem, rfl⟩ := g.mem_productionsOf.1 hr'
      obtain ⟨q', hq', hreduce⟩ := exists_reduce?_of_foreseen ha hmem hbody' hm hblank
      obtain rfl : q = q' := Option.some.inj (hq.symm.trans hq')
      obtain rfl : r = r' := Option.some.inj (hr.symm.trans hreduce)
      exact ih hclosed hm'

/-- Unit reductions before one terminal do not lead back. -/
theorem not_unitCycle : ¬ TransGen (UnitStep a t p) n n := by
  intro hcycle
  -- The cycle is moved to a state where the terminal is foreseen after it.
  obtain ⟨m, hfirst, -⟩ := TransGen.head'_iff.1 hcycle
  obtain ⟨p', hm⟩ := hfirst.exists_foreseen hg hfree ha.toConsistent
  obtain ⟨-, hn⟩ := hfirst.carry ha hm
  obtain ⟨hcycle', -⟩ := carry_chain ha hcycle hn
  have hclosed : ∀ b, TransGen (UnitStep a t p') b n →
      ∃ c, UnitStep a t p' b c ∧ TransGen (UnitStep a t p') c n := by
    intro b hb
    obtain ⟨c, hbc, hcn⟩ := TransGen.head'_iff.1 hb
    rcases Relation.reflTransGen_iff_eq_or_transGen.1 hcn with rfl | hcn
    · exact ⟨n, hbc, hcycle'⟩
    · exact ⟨c, hbc, hcn⟩
  exact not_foreseen_of_closed ha hg hfree hclosed hcycle' hn

end Saturated

end ShiftReduce.Automaton
