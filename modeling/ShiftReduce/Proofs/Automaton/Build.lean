import ShiftReduce.Automaton.Build
import ShiftReduce.Proofs.Automaton.Exploration
import ShiftReduce.Proofs.Automaton.Propagation
import ShiftReduce.Proofs.Automaton.Settling
import ShiftReduce.Proofs.FirstFollow.Limit

/-!
# The automaton of a grammar

What holds of every automaton that has been built: `Automaton.Consistent`, and with
`Merging.lalr` also `Automaton.Saturated`.  Exploration and propagation have brought this
about, and settling has added that no terminal calls for two things at once.

The later parts of this file restate these facts in the terms in which a parser runs: which
transitions there are (`exists_transition?`, `mem_closure_of_transition?`), what is reduced
(`exists_of_reduce?`), and how lookaheads travel (`expects_beyond`, `expects_last`,
`expects_advance`).
-/

namespace ShiftReduce

/-! ## The finished automaton -/

namespace Automaton

/-- The state of a number in an automaton. -/
def look (a : Automaton) (q : Nat) : State := a.states[q]?.getD .absent

theorem look_of_lt {a : Automaton} {q : Nat} (h : q < a.states.length) :
    a.look q = a.states.get ⟨q, h⟩ := by
  rw [look, List.getElem?_eq_getElem h, Option.getD_some, List.get_eq_getElem]

/-- What holds of every automaton that has been built. -/
structure Consistent (g : Grammar) (a : Automaton) : Prop where
  shaped : Shaped g a.look
  explored : ∀ q, Explored g (a.look q)
  sourced : Sourced g a.look
  foreseen : ∀ q n t, Pending.Expects (a.look q).items.pendings n t →
    Foreseen g g.firstFollow (a.look q).items.kernels n t
  settled : ∀ q, (a.look q).Settled g

/-- With `Merging.lalr`, every state has the lookaheads that its kernel asks for and has handed
them on. -/
structure Saturated (g : Grammar) (a : Automaton) : Prop extends Consistent g a where
  expects : ∀ q n t, Foreseen g g.firstFollow (a.look q).items.kernels n t →
    Pending.Expects (a.look q).items.pendings n t
  arrived : ∀ p, Arrived a.look ((a.look p).items.items g) (a.look p).transitions

/-- The states of the automaton are those of the graph. -/
theorem look_of_settle {g : Grammar} {c : StateGraph} {a : Automaton}
    (h : c.settle g = .ok a) (q : Nat) : (a.look q).items = (c.look q).items ∧
      (a.look q).transitions = (c.look q).transitions ∧ (a.look q).Settled g := by
  unfold StateGraph.settle at h
  cases hfrom : State.settleFrom g 0 c.states.toList with
  | error e =>
      rw [hfrom] at h
      contradiction
  | ok settled =>
      rw [hfrom] at h
      obtain rfl : ⟨settled⟩ = a := Except.ok.inj h
      obtain ⟨hlength, hall⟩ := State.settleFrom_eq_ok hfrom
      have hsize : settled.length = c.states.size := by simpa using hlength
      cases hq : settled[q]? with
      | none =>
          have hle : c.states.size ≤ q := hsize ▸ List.getElem?_eq_none_iff.1 hq
          have habsent : look ⟨settled⟩ q = .absent := by rw [look, hq, Option.getD_none]
          rw [habsent, StateGraph.look_of_size_le hle]
          exact ⟨rfl, rfl, State.settled_absent g⟩
      | some s' =>
          obtain ⟨s, hs, hsettled⟩ := hall q s' hq
          have hlook : look ⟨settled⟩ q = s' := by rw [look, hq, Option.getD_some]
          rw [hlook, StateGraph.look_of_getElem? (by simpa using hs)]
          exact hsettled

theorem length_of_settle {g : Grammar} {c : StateGraph} {a : Automaton}
    (h : c.settle g = .ok a) : a.states.length = c.states.size := by
  unfold StateGraph.settle at h
  cases hfrom : State.settleFrom g 0 c.states.toList with
  | error e =>
      rw [hfrom] at h
      contradiction
  | ok settled =>
      rw [hfrom] at h
      obtain rfl : ⟨settled⟩ = a := Except.ok.inj h
      simpa using (State.settleFrom_eq_ok hfrom).1

theorem kernel_of_settle {g : Grammar} {c : StateGraph} {a : Automaton}
    (h : c.settle g = .ok a) (q : Nat) : (a.look q).kernel = (c.look q).kernel := by
  rw [State.kernel, (look_of_settle h q).1, State.kernel]

/-- A graph has an automaton if all its states can be settled. -/
theorem exists_settle_iff {g : Grammar} {c : StateGraph} :
    (∃ a, c.settle g = .ok a) ↔ ∀ q < c.states.size, (c.look q).Settleable g := by
  have hfrom : (∃ a, c.settle g = .ok a) ↔
      ∃ settled, State.settleFrom g 0 c.states.toList = .ok settled := by
    unfold StateGraph.settle
    cases State.settleFrom g 0 c.states.toList with
    | error e => exact iff_of_false (fun ⟨_, h⟩ => by contradiction) (fun ⟨_, h⟩ => by contradiction)
    | ok settled => exact iff_of_true ⟨_, rfl⟩ ⟨_, rfl⟩
  rw [hfrom, State.exists_settleFrom_iff, StateGraph.states_eq_map_look]
  simp only [List.forall_mem_map, List.mem_range]

/-- What the graph of a grammar satisfies its automaton does too. -/
private theorem consistent_of_settle {g : Grammar} {c : StateGraph} {a : Automaton}
    (h : c.settle g = .ok a) (hshaped : Shaped g c.look) (hexplored : ∀ q, Explored g (c.look q))
    (hsourced : Sourced g c.look) {clean : Nat → Prop}
    (hfresh : Fresh g g.firstFollow clean c.look) : a.Consistent g := by
  have hlook := look_of_settle h
  have hkernel := kernel_of_settle h
  constructor
  case shaped =>
    exact hshaped.congr hkernel (fun q n => by rw [(hlook q).1]) fun q => (hlook q).2.1
  case explored =>
    intro q d x
    rw [hkernel, (hlook q).2.1]
    exact hexplored q d x
  case sourced =>
    apply hsourced.congr (fun q => by rw [(hlook q).1]) fun q => (hlook q).2.1
    intro q d t ht
    rwa [State.Expects, (hlook q).1]
  case foreseen =>
    intro q n t ht
    rw [(hlook q).1] at ht ⊢
    exact hfresh.foreseen q n t ht
  case settled => exact fun q => (hlook q).2.2

/-- In the end all states have been explored. -/
private theorem explored_full {g : Grammar} {sets : FirstFollow} {merging : Merging}
    (h : (Exploration.full g sets merging).Sound g sets merging)
    (hdone : (Exploration.full g sets merging).isDone = true) (q : Nat) :
    Explored g ((Exploration.full g sets merging).graph.look q) := by
  have hle : (Exploration.full g sets merging).graph.states.size ≤
      (Exploration.full g sets merging).explored := by simpa [Exploration.isDone] using hdone
  rcases Nat.lt_or_ge q (Exploration.full g sets merging).explored with hq | hq
  · exact h.complete q hq
  · rw [StateGraph.look_of_size_le (hle.trans hq)]
    intro d x hd
    rcases hd with hd | ⟨-, -, hd⟩
    · contradiction
    · exact absurd hd not_awaited_nil

/-- What the graph of a grammar satisfies before propagation. -/
theorem sound_graph {g : Grammar} (hg : g.WellFormed) :
    (Exploration.full g g.firstFollow .lalr).graph.Sound g g.firstFollow := by
  obtain ⟨hsound, hdone⟩ := Exploration.sound_full .lalr hg hg.declared_firstFollow
  exact ⟨hsound.shaped, explored_full hsound hdone, hsound.sourced, hsound.fresh,
    hsound.flowing rfl, hsound.dirty_lt⟩

/-- What the graph of a grammar satisfies after propagation. -/
private theorem sound_ofGrammar {g : Grammar} (hg : g.WellFormed) :
    (StateGraph.ofGrammar g g.firstFollow .lalr).Sound g g.firstFollow ∧
      (StateGraph.ofGrammar g g.firstFollow .lalr).isClean = true := by
  have hsets := hg.declared_firstFollow
  exact ⟨StateGraph.sound_propagate hg hsets (sound_graph hg),
    StateGraph.isClean_propagate hg hsets (sound_graph hg)⟩

/-- Every automaton that is built is consistent. -/
theorem consistent_of_build {g : Grammar} (hg : g.WellFormed) {merging : Merging} {a : Automaton}
    (h : build g merging = .ok a) : a.Consistent g := by
  rw [build_eq] at h
  cases merging with
  | firstFound =>
      obtain ⟨hsound, hdone⟩ := Exploration.sound_full .firstFound hg hg.declared_firstFollow
      exact consistent_of_settle h hsound.shaped (explored_full hsound hdone) hsound.sourced
        hsound.fresh
  | lalr =>
      obtain ⟨hsound, -⟩ := sound_ofGrammar hg
      exact consistent_of_settle h hsound.shaped hsound.explored hsound.sourced hsound.fresh

/-- An automaton that is built with `Merging.lalr` is saturated. -/
theorem saturated_of_build {g : Grammar} (hg : g.WellFormed) {a : Automaton}
    (h : build g .lalr = .ok a) : a.Saturated g := by
  have hconsistent := consistent_of_build hg h
  obtain ⟨hsound, hempty⟩ := sound_ofGrammar hg
  have hclean : ∀ q, StateGraph.Clean (StateGraph.ofGrammar g g.firstFollow .lalr) q := by
    intro q hq
    rw [Queue.isEmpty_iff.1 hempty] at hq
    contradiction
  rw [build_eq] at h
  have hlook := look_of_settle h
  refine ⟨hconsistent, ?_, ?_⟩
  · intro q n t ht
    rw [(hlook q).1] at ht ⊢
    exact hsound.fresh.expects q (hclean q) n t ht
  · intro p x q hedge d t ht hx
    rw [(hlook p).2.1] at hedge
    rw [(hlook p).1] at ht
    rw [(hlook q).1]
    exact hsound.flowing p (hclean p) x q hedge d t ht hx

/-! ### Transitions and reductions -/

namespace Consistent

variable {g : Grammar} {a : Automaton} (ha : a.Consistent g)

include ha

theorem transition?_eq_some_iff {p q : Nat} {x : Symbol} :
    (a.look p).transition? x = some q ↔ (x, q) ∈ (a.look p).transitions :=
  lookup_eq_some_iff_mem (ha.shaped.nodup p)

/-- A transition takes in every core that may be moved on. -/
theorem advance_mem_of_transition? {p q : Nat} {x : Symbol}
    (h : (a.look p).transition? x = some q) {d : DottedRule}
    (hd : InClosure g (a.look p).kernel d) (hx : d.next? = some x) :
    d.advance ∈ (a.look q).kernel :=
  (ha.shaped.target p x q (ha.transition?_eq_some_iff.1 h) _).2 ⟨d, hd, hx, rfl⟩

/-- The kernel behind a transition has moved on from the state before. -/
theorem mem_closure_of_transition? {p q : Nat} {x : Symbol}
    (h : (a.look p).transition? x = some q) {d : DottedRule} (hd : d ∈ (a.look q).kernel) :
    ∃ e, InClosure g (a.look p).kernel e ∧ e.next? = some x ∧ e.advance = d :=
  (ha.shaped.target p x q (ha.transition?_eq_some_iff.1 h) _).1 hd

/-- There is a transition over every symbol that comes next. -/
theorem exists_transition? {p : Nat} {d : DottedRule} (hd : InClosure g (a.look p).kernel d)
    {x : Symbol} (hx : d.next? = some x) (hblank : x ≠ .terminal g.blank) :
    ∃ q, (a.look p).transition? x = some q ∧ d.advance ∈ (a.look q).kernel := by
  obtain ⟨q, hedge⟩ := ha.explored p d x hd hx hblank
  have hq := ha.transition?_eq_some_iff.2 hedge
  exact ⟨q, hq, ha.advance_mem_of_transition? hq hd hx⟩

theorem ne_zero_of_transition? {p q : Nat} {x : Symbol}
    (h : (a.look p).transition? x = some q) : q ≠ 0 :=
  ha.shaped.target_ne_zero (ha.transition?_eq_some_iff.1 h)

theorem ne_blank_of_transition? {p q : Nat} {x : Symbol}
    (h : (a.look p).transition? x = some q) : x ≠ .terminal g.blank :=
  (ha.shaped.next p x q (ha.transition?_eq_some_iff.1 h)).1

/-- The production that is reduced is in the state. -/
theorem exists_of_reduce? {q : Nat} {t : Terminal} {r : Rule}
    (h : (a.look q).reduce? t = some r) :
    ∃ d, InClosure g (a.look q).kernel d ∧ d.isReducible = true ∧ d.rule = r ∧
      (a.look q).Expects g d t := by
  obtain ⟨-, d, hd, hreducible, hr⟩ := (ha.settled q).reduce?_eq_some_iff.1 h
  exact ⟨d, ha.shaped.inClosure_of_expects hd, hreducible, hr, hd⟩

theorem mem_allRules_of_reduce? {q : Nat} {t : Terminal} {r : Rule}
    (h : (a.look q).reduce? t = some r) : r ∈ g.allRules := by
  obtain ⟨d, hd, -, rfl, -⟩ := ha.exists_of_reduce? h
  exact (hd.of (ha.shaped.kernel_of q)).1

/-- Only the accepting production is no rule of the grammar. -/
theorem mem_rules_of_reduce? {q : Nat} {t : Terminal} {r : Rule}
    (h : (a.look q).reduce? t = some r) (haccept : r.head ≠ .accept) : r ∈ g.rules :=
  Grammar.WellFormed.mem_rules_of_head_ne (ha.mem_allRules_of_reduce? h) haccept

omit ha in
theorem lt_length_of_transition? {p q : Nat} {x : Symbol}
    (h : (a.look p).transition? x = some q) : p < a.states.length := by
  by_contra hp
  have habsent : a.look p = .absent := by
    rw [look, List.getElem?_eq_none (Nat.not_lt.1 hp), Option.getD_none]
  rw [habsent] at h
  contradiction

variable (hg : g.WellFormed)

include hg

theorem declares_of_transition? {p q : Nat} {x : Symbol}
    (h : (a.look p).transition? x = some q) : g.vocabulary.Declares x := by
  obtain ⟨-, d, hd, hx⟩ := ha.shaped.next p x q (ha.transition?_eq_some_iff.1 h)
  exact Expansion.declares_of_next? hg (hd.of (ha.shaped.kernel_of p)).1 hx

theorem declares_of_expects {q : Nat} {d : DottedRule} {t : Terminal}
    (h : (a.look q).Expects g d t) : g.vocabulary.Declares (.terminal t) :=
  ha.sourced.declared_of_expects hg hg.declared_firstFollow ha.shaped ha.foreseen h

/-- The accepting production is in the kernel of a state, or not in the state at all. -/
theorem mem_kernel_of_acceptRule {q : Nat} {d : DottedRule}
    (h : InClosure g (a.look q).kernel d) (hd : d.rule = g.acceptRule) :
    d ∈ (a.look q).kernel := by
  rcases h with h | ⟨-, -, hawaited⟩
  · exact h
  · have hdeclares := Expansion.declares_of_awaited hg
      (fun e he => (ha.shaped.kernel_of q e he).1) hawaited
    rw [hd] at hdeclares
    exact absurd hdeclares g.vocabulary.not_declares_accept

/-- The accepting production is only ever followed by the end marker. -/
theorem eq_endMarker_of_expects {d : DottedRule} (hd : d.rule = g.acceptRule) :
    ∀ {q : Nat} {t : Terminal}, (a.look q).Expects g d t → t = g.endMarker := by
  obtain ⟨r, marker⟩ := d
  obtain rfl : r = g.acceptRule := hd
  -- The lookahead has come along as the marker has moved.
  induction marker with
  | zero =>
      intro q t h
      rcases ItemSet.expects_items.1 h with h | ⟨-, -, h⟩
      · exact (ha.sourced.eq_start h rfl).2
      · have hawaited := (ha.shaped.pending q _).1 (Pending.mem_symbol_of_expects h)
        have hdeclares := Expansion.declares_of_awaited hg
          (fun e he => (ha.shaped.kernel_of q e he).1) hawaited
        exact absurd hdeclares g.vocabulary.not_declares_accept
  | succ marker ih =>
      intro q t h
      rcases ItemSet.expects_items.1 h with h | ⟨hmarker, -⟩
      · rcases ha.sourced.source q _ t h with ⟨hzero, -⟩ | ⟨p, x, e, -, he, -, hadvance⟩
        · simp at hzero
        · obtain rfl : e = ⟨g.acceptRule, marker⟩ := DottedRule.advance_inj hadvance
          exact ih he
      · simp at hmarker

end Consistent

/-! ### Lookaheads of a saturated automaton -/

namespace Saturated

variable {g : Grammar} {a : Automaton} (ha : a.Saturated g)

include ha

/-- What comes after a nonterminal may follow it. -/
theorem pending_beyond {q : Nat} {d : DottedRule} (hd : InClosure g (a.look q).kernel d)
    {n : Nonterminal} (hn : d.next? = some (.nonterminal n)) {x : Symbol}
    (hx : d.beyond? = some x) {t : Terminal} (ht : t ∈ g.firstFollow.firstOf x) :
    Pending.Expects (a.look q).items.pendings n t := by
  apply ha.expects
  rcases hd with hd | ⟨hmarker, hrule, hawaited⟩
  · obtain ⟨k, hk, rfl⟩ := List.mem_map.1 hd
    apply Foreseen.kernel hk hn
    rw [hx]
    exact ht
  · obtain ⟨rule, marker⟩ := d
    obtain rfl : marker = 0 := hmarker
    obtain ⟨rest, hbody⟩ := DottedRule.body_of_beyond?_eq_some hn hx
    exact .beyond hawaited (g.mem_productionsOf.2 ⟨hrule, rfl⟩) hbody ht

/-- What may follow an item may follow its last symbol. -/
theorem pending_last {q : Nat} {d : DottedRule} {t : Terminal} (hd : (a.look q).Expects g d t)
    {n : Nonterminal} (hn : d.next? = some (.nonterminal n)) (hlast : d.beyond? = none) :
    Pending.Expects (a.look q).items.pendings n t := by
  apply ha.expects
  rcases ItemSet.expects_items.1 hd with ⟨k, hk, rfl, ht⟩ | ⟨hmarker, hrule, hpending⟩
  · apply Foreseen.kernel hk hn
    rw [hlast]
    exact ht
  · obtain ⟨rule, marker⟩ := d
    obtain rfl : marker = 0 := hmarker
    have hbody := DottedRule.body_of_beyond?_eq_none hn hlast
    exact .last (ha.foreseen q _ t hpending) (g.mem_productionsOf.2 ⟨hrule, rfl⟩) hbody

/-- What comes after the next symbol may follow its productions. -/
theorem expects_beyond {q : Nat} {d : DottedRule} (hd : InClosure g (a.look q).kernel d)
    {n : Nonterminal} (hn : d.next? = some (.nonterminal n)) {x : Symbol}
    (hx : d.beyond? = some x) {t : Terminal} (ht : t ∈ g.firstFollow.firstOf x) {r : Rule}
    (hr : r ∈ g.productionsOf n) : (a.look q).Expects g ⟨r, 0⟩ t := by
  obtain ⟨hmem, rfl⟩ := g.mem_productionsOf.1 hr
  exact ItemSet.expects_items.2 (.inr ⟨rfl, hmem, ha.pending_beyond hd hn hx ht⟩)

/-- What may follow an item may follow the productions of its last symbol. -/
theorem expects_last {q : Nat} {d : DottedRule} {t : Terminal}
    (hd : (a.look q).Expects g d t) {n : Nonterminal}
    (hn : d.next? = some (.nonterminal n)) (hlast : d.beyond? = none) {r : Rule}
    (hr : r ∈ g.productionsOf n) : (a.look q).Expects g ⟨r, 0⟩ t := by
  obtain ⟨hmem, rfl⟩ := g.mem_productionsOf.1 hr
  exact ItemSet.expects_items.2 (.inr ⟨rfl, hmem, ha.pending_last hd hn hlast⟩)

/-- Lookaheads go along when the marker moves. -/
theorem expects_advance {p q : Nat} {x : Symbol} (h : (a.look p).transition? x = some q)
    {d : DottedRule} {t : Terminal} (hd : (a.look p).Expects g d t) (hx : d.next? = some x) :
    (a.look q).Expects g d.advance t :=
  ItemSet.expects_items.2 (.inl
    (ha.arrived p x q (ha.transition?_eq_some_iff.1 h) d t hd hx))

end Saturated

end Automaton

end ShiftReduce
