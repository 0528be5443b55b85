import Mathlib.Data.Finset.Powerset
import ShiftReduce.Proofs.Automaton.Interning

/-!
# Exploring the states

The exploration adds one transition after another, each to a state that is new or known by
its cores.  In the end every state has all of its transitions (`sound_full`).

## Strategy

* `Linked` says what a transition more does to the states, once its kernel is interned.
* `Linking` is the invariant while one state is given its transitions.  It compares the
  graph with the one before the first of them, since all kernels are taken from there.
* `Sound` is the invariant of the whole exploration (`Sound.next`).

No two states have the same cores, so there are not more states than sets of cores.
-/

namespace ShiftReduce

namespace Exploration

variable {g : Grammar} {sets : FirstFollow} {merging : Merging}

/-! ## Adding a transition -/

/-- One exploration is another with a transition more in the state that is being explored. -/
structure Linked (x : Symbol) (target : Nat) (e f : Exploration) : Prop where
  index : f.index = e.index
  explored : f.explored = e.explored
  dirty : f.graph.dirty = e.graph.dirty
  size : f.graph.states.size = e.graph.states.size
  look : ∀ q, f.graph.look q = if q = e.explored then
    { e.graph.look q with transitions := (e.graph.look q).transitions ++ [(x, target)] }
    else e.graph.look q

/-- Connecting interns a kernel and adds a transition to its state. -/
theorem linked_connect {e : Exploration} (edge : Symbol × List Item)
    (hlt : (e.intern g sets merging edge.2).2.explored <
      (e.intern g sets merging edge.2).2.graph.states.size) :
    Linked edge.1 (e.intern g sets merging edge.2).1 (e.intern g sets merging edge.2).2
      (e.connect g sets merging edge) where
  index := rfl
  explored := rfl
  dirty := rfl
  size := by simp [connect]
  look q := by
    unfold connect
    dsimp only
    rw [StateGraph.look, Array.getElem?_modify]
    split
    · rename_i hq
      subst hq
      rw [if_pos rfl, StateGraph.getElem?_of_lt hlt]
      rfl
    · rename_i hq
      rw [if_neg (Ne.symm hq)]
      rfl

namespace Linked

variable {x : Symbol} {target : Nat} {e f : Exploration} (h : Linked x target e f)

include h

theorem items (q : Nat) : (f.graph.look q).items = (e.graph.look q).items := by
  rw [h.look]
  split <;> rfl

theorem grows : e.graph.Grows f.graph := .of_items_eq h.size h.dirty h.items

theorem indexed (he : e.Indexed g) : f.Indexed g := by
  have hcores : ∀ q, Item.cores (f.graph.look q).items.kernels =
      Item.cores (e.graph.look q).items.kernels := by
    intro q
    rw [h.items]
  constructor
  · intro cores hall q hq
    rw [h.index] at hq
    rw [h.size, hcores]
    exact he.sound cores hall q hq
  · intro q hq
    rw [h.index, hcores]
    exact he.complete q (h.size ▸ hq)

theorem mem_transitions {p : Nat} {edge : Symbol × Nat} :
    edge ∈ (f.graph.look p).transitions ↔
      edge ∈ (e.graph.look p).transitions ∨ (p = e.explored ∧ edge = (x, target)) := by
  rw [h.look]
  by_cases hp : p = e.explored
  · simp [hp]
  · simp [hp]

end Linked

/-- Where the lookaheads come from when a kernel has been interned and linked. -/
theorem Interned.sourced {e e' f : Exploration} {kernel : List Item} {x : Symbol} {target : Nat}
    (hi : Interned g sets merging e kernel target e') (hl : Linked x target e' f)
    (hs : Sourced g e.graph.look)
    (hkernel : ∀ d t, Item.Expects kernel d t → ∃ c, (f.graph.look e'.explored).Expects g c t ∧
      c.next? = some x ∧ c.advance = d)
    (hdeclared : ∀ d t, Item.Expects kernel d t → t.index < g.vocabulary.terminals.length) :
    Sourced g f.graph.look := by
  have hgrows := hi.grows.trans hl.grows
  constructor
  · exact hgrows.expects 0 _ _ hs.start
  · intro q d t ht
    rw [hl.items] at ht
    rcases hi.source q d t ht with hold | ⟨rfl, hseed⟩
    · rcases hs.source q d t hold with hstart | ⟨p, y, c, hedge, hc, hcy, hadvance⟩
      · exact .inl hstart
      · have hp := StateGraph.lt_size_of_mem_transitions hedge
        have hedge' := hl.mem_transitions.2 (.inl (hi.transitions p ▸ hedge))
        exact .inr ⟨p, y, c, hedge', hgrows.expects_items hp hc, hcy, hadvance⟩
    · obtain ⟨c, hc, hcx, hadvance⟩ := hkernel d t hseed
      exact .inr ⟨_, x, c, hl.mem_transitions.2 (.inr ⟨rfl, rfl⟩), hc, hcx, hadvance⟩
  · intro q d t ht
    rw [hl.items] at ht
    rcases hi.source q d t ht with hold | ⟨-, hseed⟩
    · exact hs.declared q d t hold
    · exact hdeclared d t hseed

/-! ## The transitions of one state -/

/-- What holds while one state is given its transitions, where `before` is the exploration
before the first of them and `added` are the symbols so far. -/
structure Linking (g : Grammar) (sets : FirstFollow) (merging : Merging) (before : Exploration)
    (added : List Symbol) (e : Exploration) : Prop where
  grows : before.graph.Grows e.graph
  explored : e.explored = before.explored
  indexed : e.Indexed g
  shaped : Shaped g e.graph.look
  sourced : Sourced g e.graph.look
  fresh : Fresh g sets e.graph.Clean e.graph.look
  dirty_lt : ∀ q ∈ e.graph.dirty.toList, q < e.graph.states.size
  transitions : ∀ q, q ≠ before.explored →
    (e.graph.look q).transitions = (before.graph.look q).transitions
  keys : (e.graph.look before.explored).transitions.map (·.1) = added
  arrived : merging = .lalr → Arrived e.graph.look
    ((before.graph.look before.explored).items.items g)
    (e.graph.look before.explored).transitions
  origin : ∀ q d t, Item.Expects (e.graph.look q).items.kernels d t →
    Item.Expects (before.graph.look q).items.kernels d t ∨
    ∃ x c, (x, q) ∈ (e.graph.look before.explored).transitions ∧
      (before.graph.look before.explored).Expects g c t ∧ c.next? = some x ∧ c.advance = d

/-- One more transition. -/
theorem Linking.connect {before e : Exploration} {added : List Symbol} (hg : g.WellFormed)
    (hsets : sets.Declared g) (hb : Shaped g before.graph.look)
    (hlt : before.explored < before.graph.states.size)
    (h : Linking g sets merging before added e) {x : Symbol}
    (hx : x ∈ (before.graph.look before.explored).items.nextSymbols g) (hadded : x ∉ added) :
    Linking g sets merging before (added ++ [x])
      (e.connect g sets merging (x, (before.graph.look before.explored).items.advance g x)) := by
  set kernel := (before.graph.look before.explored).items.advance g x with hkernel
  obtain ⟨⟨d, hd, hdx⟩, hblank⟩ := Item.mem_nextSymbols.1 hx
  have hof : ∀ k ∈ kernel, k.core.Of g := hb.of_advance
  have hrules : ∀ k ∈ kernel, k.core.rule ∈ g.allRules := fun k hk => (hof k hk).1
  have hi : Interned g sets merging e kernel _ _ := interned hg h.indexed h.shaped.rule_mem hrules
  have hexplored := hi.explored.trans h.explored
  have hl := linked_connect (x, kernel) (hexplored ▸
    hlt.trans_le (h.grows.trans hi.grows).size_le)
  -- From here on nothing but `Interned` and `Linked` is known of the two steps.
  generalize e.connect g sets merging (x, kernel) = f at *
  generalize (e.intern g sets merging kernel).1 = target at *
  generalize (e.intern g sets merging kernel).2 = e' at *
  have hgrows := h.grows.trans (hi.grows.trans hl.grows)
  have hsame : (e'.graph.look before.explored).kernel =
      (before.graph.look before.explored).kernel := (h.grows.trans hi.grows).kernel _ hlt
  have hseed : ∀ c t, Item.Expects kernel c t →
      ∃ c', (before.graph.look before.explored).Expects g c' t ∧ c'.next? = some x ∧
        c'.advance = c := by
    intro c t ht
    rw [hkernel] at ht
    exact Item.expects_across.1 ht
  constructor
  case grows => exact hgrows
  case explored => exact hl.explored.trans hexplored
  case indexed => exact hl.indexed hi.indexed
  case shaped =>
    apply (hi.shaped hg hsets hof (Item.nodup_across x _) h.shaped).link hl.look _ hblank
    · rw [hexplored]
      exact ⟨d, hsame ▸ hb.mem_items.1 hd, hdx⟩
    · intro c
      rw [hi.mem_kernel, hexplored, hsame]
      exact hb.leadsTo_advance _ x c
    · rwa [hexplored, hi.transitions, h.keys]
  case sourced =>
    apply hi.sourced hl h.sourced
    · intro c t ht
      obtain ⟨c', hc', hcx, hadvance⟩ := hseed c t ht
      rw [hexplored]
      exact ⟨c', hgrows.expects_items hlt hc', hcx, hadvance⟩
    · intro c t ht
      obtain ⟨c', hc', -, -⟩ := hseed c t ht
      exact h.sourced.declared_of_expects hg hsets h.shaped h.fresh.foreseen
        (h.grows.expects_items hlt hc')
  case fresh =>
    apply (hi.grows.trans hl.grows).fresh h.fresh
    intro q hq n t
    rw [hl.items]
    exact expects_new hg hsets hrules (hi.fresh q hq) n t
  case dirty_lt =>
    intro q hq
    rw [hl.dirty] at hq
    have hq' : q < e.graph.states.size := (hi.dirty_lt q hq).elim (h.dirty_lt q) id
    exact hq'.trans_le (hi.grows.trans hl.grows).size_le
  case transitions =>
    intro q hq
    rw [hl.look, if_neg (hexplored ▸ hq), hi.transitions, h.transitions q hq]
  case keys =>
    rw [hl.look, if_pos hexplored.symm, List.map_append, hi.transitions, h.keys]
    rfl
  case arrived =>
    intro hmerging y q hmem c t ht hcy
    rcases hl.mem_transitions.1 hmem with hold | ⟨-, hnew⟩
    · rw [hi.transitions] at hold
      exact (hi.grows.trans hl.grows).arrived (h.arrived hmerging) y q hold c t ht hcy
    · obtain ⟨rfl, rfl⟩ := Prod.mk.inj hnew
      rw [hl.items]
      apply hi.arrived (.inl hmerging)
      rw [hkernel]
      exact Item.expects_across.2 ⟨c, ht, hcy, rfl⟩
  case origin =>
    intro q c t ht
    rw [hl.items] at ht
    rcases hi.source q c t ht with hold | ⟨rfl, hnew⟩
    · rcases h.origin q c t hold with hbefore | ⟨y, c', hedge, hc'⟩
      · exact .inl hbefore
      · exact .inr ⟨y, c', hl.mem_transitions.2 (.inl (hi.transitions _ ▸ hedge)), hc'⟩
    · obtain ⟨c', hc', hcx, hadvance⟩ := hseed c t hnew
      exact .inr ⟨x, c', hl.mem_transitions.2 (.inr ⟨hexplored.symm, rfl⟩), hc', hcx, hadvance⟩

/-- All transitions of one state. -/
theorem Linking.foldl_connect {before : Exploration} (hg : g.WellFormed)
    (hsets : sets.Declared g) (hb : Shaped g before.graph.look)
    (hlt : before.explored < before.graph.states.size) {symbols : List Symbol}
    {added : List Symbol} {e : Exploration} (h : Linking g sets merging before added e)
    (hsymbols : ∀ x ∈ symbols,
      x ∈ (before.graph.look before.explored).items.nextSymbols g)
    (hnodup : (added ++ symbols).Nodup) :
    Linking g sets merging before (added ++ symbols)
      ((symbols.map fun x => (x, (before.graph.look before.explored).items.advance g x)).foldl
        (Exploration.connect g sets merging) e) := by
  induction symbols generalizing added e with
  | nil => simpa using h
  | cons x symbols ih =>
      have hx : x ∉ added := by
        intro hmem
        exact List.disjoint_of_nodup_append hnodup hmem List.mem_cons_self
      have happend : added ++ x :: symbols = (added ++ [x]) ++ symbols := by simp
      rw [List.map_cons, List.foldl_cons, happend]
      exact ih (h.connect hg hsets hb hlt (hsymbols x List.mem_cons_self) hx)
        (fun y hy => hsymbols y (List.mem_cons_of_mem x hy)) (happend ▸ hnodup)

/-! ## One state after another -/

/-- The invariant of the exploration. -/
structure Sound (g : Grammar) (sets : FirstFollow) (merging : Merging) (e : Exploration) :
    Prop where
  indexed : e.Indexed g
  shaped : Shaped g e.graph.look
  sourced : Sourced g e.graph.look
  fresh : Fresh g sets e.graph.Clean e.graph.look
  dirty_lt : ∀ q ∈ e.graph.dirty.toList, q < e.graph.states.size
  unexplored : ∀ q, e.explored ≤ q → (e.graph.look q).transitions = []
  complete : ∀ q < e.explored, Explored g (e.graph.look q)
  flowing : merging = .lalr → Flowing g e.graph.Clean e.graph.look

theorem Sound.linking {e : Exploration} (h : e.Sound g sets merging) :
    Linking g sets merging e [] e where
  grows := .refl _
  explored := rfl
  indexed := h.indexed
  shaped := h.shaped
  sourced := h.sourced
  fresh := h.fresh
  dirty_lt := h.dirty_lt
  transitions _ _ := rfl
  keys := by rw [h.unexplored _ (Nat.le_refl _)]; rfl
  arrived _ x q hmem := by
    rw [h.unexplored _ (Nat.le_refl _)] at hmem
    contradiction
  origin _ _ _ ht := .inl ht

theorem next_eq {e : Exploration} (hlt : e.explored < e.graph.states.size) :
    e.next g sets merging =
      let e' := (((e.graph.look e.explored).items.nextSymbols g).map fun x =>
        (x, (e.graph.look e.explored).items.advance g x)).foldl (connect g sets merging) e
      { e' with explored := e'.explored + 1 } := by
  unfold next
  rw [StateGraph.getElem?_of_lt hlt]
  rfl

/-- Exploring a state gives it a transition for each symbol that comes next. -/
theorem Sound.exists_linking {e : Exploration} (hg : g.WellFormed) (hsets : sets.Declared g)
    (h : e.Sound g sets merging) (hlt : e.explored < e.graph.states.size) :
    ∃ e', Linking g sets merging e ((e.graph.look e.explored).items.nextSymbols g) e' ∧
      e.next g sets merging = { e' with explored := e'.explored + 1 } := by
  have hlinked := h.linking.foldl_connect hg hsets h.shaped hlt
    (fun _ hx => hx) (Item.nodup_nextSymbols g _)
  rw [List.nil_append] at hlinked
  exact ⟨_, hlinked, next_eq hlt⟩

/-- One state more is explored. -/
theorem Sound.next {e : Exploration} (hg : g.WellFormed) (hsets : sets.Declared g)
    (h : e.Sound g sets merging) (hdone : e.isDone = false) :
    (e.next g sets merging).Sound g sets merging ∧
      (e.next g sets merging).explored = e.explored + 1 := by
  have hlt : e.explored < e.graph.states.size := by simpa [isDone] using hdone
  obtain ⟨e', hlinked, hnext⟩ := h.exists_linking hg hsets hlt
  rw [hnext]
  refine ⟨?_, congrArg (· + 1) hlinked.explored⟩
  have hcomplete : Explored g (e'.graph.look e.explored) := by
    intro d x hd hdx hblank
    rw [hlinked.grows.kernel _ hlt] at hd
    have hx : x ∈ (e.graph.look e.explored).items.nextSymbols g :=
      Item.mem_nextSymbols.2 ⟨⟨d, h.shaped.mem_items.2 hd, hdx⟩, hblank⟩
    rw [← hlinked.keys] at hx
    obtain ⟨⟨y, q⟩, hmem, rfl⟩ := List.mem_map.1 hx
    exact ⟨q, hmem⟩
  constructor
  case indexed => exact ⟨hlinked.indexed.sound, hlinked.indexed.complete⟩
  case shaped => exact hlinked.shaped
  case sourced => exact hlinked.sourced
  case fresh => exact hlinked.fresh
  case dirty_lt => exact hlinked.dirty_lt
  case unexplored =>
    intro q hq
    simp only [hlinked.explored] at hq
    rw [hlinked.transitions q (by omega)]
    exact h.unexplored q (by omega)
  case complete =>
    intro q hq
    simp only [hlinked.explored] at hq
    rcases Nat.lt_succ_iff_lt_or_eq.1 hq with hq | rfl
    · intro d x
      rw [hlinked.grows.kernel q (hq.trans hlt), hlinked.transitions q (Nat.ne_of_lt hq)]
      exact h.complete q hq d x
    · exact hcomplete
  case flowing =>
    intro hmerging p hclean
    by_cases hp : p = e.explored
    · subst hp
      rw [hlinked.grows.items_of_clean hlt hclean]
      exact hlinked.arrived hmerging
    · -- A state that is still clean has the items that it had, and they have arrived before.
      intro x q hmem d t ht hx
      rw [hlinked.transitions p hp] at hmem
      have hplt := StateGraph.lt_size_of_mem_transitions hmem
      rw [hlinked.grows.items_of_clean hplt hclean] at ht
      exact hlinked.grows.expects q _ t
        (h.flowing hmerging p (hlinked.grows.clean hclean) x q hmem d t ht hx)

/-! ## The start -/

section Start

variable (sets) (hg : g.WellFormed)

include hg

/-- The start interns the kernel of the accepting production in an empty graph. -/
theorem interned_start :
    Interned g sets .firstFound {} (startKernel g) 0 (start g sets) := by
  have hrules : ∀ k ∈ startKernel g, k.core.rule ∈ g.allRules := by
    intro k hk
    obtain rfl := List.mem_singleton.1 hk
    exact Grammar.acceptRule_mem
  have hindexed : Indexed g ({} : Exploration) := ⟨by simp, by simp⟩
  have hi : Interned g sets .firstFound {} (startKernel g)
      (intern g sets .firstFound {} (startKernel g)).1 (start g sets) :=
    interned hg hindexed (by simp [StateGraph.look, State.absent]) hrules
  have htarget : (intern g sets .firstFound {} (startKernel g)).1 = 0 := by simp [intern]
  rwa [htarget] at hi

/-- All states of the start are that of the accepting production, or not there. -/
private theorem look_start (q : Nat) : (start g sets).graph.look q = .absent ∨
    (start g sets).graph.look q = { items := .ofKernels g sets (startKernel g) } :=
  (interned_start sets hg).fresh q (Nat.zero_le q)

private theorem transitions_start (q : Nat) : ((start g sets).graph.look q).transitions = [] := by
  rcases look_start sets hg q with h | h
  · rw [h]
    rfl
  · rw [h]

private theorem kernel_start : ((start g sets).graph.look 0).kernel = [⟨g.acceptRule, 0⟩] := by
  rcases look_start sets hg 0 with h | h
  · have hmem := ((interned_start sets hg).mem_kernel ⟨g.acceptRule, 0⟩).2
      (by simp [startKernel])
    rw [h] at hmem
    contradiction
  · rw [h]
    rfl

private theorem shaped_start (hsets : sets.Declared g) : Shaped g (start g sets).graph.look := by
  have hkernel : ∀ q, ((start g sets).graph.look q).kernel = [] ∨
      ((start g sets).graph.look q).kernel = [⟨g.acceptRule, 0⟩] := by
    intro q
    rcases look_start sets hg q with h | h
    · exact .inl (by rw [h]; rfl)
    · exact .inr (by rw [h]; rfl)
  have htransitions := transitions_start sets hg
  constructor
  case kernel_of =>
    intro q d hd
    rcases hkernel q with h | h
    · rw [h] at hd
      contradiction
    · rw [h] at hd
      obtain rfl := List.mem_singleton.1 hd
      exact ⟨Grammar.acceptRule_mem, Nat.zero_le _⟩
  case distinct =>
    intro q
    rcases hkernel q with h | h
    · rw [h]
      exact List.nodup_nil
    · rw [h]
      exact List.nodup_singleton _
  case pending =>
    intro q n
    apply mem_symbol_new hg hsets _ (look_start sets hg q)
    intro k hk
    obtain rfl := List.mem_singleton.1 hk
    exact Grammar.acceptRule_mem
  case start => exact kernel_start sets hg
  case nodup =>
    intro p
    rw [htransitions]
    exact List.nodup_nil
  case next =>
    intro p x q hmem
    rw [htransitions] at hmem
    contradiction
  case target =>
    intro p x q hmem
    rw [htransitions] at hmem
    contradiction

private theorem sourced_start : Sourced g (start g sets).graph.look := by
  have hi := interned_start sets hg
  have hexpects : ∀ q d t, Item.Expects ((start g sets).graph.look q).items.kernels d t →
      d = ⟨g.acceptRule, 0⟩ ∧ t = g.endMarker := by
    intro q d t ht
    rcases hi.source q d t ht with hold | ⟨-, k, hk, rfl, hmem⟩
    · exact absurd hold (by simp [StateGraph.look, State.absent, Item.Expects])
    · obtain rfl := List.mem_singleton.1 hk
      exact ⟨rfl, OrderedSet.mem_single.1 hmem⟩
  constructor
  · apply hi.arrived (.inr rfl)
    exact ⟨_, List.mem_singleton.2 rfl, rfl, OrderedSet.mem_single.2 rfl⟩
  · intro q d t ht
    exact .inl (hexpects q d t ht)
  · intro q d t ht
    rw [(hexpects q d t ht).2]
    exact hg.endMarker_declared

end Start

theorem sound_start (hg : g.WellFormed) (hsets : sets.Declared g) :
    (start g sets).Sound g sets merging := by
  have hi := interned_start sets hg
  have htransitions := transitions_start sets hg
  have hexpects : ∀ q n t, Pending.Expects ((start g sets).graph.look q).items.pendings n t ↔
      Foreseen g sets ((start g sets).graph.look q).items.kernels n t := by
    intro q n t
    apply expects_new hg hsets _ (look_start sets hg q)
    intro k hk
    obtain rfl := List.mem_singleton.1 hk
    exact Grammar.acceptRule_mem
  constructor
  case indexed => exact hi.indexed
  case shaped => exact shaped_start sets hg hsets
  case sourced => exact sourced_start sets hg
  case fresh => exact ⟨fun q n t => (hexpects q n t).1, fun q _ n t => (hexpects q n t).2⟩
  case dirty_lt =>
    intro q hq
    rcases hi.dirty_lt q hq with h | h
    · simp at h
    · exact absurd h (Nat.not_lt_zero q)
  case unexplored => exact fun q _ => htransitions q
  case complete =>
    intro q hq
    rw [hi.explored] at hq
    exact absurd hq (Nat.not_lt_zero q)
  case flowing =>
    intro _ p _ x q hmem
    rw [htransitions] at hmem
    contradiction

/-! ## The end -/

/-- The cores of a grammar. -/
private def dottedRules (g : Grammar) : List DottedRule :=
  g.allRules.flatMap fun r => (List.range (r.body.length + 1)).map (DottedRule.mk r)

private theorem mem_dottedRules {d : DottedRule} : d ∈ dottedRules g ↔ d.Of g := by
  simp only [dottedRules, List.mem_flatMap, List.mem_map, List.mem_range]
  constructor
  · rintro ⟨r, hr, m, hm, rfl⟩
    exact ⟨hr, Nat.lt_succ_iff.1 hm⟩
  · rintro ⟨hr, hm⟩
    exact ⟨d.rule, hr, d.marker, Nat.lt_succ_iff.2 hm, rfl⟩

private theorem length_dottedRules (g : Grammar) : (dottedRules g).length =
    (g.allRules.flatMap (·.body)).length + g.allRules.length := by
  unfold dottedRules
  induction g.allRules with
  | nil => rfl
  | cons r rules ih =>
      simp only [List.flatMap_cons, List.length_append, List.length_map, List.length_range, ih,
        List.length_cons]
      omega

/-- There are no more states than sets of cores. -/
theorem Sound.size_lt {e : Exploration} (hg : g.WellFormed) (h : e.Sound g sets merging) :
    e.graph.states.size < bound g := by
  have hmaps : ∀ q ∈ Finset.range e.graph.states.size,
      (e.graph.look q).kernel.toFinset ∈ (dottedRules g).toFinset.powerset := by
    intro q _
    apply Finset.mem_powerset.2
    intro d hd
    have hof := h.shaped.kernel_of q d (List.mem_toFinset.1 hd)
    exact List.mem_toFinset.2 (mem_dottedRules.2 hof)
  have hinj : Set.InjOn (fun q => (e.graph.look q).kernel.toFinset)
      (Finset.range e.graph.states.size : Set Nat) := by
    intro q hq q' hq' heq
    have hcores : Item.cores (e.graph.look q).items.kernels =
        Item.cores (e.graph.look q').items.kernels := by
      apply (Item.cores_eq_iff hg (h.shaped.rule_mem q) (h.shaped.rule_mem q')).2
      intro d
      exact List.mem_toFinset.symm.trans ((Finset.ext_iff.1 heq d).trans List.mem_toFinset)
    have hindex := h.indexed.complete q (by simpa using hq)
    rw [hcores, h.indexed.complete q' (by simpa using hq')] at hindex
    exact (Option.some.inj hindex).symm
  have hcard := Finset.card_le_card_of_injOn _ hmaps hinj
  rw [Finset.card_range, Finset.card_powerset] at hcard
  apply Nat.lt_succ_of_le
  calc e.graph.states.size
      ≤ 2 ^ (dottedRules g).toFinset.card := hcard
    _ ≤ 2 ^ (dottedRules g).length :=
        Nat.pow_le_pow_right (by omega) (List.toFinset_card_le _)
    _ = 2 ^ ((g.allRules.flatMap (·.body)).length + g.allRules.length) := by
        rw [length_dottedRules]

/-- There is a state less to explore after each step. -/
private theorem left_next_lt {e : Exploration} (hg : g.WellFormed) (hsets : sets.Declared g)
    (he : e.Sound g sets merging) (hdone : e.isDone = false) :
    bound g - (e.next g sets merging).explored < bound g - e.explored := by
  have hlt : e.explored < e.graph.states.size := by simpa [isDone] using hdone
  have hbound := he.size_lt hg
  rw [(he.next hg hsets hdone).2]
  omega

/-- The exploration finds every state and every transition. -/
theorem sound_full (merging : Merging) (hg : g.WellFormed) (hsets : sets.Declared g) :
    (full g sets merging).Sound g sets merging ∧ (full g sets merging).isDone = true := by
  have hstart : (start g sets).Sound g sets merging := sound_start hg hsets
  have keep : ∀ e, Sound g sets merging e → e.isDone = false →
      Sound g sets merging (e.next g sets merging) :=
    fun _ he hdone => (he.next hg hsets hdone).1
  exact ⟨runUntil_invariant keep _ hstart,
    done_runUntil (fun e => bound g - e.explored) keep
      (fun _ he hdone => left_next_lt hg hsets he hdone) hstart (Nat.sub_le _ _)⟩

/-- An exploration that may be given up is sound wherever it ends. -/
theorem sound_upTo (merging : Merging) (mark : Exploration → Bool) (hg : g.WellFormed)
    (hsets : sets.Declared g) : (upTo g sets merging mark).Sound g sets merging :=
  runUntil_invariant (fun _ he h => (he.next hg hsets (Bool.or_eq_false_iff.1 h).2).1) _
    (sound_start hg hsets)

/-- An exploration that may be given up comes to the mark or to the end. -/
theorem doneOrAt_upTo (merging : Merging) (mark : Exploration → Bool) (hg : g.WellFormed)
    (hsets : sets.Declared g) : doneOrAt mark isDone (upTo g sets merging mark) = true := by
  have hnot : ∀ e, doneOrAt mark isDone e = false → e.isDone = false :=
    fun _ h => (Bool.or_eq_false_iff.1 h).2
  exact done_runUntil (P := Sound g sets merging) (fun e => bound g - e.explored)
    (fun e he h => (he.next hg hsets (hnot e h)).1)
    (fun e he h => left_next_lt hg hsets he (hnot e h)) (sound_start hg hsets) (Nat.sub_le _ _)

end Exploration

end ShiftReduce
