import Mathlib.Data.Finset.Prod
import ShiftReduce.Proofs.Automaton.Growth

/-!
# Propagating lookaheads

Cleaning a dirty state finds its pending nonterminals anew (`renew`) and informs the states
after it (`spread`).  `StateGraph.propagate` repeats this until no state is dirty, and here it
is shown that its bound is no obstacle: a state only gets dirty with a lookahead that it did not
have before, and there are only so many of them (`isClean_propagate`).

The invariant of propagation is `Sound`.  Of a graph without dirty states it says that every
state has the lookaheads that its kernel asks for, and has handed them on.
-/

namespace ShiftReduce

/-! ## Kernels that take in something new -/

namespace Item

theorem inform_eq_self {items : List Item} {new : Item} (hnodup : (items.map (·.core)).Nodup)
    (h : ∀ t, Expects (inform items new) new.core t → Expects items new.core t) :
    inform items new = items := by
  induction items with
  | nil => rfl
  | cons k rest ih =>
      rw [List.map_cons, List.nodup_cons] at hnodup
      unfold inform at h ⊢
      split
      · rename_i hcore
        rw [if_pos hcore] at h
        have hunion : k.lookaheads ∪ new.lookaheads = k.lookaheads := by
          apply OrderedSet.union_eq_self
          intro t ht
          have hnew := h t (expects_cons.2 (.inl ⟨hcore, OrderedSet.mem_union.2 (.inr ht)⟩))
          rcases expects_cons.1 hnew with ⟨-, hmem⟩ | hrest
          · exact hmem
          · exact absurd (hcore ▸ mem_core_of_expects hrest) hnodup.1
        rw [expect, hunion]
      · rename_i hcore
        rw [if_neg hcore] at h
        have hrest : ∀ t, Expects (inform rest new) new.core t → Expects rest new.core t := by
          intro t ht
          have hold := h t (expects_cons.2 (.inr ht))
          exact (expects_cons.1 hold).resolve_left fun hk => hcore hk.1
        rw [ih hnodup.2 hrest]

theorem foldl_inform_eq_self {seed items : List Item} (hnodup : (items.map (·.core)).Nodup)
    (h : ∀ d t, Expects (seed.foldl inform items) d t → Expects items d t) :
    seed.foldl inform items = items := by
  apply foldl_eq_self
  intro new hnew
  apply inform_eq_self hnodup
  intro t ht
  apply h new.core t
  rw [expects_inform] at ht
  rw [expects_foldl_inform]
  rcases ht with hold | ⟨hcore, hlookahead⟩
  · exact .inl hold
  · exact .inr ⟨hcore, new, hnew, hlookahead⟩

/-- A kernel that changes has a lookahead that it did not have. -/
theorem exists_of_foldl_inform_ne {seed items : List Item}
    (hnodup : (items.map (·.core)).Nodup) (h : seed.foldl inform items ≠ items) :
    ∃ d t, Expects (seed.foldl inform items) d t ∧ ¬ Expects items d t := by
  by_contra hall
  have hsame : ∀ d t, Expects (seed.foldl inform items) d t → Expects items d t := by
    intro d t ht
    by_contra hold
    exact hall ⟨d, t, ht, hold⟩
  exact h (foldl_inform_eq_self hnodup hsame)

end Item

/-! ## Informing many states -/

namespace StateGraph

variable {g : Grammar} {sets : FirstFollow}

/-- Informs the states that some transitions lead to. -/
def spread (items : List Item) (transitions : List (Symbol × Nat)) (c : StateGraph) : StateGraph :=
  transitions.foldl (fun c (x, target) => c.inform target (Item.across x items)) c

variable {items : List Item} {transitions : List (Symbol × Nat)} {c : StateGraph}

theorem spread_cons (edge : Symbol × Nat) :
    spread items (edge :: transitions) c =
      spread items transitions (c.inform edge.2 (Item.across edge.1 items)) := rfl

theorem grows_spread : c.Grows (spread items transitions c) := by
  induction transitions generalizing c with
  | nil => exact .refl c
  | cons edge rest ih => exact (c.grows_inform _ _).trans ih

@[simp] theorem transitions_spread (q : Nat) :
    ((spread items transitions c).look q).transitions = (c.look q).transitions := by
  induction transitions generalizing c with
  | nil => rfl
  | cons edge rest ih => rw [spread_cons, ih, transitions_inform]

theorem kernel_spread (q : Nat) :
    ((spread items transitions c).look q).kernel = (c.look q).kernel := by
  induction transitions generalizing c with
  | nil => rfl
  | cons edge rest ih => rw [spread_cons, ih, kernel_inform]

@[simp] theorem size_spread : (spread items transitions c).states.size = c.states.size := by
  induction transitions generalizing c with
  | nil => rfl
  | cons edge rest ih => rw [spread_cons, ih, size_inform]

theorem shaped_spread (h : Shaped g c.look) :
    Shaped g (spread items transitions c).look := by
  induction transitions generalizing c with
  | nil => exact h
  | cons edge rest ih => exact ih (c.shaped_inform _ _ h)

theorem dirty_lt_spread (h : ∀ q ∈ c.dirty.toList, q < c.states.size) :
    ∀ q ∈ (spread items transitions c).dirty.toList, q < c.states.size := by
  induction transitions generalizing c with
  | nil => exact h
  | cons edge rest ih =>
      have hstep : ∀ q ∈ (c.inform edge.2 (Item.across edge.1 items)).dirty.toList,
          q < (c.inform edge.2 (Item.across edge.1 items)).states.size := by
        intro q hq
        rw [size_inform]
        rcases c.mem_dirty_inform _ _ hq with hq | ⟨rfl, hlt⟩
        · exact h q hq
        · exact hlt
      intro q hq
      have hlt := ih hstep q hq
      rwa [size_inform] at hlt

/-- What a state knows after others have spread has been known before, or has been spread. -/
theorem source_spread {q : Nat} {d : DottedRule} {t : Terminal}
    (h : Item.Expects ((spread items transitions c).look q).items.kernels d t) :
    Item.Expects (c.look q).items.kernels d t ∨
      ∃ x e, (x, q) ∈ transitions ∧ Item.Expects items e t ∧ e.next? = some x ∧ e.advance = d := by
  induction transitions generalizing c with
  | nil => exact .inl h
  | cons edge rest ih =>
      rcases ih h with h | ⟨x, e, hmem, he⟩
      · rcases (c.expects_inform _ _).1 h with h | ⟨rfl, -, hseed⟩
        · exact .inl h
        · obtain ⟨e, he, hx, hadvance⟩ := Item.expects_across.1 hseed
          exact .inr ⟨edge.1, e, List.mem_cons_self, he, hx, hadvance⟩
      · exact .inr ⟨x, e, List.mem_cons_of_mem edge hmem, he⟩

/-- What has been spread arrives. -/
theorem arrived_spread (htargets : ∀ x q, (x, q) ∈ transitions → ∀ d t, Item.Expects items d t →
      d.next? = some x → d.advance ∈ (c.look q).kernel) :
    Arrived (spread items transitions c).look items transitions := by
  induction transitions generalizing c with
  | nil => exact fun x q hmem => absurd hmem List.not_mem_nil
  | cons edge rest ih =>
      intro x q hmem d t ht hx
      rw [spread_cons]
      rcases List.mem_cons.1 hmem with rfl | hmem
      · apply grows_spread.expects
        apply (c.expects_inform _ _).2
        exact .inr ⟨rfl, htargets x q List.mem_cons_self d t ht hx,
          Item.expects_across.2 ⟨d, ht, hx, rfl⟩⟩
      · apply ih _ x q hmem d t ht hx
        intro y i hy d t ht hx
        rw [kernel_inform]
        exact htargets y i (List.mem_cons_of_mem edge hy) d t ht hx

/-! ## Cleaning a state -/

/-- The invariant of propagation. -/
structure Sound (g : Grammar) (sets : FirstFollow) (c : StateGraph) : Prop where
  shaped : Shaped g c.look
  explored : ∀ q, Explored g (c.look q)
  sourced : Sourced g c.look
  fresh : Fresh g sets c.Clean c.look
  flowing : Flowing g c.Clean c.look
  dirty_lt : ∀ q ∈ c.dirty.toList, q < c.states.size

/-- The graph with the pending nonterminals of a state found anew. -/
def renew (g : Grammar) (sets : FirstFollow) (c : StateGraph) (id : Nat)
    (dirty : Queue Nat compare) : StateGraph :=
  ⟨c.states.setIfInBounds id { c.look id with items := (c.look id).items.refresh g sets }, dirty⟩

theorem cleanNext_of_pop {id : Nat} {dirty : Queue Nat compare}
    (hpop : c.dirty.pop = some (id, dirty)) (hlt : id < c.states.size) :
    c.cleanNext g sets = spread (((c.look id).items.refresh g sets).items g)
      (c.look id).transitions (c.renew g sets id dirty) := by
  unfold cleanNext
  rw [hpop]
  dsimp only
  rw [getElem?_of_lt hlt]
  rfl

theorem cleanNext_of_pop_none (hpop : c.dirty.pop = none) : c.cleanNext g sets = c := by
  simp only [StateGraph.cleanNext, hpop]

theorem look_renew {id : Nat} {dirty : Queue Nat compare} (hlt : id < c.states.size) (q : Nat) :
    (c.renew g sets id dirty).look q =
      if q = id then { c.look id with items := (c.look id).items.refresh g sets }
      else c.look q := by
  split
  · rename_i hq
    subst hq
    exact look_of_getElem? (by simp [renew, hlt])
  · rename_i hq
    rw [renew, look, Array.getElem?_setIfInBounds_ne (Ne.symm hq), look]

section Renew

variable {id : Nat} {dirty : Queue Nat compare} (hlt : id < c.states.size)

include hlt

variable (g sets dirty) in
theorem kernels_renew (q : Nat) : ((c.renew g sets id dirty).look q).items.kernels =
    (c.look q).items.kernels := by
  rw [look_renew hlt]
  split
  · rename_i hq
    rw [hq]
    rfl
  · rfl

variable (g sets dirty) in
theorem transitions_renew (q : Nat) : ((c.renew g sets id dirty).look q).transitions =
    (c.look q).transitions := by
  rw [look_renew hlt]
  split
  · rename_i hq
    rw [hq]
  · rfl

variable (g sets dirty) in
theorem kernel_renew (q : Nat) :
    ((c.renew g sets id dirty).look q).kernel = (c.look q).kernel := by
  rw [State.kernel, kernels_renew g sets dirty hlt, State.kernel]

variable (hg : g.WellFormed) (hsets : sets.Declared g)

include hg hsets

theorem expects_pendings_renew (hs : Shaped g c.look) {n : Nonterminal} {t : Terminal} :
    Pending.Expects ((c.renew g sets id dirty).look id).items.pendings n t ↔
      Foreseen g sets (c.look id).items.kernels n t := by
  rw [look_renew hlt, if_pos rfl]
  exact Expansion.expects_ofKernels hg hsets (hs.rule_mem id)

theorem shaped_renew (hs : Shaped g c.look) : Shaped g (c.renew g sets id dirty).look := by
  apply hs.congr (kernel_renew g sets dirty hlt) _ (transitions_renew g sets dirty hlt)
  intro q n
  rw [look_renew hlt]
  split
  · rename_i hq
    rw [hq, hs.pending]
    exact Expansion.mem_symbol_ofKernels hg hsets (hs.rule_mem id)
  · rfl

/-- Nothing is lost. -/
theorem expects_renew (hs : Shaped g c.look) (hf : Fresh g sets c.Clean c.look) {q : Nat}
    {d : DottedRule} {t : Terminal} (ht : (c.look q).Expects g d t) :
    ((c.renew g sets id dirty).look q).Expects g d t := by
  rw [State.Expects, ItemSet.expects_items] at ht ⊢
  rw [kernels_renew g sets dirty hlt]
  rcases ht with ht | ⟨hmarker, hrule, hpending⟩
  · exact .inl ht
  · refine .inr ⟨hmarker, hrule, ?_⟩
    by_cases hq : q = id
    · subst hq
      exact (expects_pendings_renew hlt hg hsets hs).2 (hf.foreseen _ _ _ hpending)
    · rw [look_renew hlt, if_neg hq]
      exact hpending

end Renew

/-- The invariant when a state is not dirty any more, but has not yet handed on its
lookaheads. -/
structure Renewed (g : Grammar) (sets : FirstFollow) (id : Nat) (c : StateGraph) : Prop where
  shaped : Shaped g c.look
  explored : ∀ q, Explored g (c.look q)
  sourced : Sourced g c.look
  fresh : Fresh g sets c.Clean c.look
  flowing : ∀ p, p ≠ id → c.Clean p →
    Arrived c.look ((c.look p).items.items g) (c.look p).transitions
  dirty_lt : ∀ q ∈ c.dirty.toList, q < c.states.size
  lt_size : id < c.states.size

theorem Sound.renew (hg : g.WellFormed) (hsets : sets.Declared g) (h : c.Sound g sets) {id : Nat}
    {dirty : Queue Nat compare} (hpop : c.dirty.pop = some (id, dirty)) :
    Renewed g sets id (c.renew g sets id dirty) := by
  have hqueue := Queue.toList_of_pop hpop
  have hlt : id < c.states.size := h.dirty_lt id (hqueue ▸ List.mem_cons_self)
  have hkernels := kernels_renew g sets dirty hlt
  have hkernel := kernel_renew g sets dirty hlt
  have htransitions := transitions_renew g sets dirty hlt
  have hold : ∀ q, q ≠ id → (c.renew g sets id dirty).look q = c.look q := by
    intro q hq
    rw [look_renew hlt, if_neg hq]
  -- The state that has left the queue is the only one that has become clean.
  have hclean : ∀ q, q ≠ id → (c.renew g sets id dirty).Clean q → c.Clean q := by
    intro q hq hclean hdirty
    rw [hqueue, List.mem_cons] at hdirty
    exact hclean (hdirty.resolve_left hq)
  have hpendings : ∀ n t,
      Pending.Expects ((c.renew g sets id dirty).look id).items.pendings n t ↔
        Foreseen g sets (c.look id).items.kernels n t :=
    fun n t => expects_pendings_renew hlt hg hsets h.shaped
  have hsize : (c.renew g sets id dirty).states.size = c.states.size := by
    simp [StateGraph.renew]
  constructor
  case shaped => exact shaped_renew hlt hg hsets h.shaped
  case explored =>
    intro q d x
    rw [hkernel, htransitions]
    exact h.explored q d x
  case sourced =>
    exact h.sourced.congr hkernels htransitions fun _ _ _ ht =>
      expects_renew hlt hg hsets h.shaped h.fresh ht
  case fresh =>
    constructor
    · intro q n t ht
      rw [hkernels]
      by_cases hq : q = id
      · subst hq
        exact (hpendings n t).1 ht
      · rw [hold q hq] at ht
        exact h.fresh.foreseen q n t ht
    · intro q hq' n t ht
      rw [hkernels] at ht
      by_cases hq : q = id
      · subst hq
        exact (hpendings n t).2 ht
      · rw [hold q hq]
        exact h.fresh.expects q (hclean q hq hq') n t ht
  case flowing =>
    intro p hp hp' x q hedge d t ht hx
    rw [hold p hp] at hedge ht
    rw [hkernels]
    exact h.flowing p (hclean p hp hp') x q hedge d t ht hx
  case dirty_lt =>
    intro q hq
    rw [hsize]
    exact h.dirty_lt q (hqueue ▸ List.mem_cons_of_mem id hq)
  case lt_size => exact hsize ▸ hlt

theorem Renewed.spread (hg : g.WellFormed) (hsets : sets.Declared g) {id : Nat}
    (h : Renewed g sets id c) :
    (spread ((c.look id).items.items g) (c.look id).transitions c).Sound g sets := by
  have hgrows : c.Grows (StateGraph.spread ((c.look id).items.items g) (c.look id).transitions c) :=
    grows_spread
  constructor
  case shaped => exact shaped_spread h.shaped
  case explored =>
    intro q d x
    rw [kernel_spread, transitions_spread]
    exact h.explored q d x
  case sourced =>
    constructor
    · exact hgrows.expects _ _ _ h.sourced.start
    · intro q d t ht
      rcases source_spread ht with hold | ⟨x, e, hedge, he, hx, hadvance⟩
      · rcases h.sourced.source q d t hold with hstart | ⟨p, x, e, hedge, he, hx, hadvance⟩
        · exact .inl hstart
        · have hp := lt_size_of_mem_transitions hedge
          rw [← transitions_spread] at hedge
          exact .inr ⟨p, x, e, hedge, hgrows.expects_items hp he, hx, hadvance⟩
      · rw [← transitions_spread] at hedge
        exact .inr ⟨id, x, e, hedge, hgrows.expects_items h.lt_size he, hx, hadvance⟩
    · intro q d t ht
      rcases source_spread ht with hold | ⟨x, e, -, he, -, -⟩
      · exact h.sourced.declared q d t hold
      · exact h.sourced.declared_of_expects hg hsets h.shaped h.fresh.foreseen he
  case fresh =>
    apply hgrows.fresh h.fresh
    intro q hq n t
    rw [look_of_size_le (by simpa using hq)]
    exact iff_of_false (by simp [State.absent, Pending.Expects]) not_foreseen_nil
  case flowing =>
    intro p hp
    by_cases hid : p = id
    · subst hid
      -- If it has not been informed itself, then what it has spread is what it has.
      rw [hgrows.items_of_clean h.lt_size hp, transitions_spread]
      apply arrived_spread
      intro x q hedge d t ht hx
      exact (h.shaped.target p x q hedge _).2 ⟨d, h.shaped.inClosure_of_expects ht, hx, rfl⟩
    · intro x q hedge d t ht hx
      rw [transitions_spread] at hedge
      rw [hgrows.items_of_clean (lt_size_of_mem_transitions hedge) hp] at ht
      exact hgrows.arrived (h.flowing p hid (hgrows.clean hp)) x q hedge d t ht hx
  case dirty_lt =>
    intro q hq
    rw [size_spread]
    exact dirty_lt_spread h.dirty_lt q hq

/-- Cleaning a state keeps the invariant. -/
theorem Sound.cleanNext (hg : g.WellFormed) (hsets : sets.Declared g) (h : c.Sound g sets) :
    (c.cleanNext g sets).Sound g sets := by
  cases hpop : c.dirty.pop with
  | none =>
      rwa [cleanNext_of_pop_none hpop]
  | some popped =>
      obtain ⟨id, dirty⟩ := popped
      have hlt : id < c.states.size :=
        h.dirty_lt id (Queue.toList_of_pop hpop ▸ List.mem_cons_self)
      have hitems : (c.look id).items.refresh g sets =
          ((c.renew g sets id dirty).look id).items := by rw [look_renew hlt, if_pos rfl]
      rw [cleanNext_of_pop hpop hlt, hitems,
        ← transitions_renew g sets dirty hlt id]
      exact (h.renew hg hsets hpop).spread hg hsets

/-! ## The end of propagation -/

/-- What the kernels of a graph may expect: a terminal after a core in a state. -/
private def facts (g : Grammar) (c : StateGraph) : Finset ((Nat × DottedRule) × Nat) :=
  ((List.range c.states.size).flatMap fun q => (c.look q).kernel.map (Prod.mk q)).toFinset ×ˢ
    Finset.range g.vocabulary.terminals.length

/-- What they do expect. -/
private def Holds (c : StateGraph) (fact : (Nat × DottedRule) × Nat) : Prop :=
  Item.Expects (c.look fact.1.1).items.kernels fact.1.2 ⟨fact.2⟩

private theorem facts_congr {c' : StateGraph} (hsize : c'.states.size = c.states.size)
    (hkernel : ∀ q, (c'.look q).kernel = (c.look q).kernel) : facts g c' = facts g c := by
  simp only [facts, hsize, hkernel]

private theorem mem_facts {q : Nat} {d : DottedRule} {t : Terminal}
    (hd : d ∈ (c.look q).kernel) (ht : t.index < g.vocabulary.terminals.length) :
    ((q, d), t.index) ∈ facts g c := by
  refine Finset.mem_product.2 ⟨List.mem_toFinset.2 (List.mem_flatMap.2 ⟨q, ?_, ?_⟩), ?_⟩
  · exact List.mem_range.2 (lt_size_of_mem_kernel hd)
  · exact List.mem_map_of_mem hd
  · exact Finset.mem_range.2 ht

private theorem card_facts_le (g : Grammar) (c : StateGraph) : (facts g c).card ≤
    (c.states.toList.flatMap (·.items.kernels)).length * g.vocabulary.terminals.length := by
  rw [facts, Finset.card_product, Finset.card_range]
  apply Nat.mul_le_mul_right
  calc ((List.range c.states.size).flatMap fun q => (c.look q).kernel.map (Prod.mk q)).toFinset.card
      ≤ ((List.range c.states.size).flatMap fun q => (c.look q).kernel.map (Prod.mk q)).length :=
        List.toFinset_card_le _
    _ = (c.states.toList.flatMap (·.items.kernels)).length := by
        rw [states_eq_map_look, List.flatMap_map, List.length_flatMap, List.length_flatMap]
        simp only [List.length_map, State.kernel]

/-- The dirty states, and what may still be expected. -/
private noncomputable def work (g : Grammar) (c : StateGraph) : Nat :=
  c.dirty.toList.length + missing (facts g c) (Holds c)

/-- A state that gets dirty has got something new. -/
private theorem work_inform_le {id : Nat} {seed : List Item} (hs : Shaped g c.look)
    (hdeclared : ∀ q d t, Item.Expects ((c.inform id seed).look q).items.kernels d t →
      t.index < g.vocabulary.terminals.length) :
    work g (c.inform id seed) ≤ work g c := by
  have hfacts : facts g (c.inform id seed) = facts g c :=
    facts_congr (c.size_inform id seed) (c.kernel_inform id seed)
  have hmono : ∀ fact ∈ facts g c, Holds c fact → Holds (c.inform id seed) fact :=
    fun fact _ h => (c.grows_inform id seed).expects _ _ _ h
  rcases c.inform_cases id seed with ⟨h, -⟩ | ⟨-, hne, h⟩
  · rw [h]
  · obtain ⟨d, t, hnew, hold⟩ := Item.exists_of_foldl_inform_ne (hs.distinct id) hne
    have hnew' : Item.Expects ((c.inform id seed).look id).items.kernels d t := by
      rw [look_inform, if_pos rfl]
      exact hnew
    have hd : d ∈ (c.look id).kernel := by
      rw [← c.kernel_inform id seed]
      exact Item.mem_core_of_expects hnew'
    have hlt : missing (facts g c) (Holds (c.inform id seed)) < missing (facts g c) (Holds c) :=
      missing_lt hmono (mem_facts hd (hdeclared id d t hnew')) hnew' hold
    have hlength : (c.inform id seed).dirty.toList.length ≤ c.dirty.toList.length + 1 := by
      rw [h]
      exact Queue.length_enqueue_le
    unfold work
    rw [hfacts]
    omega

private theorem work_spread_le (hs : Shaped g c.look)
    (hdeclared : ∀ q d t,
      Item.Expects ((spread items transitions c).look q).items.kernels d t →
        t.index < g.vocabulary.terminals.length) :
    work g (spread items transitions c) ≤ work g c := by
  induction transitions generalizing c with
  | nil => exact Nat.le_refl _
  | cons edge rest ih =>
      have hgrows : Grows (c.inform edge.2 (Item.across edge.1 items))
          (spread items rest (c.inform edge.2 (Item.across edge.1 items))) := grows_spread
      have hstep := work_inform_le hs fun q d t ht => hdeclared q d t (hgrows.expects q d t ht)
      exact (ih (c.shaped_inform _ _ hs) hdeclared).trans hstep

/-- A state that is renewed is not dirty any more, and all kernels stay as they are. -/
private theorem work_renew_lt {id : Nat} {dirty : Queue Nat compare}
    (hpop : c.dirty.pop = some (id, dirty)) (hlt : id < c.states.size) :
    work g (c.renew g sets id dirty) < work g c := by
  have hfacts : facts g (c.renew g sets id dirty) = facts g c :=
    facts_congr (by simp [StateGraph.renew]) (kernel_renew g sets dirty hlt)
  have hholds : Holds (c.renew g sets id dirty) = Holds c := by
    funext fact
    rw [Holds, kernels_renew g sets dirty hlt, Holds]
  have hlength := congrArg List.length (Queue.toList_of_pop hpop)
  rw [List.length_cons] at hlength
  unfold work
  rw [hfacts, hholds]
  show dirty.toList.length + missing (facts g c) (Holds c) < _
  omega

private theorem work_cleanNext_lt (hg : g.WellFormed) (hsets : sets.Declared g)
    (h : c.Sound g sets) (hdirty : c.isClean = false) :
    work g (c.cleanNext g sets) < work g c := by
  cases hpop : c.dirty.pop with
  | none => exact absurd (Queue.isEmpty_of_pop hpop) (Bool.eq_false_iff.1 hdirty)
  | some popped =>
      obtain ⟨id, dirty⟩ := popped
      have hlt : id < c.states.size :=
        h.dirty_lt id (Queue.toList_of_pop hpop ▸ List.mem_cons_self)
      have hsound := h.cleanNext hg hsets
      rw [cleanNext_of_pop hpop hlt] at hsound ⊢
      exact Nat.lt_of_le_of_lt
        (work_spread_le (shaped_renew hlt hg hsets h.shaped) hsound.sourced.declared)
        (work_renew_lt hpop hlt)

private theorem work_le_propagationBound (h : c.Sound g sets) :
    work g c ≤ c.propagationBound g := by
  have hdirty : c.dirty.toList.length ≤ c.states.size := by
    have hsub : c.dirty.toList ⊆ List.range c.states.size :=
      fun q hq => List.mem_range.2 (h.dirty_lt q hq)
    simpa using (c.dirty.nodup_toList.subperm hsub).length_le
  have hmissing := missing_le_card (facts g c) (Holds c)
  have hcard := card_facts_le g c
  unfold work propagationBound
  omega

theorem sound_propagate (hg : g.WellFormed) (hsets : sets.Declared g) (h : c.Sound g sets) :
    (c.propagate g sets).Sound g sets :=
  runUntil_invariant (fun _ hc _ => hc.cleanNext hg hsets) _ h

/-- In the end no state is dirty. -/
theorem isClean_propagate (hg : g.WellFormed) (hsets : sets.Declared g) (h : c.Sound g sets) :
    (c.propagate g sets).isClean = true :=
  done_runUntil (P := Sound g sets) (work g) (fun _ hc _ => hc.cleanNext hg hsets)
    (fun _ hc hdirty => work_cleanNext_lt hg hsets hc hdirty) h (work_le_propagationBound h)

end StateGraph

end ShiftReduce
