import ShiftReduce.Automaton.Conflict
import ShiftReduce.Proofs.Automaton.Graph

/-!
# Settling the reductions of a state

A state is settled by granting the reductions that its items demand, one after another, and
that fails as soon as two of them clash, or one with a transition.  So in a state that has been
settled the reductions are exactly those that its items demand, before different terminals, and
no terminal with a reduction has a transition (`State.Settled`).  And a state can be settled if
its items make no other demands than such (`State.Settleable`).
-/

namespace ShiftReduce

/-- In a list of pairs with different keys a search finds every pair. -/
theorem lookup_eq_some_iff_mem {α β : Type} [DecidableEq α] {l : List (α × β)}
    (h : (l.map (·.1)).Nodup) {a : α} {b : β} : l.lookup a = some b ↔ (a, b) ∈ l := by
  induction l with
  | nil => simp
  | cons entry rest ih =>
      obtain ⟨key, value⟩ := entry
      rw [List.map_cons, List.nodup_cons] at h
      rw [List.lookup_cons, List.mem_cons, ← ih h.2]
      by_cases hkey : a = key
      · subst hkey
        have hnone : rest.lookup a ≠ some b :=
          fun hb => h.1 (List.mem_map_of_mem (f := (·.1)) ((ih h.2).1 hb))
        simp [hnone, eq_comm]
      · rw [beq_eq_false_iff_ne.2 hkey]
        simp [hkey]

/-! ## Granting -/

namespace State

variable {g : Grammar} {s : State}

/-- Demands that have been granted are for different terminals, none of which has a
transition. -/
theorem grant_eq_ok {id : Nat} {demands : List (Terminal × Rule)} :
    ∀ {granted result : List (Terminal × Rule)},
      s.grant id granted demands = .ok result → (granted.map (·.1)).Nodup →
      result = granted ++ demands ∧ (result.map (·.1)).Nodup ∧
        ∀ t r, (t, r) ∈ demands → s.transition? (.terminal t) = none := by
  induction demands with
  | nil =>
      intro granted result h hnodup
      obtain rfl : granted = result := by simpa [grant] using h
      simp [hnodup]
  | cons demand demands ih =>
      obtain ⟨t, r⟩ := demand
      intro granted result h hnodup
      unfold grant at h
      split at h
      · contradiction
      · contradiction
      · rename_i hgranted hshift
        -- A second demand for the terminal would have been a conflict.
        have hfresh : t ∉ granted.map (·.1) := by
          rw [List.lookup_eq_none_iff] at hgranted
          intro hmem
          obtain ⟨⟨u, r'⟩, hu, rfl⟩ := List.mem_map.1 hmem
          simpa using hgranted _ hu
        have hnodup' : ((granted ++ [(t, r)]).map (·.1)).Nodup := by
          rw [List.map_append, List.nodup_append]
          refine ⟨hnodup, List.nodup_singleton _, ?_⟩
          intro u hu v hv huv
          have hvt : v = t := List.mem_singleton.1 hv
          exact hfresh (hvt ▸ huv ▸ hu)
        obtain ⟨rfl, hresult, hall⟩ := ih h hnodup'
        refine ⟨by simp, hresult, ?_⟩
        intro u r' hu
        rcases List.mem_cons.1 hu with hu | hu
        · obtain ⟨rfl, rfl⟩ := Prod.mk.injEq .. ▸ hu
          exact hshift
        · exact hall u r' hu

/-- Demands for different terminals, none of which has a transition, are all granted. -/
theorem grant_eq {id : Nat} {demands : List (Terminal × Rule)} :
    ∀ {granted : List (Terminal × Rule)}, ((granted ++ demands).map (·.1)).Nodup →
      (∀ t r, (t, r) ∈ demands → s.transition? (.terminal t) = none) →
      s.grant id granted demands = .ok (granted ++ demands) := by
  induction demands with
  | nil =>
      intro granted _ _
      rw [List.append_nil]
      rfl
  | cons demand demands ih =>
      obtain ⟨t, r⟩ := demand
      intro granted hnodup htransition
      have hgranted : granted.lookup t = none := by
        rw [List.lookup_eq_none_iff]
        rintro ⟨u, r'⟩ hu
        rw [List.map_append, List.nodup_append] at hnodup
        have hne := hnodup.2.2 u (List.mem_map_of_mem (f := (·.1)) hu) t List.mem_cons_self
        simpa using Ne.symm hne
      have hnone := htransition t r List.mem_cons_self
      have hrest : s.grant id (granted ++ [(t, r)]) demands = .ok (granted ++ [(t, r)] ++ demands) :=
        ih (by simpa using hnodup) fun u r' hu => htransition u r' (List.mem_cons_of_mem _ hu)
      simp only [grant, hgranted, hnone]
      simpa using hrest

/-- What is reduced in a state is what its items demand, and nothing is demanded twice. -/
structure Settled (g : Grammar) (s : State) : Prop where
  reduces_eq : s.reduces = s.items.demands g
  distinct : (s.reduces.map (·.1)).Nodup
  transition?_eq_none : ∀ t r, (t, r) ∈ s.reduces → s.transition? (.terminal t) = none

theorem settle_eq_ok {id : Nat} {s' : State} (h : s.settle g id = .ok s') :
    s'.items = s.items ∧ s'.transitions = s.transitions ∧ s'.Settled g := by
  unfold settle at h
  split at h
  · contradiction
  · cases hgrant : s.grant id [] (s.items.demands g) with
    | error e =>
        rw [hgrant] at h
        contradiction
    | ok result =>
        rw [hgrant] at h
        obtain rfl : { s with reduces := result } = s' := Except.ok.inj h
        obtain ⟨hresult, hnodup, hall⟩ := grant_eq_ok hgrant List.nodup_nil
        rw [List.nil_append] at hresult
        exact ⟨rfl, rfl, hresult, hnodup, fun t r hmem => hall t r (hresult ▸ hmem)⟩

/-- A state whose items demand nothing twice, and nothing where there is a transition. -/
structure Settleable (g : Grammar) (s : State) : Prop where
  clash?_eq_none : ItemSet.clash? s.items.kernels = none
  distinct : ((s.items.demands g).map (·.1)).Nodup
  transition?_eq_none : ∀ t r, (t, r) ∈ s.items.demands g → s.transition? (.terminal t) = none

/-- Such states, and no others, can be settled. -/
theorem exists_settle_iff (id : Nat) : (∃ s', s.settle g id = .ok s') ↔ s.Settleable g := by
  constructor
  · rintro ⟨s', h⟩
    obtain ⟨hitems, htransitions, hsettled⟩ := settle_eq_ok h
    have hdemands : s'.reduces = s.items.demands g := by rw [hsettled.reduces_eq, hitems]
    refine ⟨?_, hdemands ▸ hsettled.distinct, fun t r hmem => ?_⟩
    · unfold settle at h
      split at h
      · contradiction
      · assumption
    · have hnone := hsettled.transition?_eq_none t r (hdemands ▸ hmem)
      rwa [transition?, htransitions] at hnone
  · intro h
    have hgrant : s.grant id [] (s.items.demands g) = .ok ([] ++ s.items.demands g) :=
      grant_eq h.distinct h.transition?_eq_none
    rw [settle, h.clash?_eq_none]
    dsimp only
    rw [hgrant]
    exact ⟨_, rfl⟩

theorem exists_settleFrom_iff {states : List State} : ∀ id : Nat,
    (∃ settled, settleFrom g id states = .ok settled) ↔ ∀ s ∈ states, s.Settleable g := by
  induction states with
  | nil => exact fun _ => iff_of_true ⟨[], rfl⟩ (by simp)
  | cons s states ih =>
      intro id
      rw [List.forall_mem_cons, ← exists_settle_iff id, ← ih (id + 1), settleFrom]
      constructor
      · rintro ⟨settled, h⟩
        cases hs : s.settle g id with
        | error e =>
            rw [hs] at h
            contradiction
        | ok s' =>
            rw [hs] at h
            cases hrest : settleFrom g (id + 1) states with
            | error e =>
                rw [hrest] at h
                contradiction
            | ok rest => exact ⟨⟨s', rfl⟩, rest, rfl⟩
      · rintro ⟨⟨s', hs⟩, rest, hrest⟩
        rw [hs, hrest]
        exact ⟨s' :: rest, rfl⟩

theorem settled_absent (g : Grammar) : absent.Settled g :=
  ⟨rfl, List.nodup_nil, fun _ _ h => absurd h List.not_mem_nil⟩

/-- Settling goes state by state. -/
theorem settleFrom_eq_ok {states : List State} : ∀ {id : Nat} {settled : List State},
    settleFrom g id states = .ok settled → settled.length = states.length ∧
      ∀ (i : Nat) (s' : State), settled[i]? = some s' →
        ∃ s, states[i]? = some s ∧ s'.items = s.items ∧ s'.transitions = s.transitions ∧
          s'.Settled g := by
  induction states with
  | nil =>
      intro id settled h
      obtain rfl : [] = settled := Except.ok.inj h
      simp
  | cons s states ih =>
      intro id settled h
      unfold settleFrom at h
      cases hs : s.settle g id with
      | error e =>
          rw [hs] at h
          contradiction
      | ok s' =>
          rw [hs] at h
          cases hrest : settleFrom g (id + 1) states with
          | error e =>
              rw [hrest] at h
              contradiction
          | ok rest =>
              rw [hrest] at h
              obtain rfl : s' :: rest = settled := Except.ok.inj h
              obtain ⟨hlength, hall⟩ := ih hrest
              refine ⟨by simp [hlength], ?_⟩
              intro i s'' hi
              cases i with
              | zero =>
                  obtain rfl : s' = s'' := by simpa using hi
                  exact ⟨s, rfl, settle_eq_ok hs⟩
              | succ i => exact hall i s'' (by simpa using hi)

/-! ## Reductions and transitions of a settled state -/

/-- The terminals that call for a reduction. -/
theorem mem_demands {items : ItemSet} {t : Terminal} {r : Rule} :
    (t, r) ∈ items.demands g ↔
      t ≠ g.blank ∧ ∃ d, Item.Expects (items.items g) d t ∧ d.isReducible = true ∧ d.rule = r := by
  simp only [ItemSet.demands, ItemSet.reductions, List.mem_flatMap, List.mem_map,
    List.mem_filter, decide_eq_true_eq, Item.Expects]
  constructor
  · rintro ⟨_, ⟨k, ⟨hk, hreducible⟩, rfl⟩, u, ⟨hu, hblank⟩, heq⟩
    obtain ⟨rfl, rfl⟩ := Prod.mk.injEq .. ▸ heq
    exact ⟨hblank, k.core, ⟨k, hk, rfl, hu⟩, hreducible, rfl⟩
  · rintro ⟨hblank, d, ⟨k, hk, rfl, ht⟩, hreducible, rfl⟩
    exact ⟨_, ⟨k, ⟨hk, hreducible⟩, rfl⟩, t, ⟨ht, hblank⟩, rfl⟩

/-- A production is reduced before its lookaheads. -/
theorem Settled.reduce?_eq_some_iff (h : s.Settled g) {t : Terminal} {r : Rule} :
    s.reduce? t = some r ↔
      t ≠ g.blank ∧ ∃ d, s.Expects g d t ∧ d.isReducible = true ∧ d.rule = r := by
  rw [reduce?, lookup_eq_some_iff_mem h.distinct, h.reduces_eq, mem_demands]
  rfl

/-- Where a production is reduced there is no transition. -/
theorem Settled.transition?_of_reduce? (h : s.Settled g) {t : Terminal} {r : Rule}
    (hr : s.reduce? t = some r) : s.transition? (.terminal t) = none :=
  h.transition?_eq_none t r ((lookup_eq_some_iff_mem h.distinct).1 hr)

end State

end ShiftReduce
