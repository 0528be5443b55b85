import ShiftReduce.Proofs.Automaton.Build

/-!
# Where granting stops

Demands are granted one after another, and the first that cannot be granted is the error.  A
demand cannot be granted if there is a transition on its terminal, or if a demand before it was for
the same terminal (`State.ConflictAt`).  So the error of a state is its conflict at the first place
(`State.grant_eq_error`), and the error of a graph is that of the first state which has one
(`StateGraph.firstConflict_of_settle`).

A first conflict is the only one (`StateGraph.FirstConflict.unique`): where a demand could be
reported against two others, the later one of these is in conflict with the earlier one, and comes
before it.
-/

namespace ShiftReduce

/-! ## Places in conflict -/

namespace State

/-- The demand at a place of a list cannot be granted in the state of a number. -/
inductive ConflictAt (s : State) (id : Nat) (demands : List (Terminal × Rule)) :
    Nat → BuildError → Prop
  | shiftReduce {n target : Nat} {t : Terminal} {r : Rule} : demands[n]? = some (t, r) →
      s.transition? (.terminal t) = some target →
      ConflictAt s id demands n (.shiftReduce id t target r)
  | reduceReduce {m n : Nat} {t : Terminal} {first second : Rule} : m < n →
      demands[m]? = some (t, first) → demands[n]? = some (t, second) →
      ConflictAt s id demands n (.reduceReduce id t first second)

variable {s : State} {id n : Nat} {demands : List (Terminal × Rule)} {e : BuildError}

theorem ConflictAt.lt_length (h : s.ConflictAt id demands n e) : n < demands.length := by
  cases h with
  | shiftReduce hn _ => exact (List.getElem?_eq_some_iff.1 hn).1
  | reduceReduce _ _ hn => exact (List.getElem?_eq_some_iff.1 hn).1

/-- Demands that come later do not matter. -/
theorem ConflictAt.of_append {later : List (Terminal × Rule)}
    (h : s.ConflictAt id (demands ++ later) n e) (hn : n < demands.length) :
    s.ConflictAt id demands n e := by
  cases h with
  | shiftReduce hat htarget =>
      rw [List.getElem?_append_left hn] at hat
      exact .shiftReduce hat htarget
  | reduceReduce hlt hfirst hat =>
      rw [List.getElem?_append_left hn] at hat
      rw [List.getElem?_append_left (hlt.trans hn)] at hfirst
      exact .reduceReduce hlt hfirst hat

/-- If granting stops, it stops at the first conflict. -/
theorem grant_eq_error {granted : List (Terminal × Rule)}
    (h : s.grant id granted demands = .error e)
    (hgranted : ∀ m e', ¬ s.ConflictAt id granted m e') :
    ∃ n, s.ConflictAt id (granted ++ demands) n e ∧
      ∀ m < n, ∀ e', ¬ s.ConflictAt id (granted ++ demands) m e' := by
  induction demands generalizing granted with
  | nil => simp [grant] at h
  | cons demand demands ih =>
      obtain ⟨t, r⟩ := demand
      have hat : (granted ++ (t, r) :: demands)[granted.length]? = some (t, r) := by simp
      have hbefore : ∀ m < granted.length, ∀ e',
          ¬ s.ConflictAt id (granted ++ (t, r) :: demands) m e' :=
        fun m hm e' hconflict => hgranted m e' (hconflict.of_append hm)
      unfold grant at h
      split at h
      · rename_i first hfirst
        obtain rfl := Except.error.inj h
        obtain ⟨front, back, rfl, -⟩ := List.lookup_eq_some_iff.1 hfirst
        refine ⟨_, .reduceReduce (m := front.length) (by simp) (by simp) hat, hbefore⟩
      · rename_i target _ htarget
        obtain rfl := Except.error.inj h
        exact ⟨_, .shiftReduce hat htarget, hbefore⟩
      · rename_i hnone htransition
        -- The demand is granted, so it is in conflict with nothing before it.
        have hnext : ∀ m e', ¬ s.ConflictAt id (granted ++ [(t, r)]) m e' := by
          intro m e' hconflict
          rcases Nat.lt_or_ge m granted.length with hm | hm
          · exact hgranted m e' (hconflict.of_append hm)
          · have hlt := hconflict.lt_length
            obtain rfl : m = granted.length := by
              rw [List.length_append, List.length_singleton] at hlt
              omega
            cases hconflict with
            | shiftReduce hn htarget =>
                obtain ⟨rfl, rfl⟩ : t = _ ∧ r = _ := by simpa using hn
                rw [htransition] at htarget
                contradiction
            | reduceReduce hlt hfirst hn =>
                obtain ⟨rfl, rfl⟩ : t = _ ∧ r = _ := by simpa using hn
                rw [List.getElem?_append_left hlt] at hfirst
                have hmem := List.mem_of_getElem? hfirst
                simpa using List.lookup_eq_none_iff.1 hnone _ hmem
        have hrest := ih h hnext
        rwa [List.append_assoc, List.singleton_append] at hrest

/-- What has been granted is not in conflict. -/
theorem not_conflictAt_of_settleable {g : Grammar} (h : s.Settleable g) :
    ¬ s.ConflictAt id (s.items.demands g) n e := by
  intro hconflict
  cases hconflict with
  | shiftReduce hn htarget =>
      rw [h.transition?_eq_none _ _ (List.mem_of_getElem? hn)] at htarget
      contradiction
  | @reduceReduce m n t first second hlt hfirst hsecond =>
      have hm : ((s.items.demands g).map (·.1))[m]? = some t := by simp [hfirst]
      have hn : ((s.items.demands g).map (·.1))[n]? = some t := by simp [hsecond]
      have hsize := (List.getElem?_eq_some_iff.1 hm).1
      have hplace := (List.getElem?_inj hsize h.distinct).1 (hm.trans hn.symm)
      exact absurd hplace (Nat.ne_of_lt hlt)

/-- A state without a clash is settled up to its first conflict. -/
theorem settle_eq_error {g : Grammar} (hclash : ItemSet.clash? s.items.kernels = none)
    (h : s.settle g id = .error e) :
    ∃ n, s.ConflictAt id (s.items.demands g) n e ∧
      ∀ m < n, ∀ e', ¬ s.ConflictAt id (s.items.demands g) m e' := by
  rw [settle, hclash] at h
  dsimp only at h
  cases hgrant : s.grant id [] (s.items.demands g) with
  | ok granted =>
      rw [hgrant] at h
      contradiction
  | error e' =>
      rw [hgrant] at h
      obtain rfl := Except.error.inj h
      apply grant_eq_error hgrant
      intro m e' hconflict
      exact absurd hconflict.lt_length (Nat.not_lt_zero m)

/-- States are settled up to the first that cannot be settled. -/
theorem settleFrom_eq_error {g : Grammar} {states : List State}
    (h : settleFrom g id states = .error e) :
    ∃ (i : Nat) (s : State), states[i]? = some s ∧ s.settle g (id + i) = .error e ∧
      ∀ j < i, ∀ s' : State, states[j]? = some s' → s'.Settleable g := by
  induction states generalizing id with
  | nil => contradiction
  | cons s states ih =>
      unfold settleFrom at h
      cases hs : s.settle g id with
      | error e' =>
          rw [hs] at h
          obtain rfl := Except.error.inj h
          exact ⟨0, s, rfl, hs, fun j hj => absurd hj (Nat.not_lt_zero j)⟩
      | ok settled =>
          rw [hs] at h
          cases hrest : settleFrom g (id + 1) states with
          | ok rest =>
              rw [hrest] at h
              contradiction
          | error e' =>
              rw [hrest] at h
              obtain rfl := Except.error.inj h
              obtain ⟨i, s', hi, hsettle, hbefore⟩ := ih hrest
              refine ⟨i + 1, s', hi, by rwa [Nat.add_assoc, Nat.add_comm 1] at hsettle, ?_⟩
              intro j hj s'' hj'
              cases j with
              | zero =>
                  obtain rfl := Option.some.inj hj'
                  exact (exists_settle_iff id).1 ⟨settled, hs⟩
              | succ j => exact hbefore j (Nat.lt_of_succ_lt_succ hj) s'' hj'

end State

/-! ## The first conflict of a graph -/

namespace StateGraph

/-- The demand at a place of the demands of a state cannot be granted. -/
def ConflictAt (g : Grammar) (c : StateGraph) (q : Nat) : Nat → BuildError → Prop :=
  (c.look q).ConflictAt q ((c.look q).items.demands g)

/-- A state that is not there demands nothing. -/
theorem ConflictAt.lt_size {g : Grammar} {c : StateGraph} {q n : Nat} {e : BuildError}
    (h : c.ConflictAt g q n e) : q < c.states.size := by
  by_contra hq
  have hlength := State.ConflictAt.lt_length h
  rw [look_of_size_le (Nat.not_lt.1 hq)] at hlength
  exact Nat.not_lt_zero n hlength

/-- A conflict comes first if no other one is in a state before its own, or in its own state at a
place before its own. -/
def FirstConflict (g : Grammar) (c : StateGraph) (e : BuildError) : Prop :=
  ∃ q n, c.ConflictAt g q n e ∧
    ∀ q' n' e', c.ConflictAt g q' n' e' → q < q' ∨ (q = q' ∧ n ≤ n')

variable {g : Grammar} {c : StateGraph} {e e' : BuildError}

/-- There is only one first conflict. -/
theorem FirstConflict.unique (h : c.FirstConflict g e) (h' : c.FirstConflict g e') : e = e' := by
  obtain ⟨q, n, hconflict, hfirst⟩ := h
  obtain ⟨q', n', hconflict', hfirst'⟩ := h'
  -- Both are at the same place.
  obtain ⟨rfl, rfl⟩ : q = q' ∧ n = n' := by
    have hle := hfirst q' n' e' hconflict'
    have hge := hfirst' q n e hconflict
    omega
  have hbefore : ∀ m < n, ∀ e', ¬ c.ConflictAt g q m e' := by
    intro m hm e' hm'
    have hle := hfirst q m e' hm'
    omega
  cases hconflict with
  | shiftReduce hn htarget =>
      cases hconflict' with
      | shiftReduce hn' htarget' =>
          obtain ⟨rfl, rfl⟩ := Prod.mk.inj (Option.some.inj (hn.symm.trans hn'))
          obtain rfl := Option.some.inj (htarget.symm.trans htarget')
          rfl
      | reduceReduce hlt hm' hn' =>
          obtain ⟨rfl, rfl⟩ := Prod.mk.inj (Option.some.inj (hn.symm.trans hn'))
          exact absurd (.shiftReduce hm' htarget) (hbefore _ hlt _)
  | @reduceReduce m _ _ _ _ hlt hm hn =>
      cases hconflict' with
      | shiftReduce hn' htarget' =>
          obtain ⟨rfl, rfl⟩ := Prod.mk.inj (Option.some.inj (hn.symm.trans hn'))
          exact absurd (.shiftReduce hm htarget') (hbefore _ hlt _)
      | @reduceReduce m' _ _ _ _ hlt' hm' hn' =>
          obtain ⟨rfl, rfl⟩ := Prod.mk.inj (Option.some.inj (hn.symm.trans hn'))
          rcases Nat.lt_trichotomy m m' with hmm | rfl | hmm
          · exact absurd (.reduceReduce hmm hm hm') (hbefore _ hlt' _)
          · obtain ⟨-, rfl⟩ := Prod.mk.inj (Option.some.inj (hm.symm.trans hm'))
            rfl
          · exact absurd (.reduceReduce hmm hm' hm) (hbefore _ hlt _)

/-- If a graph without clashes has no automaton, the error is its first conflict. -/
theorem firstConflict_of_settle
    (hclash : ∀ q, ItemSet.clash? (c.look q).items.kernels = none)
    (h : c.settle g = .error e) : c.FirstConflict g e := by
  unfold settle at h
  cases hfrom : State.settleFrom g 0 c.states.toList with
  | ok settled =>
      rw [hfrom] at h
      contradiction
  | error e' =>
      rw [hfrom] at h
      obtain rfl := Except.error.inj h
      obtain ⟨q, s, hq, hsettle, hbefore⟩ := State.settleFrom_eq_error hfrom
      rw [Nat.zero_add] at hsettle
      have hlook : ∀ {p : Nat} {s : State}, c.states.toList[p]? = some s → c.look p = s :=
        fun hp => look_of_getElem? (by simpa using hp)
      obtain rfl := hlook hq
      obtain ⟨n, hconflict, hfirst⟩ := State.settle_eq_error (hclash q) hsettle
      refine ⟨q, n, hconflict, fun q' n' e' hconflict' => ?_⟩
      rcases Nat.lt_trichotomy q q' with hlt | rfl | hlt
      · exact .inl hlt
      · refine .inr ⟨rfl, Nat.le_of_not_lt fun hn => hfirst n' hn e' hconflict'⟩
      · -- A state before the one in conflict has been settled.
        have hsize : q < c.states.toList.length := (List.getElem?_eq_some_iff.1 hq).1
        have hq' := List.getElem?_eq_getElem (hlt.trans hsize)
        have hsettleable := hbefore q' hlt _ hq'
        rw [← hlook hq'] at hsettleable
        exact absurd hconflict' (State.not_conflictAt_of_settleable hsettleable)

end StateGraph

end ShiftReduce
