import ShiftReduce.Proofs.Automaton.Graph

/-!
# Growing graphs

A step of the generator adds states to a graph and lookaheads to its kernels, and leaves the
rest alone: `StateGraph.Grows`.  What a graph knows about its lookaheads survives growth,
and a state is dirty as soon as it has something to hand on.

Informing a state is the step by which kernels grow (`look_inform`).
-/

namespace ShiftReduce

namespace StateGraph

/-- One graph has the states of another one, with the same cores and no fewer lookaheads, and
a kernel that differs is dirty. -/
structure Grows (c c' : StateGraph) : Prop where
  size_le : c.states.size ≤ c'.states.size
  kernel : ∀ q < c.states.size, (c'.look q).kernel = (c.look q).kernel
  pendings : ∀ q < c.states.size, (c'.look q).items.pendings = (c.look q).items.pendings
  expects : ∀ q d t, Item.Expects (c.look q).items.kernels d t →
    Item.Expects (c'.look q).items.kernels d t
  dirty : ∀ q ∈ c.dirty.toList, q ∈ c'.dirty.toList
  settled : ∀ q < c.states.size, q ∉ c'.dirty.toList →
    (c'.look q).items.kernels = (c.look q).items.kernels

/-- The states that are not dirty. -/
def Clean (c : StateGraph) (q : Nat) : Prop := q ∉ c.dirty.toList

namespace Grows

variable {c c' c'' : StateGraph}

theorem refl (c : StateGraph) : c.Grows c where
  size_le := Nat.le_refl _
  kernel _ _ := rfl
  pendings _ _ := rfl
  expects _ _ _ h := h
  dirty _ h := h
  settled _ _ _ := rfl

theorem trans (h : c.Grows c') (h' : c'.Grows c'') : c.Grows c'' where
  size_le := h.size_le.trans h'.size_le
  kernel q hq := (h'.kernel q (hq.trans_le h.size_le)).trans (h.kernel q hq)
  pendings q hq := (h'.pendings q (hq.trans_le h.size_le)).trans (h.pendings q hq)
  expects q d t ht := h'.expects q d t (h.expects q d t ht)
  dirty q hq := h'.dirty q (h.dirty q hq)
  settled q hq hclean := by
    have hbefore : q ∉ c'.dirty.toList := fun hdirty => hclean (h'.dirty q hdirty)
    rw [h'.settled q (hq.trans_le h.size_le) hclean, h.settled q hq hbefore]

/-- Transitions do not matter. -/
theorem of_items_eq (hsize : c'.states.size = c.states.size) (hdirty : c'.dirty = c.dirty)
    (hitems : ∀ q, (c'.look q).items = (c.look q).items) : c.Grows c' where
  size_le := Nat.le_of_eq hsize.symm
  kernel q _ := by rw [State.kernel, hitems, State.kernel]
  pendings q _ := by rw [hitems]
  expects q d t ht := by rwa [hitems]
  dirty q hq := by rwa [hdirty]
  settled q _ _ := by rw [hitems]

theorem clean (h : c.Grows c') {q : Nat} (hclean : c'.Clean q) : c.Clean q :=
  fun hdirty => hclean (h.dirty q hdirty)

/-- The items of a state that is there expect no less than before. -/
theorem expects_items (h : c.Grows c') {g : Grammar} {q : Nat} (hq : q < c.states.size)
    {d : DottedRule} {t : Terminal} (ht : (c.look q).Expects g d t) :
    (c'.look q).Expects g d t := by
  rw [State.Expects, ItemSet.expects_items] at ht ⊢
  rw [h.pendings q hq]
  exact ht.imp_left (h.expects q d t)

/-- A state that is clean has the same items as before. -/
theorem items_of_clean (h : c.Grows c') {q : Nat} (hq : q < c.states.size)
    (hclean : c'.Clean q) : (c'.look q).items = (c.look q).items := by
  have hkernels := h.settled q hq hclean
  have hpendings := h.pendings q hq
  calc (c'.look q).items
      = ⟨(c'.look q).items.kernels, (c'.look q).items.pendings⟩ := rfl
    _ = ⟨(c.look q).items.kernels, (c.look q).items.pendings⟩ := by rw [hkernels, hpendings]
    _ = (c.look q).items := rfl

/-- The states that were there stay as fresh as they were. -/
theorem fresh (h : c.Grows c') {g : Grammar} {sets : FirstFollow}
    (hfresh : Fresh g sets c.Clean c.look)
    (hnew : ∀ q, c.states.size ≤ q → ∀ n t,
      Pending.Expects (c'.look q).items.pendings n t ↔
        Foreseen g sets (c'.look q).items.kernels n t) :
    Fresh g sets c'.Clean c'.look where
  foreseen q n t ht := by
    rcases Nat.lt_or_ge q c.states.size with hq | hq
    · rw [h.pendings q hq] at ht
      exact (hfresh.foreseen q n t ht).mono (h.kernel q hq) (h.expects q)
    · exact (hnew q hq n t).1 ht
  expects q hclean n t ht := by
    rcases Nat.lt_or_ge q c.states.size with hq | hq
    · rw [h.settled q hq hclean] at ht
      rw [h.pendings q hq]
      exact hfresh.expects q (h.clean hclean) n t ht
    · exact (hnew q hq n t).2 ht

/-- What has arrived stays. -/
theorem arrived (h : c.Grows c') {items : List Item} {transitions : List (Symbol × Nat)}
    (ha : Arrived c.look items transitions) : Arrived c'.look items transitions :=
  fun x q hedge d t ht hx => h.expects q _ t (ha x q hedge d t ht hx)

end Grows

/-- A new state changes none of those that were there. -/
theorem grows_push (c : StateGraph) (s : State) : c.Grows ⟨c.states.push s, c.dirty⟩ := by
  have hold : ∀ q < c.states.size,
      StateGraph.look ⟨c.states.push s, c.dirty⟩ q = c.look q := by
    intro q hq
    rw [look_push, if_neg (Nat.ne_of_lt hq)]
  exact {
    size_le := by simp
    kernel := fun q hq => by rw [hold q hq]
    pendings := fun q hq => by rw [hold q hq]
    expects := fun q d t ht => by
      have hlt := lt_size_of_mem_kernel (Item.mem_core_of_expects ht)
      rwa [hold q hlt]
    dirty := fun _ hq => hq
    settled := fun q hq _ => by rw [hold q hq] }

/-! ## Informing a state -/

variable (c : StateGraph) (id : Nat) (seed : List Item)

/-- Informing a state changes nothing, or it makes the state dirty. -/
theorem inform_cases : (c.inform id seed = c ∧
      ((c.look id).items.inform seed).kernels = (c.look id).items.kernels) ∨
    (id < c.states.size ∧
      ((c.look id).items.inform seed).kernels ≠ (c.look id).items.kernels ∧
      c.inform id seed = ⟨c.states.setIfInBounds id
        { c.look id with items := (c.look id).items.inform seed }, c.dirty.enqueue id⟩) := by
  unfold inform
  split
  · rename_i hnone
    have hlook : c.look id = .absent := by rw [look, hnone, Option.getD_none]
    refine .inl ⟨rfl, ?_⟩
    rw [hlook]
    exact List.map_eq_nil_iff.1 (Item.map_core_foldl_inform seed [])
  · rename_i state hsome
    have hlook := look_of_getElem? hsome
    dsimp only
    rw [hlook]
    split
    · rename_i heq
      exact .inl ⟨rfl, heq⟩
    · rename_i hne
      exact .inr ⟨(Array.getElem?_eq_some_iff.1 hsome).1, hne, rfl⟩

/-- The states after one of them has been informed. -/
theorem look_inform (q : Nat) : (c.inform id seed).look q =
    if q = id then { c.look q with items := (c.look q).items.inform seed } else c.look q := by
  split
  · rename_i hq
    subst hq
    rcases inform_cases c q seed with ⟨h, hsame⟩ | ⟨hlt, -, h⟩
    · have hitems : (c.look q).items.inform seed = (c.look q).items := by
        cases hitems : (c.look q).items
        rw [hitems] at hsame
        exact congrArg (ItemSet.mk · _) hsame
      rw [h, hitems]
    · rw [h]
      exact look_of_getElem? (by simp [hlt])
  · rename_i hq
    rcases inform_cases c id seed with ⟨h, -⟩ | ⟨-, -, h⟩
    · rw [h]
    · rw [h, look, Array.getElem?_setIfInBounds_ne (Ne.symm hq), look]

@[simp] theorem size_inform : (c.inform id seed).states.size = c.states.size := by
  rcases inform_cases c id seed with ⟨h, -⟩ | ⟨-, -, h⟩ <;> simp [h]

@[simp] theorem transitions_inform (q : Nat) :
    ((c.inform id seed).look q).transitions = (c.look q).transitions := by
  rw [look_inform]
  split <;> rfl

theorem kernel_inform (q : Nat) : ((c.inform id seed).look q).kernel = (c.look q).kernel := by
  rw [look_inform]
  split
  · exact Item.map_core_foldl_inform seed _
  · rfl

theorem pendings_inform (q : Nat) :
    ((c.inform id seed).look q).items.pendings = (c.look q).items.pendings := by
  rw [look_inform]
  split <;> rfl

/-- The lookaheads after one state has been informed. -/
theorem expects_inform {q : Nat} {d : DottedRule} {t : Terminal} :
    Item.Expects ((c.inform id seed).look q).items.kernels d t ↔
      Item.Expects (c.look q).items.kernels d t ∨
        (q = id ∧ d ∈ (c.look q).kernel ∧ Item.Expects seed d t) := by
  rw [look_inform]
  split
  · rename_i hq
    rw [ItemSet.inform, Item.expects_foldl_inform, State.kernel]
    simp only [hq, true_and]
  · rename_i hq
    simp only [hq, false_and, or_false]

theorem mem_dirty_inform {q : Nat} (h : q ∈ (c.inform id seed).dirty.toList) :
    q ∈ c.dirty.toList ∨ (q = id ∧ id < c.states.size) := by
  rcases inform_cases c id seed with ⟨h', -⟩ | ⟨hlt, -, h'⟩
  · rw [h'] at h
    exact .inl h
  · rw [h'] at h
    exact (Queue.mem_enqueue.1 h).imp_right fun hq => ⟨hq, hlt⟩

theorem grows_inform : c.Grows (c.inform id seed) where
  size_le := by simp
  kernel q _ := kernel_inform c id seed q
  pendings q _ := pendings_inform c id seed q
  expects q d t ht := (expects_inform c id seed).2 (.inl ht)
  dirty q hq := by
    rcases inform_cases c id seed with ⟨h, -⟩ | ⟨-, -, h⟩
    · rwa [h]
    · rw [h]
      exact Queue.mem_enqueue.2 (.inl hq)
  settled q _ hclean := by
    rcases inform_cases c id seed with ⟨h, -⟩ | ⟨-, -, h⟩
    · rw [h]
    · have hne : q ≠ id := by
        rintro rfl
        rw [h] at hclean
        exact hclean (Queue.mem_enqueue.2 (.inr rfl))
      rw [look_inform, if_neg hne]

theorem shaped_inform {g : Grammar} (h : Shaped g c.look) :
    Shaped g (c.inform id seed).look :=
  h.congr (kernel_inform c id seed) (fun q n => by rw [pendings_inform])
    (transitions_inform c id seed)

end StateGraph

end ShiftReduce
