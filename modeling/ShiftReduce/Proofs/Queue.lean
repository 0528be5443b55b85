import Mathlib.Tactic.Common
import ShiftReduce.Queue

/-!
# A queue as the list of its values

What the operations of a queue do to `Queue.toList`, in the form in which the worklists of
the generator use it.
-/

namespace ShiftReduce.Queue

open Std (TransCmp LawfulEqCmp)

universe u

variable {α : Type u} {order : α → α → Ordering} [TransCmp order] [LawfulEqCmp order]
  {q q' : Queue α order} {a b : α}

theorem toList_of_pop (h : q.pop = some (a, q')) : q.toList = a :: q'.toList := by
  have hview := q.toList_pop
  rw [h, Option.map_some] at hview
  cases hq : q.toList with
  | nil => simp [hq] at hview
  | cons b rest =>
      rw [hq] at hview
      simpa using hview.symm

/-- The value that leaves waits no longer. -/
theorem not_mem_of_pop (h : q.pop = some (a, q')) : a ∉ q'.toList :=
  (List.nodup_cons.1 (toList_of_pop h ▸ q.nodup_toList)).1

theorem isEmpty_of_pop (h : q.pop = none) : q.isEmpty = true := by
  have hview := q.toList_pop
  rw [h, Option.map_none] at hview
  exact isEmpty_iff.2 (List.head?_eq_none_iff.1 (by simpa using hview.symm))

theorem pop_of_toList_eq_nil (h : q.toList = []) : q.pop = none := by
  have hview := q.toList_pop
  rw [h] at hview
  exact Option.map_eq_none_iff.1 hview

theorem exists_pop_of_toList_eq_cons {rest : List α} (h : q.toList = a :: rest) :
    ∃ q', q.pop = some (a, q') ∧ q'.toList = rest := by
  have hview := q.toList_pop
  rw [h] at hview
  obtain ⟨⟨b, q'⟩, hpop, heq⟩ := Option.map_eq_some_iff.1 hview
  obtain ⟨rfl, htail⟩ := Prod.mk.injEq .. ▸ heq
  exact ⟨q', hpop, htail⟩

theorem enqueue_of_mem (h : a ∈ q.toList) : q.enqueue a = q := by
  rw [enqueue, push_of_mem h]

@[simp] theorem mem_enqueue : b ∈ (q.enqueue a).toList ↔ b ∈ q.toList ∨ b = a := by
  by_cases h : a ∈ q.toList
  · rw [enqueue_of_mem h]
    exact ⟨.inl, fun hb => hb.elim id fun e => e ▸ h⟩
  · rw [enqueue, (push_of_not_mem h).2, List.mem_append, List.mem_singleton]

theorem length_enqueue_le : (q.enqueue a).toList.length ≤ q.toList.length + 1 := by
  by_cases h : a ∈ q.toList
  · rw [enqueue_of_mem h]
    exact Nat.le_succ _
  · rw [enqueue, (push_of_not_mem h).2]
    simp

end ShiftReduce.Queue
