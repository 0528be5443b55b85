import Std.Data.TreeSet.Lemmas

/-!
# Worklists without waiting duplicates

A first-in first-out queue that holds each value at most once at a time.  A
value that is already waiting is refused; one that has left the queue may come
back.

The queue is kept as two lists, so that both ends are within reach, beside the
set of the waiting values, so that a duplicate is told without a search.  Its view
is `Queue.toList`, oldest value first.

The two lists stand for a double-ended queue and the set for an insertion-ordered set
like those of `OrderedSet`.  Values are removed from this one, which may change its
order, but it is only asked whether a value is in it: insertion reports a value that is
there already, and removal takes out that value and no other.  Any order will do for it,
and the order in which values leave is that of the lists alone.
-/

namespace ShiftReduce

open Std (TransCmp LawfulEqCmp)

universe u

/-- A queue: the values next to leave, oldest first, those that came in since,
newest first, and the set of both. -/
structure Queue (α : Type u) (order : α → α → Ordering) where
  front : List α
  back : List α
  waiting : Std.TreeSet α order
  mem_waiting : ∀ a, a ∈ waiting ↔ a ∈ front ++ back.reverse
  nodup : (front ++ back.reverse).Nodup

namespace Queue

variable {α : Type u} {order : α → α → Ordering}

/-- The waiting values, oldest first. -/
def toList (q : Queue α order) : List α := q.front ++ q.back.reverse

/-- The queue in which nothing waits. -/
def empty : Queue α order := ⟨[], [], ∅, by simp, by simp⟩

/-- Whether nothing waits. -/
def isEmpty (q : Queue α order) : Bool := q.front.isEmpty && q.back.isEmpty

/-- Whether the value is waiting. -/
def contains (q : Queue α order) (a : α) : Bool := q.waiting.contains a

@[simp] theorem toList_empty : (empty : Queue α order).toList = [] := rfl

theorem isEmpty_iff {q : Queue α order} : q.isEmpty ↔ q.toList = [] := by
  simp [isEmpty, toList]

theorem nodup_toList (q : Queue α order) : q.toList.Nodup := q.nodup

theorem contains_iff {q : Queue α order} {a : α} : q.contains a ↔ a ∈ q.toList :=
  Std.TreeSet.contains_iff_mem.trans (q.mem_waiting a)

variable [TransCmp order] [LawfulEqCmp order]

/-- The set of the waiting values when the oldest one leaves. -/
private theorem mem_erase_oldest {waiting : Std.TreeSet α order} {a : α} {rest : List α}
    (mem : ∀ b, b ∈ waiting ↔ b ∈ a :: rest) (nodup : (a :: rest).Nodup) (b : α) :
    b ∈ waiting.erase a ↔ b ∈ rest := by
  have h := (List.nodup_cons.1 nodup).1
  rw [Std.TreeSet.mem_erase, mem, List.mem_cons, Ne, LawfulEqCmp.compare_eq_iff_eq]
  refine ⟨fun ⟨hne, hb⟩ => hb.resolve_left fun e => hne e.symm, fun hb => ⟨?_, .inr hb⟩⟩
  rintro rfl
  exact h hb

/-- Takes the oldest waiting value. -/
def pop (q : Queue α order) : Option (α × Queue α order) :=
  match q with
  | ⟨a :: rest, back, waiting, mem, nodup⟩ =>
    some (a, ⟨rest, back, waiting.erase a, mem_erase_oldest mem nodup, (List.nodup_cons.1 nodup).2⟩)
  | ⟨[], back, waiting, mem, nodup⟩ =>
    match h : back.reverse with
    | [] => none
    | a :: rest =>
      have mem : ∀ b, b ∈ waiting ↔ b ∈ a :: rest := by rwa [h] at mem
      have nodup : (a :: rest).Nodup := by rwa [h] at nodup
      some (a, ⟨rest, [], waiting.erase a, by
        intro b
        rw [List.reverse_nil, List.append_nil]
        exact mem_erase_oldest mem nodup b, by
        rw [List.reverse_nil, List.append_nil]
        exact (List.nodup_cons.1 nodup).2⟩)

/-- What leaves is the oldest value, and the rest stays in order. -/
theorem toList_pop {q : Queue α order} :
    q.pop.map (fun r => (r.1, r.2.toList)) = q.toList.head?.map fun a => (a, q.toList.tail) := by
  rcases q with ⟨_ | ⟨a, front⟩, back, waiting, mem, nodup⟩
  · simp only [pop, toList, List.nil_append]
    split <;> rename_i h <;> simp [h]
  · simp [pop, toList]

/-- Lines a value up and reports that it was accepted; a waiting value is
refused. -/
def push (q : Queue α order) (a : α) : Bool × Queue α order :=
  if h : q.contains a then (false, q)
  else (true, ⟨q.front, a :: q.back, q.waiting.insert a, by
    intro b
    rw [Std.TreeSet.mem_insert, LawfulEqCmp.compare_eq_iff_eq, q.mem_waiting, List.reverse_cons,
      ← List.append_assoc]
    exact or_comm.trans ((or_congr_right (eq_comm.trans List.mem_singleton.symm)).trans
      List.mem_append.symm), by
    have : a ∉ q.front ++ q.back.reverse := fun m => h (contains_iff.2 m)
    rw [List.reverse_cons, ← List.append_assoc]
    refine List.nodup_append.2 ⟨q.nodup, by simp, ?_⟩
    rintro x hx y hy rfl
    exact this (List.mem_singleton.1 hy ▸ hx)⟩)

/-- Lines a value up unless it is waiting already. -/
def enqueue (q : Queue α order) (a : α) : Queue α order := (q.push a).2

/-- Lines up the values of a list in order. -/
def ofList (as : List α) : Queue α order := as.foldl enqueue empty

/-! ### The view after each operation -/

theorem push_of_mem {q : Queue α order} {a : α} (h : a ∈ q.toList) : q.push a = (false, q) := by
  simp [push, contains_iff.2 h]

theorem push_of_not_mem {q : Queue α order} {a : α} (h : a ∉ q.toList) :
    (q.push a).1 = true ∧ (q.push a).2.toList = q.toList ++ [a] := by
  have : q.contains a = false := by simpa [Bool.eq_false_iff, contains_iff] using h
  simp [push, this, toList]

/-! ### Histories -/

/-- What may be asked of a queue. -/
inductive Request (α : Type u) where
  | push (value : α)
  | pop
  | isEmpty

/-- What a queue answers. -/
inductive Answer (α : Type u) where
  | accepted (yes : Bool)
  | popped (value : Option α)
  | empty (yes : Bool)

/-- One request: the answer, and the queue after it. -/
def serve (q : Queue α order) : Request α → Answer α × Queue α order
  | .push a => (.accepted (q.push a).1, (q.push a).2)
  | .pop =>
    match q.pop with
    | some (a, q') => (.popped (some a), q')
    | none => (.popped none, q)
  | .isEmpty => (.empty q.isEmpty, q)

/-- The answers to requests made one after another. -/
def serveAll (q : Queue α order) : List (Request α) → List (Answer α)
  | [] => []
  | r :: rest => (q.serve r).1 :: (q.serve r).2.serveAll rest

end Queue

end ShiftReduce
