/-!
# Sets that remember the order of insertion

An `OrderedSet` is a finite set whose elements are listed in the order in which
they first came in.  Inserting an element that is already there changes nothing,
not even its place.

The view is `OrderedSet.toList`.  The sets of terminals of this library are
ordered because their order can be seen: it is the order of a dump, and it
decides which of two conflicts is reported first.

An `OrderedSet` stands for the insertion-ordered set of a container library that a
generator builds on and that is not modelled itself.  This much of what is documented
of such a set is relied on: its elements are gone through in the order in which they
were inserted, an element that is inserted again stays in its place and is reported as
present, and several elements are inserted one after another.  The sets of a generator
only grow, so that nothing depends on what a removal does to the order.
-/

namespace ShiftReduce

universe u

/-- A finite set, listed in the order in which its elements first came in. -/
structure OrderedSet (α : Type u) where
  toList : List α
  nodup : toList.Nodup
deriving DecidableEq

namespace OrderedSet

variable {α : Type u}

@[ext] theorem ext {s t : OrderedSet α} (h : s.toList = t.toList) : s = t := by
  cases s; cases t; cases h; rfl

instance : Membership α (OrderedSet α) := ⟨fun s a => a ∈ s.toList⟩

theorem mem_def {a : α} {s : OrderedSet α} : a ∈ s ↔ a ∈ s.toList := Iff.rfl

instance [DecidableEq α] (a : α) (s : OrderedSet α) : Decidable (a ∈ s) :=
  inferInstanceAs (Decidable (a ∈ s.toList))

instance : HasSubset (OrderedSet α) := ⟨fun s t => ∀ a ∈ s, a ∈ t⟩

/-! ### Building sets -/

/-- The set without elements. -/
def empty : OrderedSet α := ⟨[], List.nodup_nil⟩

instance : EmptyCollection (OrderedSet α) := ⟨empty⟩

instance : Inhabited (OrderedSet α) := ⟨∅⟩

/-- The set of one element. -/
def single (a : α) : OrderedSet α := ⟨[a], by simp⟩

@[simp] theorem toList_empty : (∅ : OrderedSet α).toList = [] := rfl

@[simp] theorem not_mem_empty (a : α) : a ∉ (∅ : OrderedSet α) := List.not_mem_nil

@[simp] theorem toList_single (a : α) : (single a).toList = [a] := rfl

@[simp] theorem mem_single {a b : α} : a ∈ single b ↔ a = b := List.mem_singleton

variable [DecidableEq α]

/-- Adds an element at the end, unless the set already holds it. -/
def insert (s : OrderedSet α) (a : α) : OrderedSet α :=
  if h : a ∈ s.toList then s
  else ⟨s.toList ++ [a], by
    refine List.nodup_append.2 ⟨s.nodup, by simp, ?_⟩
    rintro x hx y hy rfl
    exact h (List.mem_singleton.1 hy ▸ hx)⟩

/-- Inserts the elements of the second set one after another. -/
def union (s t : OrderedSet α) : OrderedSet α := t.toList.foldl insert s

instance : Union (OrderedSet α) := ⟨union⟩

/-- The set of the elements of a list, in the order of their first occurrences. -/
def ofList (as : List α) : OrderedSet α := as.foldl insert ∅

/-! ### The view after each operation -/

theorem insert_of_mem {s : OrderedSet α} {a : α} (h : a ∈ s) : s.insert a = s :=
  dif_pos h

theorem toList_insert_of_not_mem {s : OrderedSet α} {a : α} (h : a ∉ s) :
    (s.insert a).toList = s.toList ++ [a] := by
  have h' : a ∉ s.toList := h
  simp [insert, h']

@[simp] theorem mem_insert {s : OrderedSet α} {a b : α} : a ∈ s.insert b ↔ a ∈ s ∨ a = b := by
  by_cases h : b ∈ s
  · rw [insert_of_mem h]
    exact ⟨Or.inl, fun h' => h'.elim id fun e => e ▸ h⟩
  · rw [mem_def, toList_insert_of_not_mem h, List.mem_append, List.mem_singleton]
    rfl

theorem mem_foldl_insert {as : List α} {s : OrderedSet α} {a : α} :
    a ∈ as.foldl insert s ↔ a ∈ s ∨ a ∈ as := by
  induction as generalizing s with
  | nil => simp
  | cons b as ih => rw [List.foldl_cons, ih, mem_insert, List.mem_cons, or_assoc]

@[simp] theorem mem_union {s t : OrderedSet α} {a : α} : a ∈ s ∪ t ↔ a ∈ s ∨ a ∈ t :=
  mem_foldl_insert

@[simp] theorem mem_ofList {as : List α} {a : α} : a ∈ ofList as ↔ a ∈ as := by
  simp [ofList, mem_foldl_insert]

end OrderedSet

end ShiftReduce
