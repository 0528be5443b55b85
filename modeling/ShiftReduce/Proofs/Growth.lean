import Mathlib.Data.Finset.Card
import ShiftReduce.OrderedSet

/-!
# How much may still be added

Every loop of the generator adds facts: a terminal to a set, a nonterminal to a list, a
state to a graph.  Of such a loop one knows a finite universe of facts, and `missing`
counts those that do not hold yet.  While facts are only added, it falls whenever a new one is
(`missing_lt`), which bounds the loop.
-/

namespace ShiftReduce

universe u

variable {α : Type u}

section Missing

open Classical in
/-- How many facts of a universe do not hold. -/
noncomputable def missing (facts : Finset α) (holds : α → Prop) : Nat :=
  (facts.filter fun a => ¬ holds a).card

variable {facts : Finset α} {P Q : α → Prop}

theorem missing_le_card (facts : Finset α) (P : α → Prop) : missing facts P ≤ facts.card := by
  classical
  exact Finset.card_filter_le _ _

theorem missing_lt (mono : ∀ a ∈ facts, P a → Q a) {a : α} (hmem : a ∈ facts) (hq : Q a)
    (hp : ¬ P a) : missing facts Q < missing facts P := by
  classical
  apply Finset.card_lt_card
  refine Finset.ssubset_iff_subset_ne.2 ⟨?_, ?_⟩
  · intro b hb
    obtain ⟨hb, hqb⟩ := Finset.mem_filter.1 hb
    exact Finset.mem_filter.2 ⟨hb, fun hpb => hqb (mono b hb hpb)⟩
  · intro he
    have ha : a ∈ facts.filter fun a => ¬ Q a := he ▸ Finset.mem_filter.2 ⟨hmem, hp⟩
    exact (Finset.mem_filter.1 ha).2 hq

end Missing

/-! ## Steps that add nothing -/

/-- A fold with no step that changes its start does not change it. -/
theorem foldl_eq_self {β : Type*} {step : β → α → β} {start : β} {as : List α}
    (h : ∀ a ∈ as, step start a = start) : as.foldl step start = start := by
  induction as with
  | nil => rfl
  | cons a as ih =>
      rw [List.foldl_cons, h a List.mem_cons_self]
      exact ih fun b hb => h b (List.mem_cons_of_mem a hb)

/-- A set takes in nothing new from its own elements. -/
theorem OrderedSet.union_eq_self [DecidableEq α] {s t : OrderedSet α} (h : t ⊆ s) :
    s ∪ t = s := by
  show t.toList.foldl insert s = s
  exact foldl_eq_self fun a ha => insert_of_mem (h a ha)

end ShiftReduce
