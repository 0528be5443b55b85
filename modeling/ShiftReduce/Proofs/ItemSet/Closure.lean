import Mathlib.Tactic.Ring
import ShiftReduce.Proofs.FirstFollow.Limit
import ShiftReduce.Proofs.ItemSet.Expansion

/-!
# Closures

An expansion always comes to its end within its bound, so that its result is exactly what
`Awaited` and `Foreseen` say (`mem_symbol_ofKernels`, `expects_ofKernels`).  From this follows
what the items of an item set are: those of the kernel, and the productions of all awaited
nonterminals with the marker at the start.

The closure is described by what later files need of it: which cores there are, and which
lookaheads each of them has.  Neither depends on the order of anything.
-/

namespace ShiftReduce

/-- Lists of items with the same cores are about the same productions. -/
theorem Item.mem_allRules_of_cores {g : Grammar} {items items' : List Item}
    (hcores : items'.map (·.core) = items.map (·.core))
    (hitems : ∀ k ∈ items, k.core.rule ∈ g.allRules) : ∀ k ∈ items', k.core.rule ∈ g.allRules := by
  intro k hk
  have hcore : k.core ∈ items.map (·.core) := hcores ▸ List.mem_map_of_mem hk
  obtain ⟨k', hk', heq⟩ := List.mem_map.1 hcore
  exact heq ▸ hitems k' hk'

/-! ## The end of an expansion -/

namespace Expansion

open Pending (Expects)

variable {g : Grammar} {sets : FirstFollow} {kernels : List Item}

/-- What an expansion of a kernel may find: a nonterminal, or a lookahead of one. -/
private def finds (g : Grammar) (kernels : List Item) : Finset (Nat × Option Nat) :=
  Finset.range g.vocabulary.nonterminals.length ×ˢ Finset.insertNone
    (Finset.range g.vocabulary.terminals.length ∪
      ((kernels.flatMap (·.lookaheads.toList)).map (·.index)).toFinset)

/-- Whether it has been found. -/
private def Found (e : Expansion) : Nat × Option Nat → Prop
  | (n, none) => ⟨n⟩ ∈ e.pendings.map (·.symbol)
  | (n, some t) => Expects e.pendings ⟨n⟩ ⟨t⟩

private theorem card_finds_le (g : Grammar) (kernels : List Item) :
    (finds g kernels).card ≤ g.vocabulary.nonterminals.length *
      (g.vocabulary.terminals.length + (kernels.flatMap (·.lookaheads.toList)).length + 1) := by
  rw [finds, Finset.card_product, Finset.card_range, Finset.card_insertNone]
  apply Nat.mul_le_mul_left
  apply Nat.add_le_add_right
  calc (Finset.range g.vocabulary.terminals.length ∪
        ((kernels.flatMap (·.lookaheads.toList)).map (·.index)).toFinset).card
      ≤ (Finset.range g.vocabulary.terminals.length).card +
          ((kernels.flatMap (·.lookaheads.toList)).map (·.index)).toFinset.card :=
        Finset.card_union_le _ _
    _ ≤ g.vocabulary.terminals.length + (kernels.flatMap (·.lookaheads.toList)).length := by
        have hseeds := List.toFinset_card_le
          ((kernels.flatMap (·.lookaheads.toList)).map (·.index))
        rw [List.length_map] at hseeds
        rw [Finset.card_range]
        exact Nat.add_le_add_left hseeds _

theorem declares_of_next? (hg : g.WellFormed) {d : DottedRule} (hd : d.rule ∈ g.allRules)
    {x : Symbol} (hx : d.next? = some x) : g.vocabulary.Declares x :=
  hg.declares_of_mem_body hd (List.mem_of_getElem? hx)

theorem declares_of_awaited (hg : g.WellFormed) {cores : List DottedRule}
    (hcores : ∀ d ∈ cores, d.rule ∈ g.allRules) {n : Nonterminal} (h : Awaited g cores n) :
    g.vocabulary.Declares (.nonterminal n) := by
  cases h with
  | kernel hd hn => exact declares_of_next? hg (hcores _ hd) hn
  | rule _ hr hbody =>
      exact hg.declares_of_mem_body (g.mem_productionsOf.1 hr).1 (hbody ▸ List.mem_cons_self)

/-- What is foreseen is declared, or a lookahead of the kernel. -/
theorem declares_of_foreseen (hg : g.WellFormed) (hsets : sets.Declared g)
    (hkernels : ∀ k ∈ kernels, k.core.rule ∈ g.allRules) {n : Nonterminal} {t : Terminal}
    (h : Foreseen g sets kernels n t) :
    g.vocabulary.Declares (.terminal t) ∨ ∃ k ∈ kernels, t ∈ k.lookaheads := by
  induction h with
  | @kernel k n t hk hn ht =>
      cases hbeyond : k.core.beyond? with
      | none =>
          rw [hbeyond] at ht
          exact .inr ⟨k, hk, ht⟩
      | some x =>
          rw [hbeyond] at ht
          have hx := hg.declares_of_mem_body (hkernels k hk) (List.mem_of_getElem? hbeyond)
          exact .inl (hsets.firstOf hx ht)
  | @beyond m n r x rest t _ hr hbody ht =>
      have hx : x ∈ r.body := by
        rw [hbody]
        exact List.mem_cons_of_mem _ List.mem_cons_self
      exact .inl (hsets.firstOf (hg.declares_of_mem_body (g.mem_productionsOf.1 hr).1 hx) ht)
  | last _ _ _ ih => exact ih

private theorem Sound.mem_finds (hg : g.WellFormed) (hsets : sets.Declared g)
    (hkernels : ∀ k ∈ kernels, k.core.rule ∈ g.allRules) {e : Expansion}
    (he : e.Sound g sets kernels) : ∀ {p : Nat × Option Nat}, Found e p → p ∈ finds g kernels := by
  have hcores : ∀ d ∈ kernels.map (·.core), d.rule ∈ g.allRules := by
    intro d hd
    obtain ⟨k, hk, rfl⟩ := List.mem_map.1 hd
    exact hkernels k hk
  rintro ⟨n, _ | t⟩ h
  · have hn := declares_of_awaited hg hcores (he.awaited _ h)
    exact Finset.mem_product.2 ⟨Finset.mem_range.2 hn.2, Finset.none_mem_insertNone⟩
  · have hn := declares_of_awaited hg hcores (he.awaited _ (Pending.mem_symbol_of_expects h))
    refine Finset.mem_product.2 ⟨Finset.mem_range.2 hn.2, Finset.some_mem_insertNone.2 ?_⟩
    rcases declares_of_foreseen hg hsets hkernels (he.foreseen _ _ h) with ht | ⟨k, hk, ht⟩
    · exact Finset.mem_union_left _ (Finset.mem_range.2 ht)
    · apply Finset.mem_union_right
      apply List.mem_toFinset.2
      exact List.mem_map_of_mem (f := Terminal.index) (List.mem_flatMap.2 ⟨k, hk, ht⟩)

private theorem Grows.found {e e' : Expansion} (h : e.Grows e') (g : Grammar)
    (kernels : List Item) :
    ∀ p ∈ finds g kernels, Found e p → Found e' p := by
  rintro ⟨n, _ | t⟩ -
  · exact h.symbols _
  · exact h.expects _ _

/-- The values that wait, and what may still be found. -/
private noncomputable def work (g : Grammar) (kernels : List Item) (e : Expansion) : Nat :=
  e.queue.toList.length + missing (finds g kernels) (Found e)

/-- Who enters the queue brings something new along. -/
private theorem work_fromRule_le (hg : g.WellFormed) (hsets : sets.Declared g)
    (hkernels : ∀ k ∈ kernels, k.core.rule ∈ g.allRules) {e : Expansion}
    (he : e.Sound g sets kernels) {r : Rule} (hr : r ∈ g.productionsOf r.head)
    (hhead : r.head ∈ e.pendings.map (·.symbol)) :
    work g kernels (fromRule sets e r) ≤ work g kernels e := by
  have he' := he.fromRule hr hhead
  have hgrows := grows_fromRule sets e r
  rcases fromRule_cases sets e r with ⟨h, -⟩ | ⟨n, rest, hbody, hknows, h⟩
  · rw [h]
  · -- The head of the queue is not known yet, or one of its lookaheads is not.
    have hnew : ∃ p, Found (fromRule sets e r) p ∧ ¬ Found e p := by
      have hnot := mt (knows_iff he.nodup).2 (Bool.eq_false_iff.1 hknows)
      by_cases hmem : n ∈ e.pendings.map (·.symbol)
      · obtain ⟨t, ht, hold⟩ : ∃ t ∈ following sets rest.head? (e.lookaheads r.head),
            ¬ Expects e.pendings n t := by
          by_contra hall
          exact hnot ⟨hmem, fun t ht => by_contra fun hold => hall ⟨t, ht, hold⟩⟩
        exact ⟨(n.index, some t.index), h ▸ expects_await.2 (.inr ⟨rfl, ht⟩), hold⟩
      · exact ⟨(n.index, none), h ▸ mem_symbol_await.2 (.inr rfl), hmem⟩
    obtain ⟨p, hp, hold⟩ := hnew
    have hlt := missing_lt (hgrows.found g kernels)
      (he'.mem_finds hg hsets hkernels hp) hp hold
    have hlength : (fromRule sets e r).queue.toList.length ≤ e.queue.toList.length + 1 := by
      rw [h]
      exact Queue.length_enqueue_le
    unfold work
    omega

private theorem work_foldl_fromRule_le (hg : g.WellFormed) (hsets : sets.Declared g)
    (hkernels : ∀ k ∈ kernels, k.core.rule ∈ g.allRules) {rules : List Rule} {e : Expansion}
    (he : e.Sound g sets kernels)
    (hrules : ∀ r ∈ rules, r ∈ g.productionsOf r.head ∧ r.head ∈ e.pendings.map (·.symbol)) :
    work g kernels (rules.foldl (fromRule sets) e) ≤ work g kernels e := by
  induction rules generalizing e with
  | nil => exact Nat.le_refl _
  | cons r rules ih =>
      obtain ⟨⟨hr, hhead⟩, hrules⟩ := List.forall_mem_cons.1 hrules
      calc work g kernels (rules.foldl (fromRule sets) (fromRule sets e r))
          ≤ work g kernels (fromRule sets e r) :=
            ih (he.fromRule hr hhead) (heads_fromRule sets r hrules)
        _ ≤ work g kernels e := work_fromRule_le hg hsets hkernels he hr hhead

/-- A step takes a nonterminal from the queue, and what its productions put there is paid for. -/
private theorem work_next_lt (hg : g.WellFormed) (hsets : sets.Declared g)
    (hkernels : ∀ k ∈ kernels, k.core.rule ∈ g.allRules) {e : Expansion}
    (he : e.Sound g sets kernels) (hdone : e.isDone = false) :
    work g kernels (e.next g sets) < work g kernels e := by
  cases hpop : e.queue.pop with
  | none => exact absurd (Queue.isEmpty_of_pop hpop) (Bool.eq_false_iff.1 hdone)
  | some popped =>
      obtain ⟨n, queue⟩ := popped
      have hqueue := congrArg List.length (Queue.toList_of_pop hpop)
      rw [List.length_cons] at hqueue
      calc work g kernels (e.next g sets)
          = work g kernels ((g.productionsOf n).foldl (fromRule sets) ⟨e.pendings, queue⟩) := by
            rw [next_of_pop hpop]
        _ ≤ work g kernels ⟨e.pendings, queue⟩ :=
            work_foldl_fromRule_le hg hsets hkernels (he.pop hpop) (he.rules_of_pop hpop)
        _ = queue.toList.length + missing (finds g kernels) (Found e) := rfl
        _ < work g kernels e := by
            unfold work
            omega

private theorem work_start_le (g : Grammar) (sets : FirstFollow) (kernels : List Item) :
    work g kernels (start sets kernels) ≤ bound g kernels := by
  have hlength := (start_spec g sets kernels).2.2
  have hcard := card_finds_le g kernels
  have hmissing := missing_le_card (finds g kernels) (Found (start sets kernels))
  unfold work bound
  -- The queue has a value for each item at most, so that what is left is arithmetic.
  generalize g.vocabulary.nonterminals.length = N at *
  generalize g.vocabulary.terminals.length +
    (kernels.flatMap (·.lookaheads.toList)).length = L at *
  have hexpand : (N + kernels.length + 1) * (L + 2) =
      N * (L + 1) + (kernels.length + 1) * (L + 2) + N := by ring
  have hkernel : kernels.length + 1 ≤ (kernels.length + 1) * (L + 2) :=
    Nat.le_mul_of_pos_right _ (by omega)
  omega

/-- In the end nothing waits. -/
theorem isDone_ofKernels (hg : g.WellFormed) (hsets : sets.Declared g)
    (hkernels : ∀ k ∈ kernels, k.core.rule ∈ g.allRules) :
    (ofKernels g sets kernels).isDone = true :=
  done_runUntil (P := Sound g sets kernels) (work g kernels) (fun _ he _ => he.next)
    (fun _ he hdone => work_next_lt hg hsets hkernels he hdone)
    (start_spec g sets kernels).1 (work_start_le g sets kernels)

private theorem ofKernels_spec : (ofKernels g sets kernels).Sound g sets kernels ∧
    (ofKernels g sets kernels).Complete g sets kernels := by
  obtain ⟨hsound, hcomplete, -⟩ := start_spec g sets kernels
  exact runUntil_invariant (P := fun e => Sound g sets kernels e ∧ Complete g sets kernels e)
    (fun e he _ => ⟨he.1.next, he.2.next he.1⟩) _ ⟨hsound, hcomplete⟩

theorem nodup_ofKernels : ((ofKernels g sets kernels).pendings.map (·.symbol)).Nodup :=
  ofKernels_spec.1.nodup

variable (hg : g.WellFormed) (hsets : sets.Declared g)
  (hkernels : ∀ k ∈ kernels, k.core.rule ∈ g.allRules)

include hg hsets hkernels

/-- In the end every production of a pending nonterminal is served. -/
private theorem served_ofKernels {n : Nonterminal}
    (hn : n ∈ (ofKernels g sets kernels).pendings.map (·.symbol)) {r : Rule}
    (hr : r ∈ g.productionsOf n) : Served sets (ofKernels g sets kernels) r := by
  have hempty := Queue.isEmpty_iff.1 (isDone_ofKernels hg hsets hkernels)
  exact ofKernels_spec.2.served n hn (by simp [hempty]) r hr

/-- What is pending in the end is what is awaited. -/
theorem mem_symbol_ofKernels {n : Nonterminal} :
    n ∈ (ofKernels g sets kernels).pendings.map (·.symbol) ↔
      Awaited g (kernels.map (·.core)) n := by
  constructor
  · exact ofKernels_spec.1.awaited n
  · intro h
    induction h with
    | kernel hd hn =>
        obtain ⟨k, hk, rfl⟩ := List.mem_map.1 hd
        exact (ofKernels_spec.2.kernel k hk _ hn).1
    | rule _ hr hbody ih => exact (served_ofKernels hg hsets hkernels ih hr _ _ hbody).1

/-- The lookaheads in the end are those that are foreseen. -/
theorem expects_ofKernels {n : Nonterminal} {t : Terminal} :
    Expects (ofKernels g sets kernels).pendings n t ↔ Foreseen g sets kernels n t := by
  constructor
  · exact ofKernels_spec.1.foreseen n t
  · intro h
    induction h with
    | kernel hk hn ht => exact (ofKernels_spec.2.kernel _ hk _ hn).2 _ ht
    | beyond hm hr hbody ht =>
        have hpending := (mem_symbol_ofKernels hg hsets hkernels).2 hm
        exact (served_ofKernels hg hsets hkernels hpending hr _ _ hbody).2 _ ht
    | last hm hr hbody ih =>
        have hpending := Pending.mem_symbol_of_expects ih
        apply (served_ofKernels hg hsets hkernels hpending hr _ _ hbody).2
        obtain ⟨-, rfl⟩ := g.mem_productionsOf.1 hr
        exact (mem_lookaheads nodup_ofKernels).2 ih

end Expansion

/-! ## Kernels that are refused -/

namespace ItemSet

variable {g : Grammar} {sets : FirstFollow} {kernels kernels' : List Item} {s : ItemSet}

theorem close_eq_ok_iff : close g sets kernels = .ok s ↔
    clash? kernels = none ∧ s = ofKernels g sets kernels := by
  unfold close
  split
  · rename_i hclash
    simp [hclash]
  · rename_i hclash
    simp [hclash, eq_comm]

/-- Whether a kernel is refused depends on its cores only. -/
theorem clash?_congr (hcores : kernels'.map (·.core) = kernels.map (·.core)) :
    clash? kernels' = clash? kernels := by
  have hrules : kernels'.map (·.core.rule) = kernels.map (·.core.rule) := by
    simpa [Function.comp_def] using congrArg (List.map DottedRule.rule) hcores
  rw [clash?, clash?, hrules]

end ItemSet

end ShiftReduce
