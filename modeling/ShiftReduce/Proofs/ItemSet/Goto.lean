import Mathlib.Data.List.Sort
import ShiftReduce.Proofs.ItemSet.Closure

/-!
# Moving on and merging

What the operations on lists of items do to the two things that matter of such a list: the
cores in it, and the lookaheads of each core (`Item.Expects`).

* `mem_core_across`, `expects_across`: the kernel that is reached over a symbol.
* `map_core_inform`, `expects_inform`: a kernel that takes in lookaheads.
* `mem_core_items`, `expects_items`: the items of an item set.
* `Item.cores_eq_iff`: the ordered list of cores, by which states are looked up, stands for
  the set of the cores.
-/

namespace ShiftReduce

/-! ## Cores that bear the same number -/

namespace DottedRule

theorem advance_inj {d e : DottedRule} (h : d.advance = e.advance) : d = e := by
  obtain ⟨hrule, hmarker⟩ := DottedRule.mk.injEq .. ▸ h
  obtain ⟨rule, marker⟩ := d
  obtain ⟨rule', marker'⟩ := e
  simp only at hrule hmarker
  simp only [hrule, DottedRule.mk.injEq, true_and]
  omega

/-- A production may be reduced after all that it matches. -/
theorem isReducible_arity (r : Rule) : (⟨r, r.arity⟩ : DottedRule).isReducible = true := by
  unfold isReducible Rule.arity
  split <;> simp_all

/-- The symbol after the marker is the first of the rest of the body. -/
theorem next?_of_drop {r : Rule} {marker : Nat} {x : Symbol} {rest : List Symbol}
    (h : r.body.drop marker = x :: rest) :
    (⟨r, marker⟩ : DottedRule).next? = some x ∧ r.body.drop (marker + 1) = rest := by
  rw [next?, ← List.head?_drop, ← List.tail_drop, h]
  exact ⟨rfl, rfl⟩

/-- The body is what comes before the marker, the next symbol, and the rest. -/
theorem body_of_next? {d : DottedRule} {x : Symbol} (h : d.next? = some x) :
    d.rule.body = d.rule.body.take d.marker ++ x :: d.rule.body.drop (d.marker + 1) := by
  obtain ⟨hlt, hget⟩ := List.getElem?_eq_some_iff.1 h
  rw [← hget, List.getElem_cons_drop, List.take_append_drop]

/-- When the marker moves, the next symbol comes to stand before it. -/
theorem take_of_next? {d : DottedRule} {x : Symbol} (h : d.next? = some x) :
    d.rule.body.take (d.marker + 1) = d.rule.body.take d.marker ++ [x] := by
  rw [List.take_add_one]
  exact congrArg (d.rule.body.take d.marker ++ ·) (congrArg Option.toList h)

theorem body_of_beyond?_eq_some {r : Rule} {x y : Symbol}
    (hx : (⟨r, 0⟩ : DottedRule).next? = some x) (hy : (⟨r, 0⟩ : DottedRule).beyond? = some y) :
    ∃ rest, r.body = x :: y :: rest := by
  rcases h : r.body with _ | ⟨x', _ | ⟨y', rest⟩⟩
  · simp [next?, h] at hx
  · simp [beyond?, h] at hy
  · obtain rfl : x' = x := by simpa [next?, h] using hx
    obtain rfl : y' = y := by simpa [beyond?, h] using hy
    exact ⟨rest, rfl⟩

theorem body_of_beyond?_eq_none {r : Rule} {x : Symbol}
    (hx : (⟨r, 0⟩ : DottedRule).next? = some x) (hlast : (⟨r, 0⟩ : DottedRule).beyond? = none) :
    r.body = [x] := by
  rcases h : r.body with _ | ⟨x', _ | ⟨y', rest⟩⟩
  · simp [next?, h] at hx
  · obtain rfl : x' = x := by simpa [next?, h] using hx
    rfl
  · simp [beyond?, h] at hlast

/-- Among the items of a grammar the order tells any two cores apart. -/
theorem eq_of_order_eq {g : Grammar} (hg : g.WellFormed) {d e : DottedRule}
    (hd : d.rule ∈ g.allRules) (he : e.rule ∈ g.allRules) (h : d.order e = .eq) : d = e := by
  rw [order, Ordering.then_eq_eq, Std.LawfulEqCmp.compare_eq_iff_eq,
    Std.LawfulEqCmp.compare_eq_iff_eq] at h
  obtain ⟨rule, marker⟩ := d
  obtain ⟨rule', marker'⟩ := e
  obtain rfl := hg.eq_of_number_eq hd he h.1
  obtain rfl : marker = marker' := h.2
  rfl

end DottedRule

namespace Item

/-! ## Lookaheads of cores -/

/-- A terminal is a lookahead of a core in a list of items. -/
def Expects (items : List Item) (d : DottedRule) (t : Terminal) : Prop :=
  ∃ k ∈ items, k.core = d ∧ t ∈ k.lookaheads

theorem expects_nil {d : DottedRule} {t : Terminal} : ¬ Expects [] d t := by
  simp [Expects]

theorem expects_cons {k : Item} {rest : List Item} {d : DottedRule} {t : Terminal} :
    Expects (k :: rest) d t ↔ (k.core = d ∧ t ∈ k.lookaheads) ∨ Expects rest d t := by
  simp [Expects]

theorem expects_append {items rest : List Item} {d : DottedRule} {t : Terminal} :
    Expects (items ++ rest) d t ↔ Expects items d t ∨ Expects rest d t := by
  simp [Expects, or_and_right, exists_or]

theorem mem_core_of_expects {items : List Item} {d : DottedRule} {t : Terminal}
    (h : Expects items d t) : d ∈ items.map (·.core) := by
  obtain ⟨k, hk, rfl, -⟩ := h
  exact List.mem_map_of_mem hk

/-! ## Gathering -/

theorem mem_core_gather {items : List Item} {new : Item} {d : DottedRule} :
    d ∈ (gather items new).map (·.core) ↔ d ∈ items.map (·.core) ∨ d = new.core := by
  induction items with
  | nil => simp [gather]
  | cons k rest ih =>
      unfold gather
      split
      · rename_i h
        simp only [List.map_cons, List.mem_cons, expect, h]
        tauto
      · simp only [List.map_cons, List.mem_cons, ih, or_assoc]

theorem nodup_gather {items : List Item} {new : Item} (h : (items.map (·.core)).Nodup) :
    ((gather items new).map (·.core)).Nodup := by
  induction items with
  | nil => simp [gather]
  | cons k rest ih =>
      rw [List.map_cons, List.nodup_cons] at h
      unfold gather
      split
      · rw [List.map_cons, List.nodup_cons]
        exact h
      · rename_i hk
        rw [List.map_cons, List.nodup_cons, mem_core_gather]
        exact ⟨fun hmem => hmem.elim h.1 hk, ih h.2⟩

theorem expects_gather {items : List Item} {new : Item} {d : DottedRule} {t : Terminal} :
    Expects (gather items new) d t ↔
      Expects items d t ∨ (new.core = d ∧ t ∈ new.lookaheads) := by
  induction items with
  | nil => simp [gather, Expects]
  | cons k rest ih =>
      unfold gather
      split
      · rename_i h
        rw [expects_cons, expects_cons, expect, OrderedSet.mem_union, ← h]
        tauto
      · rw [expects_cons, expects_cons, ih, or_assoc]

theorem nodup_foldl_gather {items news : List Item} (h : (items.map (·.core)).Nodup) :
    ((news.foldl gather items).map (·.core)).Nodup := by
  induction news generalizing items with
  | nil => exact h
  | cons new news ih => exact ih (nodup_gather h)

/-- Gathering items one after another brings in their cores. -/
theorem mem_core_foldl_gather {items news : List Item} {d : DottedRule} :
    d ∈ (news.foldl gather items).map (·.core) ↔
      d ∈ items.map (·.core) ∨ d ∈ news.map (·.core) := by
  induction news generalizing items with
  | nil => simp
  | cons new news ih =>
      rw [List.foldl_cons, ih, mem_core_gather, List.map_cons, List.mem_cons, or_assoc]

/-- It also brings in their lookaheads. -/
theorem expects_foldl_gather {items news : List Item} {d : DottedRule} {t : Terminal} :
    Expects (news.foldl gather items) d t ↔ Expects items d t ∨ Expects news d t := by
  induction news generalizing items with
  | nil => simp [expects_nil]
  | cons new news ih =>
      rw [List.foldl_cons, ih, expects_gather, expects_cons, or_assoc]

/-- An item that is gathered comes last, unless its core is there already. -/
theorem map_core_gather (items : List Item) (new : Item) : (gather items new).map (·.core) =
    if new.core ∈ items.map (·.core) then items.map (·.core)
    else items.map (·.core) ++ [new.core] := by
  induction items with
  | nil => rfl
  | cons k rest ih =>
      unfold gather
      split
      · rename_i h
        simp [expect, h]
      · rename_i h
        rw [List.map_cons, ih, List.map_cons]
        have hne : new.core ≠ k.core := Ne.symm h
        by_cases hmem : new.core ∈ rest.map (·.core)
        · rw [if_pos hmem, if_pos (List.mem_cons_of_mem _ hmem)]
        · rw [if_neg hmem, if_neg (by simpa [hne] using hmem), List.cons_append]

/-- Gathering items is inserting their cores. -/
theorem map_core_foldl_gather {items : List Item} (found : OrderedSet DottedRule)
    (h : items.map (·.core) = found.toList) (news : List Item) :
    (news.foldl gather items).map (·.core) =
      ((news.map (·.core)).foldl .insert found).toList := by
  induction news generalizing items found with
  | nil => exact h
  | cons new news ih =>
      rw [List.foldl_cons, List.map_cons, List.foldl_cons]
      apply ih
      rw [map_core_gather, h]
      by_cases hmem : new.core ∈ found.toList
      · rw [if_pos hmem, OrderedSet.insert_of_mem (OrderedSet.mem_def.2 hmem)]
      · rw [if_neg hmem, OrderedSet.toList_insert_of_not_mem (mt OrderedSet.mem_def.1 hmem)]

/-! ## Moving over a symbol -/

/-- The cores that are reached over a symbol, in the order in which they are found. -/
theorem map_core_across (x : Symbol) (items : List Item) : (across x items).map (·.core) =
    (OrderedSet.ofList
      (((items.map (·.core)).filter (·.next? = some x)).map DottedRule.advance)).toList := by
  have hcores : ((items.filter (·.core.next? = some x)).map advance).map (·.core) =
      ((items.map (·.core)).filter (·.next? = some x)).map DottedRule.advance := by
    rw [List.filter_map, List.map_map, List.map_map]
    rfl
  rw [across, map_core_foldl_gather ∅ rfl, hcores]
  rfl

/-- The symbols that come next depend on the cores only. -/
theorem nextSymbols_congr {g : Grammar} {items items' : List Item}
    (h : items.map (·.core) = items'.map (·.core)) :
    nextSymbols g items = nextSymbols g items' := by
  have hnext := congrArg (List.filterMap DottedRule.next?) h
  rw [List.filterMap_map, List.filterMap_map] at hnext
  unfold nextSymbols
  exact congrArg (fun symbols : List Symbol =>
    (OrderedSet.ofList symbols).toList.filter (· ≠ .terminal g.blank)) hnext

theorem nodup_across (x : Symbol) (items : List Item) :
    ((across x items).map (·.core)).Nodup :=
  nodup_foldl_gather List.nodup_nil

/-- The cores that are reached over a symbol. -/
theorem mem_core_across {x : Symbol} {items : List Item} {d : DottedRule} :
    d ∈ (across x items).map (·.core) ↔
      ∃ e ∈ items.map (·.core), e.next? = some x ∧ e.advance = d := by
  rw [across, mem_core_foldl_gather]
  simp only [List.map_nil, List.not_mem_nil, false_or, List.map_map, List.mem_map,
    List.mem_filter, decide_eq_true_eq, Function.comp_apply, advance]
  constructor
  · rintro ⟨k, ⟨hk, hx⟩, rfl⟩
    exact ⟨k.core, ⟨k, hk, rfl⟩, hx, rfl⟩
  · rintro ⟨_, ⟨k, hk, rfl⟩, hx, rfl⟩
    exact ⟨k, ⟨hk, hx⟩, rfl⟩

/-- Their lookaheads are those of the cores that they come from. -/
theorem expects_across {x : Symbol} {items : List Item} {d : DottedRule} {t : Terminal} :
    Expects (across x items) d t ↔
      ∃ e, Expects items e t ∧ e.next? = some x ∧ e.advance = d := by
  rw [across, expects_foldl_gather, or_iff_right expects_nil]
  simp only [Expects, List.mem_map, List.mem_filter, decide_eq_true_eq]
  constructor
  · rintro ⟨_, ⟨k, ⟨hk, hx⟩, rfl⟩, rfl, ht⟩
    exact ⟨k.core, ⟨k, hk, rfl, ht⟩, hx, rfl⟩
  · rintro ⟨_, ⟨k, hk, rfl, ht⟩, hx, rfl⟩
    exact ⟨k.advance, ⟨k, ⟨hk, hx⟩, rfl⟩, rfl, ht⟩

/-- The symbols that come next, the blank apart. -/
theorem mem_nextSymbols {g : Grammar} {items : List Item} {x : Symbol} :
    x ∈ nextSymbols g items ↔
      (∃ d ∈ items.map (·.core), d.next? = some x) ∧ x ≠ .terminal g.blank := by
  rw [nextSymbols, List.mem_filter, ← OrderedSet.mem_def, OrderedSet.mem_ofList,
    List.mem_filterMap, decide_eq_true_eq]
  simp only [List.mem_map, exists_exists_and_eq_and]

theorem nodup_nextSymbols (g : Grammar) (items : List Item) : (nextSymbols g items).Nodup :=
  (OrderedSet.nodup _).filter _

/-! ## Taking in lookaheads -/

@[simp] theorem map_core_inform (items : List Item) (new : Item) :
    (inform items new).map (·.core) = items.map (·.core) := by
  induction items with
  | nil => rfl
  | cons k rest ih =>
      unfold inform
      split
      · rfl
      · rw [List.map_cons, List.map_cons, ih]

theorem expects_inform {items : List Item} {new : Item} {d : DottedRule} {t : Terminal} :
    Expects (inform items new) d t ↔ Expects items d t ∨
      (d ∈ items.map (·.core) ∧ new.core = d ∧ t ∈ new.lookaheads) := by
  induction items with
  | nil => simp [inform, Expects]
  | cons k rest ih =>
      unfold inform
      split
      · rename_i h
        rw [expects_cons, expects_cons, expect, OrderedSet.mem_union, List.map_cons, List.mem_cons,
          ← h]
        simp only
        constructor
        · rintro (⟨rfl, ht | ht⟩ | ht)
          exacts [.inl (.inl ⟨rfl, ht⟩), .inr ⟨.inl rfl, rfl, ht⟩, .inl (.inr ht)]
        · rintro ((⟨rfl, ht⟩ | ht) | ⟨-, rfl, ht⟩)
          exacts [.inl ⟨rfl, .inl ht⟩, .inr ht, .inl ⟨rfl, .inr ht⟩]
      · rename_i h
        rw [expects_cons, expects_cons, ih, List.map_cons, List.mem_cons]
        constructor
        · rintro (ht | ht | ⟨hd, hnew⟩)
          exacts [.inl (.inl ht), .inl (.inr ht), .inr ⟨.inr hd, hnew⟩]
        · rintro ((ht | ht) | ⟨rfl | hd, hnew⟩)
          exacts [.inl ht, .inr (.inl ht), absurd hnew.1.symm h, .inr (.inr ⟨hd, hnew⟩)]

@[simp] theorem map_core_foldl_inform (seed : List Item) (items : List Item) :
    (seed.foldl inform items).map (·.core) = items.map (·.core) := by
  induction seed generalizing items with
  | nil => rfl
  | cons new seed ih => rw [List.foldl_cons, ih, map_core_inform]

theorem expects_foldl_inform {seed items : List Item} {d : DottedRule} {t : Terminal} :
    Expects (seed.foldl inform items) d t ↔
      Expects items d t ∨ (d ∈ items.map (·.core) ∧ Expects seed d t) := by
  induction seed generalizing items with
  | nil => simp [expects_nil]
  | cons new seed ih =>
      rw [List.foldl_cons, ih, expects_inform, map_core_inform, expects_cons, or_assoc,
        ← and_or_left]

/-! ## Ordered lists of cores -/

private theorem mem_insertInto {g : Grammar} (hg : g.WellFormed) {d : DottedRule}
    (hd : d.rule ∈ g.allRules) {cores : List DottedRule} (hcores : ∀ e ∈ cores, e.rule ∈ g.allRules)
    {e : DottedRule} : e ∈ d.insertInto cores ↔ e = d ∨ e ∈ cores := by
  induction cores with
  | nil => simp [DottedRule.insertInto]
  | cons c rest ih =>
      have hrest : ∀ e ∈ rest, e.rule ∈ g.allRules :=
        fun e he => hcores e (List.mem_cons_of_mem c he)
      unfold DottedRule.insertInto
      split
      · rw [List.mem_cons]
      · rename_i heq
        obtain rfl := DottedRule.eq_of_order_eq hg hd (hcores c List.mem_cons_self) heq
        rw [List.mem_cons, ← or_assoc, or_self]
      · rw [List.mem_cons, ih hrest, List.mem_cons, or_left_comm]

private theorem pairwise_insertInto {d : DottedRule} {cores : List DottedRule}
    (hcores : cores.Pairwise fun c e => c.order e = .lt) :
    (d.insertInto cores).Pairwise (fun c e => c.order e = .lt) ∧
      ∀ c : DottedRule, c.order d = .lt → (∀ e ∈ cores, c.order e = .lt) →
        ∀ e ∈ d.insertInto cores, c.order e = .lt := by
  induction cores with
  | nil => simp [DottedRule.insertInto]
  | cons a rest ih =>
      obtain ⟨ha, hrest⟩ := List.pairwise_cons.1 hcores
      obtain ⟨ihpairwise, ihbelow⟩ := ih hrest
      unfold DottedRule.insertInto
      split
      · rename_i hlt
        refine ⟨List.pairwise_cons.2 ⟨fun e he => ?_, hcores⟩, fun c hcd hcall => ?_⟩
        · rcases List.mem_cons.1 he with rfl | he
          exacts [hlt, Std.TransCmp.lt_trans hlt (ha e he)]
        · exact List.forall_mem_cons.2 ⟨hcd, hcall⟩
      · exact ⟨hcores, fun c _ hcall => hcall⟩
      · rename_i hgt
        have hlt : a.order d = .lt := Std.OrientedCmp.lt_of_gt hgt
        refine ⟨List.pairwise_cons.2 ⟨ihbelow a hlt ha, ihpairwise⟩, fun c hcd hcall => ?_⟩
        obtain ⟨hca, hcrest⟩ := List.forall_mem_cons.1 hcall
        exact List.forall_mem_cons.2 ⟨hca, ihbelow c hcd hcrest⟩

theorem pairwise_cores (items : List Item) :
    (cores items).Pairwise fun c e => c.order e = .lt := by
  unfold cores
  induction items with
  | nil => exact List.Pairwise.nil
  | cons k items ih => exact (pairwise_insertInto ih).1

/-- The ordered list has the cores of the items. -/
theorem mem_cores {g : Grammar} (hg : g.WellFormed) {items : List Item}
    (hitems : ∀ k ∈ items, k.core.rule ∈ g.allRules) {d : DottedRule} :
    d ∈ cores items ↔ d ∈ items.map (·.core) := by
  induction items generalizing d with
  | nil => rfl
  | cons k items ih =>
      have hrest : ∀ k ∈ items, k.core.rule ∈ g.allRules :=
        fun k' hk' => hitems k' (List.mem_cons_of_mem k hk')
      have hcores : ∀ e ∈ cores items, e.rule ∈ g.allRules := by
        intro e he
        obtain ⟨k', hk', rfl⟩ := List.mem_map.1 ((ih hrest).1 he)
        exact hrest k' hk'
      show d ∈ k.core.insertInto (cores items) ↔ _
      rw [mem_insertInto hg (hitems k List.mem_cons_self) hcores, ih hrest, List.map_cons,
        List.mem_cons]

/-- Two lists of items have the same ordered list of cores if they have the same cores. -/
theorem cores_eq_iff {g : Grammar} (hg : g.WellFormed) {items items' : List Item}
    (hitems : ∀ k ∈ items, k.core.rule ∈ g.allRules)
    (hitems' : ∀ k ∈ items', k.core.rule ∈ g.allRules) :
    cores items = cores items' ↔
      ∀ d, d ∈ items.map (·.core) ↔ d ∈ items'.map (·.core) := by
  constructor
  · intro h d
    rw [← mem_cores hg hitems, ← mem_cores hg hitems', h]
  · intro h
    -- The lists are sorted, so they have no duplicates, and the same elements in one order.
    have hne : ∀ {c e : DottedRule}, c.order e = .lt → c ≠ e := by
      rintro c _ hlt rfl
      rw [@Std.ReflCmp.compare_self _ DottedRule.order] at hlt
      contradiction
    have hperm : (cores items).Perm (cores items') :=
      (List.perm_ext_iff_of_nodup ((pairwise_cores items).imp hne)
        ((pairwise_cores items').imp hne)).2 fun d => by
          rw [mem_cores hg hitems, mem_cores hg hitems', h]
    apply hperm.eq_of_pairwise _ (pairwise_cores items) (pairwise_cores items')
    intro c e _ _ hce hec
    rw [@Std.OrientedCmp.eq_swap _ DottedRule.order, hec] at hce
    contradiction

end Item

/-! ## What follows from more lookaheads -/

/-- What follows from a kernel follows from a kernel with more lookaheads. -/
theorem Foreseen.mono {g : Grammar} {sets : FirstFollow} {kernels kernels' : List Item}
    (hcores : kernels'.map (·.core) = kernels.map (·.core))
    (hexpects : ∀ d t, Item.Expects kernels d t → Item.Expects kernels' d t)
    {n : Nonterminal} {t : Terminal} (h : Foreseen g sets kernels n t) :
    Foreseen g sets kernels' n t := by
  induction h with
  | @kernel k n t hk hn ht =>
      obtain ⟨k', hk', hcore⟩ : ∃ k' ∈ kernels', k'.core = k.core :=
        List.mem_map.1 (hcores ▸ List.mem_map_of_mem (f := (·.core)) hk)
      cases hbeyond : k.core.beyond? with
      | none =>
          -- The lookahead is one of the item itself, so another item may have it now.
          rw [hbeyond] at ht
          obtain ⟨k', hk', hcore, ht'⟩ := hexpects _ t ⟨k, hk, rfl, ht⟩
          apply Foreseen.kernel hk' (hcore ▸ hn)
          rw [hcore, hbeyond]
          exact ht'
      | some x =>
          apply Foreseen.kernel hk' (hcore ▸ hn)
          rw [hbeyond] at ht
          rw [hcore, hbeyond]
          exact ht
  | beyond hm hr hbody ht => exact .beyond (hcores ▸ hm) hr hbody ht
  | last _ hr hbody ih => exact .last ih hr hbody

/-! ## The items of an item set -/

namespace ItemSet

variable {g : Grammar} {s : ItemSet}

/-- The cores of an item set in order. -/
theorem map_core_items (g : Grammar) (s : ItemSet) : (s.items g).map (·.core) =
    s.kernels.map (·.core) ++ (s.pendings.map (·.symbol)).flatMap fun n =>
      (g.productionsOf n).map fun r => ⟨r, 0⟩ := by
  rw [items, List.map_append, List.map_flatMap, List.flatMap_map]
  simp only [Pending.items, List.map_map, Function.comp_def]

/-- The cores of an item set: those of the kernel, and the productions of the pending
nonterminals with the marker at the start. -/
theorem mem_core_items {d : DottedRule} :
    d ∈ (s.items g).map (·.core) ↔ d ∈ s.kernels.map (·.core) ∨
      (d.marker = 0 ∧ d.rule ∈ g.allRules ∧ d.rule.head ∈ s.pendings.map (·.symbol)) := by
  rw [items, List.map_append, List.mem_append]
  refine or_congr_right ?_
  simp only [List.mem_map, List.mem_flatMap, Pending.items]
  constructor
  · rintro ⟨_, ⟨p, hp, r, hr, rfl⟩, rfl⟩
    obtain ⟨hmem, hhead⟩ := g.mem_productionsOf.1 hr
    exact ⟨rfl, hmem, p, hp, hhead.symm⟩
  · rintro ⟨hmarker, hmem, p, hp, hhead⟩
    obtain ⟨rule, marker⟩ := d
    obtain rfl : marker = 0 := hmarker
    exact ⟨_, ⟨p, hp, rule, g.mem_productionsOf.2 ⟨hmem, hhead.symm⟩, rfl⟩, rfl⟩

/-- Their lookaheads. -/
theorem expects_items {d : DottedRule} {t : Terminal} :
    Item.Expects (s.items g) d t ↔ Item.Expects s.kernels d t ∨
      (d.marker = 0 ∧ d.rule ∈ g.allRules ∧ Pending.Expects s.pendings d.rule.head t) := by
  rw [items, Item.expects_append]
  refine or_congr_right ?_
  simp only [Item.Expects, List.mem_map, List.mem_flatMap, Pending.items, Pending.Expects]
  constructor
  · rintro ⟨_, ⟨p, hp, r, hr, rfl⟩, rfl, ht⟩
    obtain ⟨hmem, hhead⟩ := g.mem_productionsOf.1 hr
    exact ⟨rfl, hmem, p, hp, hhead.symm, ht⟩
  · rintro ⟨hmarker, hmem, p, hp, hhead, ht⟩
    obtain ⟨rule, marker⟩ := d
    obtain rfl : marker = 0 := hmarker
    exact ⟨_, ⟨p, hp, rule, g.mem_productionsOf.2 ⟨hmem, hhead.symm⟩, rfl⟩, rfl, ht⟩

end ItemSet

end ShiftReduce
