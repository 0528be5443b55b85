import ShiftReduce.Proofs.ItemSet.Discovery
import ShiftReduce.Proofs.ItemSet.Goto

/-!
# Merging before and after the expansion

Two kernels with the same cores can be merged, item by item, and expanded, or they can be expanded
on their own and the results be merged.  Both ways lead to the same (`close_merge`): to the same
pending nonterminals in the same order, and to the same lookaheads, in the item set as well as in
the kernels that are reached from it.  This is why a finished item set may be brought up to date
from its kernel when the kernel has taken in further lookaheads.

## Strategy

What is said of the lists is always the same: the cores of all three are the same, and each core of
the merged list has the lookaheads that it has in one of the two (`Item.Unites`).  It is true of the
kernels, it goes from kernels to what is foreseen (`foreseen_iff_of_unites`), from there to all
items, and from the items to the kernels that are reached over a symbol (`Item.Unites.across`).  The
growth of the three expansions does not come in, since the order of the pending nonterminals and
what they expect in the end are known without it.
-/

namespace ShiftReduce

namespace Item

/-- Two lists of items, item by item, with the lookaheads of both. -/
def merge (items items' : List Item) : List Item :=
  items.zipWith (fun k k' => k.expect k'.lookaheads) items'

/-- A list of items has the same cores as two others, and the lookaheads of both. -/
structure Unites (merged items items' : List Item) : Prop where
  left : merged.map (·.core) = items.map (·.core)
  right : merged.map (·.core) = items'.map (·.core)
  lookaheads : ∀ d t, Expects merged d t ↔ Expects items d t ∨ Expects items' d t

variable {merged items items' : List Item}

theorem unites_merge (hcores : items'.map (·.core) = items.map (·.core)) :
    Unites (merge items items') items items' := by
  induction items generalizing items' with
  | nil =>
      obtain rfl : items' = [] := by simpa using hcores
      exact ⟨rfl, rfl, fun d t => (or_self _).to_iff.symm⟩
  | cons k rest ih =>
      obtain ⟨k', rest', rfl, hcore, hrest⟩ := List.map_eq_cons_iff.1 hcores
      obtain ⟨hleft, hright, hlookaheads⟩ := ih hrest
      have hmerge : merge (k :: rest) (k' :: rest') = k.expect k'.lookaheads :: merge rest rest' :=
        rfl
      refine ⟨?_, ?_, fun d t => ?_⟩
      · rw [hmerge, List.map_cons, List.map_cons, hleft, expect]
      · rw [hmerge, List.map_cons, List.map_cons, hright, expect, hcore]
      · rw [hmerge, expects_cons, expects_cons, expects_cons, hlookaheads, hcore, expect,
          OrderedSet.mem_union]
        tauto

/-- The kernels that are reached over a symbol unite as their items do. -/
theorem Unites.across (h : Unites merged items items') (x : Symbol) :
    Unites (across x merged) (across x items) (across x items') where
  left := by rw [map_core_across, map_core_across, h.left]
  right := by rw [map_core_across, map_core_across, h.right]
  lookaheads d t := by
    simp only [expects_across, h.lookaheads, or_and_right, exists_or]

/-! ## Taking in the items of another list -/

theorem foldl_inform_cons {k : Item} {seed : List Item} (hk : k.core ∉ seed.map (·.core))
    (items : List Item) : seed.foldl inform (k :: items) = k :: seed.foldl inform items := by
  induction seed generalizing items with
  | nil => rfl
  | cons new seed ih =>
      rw [List.map_cons, List.mem_cons, not_or] at hk
      rw [List.foldl_cons, List.foldl_cons, inform, if_neg hk.1, ih hk.2]

/-- Items that take in those of the same cores one after another are merged with them. -/
theorem foldl_inform_eq_merge (hcores : items'.map (·.core) = items.map (·.core))
    (hnodup : (items.map (·.core)).Nodup) : items'.foldl inform items = merge items items' := by
  induction items generalizing items' with
  | nil =>
      obtain rfl : items' = [] := by simpa using hcores
      rfl
  | cons k rest ih =>
      obtain ⟨k', rest', rfl, hcore, hrest⟩ := List.map_eq_cons_iff.1 hcores
      rw [List.map_cons, List.nodup_cons] at hnodup
      have hk : (k.expect k'.lookaheads).core ∉ rest'.map (·.core) := hrest ▸ hnodup.1
      rw [List.foldl_cons, inform, if_pos hcore.symm, foldl_inform_cons hk, ih hrest hnodup.2]
      rfl

/-- The order in which items of different cores are taken in does not matter. -/
theorem inform_comm {new new' : Item} (hne : new.core ≠ new'.core) (items : List Item) :
    inform (inform items new) new' = inform (inform items new') new := by
  induction items with
  | nil => rfl
  | cons k rest ih =>
      by_cases hk : k.core = new.core
      · simp [inform, hk, expect, hne]
      · by_cases hk' : k.core = new'.core
        · simp [inform, hk', expect, hne.symm]
        · simp [inform, hk, hk', ih]

theorem foldl_inform_perm {seed seed' : List Item} (hperm : seed.Perm seed')
    (hnodup : (seed.map (·.core)).Nodup) (items : List Item) :
    seed.foldl inform items = seed'.foldl inform items := by
  apply hperm.foldl_eq'
  intro new hnew new' hnew' items
  by_cases hcore : new.core = new'.core
  · rw [List.inj_on_of_nodup_map hnodup hnew hnew' hcore]
  · exact inform_comm hcore items

end Item

/-! ## What follows from a merged kernel -/

section Foreseen

variable {g : Grammar} {sets : FirstFollow} {merged kernels kernels' : List Item}

/-- What follows from a merged kernel follows from one of the two. -/
theorem foreseen_iff_of_unites (h : Item.Unites merged kernels kernels') {n : Nonterminal}
    {t : Terminal} : Foreseen g sets merged n t ↔
      Foreseen g sets kernels n t ∨ Foreseen g sets kernels' n t := by
  constructor
  · intro ht
    induction ht with
    | @kernel k n t hk hn ht =>
        cases hbeyond : k.core.beyond? with
        | none =>
            rw [hbeyond] at ht
            refine ((h.lookaheads k.core t).1 ⟨k, hk, rfl, ht⟩).imp ?_ ?_
            all_goals
              rintro ⟨k', hk', hcore, ht'⟩
              refine .kernel hk' (hcore ▸ hn) ?_
              rw [hcore, hbeyond]
              exact ht'
        | some x =>
            -- FIRST of the symbol behind it is the same in all three lists.
            obtain ⟨k', hk', hcore⟩ : ∃ k' ∈ kernels, k'.core = k.core :=
              List.mem_map.1 (h.left ▸ List.mem_map_of_mem (f := (·.core)) hk)
            refine .inl (.kernel hk' (hcore ▸ hn) ?_)
            rw [hbeyond] at ht
            rw [hcore, hbeyond]
            exact ht
    | beyond hm hr hbody ht => exact .inl (.beyond (h.left ▸ hm) hr hbody ht)
    | last _ hr hbody ih => exact ih.imp (.last · hr hbody) (.last · hr hbody)
  · rintro (ht | ht)
    · exact ht.mono h.left fun d t hd => (h.lookaheads d t).2 (.inl hd)
    · exact ht.mono h.right fun d t hd => (h.lookaheads d t).2 (.inr hd)

end Foreseen

namespace ItemSet

/-- An item set has the pending nonterminals of two others in the same order, with the lookaheads of
both, and over each symbol it reaches the same cores in the same order, again with the lookaheads of
both. -/
structure Unites (g : Grammar) (m s s' : ItemSet) : Prop where
  nodup : (m.pendings.map (·.symbol)).Nodup
  left : m.pendings.map (·.symbol) = s.pendings.map (·.symbol)
  right : m.pendings.map (·.symbol) = s'.pendings.map (·.symbol)
  lookaheads : ∀ n t, Pending.Expects m.pendings n t ↔
    Pending.Expects s.pendings n t ∨ Pending.Expects s'.pendings n t
  nodup_advance : ∀ x, ((m.advance g x).map (·.core)).Nodup
  advance : ∀ x, Item.Unites (m.advance g x) (s.advance g x) (s'.advance g x)

variable {g : Grammar} {merged kernels kernels' : List Item} {m s s' : ItemSet}

/-- The items unite if the kernels and the pending nonterminals do. -/
theorem unites_items (hkernels : Item.Unites m.kernels s.kernels s'.kernels)
    (hleft : m.pendings.map (·.symbol) = s.pendings.map (·.symbol))
    (hright : m.pendings.map (·.symbol) = s'.pendings.map (·.symbol))
    (hlookaheads : ∀ n t, Pending.Expects m.pendings n t ↔
      Pending.Expects s.pendings n t ∨ Pending.Expects s'.pendings n t) :
    Item.Unites (m.items g) (s.items g) (s'.items g) where
  left := by rw [map_core_items, map_core_items, hkernels.left, hleft]
  right := by rw [map_core_items, map_core_items, hkernels.right, hright]
  lookaheads d t := by
    rw [expects_items, expects_items, expects_items, hkernels.lookaheads, hlookaheads]
    tauto

/-- The item sets of kernels unite as the kernels do. -/
theorem unites_ofKernels (hg : g.WellFormed) {sets : FirstFollow} (hsets : sets.Declared g)
    (hmerged : ∀ k ∈ merged, k.core.rule ∈ g.allRules)
    (h : Item.Unites merged kernels kernels') :
    Unites g (ofKernels g sets merged) (ofKernels g sets kernels) (ofKernels g sets kernels') := by
  have hkernels := Item.mem_allRules_of_cores h.left.symm hmerged
  have hkernels' := Item.mem_allRules_of_cores h.right.symm hmerged
  have hleft := Expansion.symbols_ofKernels_congr hg hsets hkernels h.left
  have hright := Expansion.symbols_ofKernels_congr hg hsets hkernels' h.right
  have hlookaheads : ∀ n t, Pending.Expects (Expansion.ofKernels g sets merged).pendings n t ↔
      Pending.Expects (Expansion.ofKernels g sets kernels).pendings n t ∨
        Pending.Expects (Expansion.ofKernels g sets kernels').pendings n t := by
    intro n t
    rw [Expansion.expects_ofKernels hg hsets hmerged, Expansion.expects_ofKernels hg hsets hkernels,
      Expansion.expects_ofKernels hg hsets hkernels']
    exact foreseen_iff_of_unites h
  exact
    { nodup := Expansion.nodup_ofKernels
      left := hleft
      right := hright
      lookaheads := hlookaheads
      nodup_advance := fun x => Item.nodup_across x _
      advance := fun x => (unites_items h hleft hright hlookaheads).across x }

/-- Kernels with the same cores may be merged before or after they are closed.  If one of them is
closed, then so are the other and the merged kernel, whose item set unites the two.  If the cores
are distinct, then the item set of the one kernel, brought up to date after it has taken in the
items of the other in any order, is the item set of the merged kernel. -/
theorem close_merge {declarations : List Declaration} (hg : Grammar.define declarations = .ok g)
    (hkernels : ∀ k ∈ kernels, k.core.rule ∈ g.allRules)
    (hcores : kernels'.map (·.core) = kernels.map (·.core))
    (hclose : close g g.firstFollow kernels = .ok s) :
    ∃ s' m, close g g.firstFollow kernels' = .ok s' ∧
      close g g.firstFollow (Item.merge kernels kernels') = .ok m ∧ Unites g m s s' ∧
      ((kernels.map (·.core)).Nodup → ∀ seed : List Item, seed.Perm kernels' →
        (s.inform seed).refresh g g.firstFollow = m) := by
  have hg := Grammar.wellFormed_of_define hg
  have hunites := Item.unites_merge hcores
  obtain ⟨hclash, rfl⟩ := close_eq_ok_iff.1 hclose
  have hmerged := Item.mem_allRules_of_cores hunites.left hkernels
  refine ⟨_, _, close_eq_ok_iff.2 ⟨(clash?_congr hcores).trans hclash, rfl⟩,
    close_eq_ok_iff.2 ⟨(clash?_congr hunites.left).trans hclash, rfl⟩,
    unites_ofKernels hg hg.declared_firstFollow hmerged hunites, ?_⟩
  intro hnodup seed hperm
  have hseed : (seed.map (·.core)).Nodup := by
    rw [(hperm.map (·.core)).nodup_iff, hcores]
    exact hnodup
  have hinform : seed.foldl Item.inform kernels = Item.merge kernels kernels' :=
    (Item.foldl_inform_perm hperm hseed kernels).trans (Item.foldl_inform_eq_merge hcores hnodup)
  exact congrArg (ofKernels g g.firstFollow) hinform

/-- `S := A | B`, `A := B`, `B := A | x`. -/
def crossing : List Declaration :=
  [.sentinel .blank "Blank", .sentinel .endMarker "$", .terminal "x", .terminal "u",
    .terminal "v", .nonterminal "S", .nonterminal "A", .nonterminal "B", .start ⟨1⟩,
    .rule (.nonterminal ⟨1⟩) [.nonterminal ⟨2⟩], .rule (.nonterminal ⟨1⟩) [.nonterminal ⟨3⟩],
    .rule (.nonterminal ⟨2⟩) [.nonterminal ⟨3⟩], .rule (.nonterminal ⟨3⟩) [.nonterminal ⟨2⟩],
    .rule (.nonterminal ⟨3⟩) [.terminal ⟨2⟩]]

/-- The productions of `S` with the marker at the start, and with these lookaheads. -/
def crossingKernel (forA forB : OrderedSet Terminal) : List Item :=
  [⟨⟨⟨2, ⟨1⟩, [.nonterminal ⟨2⟩], false⟩, 0⟩, forA⟩,
    ⟨⟨⟨3, ⟨1⟩, [.nonterminal ⟨3⟩], false⟩, 0⟩, forB⟩]

/-- Of the two kernels the first hands `u` on from `A` to `B`, while in the second `A` has to be
looked at again for the `v` of `B`.  Over `A` the merged kernel leads on with `u` from the first
item and with both from what is pending. -/
theorem close_merge_crossing : ∃ g s s' m, Grammar.define crossing = .ok g ∧
    (∀ k ∈ crossingKernel (.single ⟨3⟩) ∅, k.core.rule ∈ g.allRules) ∧
    (crossingKernel ∅ (.single ⟨4⟩)).map (·.core) =
      (crossingKernel (.single ⟨3⟩) ∅).map (·.core) ∧
    close g g.firstFollow (crossingKernel (.single ⟨3⟩) ∅) = .ok s ∧
    close g g.firstFollow (crossingKernel ∅ (.single ⟨4⟩)) = .ok s' ∧
    close g g.firstFollow (Item.merge (crossingKernel (.single ⟨3⟩) ∅)
      (crossingKernel ∅ (.single ⟨4⟩))) = .ok m ∧
    Unites g m s s' ∧
    (s.inform (crossingKernel ∅ (.single ⟨4⟩)).reverse).refresh g g.firstFollow = m ∧
    m.pendings.map (fun p => (p.symbol, p.lookaheads.toList)) =
      [(⟨2⟩, [⟨3⟩, ⟨4⟩]), (⟨3⟩, [⟨4⟩, ⟨3⟩])] ∧
    (m.advance g (.nonterminal ⟨2⟩)).map (fun k => (k.core, k.lookaheads.toList)) =
      [(⟨⟨2, ⟨1⟩, [.nonterminal ⟨2⟩], false⟩, 1⟩, [⟨3⟩]),
        (⟨⟨5, ⟨3⟩, [.nonterminal ⟨2⟩], false⟩, 1⟩, [⟨4⟩, ⟨3⟩])] := by
  have hpasses : Grammar.passes crossing (fun g =>
      let merged := ofKernels g g.firstFollow
        (Item.merge (crossingKernel (.single ⟨3⟩) ∅) (crossingKernel ∅ (.single ⟨4⟩)))
      (∀ k ∈ crossingKernel (.single ⟨3⟩) ∅, k.core.rule ∈ g.allRules) ∧
      merged.pendings.map (fun p => (p.symbol, p.lookaheads.toList)) =
        [(⟨2⟩, [⟨3⟩, ⟨4⟩]), (⟨3⟩, [⟨4⟩, ⟨3⟩])] ∧
      (merged.advance g (.nonterminal ⟨2⟩)).map (fun k => (k.core, k.lookaheads.toList)) =
        [(⟨⟨2, ⟨1⟩, [.nonterminal ⟨2⟩], false⟩, 1⟩, [⟨3⟩]),
          (⟨⟨5, ⟨3⟩, [.nonterminal ⟨2⟩], false⟩, 1⟩, [⟨4⟩, ⟨3⟩])]) = true := by decide +kernel
  obtain ⟨g, hg, hcheck⟩ := Grammar.exists_of_passes hpasses
  obtain ⟨hkernels, hvalues⟩ := of_decide_eq_true hcheck
  have hclose : close g g.firstFollow (crossingKernel (.single ⟨3⟩) ∅) = .ok _ := rfl
  have hcores : (crossingKernel ∅ (.single ⟨4⟩)).map (·.core) =
      (crossingKernel (.single ⟨3⟩) ∅).map (·.core) := rfl
  obtain ⟨s', m, hclose', hmerge, hunites, hrefresh⟩ := close_merge hg hkernels hcores hclose
  have hm := (close_eq_ok_iff.1 hmerge).2
  exact ⟨g, _, s', m, hg, hkernels, hcores, hclose, hclose', hmerge, hunites,
    hrefresh (by decide) _ (List.reverse_perm _), hm ▸ hvalues⟩

end ItemSet

end ShiftReduce
