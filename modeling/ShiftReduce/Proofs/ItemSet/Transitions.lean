import ShiftReduce.Proofs.ItemSet.Closure
import ShiftReduce.Proofs.ItemSet.Goto

/-!
# What an item set moves over

The transitions of an item set come from two passes over its items: one lists the symbols after the
markers (`ItemSet.nextSymbols`), the other gathers, for a given symbol, the kernel that is reached
over it (`ItemSet.advance`).  Both go through the kernel and then through the pending nonterminals,
each of which stands for several items.

What they should come to is said by `ItemSet.MovesOver`, which items have a symbol after the
marker.  The main statement is `ItemSet.gathers_of_close`: the symbols that are listed are those
that items move over, the blank apart, and the kernel that is reached over a symbol gathers these
items (`ItemSet.Gathers`), one item for each core.  The kernel from which the set was made may
have items more than once, or items that the pending nonterminals stand for as well.
-/

namespace ShiftReduce

namespace Item

variable {items : List Item} {x : Symbol}

/-- A kernel is reached over the symbols that come next, and over no others. -/
theorem across_ne_nil_iff :
    across x items ≠ [] ↔ ∃ d ∈ items.map (·.core), d.next? = some x := by
  constructor
  · intro h
    obtain ⟨k, hk⟩ := List.exists_mem_of_ne_nil _ h
    obtain ⟨d, hd, hx, -⟩ := mem_core_across.1 (List.mem_map_of_mem (f := (·.core)) hk)
    exact ⟨d, hd, hx⟩
  · rintro ⟨d, hd, hx⟩ hnil
    have hcore : d.advance ∈ (across x items).map (·.core) := mem_core_across.2 ⟨d, hd, hx, rfl⟩
    rw [hnil] at hcore
    exact List.not_mem_nil hcore

/-- If the cores are distinct, then an item has all the lookaheads of its core. -/
theorem expects_core_iff (hnodup : (items.map (·.core)).Nodup) {k : Item} (hk : k ∈ items)
    {t : Terminal} : Expects items k.core t ↔ t ∈ k.lookaheads := by
  constructor
  · rintro ⟨k', hk', hcore, ht⟩
    exact List.inj_on_of_nodup_map hnodup hk' hk hcore ▸ ht
  · intro ht
    exact ⟨k, hk, rfl, ht⟩

end Item

namespace ItemSet

/-- An item with the symbol after its marker: one of the kernel, or a production of a pending
nonterminal, with the lookaheads of the nonterminal. -/
inductive MovesOver (g : Grammar) (kernels : List Item) (pendings : List Pending) (x : Symbol) :
    Item → Prop
  | kernel {k : Item} : k ∈ kernels → k.core.next? = some x → MovesOver g kernels pendings x k
  | production {p : Pending} {r : Rule} {rest : List Symbol} : p ∈ pendings →
      r ∈ g.productionsOf p.symbol → r.body = x :: rest →
      MovesOver g kernels pendings x ⟨⟨r, 0⟩, p.lookaheads⟩

/-- A list of items gathers the items that move over a symbol: it has their cores with the marker
behind the symbol, each once, and each core has the lookaheads of all the items that it comes
from. -/
structure Gathers (g : Grammar) (kernels : List Item) (pendings : List Pending) (x : Symbol)
    (reached : List Item) : Prop where
  nodup : (reached.map (·.core)).Nodup
  core : ∀ d, d ∈ reached.map (·.core) ↔
    ∃ k, MovesOver g kernels pendings x k ∧ k.core.advance = d
  lookaheads : ∀ k ∈ reached, ∀ t, t ∈ k.lookaheads ↔
    ∃ k', MovesOver g kernels pendings x k' ∧ k'.core.advance = k.core ∧ t ∈ k'.lookaheads

variable {g : Grammar} {s : ItemSet} {x : Symbol} {kernels : List Item}

theorem movesOver_iff {k : Item} :
    MovesOver g s.kernels s.pendings x k ↔ k ∈ s.items g ∧ k.core.next? = some x := by
  rw [items, List.mem_append, List.mem_flatMap]
  constructor
  · intro h
    cases h with
    | kernel hk hx => exact ⟨.inl hk, hx⟩
    | production hp hr hbody =>
        refine ⟨.inr ⟨_, hp, List.mem_map_of_mem hr⟩, ?_⟩
        rw [DottedRule.next?, hbody]
        rfl
  · rintro ⟨hk | ⟨p, hp, hk⟩, hx⟩
    · exact .kernel hk hx
    · obtain ⟨r, hr, rfl⟩ := List.mem_map.1 hk
      have hhead : r.body.head? = some x := List.head?_eq_getElem?.trans hx
      obtain ⟨rest, hbody⟩ := List.head?_eq_some_iff.1 hhead
      exact .production hp hr hbody

/-- What is reached over a symbol gathers the items that move over it. -/
theorem gathers_advance (g : Grammar) (s : ItemSet) (x : Symbol) :
    Gathers g s.kernels s.pendings x (s.advance g x) where
  nodup := Item.nodup_across x _
  core d := by
    rw [advance, Item.mem_core_across]
    simp only [movesOver_iff]
    constructor
    · rintro ⟨_, he, hx, rfl⟩
      obtain ⟨k, hk, rfl⟩ := List.mem_map.1 he
      exact ⟨k, ⟨hk, hx⟩, rfl⟩
    · rintro ⟨k, ⟨hk, hx⟩, rfl⟩
      exact ⟨k.core, List.mem_map_of_mem hk, hx, rfl⟩
  lookaheads k hk t := by
    rw [← Item.expects_core_iff (Item.nodup_across x _) hk, Item.expects_across]
    simp only [movesOver_iff]
    constructor
    · rintro ⟨_, ⟨k', hk', rfl, ht⟩, hx, hcore⟩
      exact ⟨k', ⟨hk', hx⟩, hcore, ht⟩
    · rintro ⟨k', ⟨hk', hx⟩, hcore, ht⟩
      exact ⟨k'.core, ⟨k', hk', rfl, ht⟩, hx, hcore⟩

/-- The symbols that are listed are those over which a kernel is reached, the blank apart. -/
theorem mem_nextSymbols_iff_advance :
    x ∈ s.nextSymbols g ↔ x ≠ .terminal g.blank ∧ s.advance g x ≠ [] := by
  rw [nextSymbols, Item.mem_nextSymbols, advance, Item.across_ne_nil_iff, and_comm]

/-- Every production of a pending nonterminal moves over some symbol. -/
theorem exists_movesOver (hg : g.WellFormed) {pendings : List Pending} {p : Pending}
    (hp : p ∈ pendings) {r : Rule} (hr : r ∈ g.productionsOf p.symbol) :
    ∃ x, MovesOver g kernels pendings x ⟨⟨r, 0⟩, p.lookaheads⟩ := by
  obtain ⟨x, rest, hbody⟩ := List.exists_cons_of_ne_nil
    (hg.ne_nil_of_mem (g.mem_productionsOf.1 hr).1)
  exact ⟨x, .production hp hr hbody⟩

/-- The item set of a kernel, whatever the kernel is, lists without repetition the symbols over
which it reaches a kernel, the blank apart.  Over each symbol it reaches what gathers the items that
move over it, those of the kernel as well as those that the pending nonterminals stand for, and none
of the latter is without a symbol to move over. -/
theorem gathers_of_close {declarations : List Declaration}
    (hg : Grammar.define declarations = .ok g) (hclose : close g g.firstFollow kernels = .ok s) :
    (s.nextSymbols g).Nodup ∧
    (∀ x, x ∈ s.nextSymbols g ↔ x ≠ .terminal g.blank ∧ s.advance g x ≠ []) ∧
    (∀ x, Gathers g kernels s.pendings x (s.advance g x)) ∧
    ∀ p ∈ s.pendings, ∀ r ∈ g.productionsOf p.symbol,
      ∃ x, MovesOver g kernels s.pendings x ⟨⟨r, 0⟩, p.lookaheads⟩ := by
  have hg := Grammar.wellFormed_of_define hg
  obtain ⟨-, rfl⟩ := close_eq_ok_iff.1 hclose
  refine ⟨Item.nodup_nextSymbols g _, fun x => mem_nextSymbols_iff_advance, ?_, ?_⟩
  · exact gathers_advance g (ofKernels g g.firstFollow kernels)
  · exact fun p hp r hr => exists_movesOver hg hp hr

/-- `S := A N | N`, `A := x A | Blank`, and no production of `N`. -/
def fruitlessTail : List Declaration :=
  [.sentinel .blank "Blank", .sentinel .endMarker "$", .terminal "x", .terminal "y",
    .nonterminal "S", .nonterminal "A", .nonterminal "N", .start ⟨1⟩,
    .rule (.nonterminal ⟨1⟩) [.nonterminal ⟨2⟩, .nonterminal ⟨3⟩],
    .rule (.nonterminal ⟨1⟩) [.nonterminal ⟨3⟩],
    .rule (.nonterminal ⟨2⟩) [.terminal ⟨2⟩, .nonterminal ⟨2⟩],
    .rule (.nonterminal ⟨2⟩) [.terminal ⟨0⟩]]

/-- A kernel that has `S := . A N` twice beside the accepting production, which makes it pending as
well, a marker beyond the end of a body, and a blank production. -/
def overlappingKernel : List Item :=
  [⟨⟨⟨2, ⟨1⟩, [.nonterminal ⟨2⟩, .nonterminal ⟨3⟩], false⟩, 0⟩, .single ⟨3⟩⟩,
    ⟨⟨⟨1, ⟨0⟩, [.nonterminal ⟨1⟩], false⟩, 0⟩, .single ⟨1⟩⟩,
    ⟨⟨⟨2, ⟨1⟩, [.nonterminal ⟨2⟩, .nonterminal ⟨3⟩], false⟩, 0⟩, .single ⟨2⟩⟩,
    ⟨⟨⟨4, ⟨2⟩, [.terminal ⟨2⟩, .nonterminal ⟨2⟩], false⟩, 7⟩, .single ⟨3⟩⟩,
    ⟨⟨⟨5, ⟨2⟩, [.terminal ⟨0⟩], true⟩, 0⟩, .single ⟨3⟩⟩]

/-- Over `A` the three occurrences of `S := . A N` are gathered in one item.  The blank production
is reached over the blank, which is not listed. -/
theorem gathers_of_close_overlappingKernel : ∃ g s, Grammar.define fruitlessTail = .ok g ∧
    close g g.firstFollow overlappingKernel = .ok s ∧
    ((s.nextSymbols g).Nodup ∧
      (∀ x, x ∈ s.nextSymbols g ↔ x ≠ .terminal g.blank ∧ s.advance g x ≠ []) ∧
      (∀ x, Gathers g overlappingKernel s.pendings x (s.advance g x)) ∧
      ∀ p ∈ s.pendings, ∀ r ∈ g.productionsOf p.symbol,
        ∃ x, MovesOver g overlappingKernel s.pendings x ⟨⟨r, 0⟩, p.lookaheads⟩) ∧
    s.nextSymbols g = [.nonterminal ⟨2⟩, .nonterminal ⟨1⟩, .terminal ⟨2⟩, .nonterminal ⟨3⟩] ∧
    ([.nonterminal ⟨2⟩, .terminal ⟨0⟩] : List Symbol).map (fun x => (s.advance g x).map fun k =>
      (k.core.rule.number, k.core.marker, k.lookaheads.toList)) =
      [[(2, 1, [⟨3⟩, ⟨2⟩, ⟨1⟩])], [(5, 1, [⟨3⟩])]] := by
  have hpasses : Grammar.passes fruitlessTail (fun g =>
      (ofKernels g g.firstFollow overlappingKernel).nextSymbols g =
        [.nonterminal ⟨2⟩, .nonterminal ⟨1⟩, .terminal ⟨2⟩, .nonterminal ⟨3⟩] ∧
      ([.nonterminal ⟨2⟩, .terminal ⟨0⟩] : List Symbol).map
          (fun x => ((ofKernels g g.firstFollow overlappingKernel).advance g x).map fun k =>
            (k.core.rule.number, k.core.marker, k.lookaheads.toList)) =
        [[(2, 1, [⟨3⟩, ⟨2⟩, ⟨1⟩])], [(5, 1, [⟨3⟩])]]) = true := by decide +kernel
  obtain ⟨g, hg, hcheck⟩ := Grammar.exists_of_passes hpasses
  obtain ⟨hsymbols, hreached⟩ := of_decide_eq_true hcheck
  have hclose : close g g.firstFollow overlappingKernel =
      .ok (ofKernels g g.firstFollow overlappingKernel) := rfl
  exact ⟨g, _, hg, hclose, gathers_of_close hg hclose, hsymbols, hreached⟩

end ItemSet

end ShiftReduce
