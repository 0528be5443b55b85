import Mathlib.Data.List.Forall2
import ShiftReduce.Proofs.Automaton.LeastLookaheads
import ShiftReduce.Proofs.Automaton.Skeleton

/-!
# What merging adds

If a grammar has an automaton with `Merging.lalr` it also has one with `Merging.firstFound`.
State by state the two have the same cores, the same pending nonterminals and the same
transitions, and with `Merging.lalr` there may be more lookaheads and more reductions
(`build_firstFound_within`).

## Strategy

The graphs have the same skeletons (`StateGraph.alike_ofGrammar`).  A lookahead of the one graph
is due there, and so it is due in the other automaton, where all lookaheads that are due have
arrived (`Closed.mem_of_due`).  So the items of the one graph are within those of the other
(`ItemSet.Within`).  Then they demand no reduction that is not demanded there, and what can be
settled there can be settled here (`Settleable.of_within`).
-/

namespace ShiftReduce

/-! ## Lists of which one has more -/

/-- Lists with the same keys in the same order, all of them different, correspond entry by
entry, if what an entry of the first one has is had by an entry of the second with its key. -/
theorem forall₂_of_keys {α κ τ : Type} {key : α → κ} {has : α → τ → Prop} {l l' : List α}
    (hkeys : l.map key = l'.map key) (hnodup : (l'.map key).Nodup)
    (h : ∀ a ∈ l, ∀ t, has a t → ∃ a' ∈ l', key a' = key a ∧ has a' t) :
    List.Forall₂ (fun a a' => key a = key a' ∧ ∀ t, has a t → has a' t) l l' := by
  have hlength : l.length = l'.length := by simpa using congrArg List.length hkeys
  refine List.forall₂_iff_get.2 ⟨hlength, fun i hi hi' => ?_⟩
  have hkey : key (l.get ⟨i, hi⟩) = key (l'.get ⟨i, hi'⟩) := by
    have hget : (l.map key)[i]? = (l'.map key)[i]? := congrArg (·[i]?) hkeys
    simpa [hi, hi'] using hget
  refine ⟨hkey, fun t ht => ?_⟩
  obtain ⟨a', ha', heq, hhas⟩ := h _ (List.get_mem l ⟨i, hi⟩) t ht
  obtain rfl := List.inj_on_of_nodup_map hnodup ha' (List.get_mem l' ⟨i, hi'⟩) (heq.trans hkey)
  exact hhas

/-- What lists have in common entry by entry they have in common as a whole. -/
theorem flatMap_subset_of_forall₂ {α β : Type} {f : α → List β} {l l' : List α}
    (h : List.Forall₂ (fun a a' => f a ⊆ f a') l l') : l.flatMap f ⊆ l'.flatMap f := by
  induction h with
  | nil => exact List.Subset.refl _
  | cons hab _ ih =>
      rw [List.flatMap_cons, List.flatMap_cons]
      exact List.append_subset.2 ⟨List.subset_append_of_subset_left _ hab,
        List.subset_append_of_subset_right _ ih⟩

theorem nodup_flatMap_of_forall₂ {α β : Type} {f : α → List β} (hf : ∀ a, (f a).Nodup)
    {l l' : List α} (h : List.Forall₂ (fun a a' => f a ⊆ f a') l l')
    (hnodup : (l'.flatMap f).Nodup) : (l.flatMap f).Nodup := by
  induction h with
  | nil => exact hnodup
  | cons hab hrest ih =>
      rw [List.flatMap_cons, List.nodup_append] at hnodup ⊢
      obtain ⟨-, hnodup, hdisjoint⟩ := hnodup
      refine ⟨hf _, ih hnodup, fun t ht u hu => ?_⟩
      exact hdisjoint t (hab ht) u (flatMap_subset_of_forall₂ hrest hu)

/-! ## Items with more lookaheads -/

/-- Items of the same core, of which the second one has all lookaheads of the first. -/
def Item.Within (k k' : Item) : Prop := k.core = k'.core ∧ k.lookaheads ⊆ k'.lookaheads

/-- Entries of the same nonterminal, of which the second one has all lookaheads of the first. -/
def Pending.Within (p p' : Pending) : Prop := p.symbol = p'.symbol ∧ p.lookaheads ⊆ p'.lookaheads

/-- Item sets with the same cores and pending nonterminals in the same order, of which the second
one has all lookaheads of the first. -/
structure ItemSet.Within (s s' : ItemSet) : Prop where
  kernels : List.Forall₂ Item.Within s.kernels s'.kernels
  pendings : List.Forall₂ Pending.Within s.pendings s'.pendings

theorem Item.Expects.of_within {items items' : List Item} {d : DottedRule} {t : Terminal}
    (hd : Item.Expects items d t) (h : List.Forall₂ Item.Within items items') :
    Item.Expects items' d t := by
  induction h with
  | nil => exact hd
  | cons hk _ ih =>
      rw [Item.expects_cons] at hd ⊢
      exact hd.imp (fun ⟨hcore, ht⟩ => ⟨hk.1 ▸ hcore, hk.2 t ht⟩) ih

namespace ItemSet

variable {g : Grammar} {s s' : ItemSet}

/-- Item sets with the same skeleton, of which the second one has all lookaheads of the first. -/
theorem within_of_lookaheadsOf (hkernel : s.kernels.map (·.core) = s'.kernels.map (·.core))
    (hpending : s.pendings.map (·.symbol) = s'.pendings.map (·.symbol))
    (hdistinct : (s'.kernels.map (·.core)).Nodup) (hnodup : (s'.pendings.map (·.symbol)).Nodup)
    (h : ∀ keeper, s.lookaheadsOf keeper ⊆ s'.lookaheadsOf keeper) : s.Within s' where
  kernels := forall₂_of_keys hkernel hdistinct
    fun k hk t ht => h (.kernel k.core) (a := t) ⟨k, hk, rfl, ht⟩
  pendings := forall₂_of_keys hpending hnodup
    fun p hp t ht => h (.pending p.symbol) (a := t) ⟨p, hp, rfl, ht⟩

namespace Within

variable (h : s.Within s')

include h

theorem items (g : Grammar) : List.Forall₂ Item.Within (s.items g) (s'.items g) := by
  apply List.rel_append h.kernels
  apply List.rel_flatMap h.pendings
  rintro p p' ⟨hsymbol, hlookaheads⟩
  rw [Pending.items, Pending.items, hsymbol, List.forall₂_map_left_iff, List.forall₂_map_right_iff,
    List.forall₂_same]
  exact fun r _ => ⟨rfl, hlookaheads⟩

theorem clash?_eq : clash? s.kernels = clash? s'.kernels := by
  apply clash?_congr
  rw [← List.forall₂_eq_eq_eq, List.forall₂_map_left_iff, List.forall₂_map_right_iff]
  exact h.kernels.imp fun _ _ hk => hk.1

theorem demands_subset : s.demands g ⊆ s'.demands g := by
  rintro ⟨t, r⟩ ht
  rw [State.mem_demands] at ht ⊢
  obtain ⟨hblank, d, hd, hreducible, hr⟩ := ht
  exact ⟨hblank, d, hd.of_within (h.items g), hreducible, hr⟩

end Within

/-- The terminals of the demands are the lookaheads of the items that may be reduced. -/
theorem map_demands (g : Grammar) (s : ItemSet) : (s.demands g).map (·.1) =
    ((s.items g).filter (·.core.isReducible)).flatMap
      fun k => k.lookaheads.toList.filter (· ≠ g.blank) := by
  simp [demands, reductions, List.flatMap_map, List.map_flatMap, Function.comp_def]

theorem Within.nodup_demands (h : s.Within s') (hnodup : ((s'.demands g).map (·.1)).Nodup) :
    ((s.demands g).map (·.1)).Nodup := by
  rw [map_demands] at hnodup ⊢
  refine nodup_flatMap_of_forall₂ (fun k => k.lookaheads.nodup.filter _) ?_ hnodup
  have hreducible : List.Forall₂ Item.Within ((s.items g).filter (·.core.isReducible))
      ((s'.items g).filter (·.core.isReducible)) :=
    List.rel_filter (fun _ _ hk => iff_of_eq (congrArg (·.isReducible = true) hk.1)) (h.items g)
  refine hreducible.imp fun k k' hk t ht => ?_
  rw [List.mem_filter] at ht ⊢
  exact ⟨hk.2 t ht.1, ht.2⟩

end ItemSet

/-! ## States with more lookaheads -/

/-- States with the same cores, pending nonterminals and transitions in the same order, of which
the second one has all lookaheads and all reductions of the first. -/
structure State.Within (s s' : State) : Prop where
  items : s.items.Within s'.items
  transitions : s.transitions = s'.transitions
  reduce? : ∀ t r, s.reduce? t = some r → s'.reduce? t = some r

section States

variable {g : Grammar} {s s' : State}

/-- With fewer lookaheads there are no new conflicts. -/
theorem State.Settleable.of_within (hs' : s'.Settleable g) (h : s.items.Within s'.items)
    (htransitions : s.transitions = s'.transitions) : s.Settleable g := by
  constructor
  case clash?_eq_none =>
    rw [h.clash?_eq]
    exact hs'.clash?_eq_none
  case distinct => exact h.nodup_demands hs'.distinct
  case transition?_eq_none =>
    intro t r ht
    rw [State.transition?, htransitions]
    exact hs'.transition?_eq_none t r (h.demands_subset ht)

theorem State.Settled.within (hs : s.Settled g) (hs' : s'.Settled g)
    (h : s.items.Within s'.items) (htransitions : s.transitions = s'.transitions) :
    s.Within s' := by
  refine ⟨h, htransitions, fun t r ht => ?_⟩
  rw [State.reduce?, lookup_eq_some_iff_mem hs.distinct, hs.reduces_eq] at ht
  rw [State.reduce?, lookup_eq_some_iff_mem hs'.distinct, hs'.reduces_eq]
  exact h.demands_subset ht

end States

/-! ## Automata -/

namespace Automaton

variable {g : Grammar}

/-- If there is an automaton with `Merging.lalr`, the states of the graph with
`Merging.firstFound` are within those of the graph with `Merging.lalr`. -/
theorem within_ofGrammar (hg : g.WellFormed) {lalr : Automaton} (h : build g .lalr = .ok lalr)
    (q : Nat) :
    ((StateGraph.ofGrammar g g.firstFollow .firstFound).look q).items.Within
      ((StateGraph.ofGrammar g g.firstFollow .lalr).look q).items ∧
    ((StateGraph.ofGrammar g g.firstFollow .firstFound).look q).transitions =
      ((StateGraph.ofGrammar g g.firstFollow .lalr).look q).transitions := by
  obtain ⟨halike, hordered⟩ := StateGraph.alike_ofGrammar hg
  obtain ⟨hshaped, hdue⟩ := StateGraph.due_ofGrammar hg .firstFound
  obtain ⟨hshaped', -⟩ := StateGraph.due_ofGrammar hg .lalr
  have hsaturated := saturated_of_build hg h
  have hkernel := fun q => State.kernel_eq_of_skeleton_eq (halike.look q)
  have hsymbols := State.symbols_eq_of_skeleton_eq (halike.look q)
  have htransitions := fun q => State.transitions_eq_of_skeleton_eq (halike.look q)
  rw [build_eq] at h
  have hlook := look_of_settle h
  refine ⟨ItemSet.within_of_lookaheadsOf (hkernel q).symm hsymbols.symm (hshaped'.distinct q)
    ((hordered.of_alike halike).nodup q) fun keeper t ht => ?_, (htransitions q).symm⟩
  -- What is due in the one graph is due in the automaton of the other, and has arrived there.
  rw [← (hlook q).1]
  apply hsaturated.closed.mem_of_due
  apply (hdue q keeper t ht).mono hshaped hsaturated.shaped
  · exact fun q => .inr (by rw [State.kernel, (hlook q).1]; exact hkernel q)
  · exact fun q => by rw [(hlook q).2.1, htransitions q]; exact List.Subset.refl _

/-- Of the two automata of a grammar the one with `Merging.firstFound` is within the other. -/
theorem within_of_build (hg : g.WellFormed) {first lalr : Automaton}
    (hfirst : build g .firstFound = .ok first) (hlalr : build g .lalr = .ok lalr) :
    first.states.length = lalr.states.length ∧ ∀ q, (first.look q).Within (lalr.look q) := by
  have hwithin := within_ofGrammar hg hlalr
  have hsize := (StateGraph.alike_ofGrammar hg).1.size
  rw [build_eq] at hfirst hlalr
  refine ⟨?_, fun q => ?_⟩
  · rw [length_of_settle hfirst, length_of_settle hlalr, hsize]
  · obtain ⟨hitems, htransitions, hsettled⟩ := look_of_settle hfirst q
    obtain ⟨hitems', htransitions', hsettled'⟩ := look_of_settle hlalr q
    apply hsettled.within hsettled'
    · rw [hitems, hitems']
      exact (hwithin q).1
    · rw [htransitions, htransitions']
      exact (hwithin q).2

/-- An automaton that can be built with `Merging.lalr` can be built with `Merging.firstFound`.
It then has the same states, with the same transitions, and no lookahead and no reduction more;
and where it cannot be built, it cannot with `Merging.lalr` either. -/
theorem build_firstFound_within {declarations : List Declaration}
    (hg : Grammar.define declarations = .ok g) :
    (∀ lalr, build g .lalr = .ok lalr → ∃ first, build g .firstFound = .ok first ∧
      List.Forall₂ State.Within first.states lalr.states) ∧
    ∀ e, build g .firstFound = .error e → ∃ e', build g .lalr = .error e' := by
  have hg := Grammar.wellFormed_of_define hg
  have hlalr : ∀ lalr, build g .lalr = .ok lalr → ∃ first, build g .firstFound = .ok first ∧
      List.Forall₂ State.Within first.states lalr.states := by
    intro lalr h
    have hwithin := within_ofGrammar hg h
    have hsize := (StateGraph.alike_ofGrammar hg).1.size
    rw [build_eq] at h
    -- What can be settled with more lookaheads can be settled with fewer.
    obtain ⟨first, hfirst⟩ := exists_settle_iff.2 fun q hq =>
      (exists_settle_iff.1 ⟨lalr, h⟩ q (hsize ▸ hq)).of_within (hwithin q).1 (hwithin q).2
    refine ⟨first, (build_eq g .firstFound).trans hfirst, List.forall₂_iff_get.2 ⟨?_, ?_⟩⟩
    · rw [length_of_settle hfirst, length_of_settle h, hsize]
    · intro q hq hq'
      rw [← look_of_lt hq, ← look_of_lt hq']
      obtain ⟨hitems, htransitions, hsettled⟩ := look_of_settle hfirst q
      obtain ⟨hitems', htransitions', hsettled'⟩ := look_of_settle h q
      apply hsettled.within hsettled'
      · rw [hitems, hitems']
        exact (hwithin q).1
      · rw [htransitions, htransitions']
        exact (hwithin q).2
  refine ⟨hlalr, fun e he => ?_⟩
  cases h : build g .lalr with
  | error e' => exact ⟨e', rfl⟩
  | ok lalr =>
      obtain ⟨first, hfirst, -⟩ := hlalr lalr h
      rw [he] at hfirst
      contradiction

/-- The state behind `e` gets the lookahead `d` when it is reached again, and with it one more
terminal before which there is a reduction. -/
theorem build_firstFound_within_lateLookahead : ∃ g lalr first,
    Grammar.define Samples.lateLookahead = .ok g ∧ build g .lalr = .ok lalr ∧
    build g .firstFound = .ok first ∧ List.Forall₂ State.Within first.states lalr.states ∧
    (first.look 5).items.kernels.map (·.lookaheads.toList) = [[⟨4⟩]] ∧
    (first.look 5).reduces.map (·.1) = [⟨4⟩] ∧
    (lalr.look 5).items.kernels.map (·.lookaheads.toList) = [[⟨4⟩, ⟨5⟩]] ∧
    (lalr.look 5).reduces.map (·.1) = [⟨4⟩, ⟨5⟩] := by
  have hpasses : passes Samples.lateLookahead .lalr (fun _ lalr => decide
      ((lalr.look 5).items.kernels.map (·.lookaheads.toList) = [[⟨4⟩, ⟨5⟩]] ∧
        (lalr.look 5).reduces.map (·.1) = [⟨4⟩, ⟨5⟩])) = true := by decide +kernel
  have hpasses' : passes Samples.lateLookahead .firstFound (fun _ first => decide
      ((first.look 5).items.kernels.map (·.lookaheads.toList) = [[⟨4⟩]] ∧
        (first.look 5).reduces.map (·.1) = [⟨4⟩])) = true := by decide +kernel
  obtain ⟨g, lalr, hg, h, hlalr⟩ := exists_of_passes hpasses
  obtain ⟨g', first', hg', h', hfirst'⟩ := exists_of_passes hpasses'
  obtain ⟨first, hfirst, hwithin⟩ := (build_firstFound_within hg).1 lalr h
  obtain rfl := Except.ok.inj (hg.symm.trans hg')
  obtain rfl := Except.ok.inj (hfirst.symm.trans h')
  obtain ⟨hfewer, hreduces⟩ := of_decide_eq_true hfirst'
  exact ⟨g, lalr, first, hg, h, hfirst, hwithin, hfewer, hreduces, of_decide_eq_true hlalr⟩

end Automaton

end ShiftReduce
