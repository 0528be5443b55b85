import ShiftReduce.Proofs.Automaton.Canonical
import ShiftReduce.Proofs.Automaton.Conflicts
import ShiftReduce.Proofs.Automaton.LeastLookaheads

/-!
# Lookaheads and FOLLOW

The lookaheads of an item come after its head, so they are in FOLLOW of the head, or the end
marker.  So a grammar has an automaton if its productions can be told apart by FOLLOW already, as in
a simple LR parser (`Automaton.lookaheads_subset_followers`).

FOLLOW is here what `FirstFollow` computes, with the blank in it and with FOLLOW folded into FIRST.
Lookaheads are found with the same sets, so neither does any harm.

## Strategy

A lookahead is due (`Due`), and each reason for it is one for FOLLOW (`Due.mem_followers`): what
comes after a nonterminal in a body is in its FOLLOW set, what follows a head follows the last
symbol of its bodies, and moving the marker keeps the head.  This holds in the graph already, whose
states have the kernels of the canonical collection, so it rules out conflicts there.
-/

namespace ShiftReduce

/-! ## What may follow -/

/-- FOLLOW of a nonterminal, and the end marker. -/
def Grammar.followers (g : Grammar) (n : Nonterminal) : OrderedSet Terminal :=
  g.firstFollow.follow.get n ∪ .single g.endMarker

theorem Grammar.mem_followers {g : Grammar} {n : Nonterminal} {t : Terminal} :
    t ∈ g.followers n ↔ t ∈ g.firstFollow.follow.get n ∨ t = g.endMarker := by
  rw [followers, OrderedSet.mem_union, OrderedSet.mem_single]

/-- The nonterminal that the lookaheads at a keeper come after. -/
def Keeper.head : Keeper → Nonterminal
  | .kernel d => d.rule.head
  | .pending n => n

theorem ItemSet.Keeps.head_eq {g : Grammar} {s : ItemSet} {d : DottedRule} {keeper : Keeper}
    (h : s.Keeps g d keeper) : keeper.head = d.rule.head := by
  cases h with
  | kernel _ => rfl
  | pending _ hr => exact (g.mem_productionsOf.1 hr).2.symm

variable {g : Grammar} {merging : Merging}

/-- What comes after an occurrence of a nonterminal is in its FOLLOW set. -/
theorem DottedRule.mem_follow (hg : g.WellFormed) {d : DottedRule} (hd : d.rule ∈ g.allRules)
    {n : Nonterminal} (hn : d.next? = some (.nonterminal n)) {t : Terminal}
    (ht : t ∈ g.firstFollow.after d.rule.head d.beyond?) : t ∈ g.firstFollow.follow.get n :=
  hg.closed_firstFollow.follow d.rule hd d.marker n hn t ht

/-- What is due after a nonterminal may follow it. -/
theorem Due.mem_followers (hg : g.WellFormed) {look : Nat → State} (hs : Shaped g look) {q : Nat}
    {keeper : Keeper} {t : Terminal} (h : Due g g.firstFollow look q keeper t) :
    t ∈ g.followers keeper.head := by
  have hrule : ∀ {q d keeper}, (look q).items.Keeps g d keeper → d.rule ∈ g.allRules :=
    fun {q} _ _ hkeeps => ((hs.inClosure_of_keeps hkeeps).of (hs.kernel_of q)).1
  induction h with
  | start => exact Grammar.mem_followers.2 (.inr rfl)
  | beyond hkeeps hn hx ht =>
      refine Grammar.mem_followers.2 (.inl (DottedRule.mem_follow hg (hrule hkeeps) hn ?_))
      rwa [hx]
  | last hkeeps hn hlast _ ih =>
      rw [hkeeps.head_eq, Grammar.mem_followers] at ih
      refine Grammar.mem_followers.2 (ih.imp_left fun ht => ?_)
      apply DottedRule.mem_follow hg (hrule hkeeps) hn
      rwa [hlast]
  | advance _ hkeeps _ _ ih =>
      rw [hkeeps.head_eq] at ih
      exact ih

/-! ## Simple LR grammars -/

namespace Grammar

/-- In a set of cores, FOLLOW and the end marker decide between the productions that may be reduced,
and between them and the terminals that come next.  The blank comes in no input. -/
structure FollowDecides (g : Grammar) (cores : Set DottedRule) : Prop where
  rule_eq : ∀ d ∈ cores, ∀ e ∈ cores, d.isReducible = true → e.isReducible = true →
    ∀ t ≠ g.blank, t ∈ g.followers d.rule.head → t ∈ g.followers e.rule.head → d.rule = e.rule
  next?_ne : ∀ d ∈ cores, ∀ e ∈ cores, d.isReducible = true →
    ∀ t ≠ g.blank, t ∈ g.followers d.rule.head → e.next? ≠ some (.terminal t)

/-- In the canonical collection of sets of items without lookaheads there is no conflict, if every
production is reduced before FOLLOW of its head and the end marker. -/
def IsSimpleLR (g : Grammar) : Prop :=
  ∀ kernel, g.Canonical kernel → g.FollowDecides {d | g.Closure kernel d}

end Grammar

namespace StateGraph

/-- What is demanded in a state is asked for by an item of its closure, and may follow its head. -/
theorem exists_of_mem_demands (hg : g.WellFormed) {q : Nat} {t : Terminal} {r : Rule}
    (h : (t, r) ∈ ((ofGrammar g g.firstFollow merging).look q).items.demands g) :
    t ≠ g.blank ∧ ∃ d, g.Closure ((ofGrammar g g.firstFollow merging).look q).kernelSet d ∧
      d.isReducible = true ∧ t ∈ g.followers d.rule.head ∧ d.rule = r := by
  obtain ⟨hshaped, hdue⟩ := due_ofGrammar hg merging
  obtain ⟨hblank, d, hd, hreducible, hr⟩ := State.mem_demands.1 h
  obtain ⟨keeper, hkeeps, ht⟩ := ItemSet.expects_iff_exists_keeps.1 hd
  have hfollowers := (hdue q keeper t ht).mem_followers hg hshaped
  rw [hkeeps.head_eq] at hfollowers
  exact ⟨hblank, d, inClosure_iff_closure.1 (hshaped.inClosure_of_expects hd), hreducible,
    hfollowers, hr⟩

/-- In the graph of a simple LR grammar every state can be settled. -/
theorem settleable_of_isSimpleLR (hg : g.WellFormed) (hsimple : g.IsSimpleLR) {q : Nat}
    (hq : q < (ofGrammar g g.firstFollow merging).states.size) :
    ((ofGrammar g g.firstFollow merging).look q).Settleable g := by
  obtain ⟨hshaped, -⟩ := due_ofGrammar hg merging
  have hdecides := hsimple _ (canonical_ofGrammar hg merging hq)
  apply (regular_ofGrammar hg merging q).settleable hg
  · intro t r r' ht ht'
    obtain ⟨hblank, d, hd, hreducible, hfollowers, rfl⟩ := exists_of_mem_demands hg ht
    obtain ⟨-, e, he, hreducible', hfollowers', rfl⟩ := exists_of_mem_demands hg ht'
    exact hdecides.rule_eq d hd e he hreducible hreducible' t hblank hfollowers hfollowers'
  · intro t r ht
    obtain ⟨hblank, d, hd, hreducible, hfollowers, -⟩ := exists_of_mem_demands hg ht
    rw [Option.eq_none_iff_forall_ne_some]
    intro target htarget
    -- A transition over the terminal would come from an item of the closure too.
    have hedge := (lookup_eq_some_iff_mem (hshaped.nodup q)).1 htarget
    obtain ⟨-, e, he, hnext⟩ := hshaped.next q _ target hedge
    exact hdecides.next?_ne d hd e (inClosure_iff_closure.1 he) hreducible t hblank hfollowers hnext

end StateGraph

namespace Automaton

/-- The lookaheads of a core are in FOLLOW of its head or the end marker, and those of a pending
nonterminal in its own FOLLOW or the end marker.  A grammar for which this is enough to decide has
an automaton. -/
theorem lookaheads_subset_followers {declarations : List Declaration}
    (hg : Grammar.define declarations = .ok g) :
    (∀ merging a, build g merging = .ok a → ∀ q keeper,
      a.lookaheads q keeper ⊆ {t | t ∈ g.followers keeper.head}) ∧
    (g.IsSimpleLR → ∀ merging, ∃ a, build g merging = .ok a) := by
  have hg := Grammar.wellFormed_of_define hg
  constructor
  · intro merging a ha q keeper t ht
    exact (due_of_build hg ha ht).mem_followers hg (consistent_of_build hg ha).shaped
  · intro hsimple merging
    rw [build_eq]
    exact exists_settle_iff.2 fun q hq => StateGraph.settleable_of_isSimpleLR hg hsimple hq

/-- Whether FOLLOW decides in all states of an automaton. -/
def isSimple (g : Grammar) (a : Automaton) : Bool :=
  a.states.all fun s =>
    let cores := (s.items.items g).map (·.core)
    (cores.filter (·.isReducible)).all fun d =>
      ((g.followers d.rule.head).toList.filter (· ≠ g.blank)).all fun t =>
        (cores.filter (·.isReducible)).all
          (fun e => t ∉ g.followers e.rule.head || d.rule = e.rule) &&
        cores.all fun e => e.next? ≠ some (.terminal t)

theorem Consistent.isSimpleLR_of_isSimple {a : Automaton} (ha : a.Consistent g)
    (h : a.isSimple g = true) : g.IsSimpleLR := by
  intro kernel hkernel
  obtain ⟨q, hq, rfl⟩ := ha.exists_kernelSet_eq hkernel
  have hmem : ∀ d, g.Closure (a.look q).kernelSet d ↔
      d ∈ ((a.look q).items.items g).map (·.core) := by
    intro d
    rw [State.kernelSet, ← inClosure_iff_closure]
    exact ha.shaped.mem_items.symm
  have hstate := List.all_eq_true.1 h (a.look q) (look_of_lt hq ▸ List.get_mem _ _)
  simp only [List.all_eq_true, List.mem_filter, Bool.and_eq_true, Bool.or_eq_true,
    decide_eq_true_eq, and_imp] at hstate
  constructor
  · intro d hd e he hreducible hreducible' t hblank ht ht'
    have hboth := (hstate d ((hmem d).1 hd) hreducible t ht hblank).1 e ((hmem e).1 he) hreducible'
    exact hboth.resolve_left fun hnot => hnot ht'
  · intro d hd e he hreducible t hblank ht
    exact (hstate d ((hmem d).1 hd) hreducible t ht hblank).2 e ((hmem e).1 he)

/-- A grammar with a part that may be left out is a simple LR grammar.  The part is pending with
the lookahead `=`, which is in its FOLLOW beside the end marker. -/
theorem lookaheads_subset_followers_optional : ∃ g a,
    Grammar.define Samples.optional = .ok g ∧ build g .firstFound = .ok a ∧
    (∀ q keeper, a.lookaheads q keeper ⊆ {t | t ∈ g.followers keeper.head}) ∧
    g.IsSimpleLR ∧ (∀ merging, ∃ a', build g merging = .ok a') ∧
    (a.look 3).items.pendings.map (fun p => (p.symbol, p.lookaheads.toList)) = [(⟨2⟩, [⟨5⟩])] ∧
    (g.followers ⟨2⟩).toList = [⟨5⟩, ⟨1⟩] := by
  have hpasses : passes Samples.optional .firstFound (fun g a => a.isSimple g && decide
      ((a.look 3).items.pendings.map (fun p => (p.symbol, p.lookaheads.toList)) = [(⟨2⟩, [⟨5⟩])] ∧
        (g.followers ⟨2⟩).toList = [⟨5⟩, ⟨1⟩])) = true := by
    decide +kernel
  obtain ⟨g, a, hg, ha, hcheck⟩ := exists_of_passes hpasses
  rw [Bool.and_eq_true] at hcheck
  have hconsistent := consistent_of_build (Grammar.wellFormed_of_define hg) ha
  have hsimple := hconsistent.isSimpleLR_of_isSimple hcheck.1
  obtain ⟨hbound, hbuild⟩ := lookaheads_subset_followers hg
  exact ⟨g, a, hg, ha, hbound .firstFound a ha, hsimple, hbuild hsimple,
    of_decide_eq_true hcheck.2⟩

end Automaton

end ShiftReduce
