import Mathlib.Data.Fintype.Pigeonhole
import Mathlib.Order.Interval.Set.Infinite
import ShiftReduce.Proofs.Automaton.Merging
import ShiftReduce.Proofs.Automaton.Reachability
import ShiftReduce.Proofs.Automaton.Steps
import ShiftReduce.Proofs.Parser.Completeness
import ShiftReduce.Proofs.Parser.Divergence

/-!
# Where a parser always halts

A parser halts on every input, be it derived or not, if the end marker is known to follow the start
symbol, every nonterminal derives a terminal string, and there is an automaton with `Merging.lalr`
(`Parser.parse_halts_of_followed`).  With entries of 32 bits this is about automata with fewer than
`2 ^ 31` states (`Automaton.inWords_table`).

## Strategy

Suppose that silent steps lead from a state and a nonterminal back to them.  Each of these steps
makes a node out of trees that are there, and takes no leaf.  So over the state there are trees as
large as one likes with the same leaves (`Carries.spin`), and a tree of the start symbol may open
with any of them.

The terminal before which the silent steps are taken need not come next in such a tree, since
lookaheads have been merged.  But some terminal comes next in infinitely many of them.  If the end
marker is known to follow, then all of these trees are retraced.  At the end of one of them the
parser is stuck.  Before the terminal it has taken the same steps as along the others, and these
are as many as one likes (`not_forall_spends`).

With `Merging.firstFound` there are no more reductions, so nothing spins there either.
-/

namespace ShiftReduce

open Relation (TransGen)

namespace Automaton

variable {g : Grammar} {a : Automaton} {t : Terminal} {n m : Nonterminal} {numbers : List Nat}
  {count : Nat}

/-! ## Trees over a stack -/

/-- There are trees for what a stack of states spells and for a nonterminal behind it, with leaves
of some numbers and no fewer nodes than some count. -/
def Carries (g : Grammar) (a : Automaton) (states : List Nat) (n : Nonterminal)
    (numbers : List Nat) (count : Nat) : Prop :=
  ∃ spelled trees, Path a states spelled ∧ g.Forest (spelled.reverse ++ [.nonterminal n]) trees ∧
    Tree.frontier trees = numbers ∧ count ≤ Tree.nodeCountOfAll trees

theorem Carries.mono {states : List Nat} {count' : Nat} (h : Carries g a states n numbers count)
    (hle : count' ≤ count) : Carries g a states n numbers count' := by
  obtain ⟨spelled, trees, hpath, hf, hnumbers, hcount⟩ := h
  exact ⟨spelled, trees, hpath, hf, hnumbers, hle.trans hcount⟩

section Consistent

variable (hg : g.WellFormed) (ha : a.Consistent g)

include hg ha

/-- A silent step makes one node more. -/
theorem Carries.silent {states states' below : List Nat}
    (hsilent : Silent a t (states, n) (states', m)) (hne : states' ≠ [])
    (h : Carries g a (states ++ below) n numbers count) :
    Carries g a (states' ++ below) m numbers (count + 1) := by
  obtain ⟨spelled, trees, hpath, hf, hnumbers, hcount⟩ := h
  cases hsilent with
  | @step p q rest _ r hq hr haccept =>
      rw [List.cons_append] at hpath
      obtain ⟨p', below', spelled', hspelled, hdrop, hpath', -⟩ := (hpath.step hq).reduce ha hg hr
      have hle : r.arity ≤ (q :: p :: rest).length := by
        by_contra hlt
        exact hne (List.drop_eq_nil_of_le (Nat.le_of_not_le hlt))
      rw [drop_above hle] at hdrop
      have hsymbols : spelled.reverse ++ [.nonterminal n] = spelled'.reverse ++ r.matched := by
        simpa using congrArg List.reverse hspelled
      rw [hsymbols] at hf
      obtain ⟨left, children, rfl, hleft, hchildren⟩ := hf.split
      have hrule := ha.mem_rules_of_reduce? hr haccept
      refine ⟨spelled', _, hdrop ▸ hpath', hleft.append (.node hrule hchildren .nil), ?_, ?_⟩
      · simpa using hnumbers
      · rw [Tree.nodeCountOfAll_append] at hcount
        simp only [Tree.nodeCountOfAll_append, Tree.nodeCountOfAll_node, Tree.nodeCountOfAll_nil]
        omega

/-- Many silent steps make at least one. -/
theorem Carries.silents {states states' below : List Nat}
    (hsilent : TransGen (Silent a t) (states, n) (states', m)) (hne : states' ≠ [])
    (h : Carries g a (states ++ below) n numbers count) :
    Carries g a (states' ++ below) m numbers (count + 1) := by
  generalize hx : (states, n) = x at hsilent
  induction hsilent using TransGen.head_induction_on generalizing states n count with
  | single hstep =>
      subst hx
      exact h.silent hg ha hstep hne
  | @head x y hstep hrest ih =>
      subst hx
      obtain ⟨z, hz, -⟩ := TransGen.head'_iff.1 hrest
      exact (ih (h.silent hg ha hstep hz.ne_nil) rfl).mono (Nat.le_succ _)

/-- Over a state that spins there are trees as large as one likes. -/
theorem Carries.spin {p : Nat} {below : List Nat} (hspins : Spins a t p n)
    (h : Carries g a (p :: below) n numbers 0) (count : Nat) :
    ∃ below', Carries g a (p :: below') n numbers count := by
  obtain ⟨above, hsilent⟩ := hspins
  induction count with
  | zero => exact ⟨below, h⟩
  | succ count ih =>
      obtain ⟨below', h'⟩ := ih
      exact ⟨above ++ below', Carries.silents hg ha hsilent (List.cons_ne_nil _ _) h'⟩

/-- Every state that goes on over a nonterminal carries trees. -/
theorem exists_carries (hproductive : g.Productive) {p q : Nat} {below : List Nat}
    {spelled : List Symbol} (hpath : Path a (p :: below) spelled)
    (hq : (a.look p).transition? (.nonterminal n) = some q) :
    ∃ numbers, Carries g a (p :: below) n numbers 0 := by
  obtain ⟨trees, hf⟩ : ∃ trees, g.Forest (spelled.reverse ++ [.nonterminal n]) trees := by
    apply hproductive.exists_forest
    simpa [or_imp, forall_and] using
      And.intro (hpath.declares hg ha) (ha.declares_of_transition? hg hq)
  exact ⟨_, spelled, trees, hpath, hf, rfl, Nat.zero_le _⟩

end Consistent

/-! ## Steps along trees that open -/

/-- On its way over some numbers to the next one a parser takes no fewer steps than some size, and
it gets stuck later. -/
structure Spends (g : Grammar) (a : Automaton) (size : Nat) (numbers : List Nat) (next : Nat)
    (rest : List Nat) : Prop where
  next_le : next ≤ g.vocabulary.terminals.length
  before : ∃ count states, size ≤ count ∧
    Steps g a count ⟨[startState], numbers ++ next :: rest⟩ ⟨states, next :: rest⟩
  later : ∃ last final, Steps g a last ⟨[startState], numbers ++ next :: rest⟩ final ∧
    Stuck g a final

/-- Leaves of retraced trees have numbers of terminals. -/
theorem Retraces.le_of_mem_frontier (hg : g.WellFormed) (ha : a.Consistent g)
    {calls : Terminal → Prop} {u : Terminal} {states states' : List Nat} {symbols : List Symbol}
    {trees : List Tree} (h : Retraces g a calls u states symbols trees states') :
    ∀ number ∈ Tree.frontier trees, number ≤ g.vocabulary.terminals.length := by
  induction h with
  | nil => simp
  | leaf hq _ ih =>
      rw [Tree.frontier_leaf]
      exact List.forall_mem_cons.2 ⟨ha.declares_of_transition? hg hq, ih⟩
  | node _ _ _ _ _ _ ihchildren ih =>
      rw [Tree.frontier_node]
      exact fun number hnumber => (List.mem_append.1 hnumber).elim (ihchildren number) (ih number)

section Saturated

variable (hg : g.WellFormed) (ha : a.Saturated g)

include hg ha

/-- Where the start symbol has been retraced, no step can be taken before the end marker. -/
theorem stuck_of_retraces {calls : Terminal → Prop} {u : Terminal} {tree : Tree}
    {states : List Nat}
    (h : Retraces g a calls u [startState] [.nonterminal g.startSymbol] [tree] states) :
    Stuck g a ⟨states, [g.vocabulary.number (.terminal g.endMarker)]⟩ := by
  obtain ⟨top, below, rfl⟩ := h.spells.exists_top
  have haccept := reduce?_accept hg ha h
  intro y hstep
  cases hstep with
  | shift ht hq =>
      obtain rfl := Vocabulary.number_terminal_inj ht
      rw [(ha.settled top).transition?_of_reduce? haccept] at hq
      contradiction
  | reduce ht hr _ hq =>
      obtain rfl := Vocabulary.number_terminal_inj ht
      obtain rfl := Option.some.inj (haccept.symm.trans hr)
      exact g.vocabulary.not_declares_accept (ha.declares_of_transition? hg hq)

/-- Where a tree of the start symbol opens with some trees, the parser spends a step on each of
their nodes. -/
theorem exists_spends_of_opens (hend : Followed g g.acceptRule g.endMarker) {left : List Tree}
    (h : g.Opens left) {size : Nat} (hsize : size ≤ Tree.nodeCountOfAll left) :
    ∃ next rest, Spends g a size (Tree.frontier left) next rest := by
  obtain ⟨tree, behind, hf, hcut⟩ := h
  obtain ⟨states, hretraces⟩ := exists_retraces_of_followed hg ha hf hend
  obtain ⟨next, rest, hbehind⟩ : ∃ next rest,
      behind ++ [g.vocabulary.number (.terminal g.endMarker)] = next :: rest :=
    List.exists_cons_of_ne_nil (List.append_ne_nil_of_right_ne_nil _ (List.cons_ne_nil _ _))
  obtain ⟨count, mid, hcount, hbefore⟩ := Retraces.exists_steps_of_cut hcut hretraces []
  obtain ⟨last, -, hlast⟩ := hretraces.exists_steps []
  rw [hbehind] at hbefore
  rw [hcut.frontier_eq, List.append_assoc, hbehind] at hlast
  refine ⟨next, rest, ?_, ⟨count, mid, hsize.trans hcount, hbefore⟩,
    ⟨last, _, hlast, stuck_of_retraces hg ha hretraces⟩⟩
  have hnext : next ∈ behind ++ [g.vocabulary.number (.terminal g.endMarker)] :=
    hbehind ▸ List.mem_cons_self
  rcases List.mem_append.1 hnext with hnext | hnext
  · apply hretraces.le_of_mem_frontier hg ha.toConsistent
    rw [hcut.frontier_eq]
    exact List.mem_append_right _ hnext
  · obtain rfl := List.mem_singleton.1 hnext
    exact hg.endMarker_declared

end Saturated

/-- A parser does not spend as many steps as one likes on the same numbers. -/
theorem not_forall_spends (ha : a.Consistent g) (numbers : List Nat) :
    ¬ ∀ size, ∃ next rest, Spends g a size numbers next rest := by
  intro hall
  choose next rest hspends using hall
  -- One number comes next for infinitely many sizes.
  obtain ⟨number, hinfinite⟩ := Finite.exists_infinite_fiber fun size : ℕ =>
    (⟨next size, Nat.lt_succ_of_le (hspends size).next_le⟩ :
      Fin (g.vocabulary.terminals.length + 1))
  rw [Set.infinite_coe_iff] at hinfinite
  obtain ⟨size, hsize⟩ := hinfinite.nonempty
  obtain ⟨last, final, hlast, hstuck⟩ := (hspends size).later
  obtain ⟨larger, hlarger, hlt⟩ := hinfinite.exists_gt last
  have hsame : next larger = next size := congrArg Fin.val (hlarger.trans hsize.symm)
  obtain ⟨count, states, hcount, hbefore⟩ := (hspends larger).before
  rw [hsame] at hbefore
  have hle : count ≤ last := (hbefore.of_next (rest size)).le_of_stuck ha hlast hstuck
  omega

/-! ## Nothing spins -/

/-- With `Merging.lalr` nothing spins, if the end marker is known to follow the start symbol and
every nonterminal derives a terminal string. -/
theorem not_spins_of_followed (hg : g.WellFormed) (hproductive : g.Productive)
    (hend : Followed g g.acceptRule g.endMarker) (ha : build g .lalr = .ok a) {p : Nat} :
    ¬ Spins a t p n := by
  intro hspins
  have hsaturated := saturated_of_build hg ha
  have hconsistent := hsaturated.toConsistent
  obtain ⟨q, hq⟩ := hspins.exists_transition?
  obtain ⟨below, spelled, hpath⟩ := exists_path hg ha (Consistent.lt_length_of_transition? hq)
  obtain ⟨numbers, hcarries⟩ := exists_carries hg hconsistent hproductive hpath hq
  apply not_forall_spends hconsistent numbers
  intro size
  obtain ⟨below', spelled', trees, hpath', hf, rfl, hsize⟩ :=
    hcarries.spin hg hconsistent hspins size
  have hopens : g.Opens trees := hpath'.opens hg hconsistent hproductive hq hf
  exact exists_spends_of_opens hg hsaturated hend hopens hsize

/-- What is silent is silent in an automaton with more lookaheads. -/
theorem Silent.of_within {first lalr : Automaton} (h : ∀ q, (first.look q).Within (lalr.look q))
    {x y : List Nat × Nonterminal} (hsilent : Silent first t x y) : Silent lalr t x y := by
  cases hsilent with
  | @step p q _ n r hq hr haccept =>
      rw [State.transition?, (h p).transitions] at hq
      exact .step hq ((h q).reduce? t r hr) haccept

theorem Spins.of_within {first lalr : Automaton} (h : ∀ q, (first.look q).Within (lalr.look q))
    {p : Nat} (hspins : Spins first t p n) : Spins lalr t p n := by
  obtain ⟨above, hsilent⟩ := hspins
  have hmono : Silent first t ≤ Silent lalr t := fun _ _ hstep => hstep.of_within h
  exact ⟨above, TransGen.mono hmono _ _ hsilent⟩

end Automaton

/-! ## Parsers -/

namespace Parser

open Automaton

/-- A parser halts on every input, if the end marker is known to follow the start symbol, every
nonterminal derives a terminal string, and there is an automaton with `Merging.lalr`.  The parser
itself may be made with either kind of merging. -/
theorem parse_halts_of_followed {declarations : List Declaration} {g : Grammar}
    {lalr a : Automaton} {merging : Merging} {p : Parser}
    (hg : Grammar.define declarations = .ok g) (hproductive : g.Productive)
    (hend : g.endMarker ∈ g.firstFollow.follow.get g.startSymbol)
    (hlalr : Automaton.build g .lalr = .ok lalr) (ha : Automaton.build g merging = .ok a)
    (hp : p.table = a.table g) (input : Input) :
    ∃ fuel verdict p', p.parse fuel input = some (verdict, p') := by
  have hwell := Grammar.wellFormed_of_define hg
  have hnone : ∀ t q n, ¬ Spins lalr t q n := fun t q n =>
    not_spins_of_followed hwell hproductive (.inr (.inl ⟨rfl, hend⟩)) hlalr
  apply (halts_iff_not_spinning hwell (consistent_of_build hwell ha) hp input).2
  intro c _ hspinning
  cases hspinning with
  | mk _ hspins _ =>
      cases merging with
      | firstFound => exact hnone _ _ _ (hspins.of_within (within_of_build hwell ha hlalr).2)
      | lalr =>
          obtain rfl : lalr = a := Except.ok.inj (hlalr.symm.trans ha)
          exact hnone _ _ _ hspins

/-- Parsers for `S := X Y`, `X := x`, `Y := Blank` and `Z := S $` always halt. -/
theorem parse_halts_followedEnd : ∃ g lalr,
    Grammar.define followedEnd = .ok g ∧ Automaton.build g .lalr = .ok lalr ∧ g.Productive ∧
    g.endMarker ∈ g.firstFollow.follow.get g.startSymbol ∧
    ∀ merging a, Automaton.build g merging = .ok a → ∀ input, ∃ fuel verdict p',
      (ofTable (a.table g)).parse fuel input = some (verdict, p') := by
  have hpasses : passes followedEnd .lalr (fun g _ => hasVanishingEnd g &&
      decide (g.endMarker ∈ g.firstFollow.follow.get g.startSymbol ∧
        g.vocabulary.nonterminals.length = 5 ∧
        ⟨5, ⟨4⟩, [.nonterminal ⟨1⟩, .terminal ⟨1⟩], false⟩ ∈ g.rules)) = true := by decide +kernel
  obtain ⟨g, lalr, hg, hlalr, hcheck⟩ := exists_of_passes hpasses
  rw [Bool.and_eq_true] at hcheck
  obtain ⟨hfollow, hlength, hz⟩ := of_decide_eq_true hcheck.2
  obtain ⟨hstart, -, -, hx, hy⟩ := of_decide_eq_true hcheck.1
  obtain ⟨-, hs⟩ := derives_of_hasVanishingEnd hcheck.1
  rw [hstart] at hs
  have hproductive : g.Productive := by
    rintro ⟨i⟩ ⟨hne, hlt⟩
    have hsmall : i < 5 := hlength ▸ hlt
    obtain rfl | rfl | rfl | rfl | rfl : i = 0 ∨ i = 1 ∨ i = 2 ∨ i = 3 ∨ i = 4 := by omega
    · exact absurd rfl hne
    · exact ⟨[⟨2⟩], hs⟩
    · exact ⟨[⟨2⟩], .of_rule hx⟩
    · exact ⟨[], .of_rule hy⟩
    · exact ⟨[⟨2⟩, ⟨1⟩], (Grammar.Derives.of_rule hz).trans (hs.within [] [.terminal ⟨1⟩])⟩
  refine ⟨g, lalr, hg, hlalr, hproductive, hfollow, fun merging a ha => ?_⟩
  exact parse_halts_of_followed hg hproductive hfollow hlalr ha rfl

end Parser

end ShiftReduce
