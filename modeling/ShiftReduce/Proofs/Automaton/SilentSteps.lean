import Mathlib.Data.Finite.Prod
import Mathlib.Data.Set.Finite.Lattice
import Mathlib.Order.OrderIsoNat
import ShiftReduce.Proofs.Automaton.UnitReductions

/-!
# Silent steps

Between two tokens a parser only moves over the heads of the productions that it reduces.  One
such step leads from a stack of states, with a nonterminal to be moved over, to another stack and
another nonterminal (`Silent`).  It depends on nothing but the terminal that comes next.

A state *spins* on a nonterminal before a terminal (`Spins`) if silent steps lead from there back
to the state and the nonterminal without touching what is below.

* `exists_spins`: silent steps without end come to a place that spins.
* `not_spins`: with `Merging.lalr`, and without blank bodies, nothing spins.

## Strategy

Unit reductions keep the height of the stack and blank ones let it grow, so heights do not
decrease.  But they cannot fall without end either: infinitely often the stack is as low as it
will ever be again, and at two of those times the state on top and the nonterminal are the same.
Between these two times nothing below the state is touched.
-/

namespace ShiftReduce.Automaton

open Relation (TransGen ReflTransGen)

variable {g : Grammar} {a : Automaton} {t : Terminal}

/-- The automaton moves over a nonterminal and reduces again before the terminal. -/
inductive Silent (a : Automaton) (t : Terminal) :
    List Nat × Nonterminal → List Nat × Nonterminal → Prop
  | step {p q : Nat} {below : List Nat} {n : Nonterminal} {r : Rule} :
      (a.look p).transition? (.nonterminal n) = some q → (a.look q).reduce? t = some r →
      r.head ≠ .accept → Silent a t (p :: below, n) ((q :: p :: below).drop r.arity, r.head)

/-- Silent steps lead from a state and a nonterminal back to them, above the state. -/
def Spins (a : Automaton) (t : Terminal) (p : Nat) (n : Nonterminal) : Prop :=
  ∃ above, TransGen (Silent a t) ([p], n) (p :: above, n)

/-! ## What is below -/

/-- A silent step starts with a transition. -/
theorem Silent.exists_top {x y : List Nat × Nonterminal} (h : Silent a t x y) :
    ∃ p below q, x.1 = p :: below ∧ (a.look p).transition? (.nonterminal x.2) = some q := by
  cases h with
  | step hq _ _ => exact ⟨_, _, _, rfl, hq⟩

theorem Silent.ne_nil {x y : List Nat × Nonterminal} (h : Silent a t x y) : x.1 ≠ [] := by
  obtain ⟨p, below, q, hx, -⟩ := h.exists_top
  exact hx ▸ List.cons_ne_nil p below

/-- A state goes on over a nonterminal on which it spins. -/
theorem Spins.exists_transition? {p : Nat} {n : Nonterminal} (h : Spins a t p n) :
    ∃ q, (a.look p).transition? (.nonterminal n) = some q := by
  obtain ⟨above, h⟩ := h
  obtain ⟨x, hx, -⟩ := TransGen.head'_iff.1 h
  obtain ⟨p', below, q, hstack, hq⟩ := hx.exists_top
  obtain ⟨rfl, -⟩ := List.cons.inj hstack
  exact ⟨q, hq⟩

theorem drop_above {states below : List Nat} {p q count : Nat}
    (hle : count ≤ (q :: p :: states).length) :
    (q :: p :: (states ++ below)).drop count = (q :: p :: states).drop count ++ below := by
  rw [← List.cons_append, ← List.cons_append, List.drop_append_of_le_length hle]

/-- Where a silent step leaves alone what is below, it can be made without that. -/
theorem Silent.of_append {states below states' : List Nat} {n m : Nonterminal}
    (h : Silent a t (states ++ below, n) (states', m)) (hne : states ≠ [])
    (hlt : below.length < states'.length) :
    ∃ above, above ≠ [] ∧ states' = above ++ below ∧ Silent a t (states, n) (above, m) := by
  obtain ⟨p, rest, rfl⟩ := List.exists_cons_of_ne_nil hne
  rw [List.cons_append] at h
  cases h with
  | @step _ q _ _ r hq hr haccept =>
      have hle : r.arity ≤ (q :: p :: rest).length := by
        simp only [List.length_drop, List.length_cons, List.length_append] at hlt ⊢
        omega
      refine ⟨(q :: p :: rest).drop r.arity, ?_, drop_above hle, .step hq hr haccept⟩
      intro hnil
      rw [drop_above hle, hnil, List.nil_append] at hlt
      exact lt_irrefl _ hlt

/-! ## Steps without end -/

/-- Infinitely often a sequence is as low as it will ever be again. -/
theorem exists_lowest (f : ℕ → ℕ) (start : ℕ) : ∃ i, start ≤ i ∧ ∀ j, i ≤ j → f i ≤ f j := by
  obtain ⟨i, hi, hmin⟩ := WellFounded.has_min (measure f).wf {i | start ≤ i} ⟨start, le_refl start⟩
  exact ⟨i, hi, fun j hj => Nat.not_lt.1 (hmin j (le_trans hi hj))⟩

/-- A sequence of silent steps that does not go below some height can be made from that height. -/
theorem chain_of_lowest {f : ℕ → List Nat × Nonterminal} (hf : ∀ i, Silent a t (f i) (f (i + 1)))
    {i : ℕ} {p : Nat} {below : List Nat} (hi : (f i).1 = p :: below)
    (hlow : ∀ j, i ≤ j → (f i).1.length ≤ (f j).1.length) {j : ℕ} (hj : i < j) :
    ∃ above, above ≠ [] ∧ (f j).1 = above ++ below ∧
      TransGen (Silent a t) ([p], (f i).2) (above, (f j).2) := by
  have hheight : ∀ k, i ≤ k → below.length < (f k).1.length := by
    intro k hk
    have hle := hlow k hk
    rw [hi, List.length_cons] at hle
    omega
  -- What is above at each time is a stack of its own, and the steps are made on that.
  have hnext : ∀ k above, i ≤ k → above ≠ [] → (f k).1 = above ++ below →
      ∃ above', above' ≠ [] ∧ (f (k + 1)).1 = above' ++ below ∧
        Silent a t (above, (f k).2) (above', (f (k + 1)).2) := by
    intro k above hk hne habove
    have hstep : Silent a t (above ++ below, (f k).2) ((f (k + 1)).1, (f (k + 1)).2) :=
      habove ▸ hf k
    exact hstep.of_append hne (hheight (k + 1) (Nat.le_succ_of_le hk))
  induction j, hj using Nat.le_induction with
  | base =>
      obtain ⟨above, hne, habove, hstep⟩ := hnext i [p] (Nat.le_refl i) (List.cons_ne_nil _ _) hi
      exact ⟨above, hne, habove, .single hstep⟩
  | succ k hk ih =>
      obtain ⟨above, hne, habove, hsteps⟩ := ih
      obtain ⟨above', hne', habove', hstep⟩ := hnext k above (Nat.le_of_succ_le hk) hne habove
      exact ⟨above', hne', habove', hsteps.tail hstep⟩

/-- Silent steps without end come to a place that spins. -/
theorem exists_spins (hg : g.WellFormed) (ha : a.Consistent g)
    {f : ℕ → List Nat × Nonterminal} (hf : ∀ i, Silent a t (f i) (f (i + 1))) :
    ∃ i p below n, f i = (p :: below, n) ∧ Spins a t p n := by
  have htop : ∀ i, ∃ p below, (f i).1 = p :: below ∧ p < a.states.length ∧
      (f i).2.index < g.vocabulary.nonterminals.length := by
    intro i
    obtain ⟨p, below, q, hstack, hq⟩ := (hf i).exists_top
    exact ⟨p, below, hstack, Consistent.lt_length_of_transition? hq,
      (ha.declares_of_transition? hg hq).2⟩
  choose top below hstack hstate hsymbol using htop
  -- The times from which on the stack never gets lower.
  obtain ⟨φ, hmono, hlow⟩ := Nat.exists_strictMono_subsequence fun start =>
    exists_lowest (fun i => (f i).1.length) (start + 1)
  -- The state on top and the nonterminal come from a finite set.
  have hmaps : ∀ k, (top (φ k), (f (φ k)).2.index) ∈
      Set.Iio a.states.length ×ˢ Set.Iio g.vocabulary.nonterminals.length :=
    fun k => ⟨hstate (φ k), hsymbol (φ k)⟩
  obtain ⟨k, l, hkl, heq⟩ := Set.Finite.exists_lt_map_eq_of_forall_mem hmaps
    (Set.Finite.prod (Set.finite_Iio _) (Set.finite_Iio _))
  obtain ⟨heqtop, heqsymbol⟩ := Prod.mk.injEq .. ▸ heq
  have hn : (f (φ k)).2 = (f (φ l)).2 := congrArg Nonterminal.mk heqsymbol
  obtain ⟨above, hne, habove, hchain⟩ :=
    chain_of_lowest hf (hstack (φ k)) (hlow k) (hmono hkl)
  obtain ⟨q, above', rfl⟩ := List.exists_cons_of_ne_nil hne
  obtain rfl : q = top (φ k) := by
    rw [hstack (φ l), List.cons_append, List.cons.injEq] at habove
    rw [heqtop]
    exact habove.1.symm
  rw [← hn] at hchain
  exact ⟨φ k, top (φ k), below (φ k), (f (φ k)).2, Prod.ext (hstack (φ k)) rfl, above', hchain⟩

/-! ## Without blank bodies -/

section EpsilonFree

variable (hg : g.WellFormed) (hfree : g.EpsilonFree)

include hg hfree

/-- What is reduced right after a transition over a nonterminal, and takes one symbol, is that
nonterminal. -/
theorem body_eq_of_arity {p q : Nat} {n : Nonterminal} {r : Rule} (ha : a.Consistent g)
    (hq : (a.look p).transition? (.nonterminal n) = some q)
    (hr : (a.look q).reduce? t = some r) (harity : r.arity = 1) : r.body = [.nonterminal n] := by
  have hlength : r.body.length = 1 := by
    rw [← hfree.matched_eq hg (ha.mem_allRules_of_reduce? hr), Rule.length_matched, harity]
  have hkernel := Item.mem_core_of_expects (expects_kernel_of_reduce? hg hfree ha hr)
  rw [hlength] at hkernel
  obtain ⟨e, -, hnext, hadvance⟩ := ha.mem_closure_of_transition? hq hkernel
  obtain rfl : e = ⟨r, 0⟩ := DottedRule.advance_inj hadvance
  obtain ⟨x, hx⟩ := List.length_eq_one_iff.1 hlength
  rw [DottedRule.next?, hx] at hnext
  rw [hx]
  simpa using hnext

/-- A silent step that does not go below a single state is a unit reduction. -/
theorem unitStep_of_silent (ha : a.Consistent g) {p : Nat} {n : Nonterminal}
    {y : List Nat × Nonterminal} (h : Silent a t ([p], n) y) (hne : y.1 ≠ []) :
    y.1 = [p] ∧ UnitStep a t p n y.2 := by
  cases h with
  | @step _ q _ _ r hq hr haccept =>
      have hpos := hfree.arity_pos hg (ha.mem_allRules_of_reduce? hr)
      have hle : r.arity ≤ 1 := by
        by_contra hlt
        apply hne
        apply List.drop_eq_nil_of_le
        simp only [List.length_cons, List.length_nil]
        omega
      have harity : r.arity = 1 := by omega
      refine ⟨by rw [harity]; rfl, q, r, hq, hr, ?_, rfl, haccept⟩
      exact body_eq_of_arity hg hfree ha hq hr harity

/-- So many of them are unit reductions as well. -/
theorem unitSteps_of_silent (ha : a.Consistent g) {p : Nat} {n m : Nonterminal}
    {states : List Nat} (h : TransGen (Silent a t) ([p], n) (states, m)) (hne : states ≠ []) :
    states = [p] ∧ TransGen (UnitStep a t p) n m := by
  generalize hx : (([p], n) : List Nat × Nonterminal) = x at h
  induction h using TransGen.head_induction_on generalizing n with
  | single hstep =>
      subst hx
      obtain ⟨hstates, hunit⟩ := unitStep_of_silent hg hfree ha hstep hne
      exact ⟨hstates, .single hunit⟩
  | @head x y hstep hrest ih =>
      subst hx
      have hy : y.1 ≠ [] := by
        obtain ⟨z, hyz, -⟩ := TransGen.head'_iff.1 hrest
        exact hyz.ne_nil
      obtain ⟨hstates, hunit⟩ := unitStep_of_silent hg hfree ha hstep hy
      obtain ⟨hsame, hchain⟩ := ih (Prod.ext hstates.symm rfl)
      exact ⟨hsame, .head hunit hchain⟩

/-- With `Merging.lalr`, and without blank bodies, nothing spins. -/
theorem not_spins (ha : a.Saturated g) {p : Nat} {n : Nonterminal} : ¬ Spins a t p n := by
  rintro ⟨above, h⟩
  obtain ⟨-, hcycle⟩ := unitSteps_of_silent hg hfree ha.toConsistent h (List.cons_ne_nil _ _)
  exact not_unitCycle ha hg hfree hcycle

end EpsilonFree

end ShiftReduce.Automaton
