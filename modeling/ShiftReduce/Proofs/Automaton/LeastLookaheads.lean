import Mathlib.Order.Bounds.Basic
import Mathlib.Data.Set.Basic
import ShiftReduce.Grammar.Samples
import ShiftReduce.Proofs.Automaton.Due
import ShiftReduce.Proofs.Parser.Run

/-!
# The least lookaheads

With `Merging.lalr` the lookaheads of all states together are the least family of sets that is
closed under the three ways in which lookaheads come about (`Closed`): from what comes after a
nonterminal, from an item to its last symbol, and over a transition (`isLeast_lookaheads`).
Closed means that nothing is outdated, and least that nothing is there without a reason.

Both have been shown before: an automaton without dirty states is closed (`Saturated`), and its
lookaheads are due (`due_of_build`), so that every closed family has them.
-/

namespace ShiftReduce.Automaton

/-- The lookaheads of a state, for each core of its kernel and each pending nonterminal. -/
def lookaheads (a : Automaton) (q : Nat) : Keeper → Set Terminal := (a.look q).items.lookaheadsOf

/-- A family of lookaheads for the states of an automaton has the end marker behind the accepting
production, and of every item it hands on what comes after the next symbol, its own lookaheads
if nothing does, and its own lookaheads when the marker moves. -/
structure Closed (g : Grammar) (a : Automaton) (family : Nat → Keeper → Set Terminal) : Prop where
  start : g.endMarker ∈ family startState (.kernel ⟨g.acceptRule, 0⟩)
  beyond : ∀ q d keeper n x, (a.look q).items.Keeps g d keeper →
    d.next? = some (.nonterminal n) → d.beyond? = some x →
    ∀ t ∈ g.firstFollow.firstOf x, t ∈ family q (.pending n)
  last : ∀ q d keeper n, (a.look q).items.Keeps g d keeper →
    d.next? = some (.nonterminal n) → d.beyond? = none → family q keeper ⊆ family q (.pending n)
  advance : ∀ p x q d keeper, (x, q) ∈ (a.look p).transitions →
    (a.look p).items.Keeps g d keeper → d.next? = some x →
    family p keeper ⊆ family q (.kernel d.advance)

variable {g : Grammar} {a : Automaton}

/-- What is due is in every closed family. -/
theorem Closed.mem_of_due {family : Nat → Keeper → Set Terminal} (h : Closed g a family) {q : Nat}
    {keeper : Keeper} {t : Terminal} (hdue : Due g g.firstFollow a.look q keeper t) :
    t ∈ family q keeper := by
  induction hdue with
  | start => exact h.start
  | beyond hkeeps hn hx ht => exact h.beyond _ _ _ _ _ hkeeps hn hx _ ht
  | last hkeeps hn hlast _ ih => exact h.last _ _ _ _ hkeeps hn hlast ih
  | advance hedge hkeeps hx _ ih => exact h.advance _ _ _ _ _ hedge hkeeps hx ih

/-- The lookaheads of a saturated automaton are closed. -/
theorem Saturated.closed (ha : a.Saturated g) : Closed g a a.lookaheads := by
  have hexpects : ∀ {q : Nat} {d : DottedRule} {keeper : Keeper} {t : Terminal},
      (a.look q).items.Keeps g d keeper → t ∈ a.lookaheads q keeper →
        (a.look q).Expects g d t :=
    fun hkeeps ht => ItemSet.expects_iff_exists_keeps.2 ⟨_, hkeeps, ht⟩
  constructor
  case start => exact ha.sourced.start
  case beyond =>
    intro q d keeper n x hkeeps hn hx t ht
    exact ha.pending_beyond (ha.shaped.inClosure_of_keeps hkeeps) hn hx ht
  case last =>
    intro q d keeper n hkeeps hn hlast t ht
    exact ha.pending_last (hexpects hkeeps ht) hn hlast
  case advance =>
    intro p x q d keeper hedge hkeeps hx t ht
    exact ha.arrived p x q hedge d t (hexpects hkeeps ht) hx

/-- To find the pending nonterminals of a saturated state anew changes no lookaheads. -/
theorem Saturated.lookaheadsOf_refresh (hg : g.WellFormed) (ha : a.Saturated g) (q : Nat) :
    ((a.look q).items.refresh g g.firstFollow).lookaheadsOf = a.lookaheads q := by
  funext keeper
  cases keeper with
  | kernel d => rfl
  | pending n =>
      ext t
      calc Pending.Expects ((a.look q).items.refresh g g.firstFollow).pendings n t
          ↔ Foreseen g g.firstFollow (a.look q).items.kernels n t :=
            Expansion.expects_ofKernels hg hg.declared_firstFollow (ha.shaped.rule_mem q)
        _ ↔ Pending.Expects (a.look q).items.pendings n t := ⟨ha.expects q n t, ha.foreseen q n t⟩

/-- With `Merging.lalr` the lookaheads of the kernels and of the pending nonterminals of all
states are the least family that is closed, and the pending nonterminals are up to date with
their kernels. -/
theorem isLeast_lookaheads {declarations : List Declaration}
    (hg : Grammar.define declarations = .ok g) (ha : build g .lalr = .ok a) :
    IsLeast {family | Closed g a family} a.lookaheads ∧
    ∀ q, ((a.look q).items.refresh g g.firstFollow).lookaheadsOf = a.lookaheads q := by
  have hg := Grammar.wellFormed_of_define hg
  have hsaturated := saturated_of_build hg ha
  refine ⟨⟨hsaturated.closed, ?_⟩, hsaturated.lookaheadsOf_refresh hg⟩
  intro family hclosed q keeper t ht
  exact hclosed.mem_of_due (due_of_build hg ha ht)

/-- The state behind `e` is made with the lookahead `c`, and `d` arrives later.  Both are there, and
nothing else. -/
theorem isLeast_lookaheads_lateLookahead : ∃ g a,
    Grammar.define Samples.lateLookahead = .ok g ∧ build g .lalr = .ok a ∧
    (IsLeast {family | Closed g a family} a.lookaheads ∧
      ∀ q, ((a.look q).items.refresh g g.firstFollow).lookaheadsOf = a.lookaheads q) ∧
    a.lookaheads 5 (.kernel ⟨⟨4, ⟨2⟩, [.terminal ⟨6⟩], false⟩, 1⟩) = {⟨4⟩, ⟨5⟩} := by
  have hpasses : passes Samples.lateLookahead .lalr (fun _ a => (a.look 5).items.kernels =
      [⟨⟨⟨4, ⟨2⟩, [.terminal ⟨6⟩], false⟩, 1⟩, ⟨[⟨4⟩, ⟨5⟩], by decide⟩⟩]) = true := by
    decide +kernel
  obtain ⟨g, a, hg, ha, hcheck⟩ := exists_of_passes hpasses
  refine ⟨g, a, hg, ha, isLeast_lookaheads hg ha, ?_⟩
  ext t
  simp [lookaheads, ItemSet.lookaheadsOf, Item.Expects, of_decide_eq_true hcheck,
    OrderedSet.mem_def]

end ShiftReduce.Automaton
