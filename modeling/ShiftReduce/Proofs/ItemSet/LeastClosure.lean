import ShiftReduce.Proofs.FirstFollow.LeastSolution
import ShiftReduce.Proofs.ItemSet.Closure

/-!
# Closures are least

An expansion has one entry for each nonterminal and comes back to a nonterminal whenever its entry
has grown, so that what it hands on depends on when it looks.  In the end nothing of this is left:
the pending nonterminals are those that are reached from the symbols after the markers of the
kernel (`Reached`), and their lookaheads are the least sets that take in what the kernel and the
productions of pending nonterminals have to hand on (`Supplied`, `isLeast_close`).

The kernel is any list of items of the grammar that is not refused: items may be there more than
once, and markers may stand beyond the ends of bodies.
-/

namespace ShiftReduce

variable {g : Grammar} {kernels : List Item}

/-- A production of the first nonterminal begins with the second. -/
def Grammar.LeadsTo (g : Grammar) (m n : Nonterminal) : Prop :=
  ∃ r ∈ g.productionsOf m, ∃ rest, r.body = .nonterminal n :: rest

/-- A nonterminal is reached from a symbol after a marker of a kernel, from one leading nonterminal
to the next. -/
def Reached (g : Grammar) (kernels : List Item) (n : Nonterminal) : Prop :=
  ∃ k ∈ kernels, ∃ m, k.core.next? = some (.nonterminal m) ∧ Relation.ReflTransGen g.LeadsTo m n

theorem awaited_iff_reached {n : Nonterminal} :
    Awaited g (kernels.map (·.core)) n ↔ Reached g kernels n := by
  constructor
  · intro h
    induction h with
    | kernel hd hn =>
        obtain ⟨k, hk, rfl⟩ := List.mem_map.1 hd
        exact ⟨k, hk, _, hn, .refl⟩
    | rule _ hr hbody ih =>
        obtain ⟨k, hk, m, hm, hreach⟩ := ih
        exact ⟨k, hk, m, hm, hreach.tail ⟨_, hr, _, hbody⟩⟩
  · rintro ⟨k, hk, m, hm, hreach⟩
    induction hreach with
    | refl => exact .kernel (List.mem_map_of_mem hk) hm
    | tail _ hlead ih =>
        obtain ⟨r, hr, rest, hbody⟩ := hlead
        exact .rule ih hr hbody

/-- A family takes in what a kernel and the productions of the nonterminals that are reached from it
have to hand on to the next symbol: FIRST of the symbol behind it, or, if there is none, the
lookaheads of the item. -/
structure Supplied (g : Grammar) (kernels : List Item) (family : TerminalFamily) : Prop where
  kernel_beyond : ∀ k ∈ kernels, ∀ (n : Nonterminal) (x : Symbol),
    k.core.next? = some (.nonterminal n) → k.core.beyond? = some x →
    g.firstFollow.firstFamily.of x ⊆ family n
  kernel_last : ∀ k ∈ kernels, ∀ n : Nonterminal, k.core.next? = some (.nonterminal n) →
    k.core.beyond? = none → {t | t ∈ k.lookaheads} ⊆ family n
  rule_beyond : ∀ m, Reached g kernels m → ∀ r ∈ g.productionsOf m,
    ∀ (n : Nonterminal) (x : Symbol) (rest : List Symbol), r.body = .nonterminal n :: x :: rest →
    g.firstFollow.firstFamily.of x ⊆ family n
  rule_last : ∀ m, Reached g kernels m → ∀ r ∈ g.productionsOf m, ∀ n : Nonterminal,
    r.body = [.nonterminal n] → family m ⊆ family n

/-- What is foreseen is handed on. -/
theorem supplied_foreseen (g : Grammar) (kernels : List Item) :
    Supplied g kernels fun n => {t | Foreseen g g.firstFollow kernels n t} where
  kernel_beyond := by
    intro k hk n x hn hx t ht
    refine .kernel hk hn ?_
    rw [hx]
    exact FirstFollow.mem_of_firstFamily.1 ht
  kernel_last := by
    intro k hk n hn hlast t ht
    refine .kernel hk hn ?_
    rw [hlast]
    exact ht
  rule_beyond := by
    intro m hm r hr n x rest hbody t ht
    exact .beyond (awaited_iff_reached.2 hm) hr hbody (FirstFollow.mem_of_firstFamily.1 ht)
  rule_last := fun _ _ _ hr _ hbody _ ht => .last ht hr hbody

/-- Every family that takes in what is handed on has what is foreseen. -/
theorem Supplied.mem_of_foreseen {family : TerminalFamily} (h : Supplied g kernels family)
    {n : Nonterminal} {t : Terminal} (ht : Foreseen g g.firstFollow kernels n t) :
    t ∈ family n := by
  induction ht with
  | @kernel k n t hk hn ht =>
      cases hbeyond : k.core.beyond? with
      | none =>
          rw [hbeyond] at ht
          exact h.kernel_last k hk n hn hbeyond ht
      | some x =>
          rw [hbeyond] at ht
          exact h.kernel_beyond k hk n x hn hbeyond (FirstFollow.mem_of_firstFamily.2 ht)
  | beyond hm hr hbody ht =>
      exact h.rule_beyond _ (awaited_iff_reached.1 hm) _ hr _ _ _ hbody
        (FirstFollow.mem_of_firstFamily.2 ht)
  | last hm hr hbody ih =>
      exact h.rule_last _ (awaited_iff_reached.1 hm.awaited) _ hr _ hbody ih

namespace ItemSet

variable {s : ItemSet}

/-- The lookaheads of the pending nonterminals as a family. -/
def family (s : ItemSet) : TerminalFamily := fun n => {t | Pending.Expects s.pendings n t}

/-- The item set of a kernel has the kernel as it is, and one entry for each nonterminal that is
reached from the kernel.  The lookaheads in the entries are the least sets that take in all that is
handed on. -/
theorem isLeast_close {declarations : List Declaration} (hg : Grammar.define declarations = .ok g)
    (hkernels : ∀ k ∈ kernels, k.core.rule ∈ g.allRules)
    (hclose : close g g.firstFollow kernels = .ok s) :
    s.kernels = kernels ∧ (s.pendings.map (·.symbol)).Nodup ∧
    (∀ n, n ∈ s.pendings.map (·.symbol) ↔ Reached g kernels n) ∧
    IsLeast {family | Supplied g kernels family} s.family := by
  have hg := Grammar.wellFormed_of_define hg
  obtain ⟨-, rfl⟩ := close_eq_ok_iff.1 hclose
  have hfamily : (ofKernels g g.firstFollow kernels).family =
      fun n => {t | Foreseen g g.firstFollow kernels n t} := by
    funext n
    exact Set.ext fun t => Expansion.expects_ofKernels hg hg.declared_firstFollow hkernels
  refine ⟨rfl, Expansion.nodup_ofKernels, fun n => ?_, ?_, ?_⟩
  · exact (Expansion.mem_symbol_ofKernels hg hg.declared_firstFollow hkernels).trans
      awaited_iff_reached
  · rw [hfamily]
    exact supplied_foreseen g kernels
  · rw [hfamily]
    exact fun family h n t ht => h.mem_of_foreseen ht

/-- `E := E + F | F`, `F := E | x`. -/
def unitCycle : List Declaration :=
  [.sentinel .blank "Blank", .sentinel .endMarker "$", .terminal "+", .terminal "x",
    .nonterminal "E", .nonterminal "F", .start ⟨1⟩,
    .rule (.nonterminal ⟨1⟩) [.nonterminal ⟨1⟩, .terminal ⟨2⟩, .nonterminal ⟨2⟩],
    .rule (.nonterminal ⟨1⟩) [.nonterminal ⟨2⟩], .rule (.nonterminal ⟨2⟩) [.nonterminal ⟨1⟩],
    .rule (.nonterminal ⟨2⟩) [.terminal ⟨3⟩]]

/-- A kernel with the accepting production twice, and with a marker beyond the end of a body. -/
def repeatingKernel : List Item :=
  [⟨⟨⟨1, ⟨0⟩, [.nonterminal ⟨1⟩], false⟩, 0⟩, .single ⟨1⟩⟩,
    ⟨⟨⟨2, ⟨1⟩, [.nonterminal ⟨1⟩, .terminal ⟨2⟩, .nonterminal ⟨2⟩], false⟩, 7⟩, .single ⟨1⟩⟩,
    ⟨⟨⟨1, ⟨0⟩, [.nonterminal ⟨1⟩], false⟩, 0⟩, .single ⟨3⟩⟩]

/-- The sum makes the lookaheads of `E` grow while the productions of `E` are looked at, and `F`
hands them back to `E`. -/
theorem isLeast_close_repeatingKernel : ∃ g s, Grammar.define unitCycle = .ok g ∧
    (∀ k ∈ repeatingKernel, k.core.rule ∈ g.allRules) ∧
    close g g.firstFollow repeatingKernel = .ok s ∧
    (s.kernels = repeatingKernel ∧ (s.pendings.map (·.symbol)).Nodup ∧
      (∀ n, n ∈ s.pendings.map (·.symbol) ↔ Reached g repeatingKernel n) ∧
      IsLeast {family | Supplied g repeatingKernel family} s.family) ∧
    s.pendings.map (fun p => (p.symbol, p.lookaheads.toList)) =
      [(⟨1⟩, [⟨1⟩, ⟨3⟩, ⟨2⟩]), (⟨2⟩, [⟨1⟩, ⟨3⟩, ⟨2⟩])] := by
  have hpasses : Grammar.passes unitCycle (fun g =>
      (∀ k ∈ repeatingKernel, k.core.rule ∈ g.allRules) ∧
      (ofKernels g g.firstFollow repeatingKernel).pendings.map
          (fun p => (p.symbol, p.lookaheads.toList)) =
        [(⟨1⟩, [⟨1⟩, ⟨3⟩, ⟨2⟩]), (⟨2⟩, [⟨1⟩, ⟨3⟩, ⟨2⟩])]) = true := by decide +kernel
  obtain ⟨g, hg, hcheck⟩ := Grammar.exists_of_passes hpasses
  obtain ⟨hkernels, hpendings⟩ := of_decide_eq_true hcheck
  have hclose : close g g.firstFollow repeatingKernel =
      .ok (ofKernels g g.firstFollow repeatingKernel) := rfl
  exact ⟨g, _, hg, hkernels, hclose, isLeast_close hg hkernels hclose, hpendings⟩

end ItemSet

end ShiftReduce
