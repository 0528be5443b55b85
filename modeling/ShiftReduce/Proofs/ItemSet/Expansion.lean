import Mathlib.Data.Finset.Option
import Mathlib.Data.Finset.Prod
import ShiftReduce.ItemSet.Expansion
import ShiftReduce.Proofs.Grammar.Productions
import ShiftReduce.Proofs.Growth
import ShiftReduce.Proofs.Queue

/-!
# What an expansion finds

The expansion of a kernel ends with the least pending nonterminals and the least
lookaheads that its rules ask for.  The two sides are the worklist of `Expansion.next` and
the inductive predicates `Awaited` and `Foreseen`, which do not mention it.

* `mem_pendings_ofKernels`: what is pending in the end is what is awaited.
* `expects_ofKernels`: the lookaheads in the end are those that are foreseen.

## Strategy

One direction is an invariant, `Expansion.Sound`: nothing is added without a reason.  For
the other, `Expansion.Served` says of a production that it has handed on all it has.  A
production stays served as long as its head gets no further lookahead, and a head that gets
one is waiting in the queue (`Expansion.Grows`).  So in the end, when nothing waits, all
productions of pending nonterminals are served.

The queue becomes empty: whoever enters it brings a new fact along, and there are only so
many nonterminals and lookaheads.
-/

namespace ShiftReduce

/-! ## The least pending nonterminals and lookaheads -/

/-- A nonterminal comes next in an item of a kernel, or at the start of a production of a
nonterminal that is awaited. -/
inductive Awaited (g : Grammar) (cores : List DottedRule) : Nonterminal → Prop
  | kernel {d : DottedRule} {n : Nonterminal} : d ∈ cores → d.next? = some (.nonterminal n) →
      Awaited g cores n
  | rule {m n : Nonterminal} {r : Rule} {rest : List Symbol} : Awaited g cores m →
      r ∈ g.productionsOf m → r.body = .nonterminal n :: rest → Awaited g cores n

/-- A terminal may follow a nonterminal that is awaited. -/
inductive Foreseen (g : Grammar) (sets : FirstFollow) (kernels : List Item) :
    Nonterminal → Terminal → Prop
  | kernel {k : Item} {n : Nonterminal} {t : Terminal} : k ∈ kernels →
      k.core.next? = some (.nonterminal n) →
      t ∈ Expansion.following sets k.core.beyond? k.lookaheads → Foreseen g sets kernels n t
  | beyond {m n : Nonterminal} {r : Rule} {x : Symbol} {rest : List Symbol} {t : Terminal} :
      Awaited g (kernels.map (·.core)) m → r ∈ g.productionsOf m →
      r.body = .nonterminal n :: x :: rest → t ∈ sets.firstOf x → Foreseen g sets kernels n t
  | last {m n : Nonterminal} {r : Rule} {t : Terminal} : Foreseen g sets kernels m t →
      r ∈ g.productionsOf m → r.body = [.nonterminal n] → Foreseen g sets kernels n t

theorem Foreseen.awaited {g : Grammar} {sets : FirstFollow} {kernels : List Item} {n : Nonterminal}
    {t : Terminal} (h : Foreseen g sets kernels n t) : Awaited g (kernels.map (·.core)) n := by
  induction h with
  | kernel hk hn _ => exact .kernel (List.mem_map_of_mem hk) hn
  | beyond hm hr hbody _ => exact .rule hm hr hbody
  | last _ hr hbody ih => exact .rule ih hr hbody

/-! ## Lists of pending nonterminals -/

namespace Pending

/-- A terminal is a lookahead of a nonterminal in a list. -/
def Expects (pendings : List Pending) (n : Nonterminal) (t : Terminal) : Prop :=
  ∃ p ∈ pendings, p.symbol = n ∧ t ∈ p.lookaheads

theorem mem_symbol_of_expects {pendings : List Pending} {n : Nonterminal} {t : Terminal}
    (h : Expects pendings n t) : n ∈ pendings.map (·.symbol) := by
  obtain ⟨p, hp, rfl, -⟩ := h
  exact List.mem_map_of_mem hp

theorem expects_cons {p : Pending} {rest : List Pending} {n : Nonterminal} {t : Terminal} :
    Expects (p :: rest) n t ↔ (p.symbol = n ∧ t ∈ p.lookaheads) ∨ Expects rest n t := by
  simp [Expects]

/-- The entry that a search by symbol finds has the lookaheads of that symbol. -/
theorem mem_lookaheads_find? {pendings : List Pending} {n : Nonterminal} {t : Terminal}
    (hnodup : (pendings.map (·.symbol)).Nodup) :
    (∃ p, pendings.find? (·.symbol = n) = some p ∧ t ∈ p.lookaheads) ↔ Expects pendings n t := by
  induction pendings with
  | nil => simp [Expects]
  | cons p rest ih =>
      rw [List.map_cons, List.nodup_cons] at hnodup
      rw [expects_cons]
      by_cases h : p.symbol = n
      · have hrest : ¬ Expects rest n t := fun hr => hnodup.1 (h ▸ mem_symbol_of_expects hr)
        simp [h, hrest]
      · simp [h, ih hnodup.2]

end Pending

namespace Expansion

open Pending (Expects)

theorem mem_symbol_await {n m : Nonterminal} {lookaheads : OrderedSet Terminal}
    {pendings : List Pending} :
    m ∈ (await n lookaheads pendings).map (·.symbol) ↔
      m ∈ pendings.map (·.symbol) ∨ m = n := by
  induction pendings with
  | nil => simp [await]
  | cons p rest ih =>
      unfold await
      split
      · rename_i h
        simp only [List.map_cons, List.mem_cons, h]
        tauto
      · simp only [List.map_cons, List.mem_cons, ih, or_assoc]

theorem nodup_await {n : Nonterminal} {lookaheads : OrderedSet Terminal}
    {pendings : List Pending} (h : (pendings.map (·.symbol)).Nodup) :
    ((await n lookaheads pendings).map (·.symbol)).Nodup := by
  induction pendings with
  | nil => simp [await]
  | cons p rest ih =>
      rw [List.map_cons, List.nodup_cons] at h
      unfold await
      split
      · rename_i hp
        rw [List.map_cons, List.nodup_cons, ← hp]
        exact h
      · rename_i hp
        rw [List.map_cons, List.nodup_cons, mem_symbol_await]
        exact ⟨fun hmem => hmem.elim h.1 hp, ih h.2⟩

theorem expects_await {n m : Nonterminal} {t : Terminal} {lookaheads : OrderedSet Terminal}
    {pendings : List Pending} :
    Expects (await n lookaheads pendings) m t ↔
      Expects pendings m t ∨ (m = n ∧ t ∈ lookaheads) := by
  induction pendings with
  | nil => simp [await, Expects, eq_comm]
  | cons p rest ih =>
      unfold await
      split
      · rename_i h
        rw [Pending.expects_cons, Pending.expects_cons, OrderedSet.mem_union, h]
        constructor
        · rintro (⟨rfl, ht | ht⟩ | ht)
          exacts [.inl (.inl ⟨rfl, ht⟩), .inr ⟨rfl, ht⟩, .inl (.inr ht)]
        · rintro ((⟨rfl, ht⟩ | ht) | ⟨rfl, ht⟩)
          exacts [.inl ⟨rfl, .inl ht⟩, .inr ht, .inl ⟨rfl, .inr ht⟩]
      · rw [Pending.expects_cons, Pending.expects_cons, ih, or_assoc]

theorem mem_lookaheads {e : Expansion} (hnodup : (e.pendings.map (·.symbol)).Nodup)
    {n : Nonterminal} {t : Terminal} : t ∈ e.lookaheads n ↔ Expects e.pendings n t := by
  rw [← Pending.mem_lookaheads_find? hnodup, lookaheads]
  cases e.pendings.find? (·.symbol = n) with
  | none => simp
  | some p => simp

theorem knows_iff {e : Expansion} (hnodup : (e.pendings.map (·.symbol)).Nodup)
    {n : Nonterminal} {lookaheads : OrderedSet Terminal} :
    e.knows n lookaheads = true ↔
      n ∈ e.pendings.map (·.symbol) ∧ ∀ t ∈ lookaheads, Expects e.pendings n t := by
  have hview := fun t => Pending.mem_lookaheads_find? (n := n) (t := t) hnodup
  unfold knows
  cases hfind : e.pendings.find? (·.symbol = n) with
  | none =>
      have : n ∉ e.pendings.map (·.symbol) := by
        simpa [List.find?_eq_none] using hfind
      simp [this]
  | some p =>
      have hmem : n ∈ e.pendings.map (·.symbol) :=
        List.mem_map.2 ⟨p, List.mem_of_find?_eq_some hfind, by simpa using List.find?_some hfind⟩
      simp only [hfind, Option.some.injEq, exists_eq_left'] at hview
      simp only [List.all_eq_true, decide_eq_true_eq, hmem, true_and, ← hview]
      rfl

/-! ## Growth -/

/-- One expansion has found all that another one has, and whatever has changed waits. -/
structure Grows (e e' : Expansion) : Prop where
  symbols : ∀ n ∈ e.pendings.map (·.symbol), n ∈ e'.pendings.map (·.symbol)
  expects : ∀ n t, Expects e.pendings n t → Expects e'.pendings n t
  queue : ∀ n ∈ e.queue.toList, n ∈ e'.queue.toList
  symbols_of_settled : ∀ n, n ∉ e'.queue.toList → n ∈ e'.pendings.map (·.symbol) →
    n ∈ e.pendings.map (·.symbol)
  expects_of_settled : ∀ n, n ∉ e'.queue.toList → ∀ t, Expects e'.pendings n t →
    Expects e.pendings n t

theorem Grows.refl (e : Expansion) : e.Grows e :=
  ⟨fun _ h => h, fun _ _ h => h, fun _ h => h, fun _ _ h => h, fun _ _ _ h => h⟩

theorem Grows.trans {e e' e'' : Expansion} (h : e.Grows e') (h' : e'.Grows e'') :
    e.Grows e'' where
  symbols n hn := h'.symbols n (h.symbols n hn)
  expects n t ht := h'.expects n t (h.expects n t ht)
  queue n hn := h'.queue n (h.queue n hn)
  symbols_of_settled n hn hmem :=
    h.symbols_of_settled n (fun hq => hn (h'.queue n hq)) (h'.symbols_of_settled n hn hmem)
  expects_of_settled n hn t ht :=
    h.expects_of_settled n (fun hq => hn (h'.queue n hq)) t (h'.expects_of_settled n hn t ht)

/-- Awaiting a nonterminal that enters the queue is growth. -/
theorem grows_await (e : Expansion) (n : Nonterminal) (lookaheads : OrderedSet Terminal) :
    e.Grows ⟨await n lookaheads e.pendings, e.queue.enqueue n⟩ where
  symbols _ hm := mem_symbol_await.2 (.inl hm)
  expects _ _ ht := expects_await.2 (.inl ht)
  queue _ hm := Queue.mem_enqueue.2 (.inl hm)
  symbols_of_settled _ hm hmem :=
    (mem_symbol_await.1 hmem).resolve_right fun h => hm (Queue.mem_enqueue.2 (.inr h))
  expects_of_settled _ hm _ ht :=
    (expects_await.1 ht).resolve_right fun h => hm (Queue.mem_enqueue.2 (.inr h.1))

/-- A step from a production changes nothing, or awaits a nonterminal. -/
theorem fromRule_cases (sets : FirstFollow) (e : Expansion) (r : Rule) :
    (fromRule sets e r = e ∧ ∀ n rest, r.body = .nonterminal n :: rest →
      e.knows n (following sets rest.head? (e.lookaheads r.head)) = true) ∨
    ∃ n rest, r.body = .nonterminal n :: rest ∧
      e.knows n (following sets rest.head? (e.lookaheads r.head)) = false ∧
      fromRule sets e r =
        ⟨await n (following sets rest.head? (e.lookaheads r.head)) e.pendings,
          e.queue.enqueue n⟩ := by
  unfold fromRule
  split
  · rename_i n rest hbody
    dsimp only
    split
    · rename_i hknows
      refine .inl ⟨rfl, fun n' rest' hbody' => ?_⟩
      obtain ⟨rfl, rfl⟩ : n' = n ∧ rest' = rest := by simpa [hbody, eq_comm] using hbody'
      exact hknows
    · rename_i hknows
      exact .inr ⟨n, rest, hbody, by simpa using hknows, rfl⟩
  · rename_i hbody
    exact .inl ⟨rfl, fun n rest h => absurd h (hbody n rest)⟩

theorem grows_fromRule (sets : FirstFollow) (e : Expansion) (r : Rule) :
    e.Grows (fromRule sets e r) := by
  rcases fromRule_cases sets e r with ⟨h, -⟩ | ⟨n, rest, -, -, h⟩
  · rw [h]
    exact Grows.refl e
  · rw [h]
    exact grows_await e n _

theorem grows_fromKernel (sets : FirstFollow) (e : Expansion) (k : Item) :
    e.Grows (fromKernel sets e k) := by
  unfold fromKernel
  split
  · exact grows_await e _ _
  · exact Grows.refl e

/-- Many steps are growth if one is. -/
theorem grows_foldl {β : Type} {step : Expansion → β → Expansion}
    (grows : ∀ (e : Expansion) b, e.Grows (step e b)) (bs : List β) (e : Expansion) :
    e.Grows (bs.foldl step e) := by
  induction bs generalizing e with
  | nil => exact Grows.refl e
  | cons b bs ih => exact (grows e b).trans (ih _)

theorem grows_foldl_fromRule (sets : FirstFollow) (rules : List Rule) (e : Expansion) :
    e.Grows (rules.foldl (fromRule sets) e) :=
  grows_foldl (grows_fromRule sets) rules e

/-! ## Nothing without a reason -/

/-- All that an expansion has found is asked for. -/
structure Sound (g : Grammar) (sets : FirstFollow) (kernels : List Item) (e : Expansion) :
    Prop where
  nodup : (e.pendings.map (·.symbol)).Nodup
  awaited : ∀ n ∈ e.pendings.map (·.symbol), Awaited g (kernels.map (·.core)) n
  foreseen : ∀ n t, Expects e.pendings n t → Foreseen g sets kernels n t
  queued : ∀ n ∈ e.queue.toList, n ∈ e.pendings.map (·.symbol)

variable {g : Grammar} {sets : FirstFollow} {kernels : List Item}

theorem Sound.await {e : Expansion} (he : e.Sound g sets kernels) {n : Nonterminal}
    {lookaheads : OrderedSet Terminal} (hn : Awaited g (kernels.map (·.core)) n)
    (ht : ∀ t ∈ lookaheads, Foreseen g sets kernels n t) :
    (⟨Expansion.await n lookaheads e.pendings, e.queue.enqueue n⟩ : Expansion).Sound
      g sets kernels where
  nodup := nodup_await he.nodup
  awaited m hm := by
    rcases mem_symbol_await.1 hm with hm | rfl
    exacts [he.awaited m hm, hn]
  foreseen m t hmt := by
    rcases expects_await.1 hmt with hold | ⟨rfl, hnew⟩
    exacts [he.foreseen m t hold, ht t hnew]
  queued m hm := by
    rcases Queue.mem_enqueue.1 hm with hm | rfl
    exacts [mem_symbol_await.2 (.inl (he.queued m hm)), mem_symbol_await.2 (.inr rfl)]

theorem Sound.fromKernel {e : Expansion} (he : e.Sound g sets kernels) {k : Item}
    (hk : k ∈ kernels) : (fromKernel sets e k).Sound g sets kernels := by
  unfold Expansion.fromKernel
  split
  · rename_i n hn
    exact he.await (.kernel (List.mem_map_of_mem hk) hn) fun t ht => .kernel hk hn ht
  · exact he

theorem Sound.fromRule {e : Expansion} (he : e.Sound g sets kernels) {r : Rule}
    (hr : r ∈ g.productionsOf r.head) (hhead : r.head ∈ e.pendings.map (·.symbol)) :
    (fromRule sets e r).Sound g sets kernels := by
  rcases fromRule_cases sets e r with ⟨h, -⟩ | ⟨n, rest, hbody, -, h⟩
  · rw [h]
    exact he
  · have hawaited := he.awaited _ hhead
    rw [h]
    apply he.await (.rule hawaited hr hbody)
    intro t ht
    cases rest with
    | nil => exact .last (he.foreseen _ t ((mem_lookaheads he.nodup).1 ht)) hr hbody
    | cons x rest => exact .beyond hawaited hr hbody ht

/-- Productions of pending nonterminals are that also after a step. -/
theorem heads_fromRule (sets : FirstFollow) {rules : List Rule} {e : Expansion} (r : Rule)
    (hrules : ∀ r ∈ rules, r ∈ g.productionsOf r.head ∧ r.head ∈ e.pendings.map (·.symbol)) :
    ∀ r' ∈ rules, r' ∈ g.productionsOf r'.head ∧
      r'.head ∈ (Expansion.fromRule sets e r).pendings.map (·.symbol) := by
  intro r' hr'
  obtain ⟨hmem, hhead⟩ := hrules r' hr'
  exact ⟨hmem, (grows_fromRule sets e r).symbols _ hhead⟩

theorem Sound.foldl_fromRule {rules : List Rule} {e : Expansion} (he : e.Sound g sets kernels)
    (hrules : ∀ r ∈ rules, r ∈ g.productionsOf r.head ∧ r.head ∈ e.pendings.map (·.symbol)) :
    (rules.foldl (Expansion.fromRule sets) e).Sound g sets kernels := by
  induction rules generalizing e with
  | nil => exact he
  | cons r rules ih =>
      obtain ⟨⟨hr, hhead⟩, hrules⟩ := List.forall_mem_cons.1 hrules
      exact ih (he.fromRule hr hhead) (heads_fromRule sets r hrules)

theorem sound_empty (g : Grammar) (sets : FirstFollow) (kernels : List Item) :
    (⟨[], .empty⟩ : Expansion).Sound g sets kernels where
  nodup := List.nodup_nil
  awaited _ h := by simp at h
  foreseen _ _ h := by simp [Expects] at h
  queued _ h := by simp at h

/-- What is left of an expansion when a nonterminal leaves its queue. -/
theorem Sound.pop {e : Expansion} (he : e.Sound g sets kernels) {n : Nonterminal}
    {queue : Queue Nonterminal Nonterminal.order} (hpop : e.queue.pop = some (n, queue)) :
    (⟨e.pendings, queue⟩ : Expansion).Sound g sets kernels :=
  { he with
    queued := fun m hm => he.queued m (Queue.toList_of_pop hpop ▸ List.mem_cons_of_mem n hm) }

theorem Sound.rules_of_pop {e : Expansion} (he : e.Sound g sets kernels) {n : Nonterminal}
    {queue : Queue Nonterminal Nonterminal.order} (hpop : e.queue.pop = some (n, queue)) :
    ∀ r ∈ g.productionsOf n,
      r ∈ g.productionsOf r.head ∧ r.head ∈ e.pendings.map (·.symbol) := by
  intro r hr
  obtain ⟨-, rfl⟩ := g.mem_productionsOf.1 hr
  exact ⟨hr, he.queued _ (Queue.toList_of_pop hpop ▸ List.mem_cons_self)⟩

theorem next_of_pop {e : Expansion} {n : Nonterminal}
    {queue : Queue Nonterminal Nonterminal.order} (hpop : e.queue.pop = some (n, queue)) :
    e.next g sets = (g.productionsOf n).foldl (Expansion.fromRule sets) ⟨e.pendings, queue⟩ := by
  simp only [Expansion.next, hpop]

theorem next_of_pop_none {e : Expansion} (hpop : e.queue.pop = none) : e.next g sets = e := by
  simp only [Expansion.next, hpop]

theorem Sound.next {e : Expansion} (he : e.Sound g sets kernels) :
    (e.next g sets).Sound g sets kernels := by
  cases hpop : e.queue.pop with
  | none =>
      rw [next_of_pop_none hpop]
      exact he
  | some popped =>
      rw [next_of_pop hpop]
      exact (he.pop hpop).foldl_fromRule (he.rules_of_pop hpop)

/-! ## Productions that have handed on all they have -/

/-- The first symbol of a production has all that the production has for it. -/
def Served (sets : FirstFollow) (e : Expansion) (r : Rule) : Prop :=
  ∀ n rest, r.body = .nonterminal n :: rest → n ∈ e.pendings.map (·.symbol) ∧
    ∀ t ∈ following sets rest.head? (e.lookaheads r.head), Expects e.pendings n t

theorem mem_following_mono {beyond : Option Symbol} {own own' : OrderedSet Terminal}
    (h : ∀ t ∈ own, t ∈ own') {t : Terminal} (ht : t ∈ following sets beyond own) :
    t ∈ following sets beyond own' := by
  cases beyond with
  | none => exact h t ht
  | some x => exact ht

/-- A production stays served while its head does not wait. -/
theorem Served.grows {e e' : Expansion} (he : (e.pendings.map (·.symbol)).Nodup)
    (he' : (e'.pendings.map (·.symbol)).Nodup) (h : e.Grows e') {r : Rule}
    (hr : Served sets e r) (hhead : r.head ∉ e'.queue.toList) : Served sets e' r := by
  intro n rest hbody
  obtain ⟨hmem, hall⟩ := hr n rest hbody
  refine ⟨h.symbols n hmem, fun t ht => h.expects n t (hall t (mem_following_mono ?_ ht))⟩
  intro u hu
  exact (mem_lookaheads he).2 (h.expects_of_settled _ hhead u ((mem_lookaheads he').1 hu))

theorem Sound.served_fromRule {e : Expansion} (he : e.Sound g sets kernels) {r : Rule}
    (hr : r ∈ g.productionsOf r.head) (hpending : r.head ∈ e.pendings.map (·.symbol))
    (hhead : r.head ∉ (Expansion.fromRule sets e r).queue.toList) :
    Served sets (Expansion.fromRule sets e r) r := by
  have hsound := he.fromRule hr hpending
  rcases fromRule_cases sets e r with ⟨h, hknows⟩ | ⟨n, rest, hbody, -, h⟩
  · rw [h]
    exact fun n rest hbody => (knows_iff he.nodup).1 (hknows n rest hbody)
  · have hgrows := grows_fromRule sets e r
    intro n' rest' hbody'
    obtain ⟨rfl, rfl⟩ : n' = n ∧ rest' = rest := by simpa [hbody, eq_comm] using hbody'
    have hmono : ∀ t ∈ (Expansion.fromRule sets e r).lookaheads r.head, t ∈ e.lookaheads r.head :=
      fun t ht => (mem_lookaheads he.nodup).2
        (hgrows.expects_of_settled _ hhead t ((mem_lookaheads hsound.nodup).1 ht))
    rw [h] at hmono ⊢
    exact ⟨mem_symbol_await.2 (.inr rfl),
      fun t ht => expects_await.2 (.inr ⟨rfl, mem_following_mono hmono ht⟩)⟩

theorem Sound.served_foldl_fromRule {rules : List Rule} {e : Expansion}
    (he : e.Sound g sets kernels)
    (hrules : ∀ r ∈ rules, r ∈ g.productionsOf r.head ∧ r.head ∈ e.pendings.map (·.symbol)) :
    ∀ r ∈ rules, r.head ∉ (rules.foldl (Expansion.fromRule sets) e).queue.toList →
      Served sets (rules.foldl (Expansion.fromRule sets) e) r := by
  induction rules generalizing e with
  | nil => intro r hr; contradiction
  | cons r rules ih =>
      obtain ⟨⟨hr, hhead⟩, hrules⟩ := List.forall_mem_cons.1 hrules
      have he' := he.fromRule hr hhead
      have hrules' := heads_fromRule sets r hrules
      have hgrows := grows_foldl_fromRule sets rules (Expansion.fromRule sets e r)
      intro r' hr' hsettled
      rw [List.foldl_cons] at hsettled ⊢
      rcases List.mem_cons.1 hr' with rfl | hr'
      · have hserved := he.served_fromRule hr hhead fun hq => hsettled (hgrows.queue _ hq)
        exact hserved.grows he'.nodup (he'.foldl_fromRule hrules').nodup hgrows hsettled
      · exact ih he' hrules' r' hr' hsettled

/-- The kernel has all it asks for, and the productions of every pending nonterminal that
does not wait are served. -/
structure Complete (g : Grammar) (sets : FirstFollow) (kernels : List Item) (e : Expansion) :
    Prop where
  kernel : ∀ k ∈ kernels, ∀ n, k.core.next? = some (.nonterminal n) →
    n ∈ e.pendings.map (·.symbol) ∧
      ∀ t ∈ following sets k.core.beyond? k.lookaheads, Expects e.pendings n t
  served : ∀ n ∈ e.pendings.map (·.symbol), n ∉ e.queue.toList →
    ∀ r ∈ g.productionsOf n, Served sets e r

theorem Complete.next {e : Expansion} (hs : e.Sound g sets kernels)
    (hc : e.Complete g sets kernels) : (e.next g sets).Complete g sets kernels := by
  have hs' := hs.next (g := g)
  cases hpop : e.queue.pop with
  | none =>
      rw [next_of_pop_none hpop]
      exact hc
  | some popped =>
      obtain ⟨n, queue⟩ := popped
      rw [next_of_pop hpop] at hs' ⊢
      have hqueue := Queue.toList_of_pop hpop
      have hgrows := grows_foldl_fromRule sets (g.productionsOf n) ⟨e.pendings, queue⟩
      constructor
      · intro k hk m hm
        obtain ⟨hmem, hall⟩ := hc.kernel k hk m hm
        exact ⟨hgrows.symbols m hmem, fun t ht => hgrows.expects m t (hall t ht)⟩
      · intro m hm hsettled r hr
        obtain ⟨-, rfl⟩ := g.mem_productionsOf.1 hr
        by_cases hn : r.head = n
        · exact (hs.pop hpop).served_foldl_fromRule (hs.rules_of_pop hpop) r (hn ▸ hr) hsettled
        · -- Whoever else does not wait now did not wait before, and has got nothing since.
          have hold : r.head ∉ e.queue.toList := by
            rw [hqueue, List.mem_cons, not_or]
            exact ⟨hn, fun hq => hsettled (hgrows.queue _ hq)⟩
          have hserved := hc.served _ (hgrows.symbols_of_settled _ hsettled hm) hold r hr
          exact Served.grows (e := ⟨e.pendings, queue⟩) hs.nodup hs'.nodup hgrows hserved hsettled

/-! ## The start -/

/-- An expansion has all that an item asks for. -/
def Answers (sets : FirstFollow) (k : Item) (e : Expansion) : Prop :=
  ∀ n, k.core.next? = some (.nonterminal n) → n ∈ e.pendings.map (·.symbol) ∧
    ∀ t ∈ following sets k.core.beyond? k.lookaheads, Expects e.pendings n t

theorem Answers.grows {e e' : Expansion} {k : Item} (h : Answers sets k e) (hgrows : e.Grows e') :
    Answers sets k e' := by
  intro n hn
  obtain ⟨hmem, hall⟩ := h n hn
  exact ⟨hgrows.symbols n hmem, fun t ht => hgrows.expects n t (hall t ht)⟩

theorem answers_fromKernel (sets : FirstFollow) (e : Expansion) (k : Item) :
    Answers sets k (fromKernel sets e k) := by
  intro m hm
  unfold fromKernel
  split
  · rename_i n hn
    obtain rfl : n = m := by simpa using hn.symm.trans hm
    exact ⟨mem_symbol_await.2 (.inr rfl), fun t ht => expects_await.2 (.inr ⟨rfl, ht⟩)⟩
  · rename_i hn
    exact absurd hm (hn m)

theorem answers_foldl_fromKernel (sets : FirstFollow) (items : List Item) (e : Expansion) :
    ∀ k ∈ items, Answers sets k (items.foldl (fromKernel sets) e) := by
  induction items generalizing e with
  | nil => intro k hk; contradiction
  | cons k items ih =>
      have hgrows := grows_foldl (grows_fromKernel sets) items (fromKernel sets e k)
      exact List.forall_mem_cons.2 ⟨(answers_fromKernel sets e k).grows hgrows, ih _⟩

/-- Whatever a kernel item makes pending waits. -/
theorem waiting_fromKernel {e : Expansion} {k : Item}
    (h : ∀ n ∈ e.pendings.map (·.symbol), n ∈ e.queue.toList) :
    ∀ n ∈ (fromKernel sets e k).pendings.map (·.symbol),
      n ∈ (fromKernel sets e k).queue.toList := by
  unfold fromKernel
  split
  · intro m hm
    exact Queue.mem_enqueue.2 ((mem_symbol_await.1 hm).imp_left (h m))
  · exact h

theorem length_fromKernel_le (sets : FirstFollow) (e : Expansion) (k : Item) :
    (fromKernel sets e k).queue.toList.length ≤ e.queue.toList.length + 1 := by
  unfold fromKernel
  split
  · exact Queue.length_enqueue_le
  · exact Nat.le_succ _

theorem length_foldl_fromKernel_le (sets : FirstFollow) (items : List Item) (e : Expansion) :
    (items.foldl (fromKernel sets) e).queue.toList.length ≤
      e.queue.toList.length + items.length := by
  induction items generalizing e with
  | nil => exact Nat.le_refl _
  | cons k items ih =>
      have hstep := length_fromKernel_le sets e k
      have hrest := ih (fromKernel sets e k)
      rw [List.foldl_cons, List.length_cons]
      omega

theorem start_spec (g : Grammar) (sets : FirstFollow) (kernels : List Item) :
    (start sets kernels).Sound g sets kernels ∧
    (start sets kernels).Complete g sets kernels ∧
    (start sets kernels).queue.toList.length ≤ kernels.length := by
  have hsound : (start sets kernels).Sound g sets kernels :=
    List.foldlRecOn _ _ (sound_empty g sets kernels) fun _ hs _ hk => hs.fromKernel hk
  -- Nothing is settled at the start, so no production has to be served yet.
  have hwaiting : ∀ n ∈ (start sets kernels).pendings.map (·.symbol),
      n ∈ (start sets kernels).queue.toList :=
    List.foldlRecOn
      (motive := fun e : Expansion => ∀ n ∈ e.pendings.map (·.symbol), n ∈ e.queue.toList)
      kernels (fromKernel sets) (by simp) fun _ h _ _ => waiting_fromKernel h
  refine ⟨hsound, ⟨answers_foldl_fromKernel sets kernels _, ?_⟩, ?_⟩
  · intro n hn hsettled
    exact absurd (hwaiting n hn) hsettled
  · simpa [start] using length_foldl_fromKernel_le sets kernels {}

end Expansion

end ShiftReduce
