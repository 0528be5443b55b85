import ShiftReduce.Proofs.ItemSet.Closure

/-!
# The order of pending nonterminals

Lookaheads decide how often an expansion comes back to a nonterminal, but not in which order
nonterminals become pending: that order depends on the cores of the kernel alone
(`symbols_ofKernels_congr`).

## Strategy

Without lookaheads an expansion would look at each nonterminal once, in the order in which they
have been found, and add the nonterminals that its productions begin with.  `discovered` is what
that has found after some steps.  The invariant `Follows` says of an expansion that it has found
the same: the pending nonterminals are those that it has visited, and then, in the same order,
those that wait for their first visit.  When nothing waits, all have been visited, and then
`discovered` does not change any more.
-/

namespace ShiftReduce

/-- The nonterminal that comes next. -/
def DottedRule.nonterminal? (d : DottedRule) : Option Nonterminal :=
  match d.next? with
  | some (.nonterminal n) => some n
  | _ => none

theorem DottedRule.nonterminal?_eq_some_iff {d : DottedRule} {n : Nonterminal} :
    d.nonterminal? = some n ↔ d.next? = some (.nonterminal n) := by
  unfold nonterminal?
  split
  · rename_i m hm
    simp [hm]
  · rename_i hnone
    exact iff_of_false (by simp) (hnone n)

/-- The first symbol of a body. -/
theorem Rule.nonterminal?_eq_some_iff {r : Rule} {n : Nonterminal} :
    (⟨r, 0⟩ : DottedRule).nonterminal? = some n ↔ ∃ rest, r.body = .nonterminal n :: rest := by
  rw [DottedRule.nonterminal?_eq_some_iff, DottedRule.next?, ← List.head?_eq_getElem?,
    List.head?_eq_some_iff]

theorem OrderedSet.prefix_foldl_insert {α : Type} [DecidableEq α] (as : List α)
    (s : OrderedSet α) : s.toList <+: (as.foldl insert s).toList := by
  induction as generalizing s with
  | nil => exact List.prefix_refl _
  | cons a as ih =>
      refine List.IsPrefix.trans ?_ (ih (s.insert a))
      by_cases h : a ∈ s
      · rw [insert_of_mem h]
      · rw [toList_insert_of_not_mem h]
        exact List.prefix_append _ _

namespace Expansion

/-! ## Discovery without lookaheads -/

/-- The nonterminals that the productions of a nonterminal begin with. -/
def leading (g : Grammar) (n : Nonterminal) : List Nonterminal :=
  (g.productionsOf n).filterMap fun r => (⟨r, 0⟩ : DottedRule).nonterminal?

/-- What is found from some nonterminals on, when one after another of those that have been found
is looked at, as often as the number says. -/
def discovered (g : Grammar) (first : OrderedSet Nonterminal) : Nat → OrderedSet Nonterminal
  | 0 => first
  | k + 1 =>
    match (discovered g first k).toList[k]? with
    | none => discovered g first k
    | some n => (leading g n).foldl .insert (discovered g first k)

section Discovered

variable {g : Grammar} {first : OrderedSet Nonterminal} {k : Nat}

theorem discovered_succ_of_le (h : (discovered g first k).toList.length ≤ k) :
    discovered g first (k + 1) = discovered g first k := by
  rw [discovered, List.getElem?_eq_none h]

theorem discovered_succ {n : Nonterminal} (h : (discovered g first k).toList[k]? = some n) :
    discovered g first (k + 1) = (leading g n).foldl .insert (discovered g first k) := by
  rw [discovered, h]

/-- The next nonterminal that is looked at stays in its place. -/
theorem take_discovered_succ {n : Nonterminal}
    (h : (discovered g first k).toList[k]? = some n) :
    (discovered g first (k + 1)).toList.take (k + 1) =
      (discovered g first k).toList.take k ++ [n] := by
  obtain ⟨more, hmore⟩ := OrderedSet.prefix_foldl_insert (leading g n) (discovered g first k)
  obtain ⟨hlt, -⟩ := List.getElem?_eq_some_iff.1 h
  rw [discovered_succ h, ← hmore, List.take_append_of_le_length hlt, List.take_add_one, h]
  rfl

/-- When all that has been found has been looked at, nothing more is found. -/
theorem discovered_eq_of_le (h : (discovered g first k).toList.length ≤ k) {j : Nat}
    (hj : k ≤ j) : discovered g first j = discovered g first k := by
  induction j, hj using Nat.le_induction with
  | base => rfl
  | succ j hj ih =>
      have hle : (discovered g first j).toList.length ≤ j := by
        rw [ih]
        exact h.trans hj
      rw [discovered_succ_of_le hle, ih]

/-- What the productions of a nonterminal begin with is found when it is looked at. -/
theorem mem_discovered_of_mem_take {n : Nonterminal}
    (hn : n ∈ (discovered g first k).toList.take k) {m : Nonterminal} (hm : m ∈ leading g n) :
    m ∈ discovered g first k := by
  induction k with
  | zero => simp at hn
  | succ k ih =>
      cases hk : (discovered g first k).toList[k]? with
      | none =>
          have hle := List.getElem?_eq_none_iff.1 hk
          rw [discovered_succ_of_le hle] at hn ⊢
          rw [List.take_of_length_le (hle.trans (Nat.le_succ k))] at hn
          rw [List.take_of_length_le hle] at ih
          exact ih hn
      | some n' =>
          rw [take_discovered_succ hk] at hn
          rw [discovered_succ hk, OrderedSet.mem_foldl_insert]
          rcases List.mem_append.1 hn with hn | hn
          · exact .inl (ih hn)
          · obtain rfl : n = n' := List.mem_singleton.1 hn
            exact .inr hm

end Discovered

/-! ## What an expansion has found -/

/-- An expansion has found some nonterminals: first those that it has visited, then those that
wait for their first visit. -/
structure Follows (visited : List Nonterminal) (found : OrderedSet Nonterminal) (e : Expansion) :
    Prop where
  symbols : e.pendings.map (·.symbol) = found.toList
  waiting : found.toList = visited ++ e.queue.toList.filter (· ∉ visited)

/-- A nonterminal that is awaited comes last, unless it is pending already. -/
theorem map_symbol_await (n : Nonterminal) (lookaheads : OrderedSet Terminal)
    (pendings : List Pending) : (await n lookaheads pendings).map (·.symbol) =
      if n ∈ pendings.map (·.symbol) then pendings.map (·.symbol)
      else pendings.map (·.symbol) ++ [n] := by
  induction pendings with
  | nil => rfl
  | cons p rest ih =>
      unfold await
      split
      · rename_i h
        simp [h]
      · rename_i h
        rw [List.map_cons, ih, List.map_cons]
        have hne : n ≠ p.symbol := Ne.symm h
        by_cases hmem : n ∈ rest.map (·.symbol)
        · rw [if_pos hmem, if_pos (List.mem_cons_of_mem _ hmem)]
        · rw [if_neg hmem, if_neg (by simpa [hne] using hmem), List.cons_append]

namespace Follows

variable {visited : List Nonterminal} {found : OrderedSet Nonterminal} {e : Expansion}

/-- The order of the queue is that in which nonterminals have been found, as long as they have
not been visited. -/
theorem await (h : Follows visited found e) (n : Nonterminal) (lookaheads : OrderedSet Terminal) :
    Follows visited (found.insert n)
      ⟨Expansion.await n lookaheads e.pendings, e.queue.enqueue n⟩ := by
  have hfound : n ∈ found ↔ n ∈ visited ∨ n ∈ e.queue.toList := by
    rw [OrderedSet.mem_def, h.waiting, List.mem_append, List.mem_filter, decide_eq_true_eq]
    tauto
  have hsymbols := map_symbol_await n lookaheads e.pendings
  rw [h.symbols] at hsymbols
  by_cases hn : n ∈ found
  · rw [OrderedSet.insert_of_mem hn]
    refine ⟨hsymbols.trans (if_pos hn), ?_⟩
    by_cases hqueue : n ∈ e.queue.toList
    · rw [Queue.enqueue_of_mem hqueue]
      exact h.waiting
    · -- It has been visited and comes back, so it is not among those that wait.
      have hvisited : n ∈ visited := (hfound.1 hn).resolve_right hqueue
      rw [Queue.enqueue, (Queue.push_of_not_mem hqueue).2, List.filter_append]
      simpa [hvisited] using h.waiting
  · have hqueue : n ∉ e.queue.toList := fun hmem => hn (hfound.2 (.inr hmem))
    have hvisited : n ∉ visited := fun hmem => hn (hfound.2 (.inl hmem))
    have htoList := OrderedSet.toList_insert_of_not_mem hn
    refine ⟨hsymbols.trans ((if_neg hn).trans htoList.symm), ?_⟩
    rw [htoList, h.waiting, Queue.enqueue, (Queue.push_of_not_mem hqueue).2, List.filter_append]
    simp [hvisited]

/-- Steps that await a nonterminal each, if they do not leave the expansion as it is because they
have none or one that has been found. -/
theorem foldl {β : Type} {step : Expansion → β → Expansion} {target : β → Option Nonterminal}
    (hstep : ∀ {found : OrderedSet Nonterminal} {e : Expansion} (b : β), Follows visited found e →
      Follows visited ((target b).elim found found.insert) (step e b))
    (h : Follows visited found e) (bs : List β) :
    Follows visited ((bs.filterMap target).foldl .insert found) (bs.foldl step e) := by
  induction bs generalizing found e with
  | nil => exact h
  | cons b bs ih =>
      have hb := ih (hstep b h)
      cases htarget : target b with
      | none =>
          rw [htarget] at hb
          rwa [List.filterMap_cons_none htarget]
      | some n =>
          rw [htarget] at hb
          rwa [List.filterMap_cons_some htarget]

variable {sets : FirstFollow}

theorem fromKernel (k : Item) (h : Follows visited found e) :
    Follows visited (k.core.nonterminal?.elim found found.insert)
      (Expansion.fromKernel sets e k) := by
  cases hcore : k.core.nonterminal? with
  | none =>
      have hsame : Expansion.fromKernel sets e k = e := by
        unfold Expansion.fromKernel
        split
        · rename_i n hn
          rw [DottedRule.nonterminal?_eq_some_iff.2 hn] at hcore
          contradiction
        · rfl
      rw [hsame]
      exact h
  | some n =>
      have hnext := DottedRule.nonterminal?_eq_some_iff.1 hcore
      simp only [Expansion.fromKernel, hnext]
      exact h.await n _

theorem fromRule (r : Rule) (h : Follows visited found e) :
    Follows visited ((⟨r, 0⟩ : DottedRule).nonterminal?.elim found found.insert)
      (Expansion.fromRule sets e r) := by
  have hnodup : (e.pendings.map (·.symbol)).Nodup := h.symbols ▸ found.nodup
  rcases fromRule_cases sets e r with ⟨hsame, hknows⟩ | ⟨n, rest, hbody, -, hawait⟩
  · rw [hsame]
    cases hfirst : (⟨r, 0⟩ : DottedRule).nonterminal? with
    | none => exact h
    | some n =>
        obtain ⟨rest, hbody⟩ := Rule.nonterminal?_eq_some_iff.1 hfirst
        have hn := ((knows_iff hnodup).1 (hknows n rest hbody)).1
        rw [h.symbols] at hn
        rw [Option.elim_some, OrderedSet.insert_of_mem hn]
        exact h
  · rw [hawait, Rule.nonterminal?_eq_some_iff.2 ⟨rest, hbody⟩]
    exact h.await n _

theorem foldl_fromRule (h : Follows visited found e) (g : Grammar) (sets : FirstFollow)
    (n : Nonterminal) : Follows visited ((leading g n).foldl .insert found)
      ((g.productionsOf n).foldl (Expansion.fromRule sets) e) :=
  h.foldl (fun r hr => hr.fromRule r) (g.productionsOf n)

/-- What is left when a nonterminal leaves the queue that has been visited. -/
theorem pop_of_mem (h : Follows visited found e) {n : Nonterminal}
    {queue : Queue Nonterminal Nonterminal.order} (hpop : e.queue.pop = some (n, queue))
    (hn : n ∈ visited) : Follows visited found ⟨e.pendings, queue⟩ := by
  refine ⟨h.symbols, ?_⟩
  rw [h.waiting, Queue.toList_of_pop hpop, List.filter_cons_of_neg (by simpa using hn)]

/-- What is left when a nonterminal leaves the queue for its first visit. -/
theorem pop_of_not_mem (h : Follows visited found e) {n : Nonterminal}
    {queue : Queue Nonterminal Nonterminal.order} (hpop : e.queue.pop = some (n, queue))
    (hn : n ∉ visited) : Follows (visited ++ [n]) found ⟨e.pendings, queue⟩ := by
  have hfilter : queue.toList.filter (· ∉ visited) = queue.toList.filter (· ∉ visited ++ [n]) := by
    apply List.filter_congr
    intro m hm
    have hne : m ≠ n := fun heq => Queue.not_mem_of_pop hpop (heq ▸ hm)
    simp [hne]
  refine ⟨h.symbols, ?_⟩
  calc found.toList
      = visited ++ e.queue.toList.filter (· ∉ visited) := h.waiting
    _ = visited ++ n :: queue.toList.filter (· ∉ visited) := by
        rw [Queue.toList_of_pop hpop, List.filter_cons_of_pos (by simpa using hn)]
    _ = (visited ++ [n]) ++ queue.toList.filter (· ∉ visited ++ [n]) := by
        rw [hfilter, List.append_assoc, List.singleton_append]

/-- One step: either a nonterminal is visited for the first time, and then it is the next of those
that have been found, or it is visited again and nothing is found. -/
theorem next {g : Grammar} {first : OrderedSet Nonterminal} {k : Nat}
    (h : Follows ((discovered g first k).toList.take k) (discovered g first k) e) :
    ∃ j, Follows ((discovered g first j).toList.take j) (discovered g first j)
      (e.next g sets) := by
  cases hpop : e.queue.pop with
  | none =>
      rw [next_of_pop_none hpop]
      exact ⟨k, h⟩
  | some popped =>
      obtain ⟨n, queue⟩ := popped
      rw [next_of_pop hpop]
      by_cases hn : n ∈ (discovered g first k).toList.take k
      · have hfold := (h.pop_of_mem hpop hn).foldl_fromRule g sets n
        rw [foldl_eq_self fun m hm =>
          OrderedSet.insert_of_mem (mem_discovered_of_mem_take hn hm)] at hfold
        exact ⟨k, hfold⟩
      · have hpopped := h.pop_of_not_mem hpop hn
        have hdrop : (discovered g first k).toList.drop k =
            n :: queue.toList.filter
              (· ∉ (discovered g first k).toList.take k ++ [n]) := by
          rw [← List.append_right_inj ((discovered g first k).toList.take k),
            List.take_append_drop]
          simpa using hpopped.waiting
        have hk : (discovered g first k).toList[k]? = some n := by
          rw [← List.head?_drop, hdrop, List.head?_cons]
        have hfold := hpopped.foldl_fromRule g sets n
        rw [← discovered_succ hk, ← take_discovered_succ hk] at hfold
        exact ⟨k + 1, hfold⟩

end Follows

/-! ## The order in the end -/

/-- The nonterminals that come next in a kernel. -/
def firsts (kernels : List Item) : OrderedSet Nonterminal :=
  .ofList (kernels.filterMap (·.core.nonterminal?))

variable {g : Grammar} {sets : FirstFollow} {kernels kernels' : List Item}

theorem firsts_congr (hcores : kernels'.map (·.core) = kernels.map (·.core)) :
    firsts kernels' = firsts kernels := by
  have hmap := congrArg (List.filterMap DottedRule.nonterminal?) hcores
  rw [List.filterMap_map, List.filterMap_map] at hmap
  exact congrArg OrderedSet.ofList hmap

theorem follows_start : Follows [] (firsts kernels) (start sets kernels) := by
  have hempty : Follows [] ∅ (⟨[], .empty⟩ : Expansion) := ⟨rfl, by simp⟩
  exact hempty.foldl (fun k hk => hk.fromKernel k) kernels

theorem exists_follows_ofKernels (g : Grammar) (sets : FirstFollow) (kernels : List Item) :
    ∃ k, Follows ((discovered g (firsts kernels) k).toList.take k)
    (discovered g (firsts kernels) k) (ofKernels g sets kernels) :=
  runUntil_invariant
    (P := fun e => ∃ k, Follows ((discovered g (firsts kernels) k).toList.take k)
      (discovered g (firsts kernels) k) e)
    (fun _ ⟨_, he⟩ _ => he.next) _ ⟨0, follows_start⟩

variable (hg : g.WellFormed) (hsets : sets.Declared g)
  (hkernels : ∀ k ∈ kernels, k.core.rule ∈ g.allRules)

include hg hsets hkernels

/-- In the end the pending nonterminals are those that would be found without lookaheads. -/
theorem exists_symbols_ofKernels : ∃ k,
    (ofKernels g sets kernels).pendings.map (·.symbol) =
      (discovered g (firsts kernels) k).toList ∧
    (discovered g (firsts kernels) k).toList.length ≤ k := by
  obtain ⟨k, h⟩ := exists_follows_ofKernels g sets kernels
  refine ⟨k, h.symbols, ?_⟩
  have hempty := Queue.isEmpty_iff.1 (isDone_ofKernels hg hsets hkernels)
  have hlength := congrArg List.length h.waiting
  rw [hempty, List.filter_nil, List.append_nil, List.length_take] at hlength
  omega

/-- Kernels with the same cores have the same pending nonterminals, in the same order. -/
theorem symbols_ofKernels_congr (hcores : kernels'.map (·.core) = kernels.map (·.core)) :
    (ofKernels g sets kernels').pendings.map (·.symbol) =
      (ofKernels g sets kernels).pendings.map (·.symbol) := by
  have hkernels' := Item.mem_allRules_of_cores hcores hkernels
  obtain ⟨k, hk, hlek⟩ := exists_symbols_ofKernels hg hsets hkernels
  obtain ⟨j, hj, hlej⟩ := exists_symbols_ofKernels hg hsets hkernels'
  rw [firsts_congr hcores] at hj hlej
  rw [hj, hk]
  rcases Nat.le_total k j with hle | hle
  · rw [discovered_eq_of_le hlek hle]
  · rw [discovered_eq_of_le hlej hle]

end Expansion

end ShiftReduce
