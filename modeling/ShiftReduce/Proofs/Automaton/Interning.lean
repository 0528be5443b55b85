import ShiftReduce.Automaton.Exploration
import ShiftReduce.Proofs.Automaton.Growth

/-!
# Interning a kernel

A kernel leads to the state with the same cores, or to a new state.  `Interned` says all that
one call of `intern` does, for both kinds of merging, and `interned` shows it.

The index is what makes two states with the same cores impossible: it knows every state by its
cores (`Indexed`), and it tells two lists of cores apart if they differ at all.
-/

namespace ShiftReduce

namespace Item

/-- The ordered list of cores depends on nothing but the cores. -/
theorem cores_congr {items items' : List Item}
    (h : items.map (·.core) = items'.map (·.core)) : cores items = cores items' := by
  have hmap : ∀ items : List Item,
      cores items = (items.map (·.core)).foldr DottedRule.insertInto [] := by
    intro items
    rw [List.foldr_map]
    rfl
  rw [hmap, hmap, h]

theorem rule_mem_of_mem_cores {g : Grammar} (hg : g.WellFormed) {items : List Item}
    (hitems : ∀ k ∈ items, k.core.rule ∈ g.allRules) :
    ∀ d ∈ cores items, d.rule ∈ g.allRules := by
  intro d hd
  obtain ⟨k, hk, rfl⟩ := List.mem_map.1 ((mem_cores hg hitems).1 hd)
  exact hitems k hk

end Item

/-- Lists of cores of a grammar that the index takes for the same are the same. -/
theorem DottedRule.eq_of_compareLex_eq {g : Grammar} (hg : g.WellFormed) :
    ∀ {cores cores' : List DottedRule}, (∀ d ∈ cores, d.rule ∈ g.allRules) →
      (∀ d ∈ cores', d.rule ∈ g.allRules) →
      List.compareLex DottedRule.order cores cores' = .eq → cores = cores' := by
  intro cores
  induction cores with
  | nil =>
      intro cores' _ _ h
      cases cores' with
      | nil => rfl
      | cons _ _ => simp [List.compareLex_nil_cons] at h
  | cons d cores ih =>
      intro cores' hcores hcores' h
      cases cores' with
      | nil => simp [List.compareLex_cons_nil] at h
      | cons d' cores' =>
          rw [List.compareLex_cons_cons, Ordering.then_eq_eq] at h
          obtain ⟨hd, hcores⟩ := List.forall_mem_cons.1 hcores
          obtain ⟨hd', hcores'⟩ := List.forall_mem_cons.1 hcores'
          rw [DottedRule.eq_of_order_eq hg hd hd' h.1, ih hcores hcores' h.2]

namespace Exploration

variable {g : Grammar} {sets : FirstFollow} {merging : Merging}

/-! ## The index -/

/-- The index knows every state by its cores. -/
structure Indexed (g : Grammar) (e : Exploration) : Prop where
  sound : ∀ cores, (∀ d ∈ cores, d.rule ∈ g.allRules) → ∀ q, e.index[cores]? = some q →
    q < e.graph.states.size ∧ Item.cores (e.graph.look q).items.kernels = cores
  complete : ∀ q < e.graph.states.size,
    e.index[Item.cores (e.graph.look q).items.kernels]? = some q

/-- Only the cores matter, and they do not change when a kernel takes in lookaheads. -/
theorem Indexed.inform {e : Exploration} (h : e.Indexed g) (target : Nat) (kernel : List Item) :
    Indexed g { e with graph := e.graph.inform target kernel } := by
  have hkernels := StateGraph.kernel_inform e.graph target kernel
  constructor
  · intro cores hall q hq
    obtain ⟨hlt, hsame⟩ := h.sound cores hall q hq
    exact ⟨by simpa using hlt, (Item.cores_congr (hkernels q)).trans hsame⟩
  · intro q hq
    rw [Item.cores_congr (hkernels q)]
    exact h.complete q (by simpa using hq)

/-- A state whose cores are not known is entered under its number. -/
theorem Indexed.push {e : Exploration} (hg : g.WellFormed) (h : e.Indexed g)
    (hrules : ∀ q, ∀ k ∈ (e.graph.look q).items.kernels, k.core.rule ∈ g.allRules)
    {kernel : List Item} (hkernel : ∀ k ∈ kernel, k.core.rule ∈ g.allRules)
    (hnew : e.index[Item.cores kernel]? = none) :
    Indexed g { e with
      graph.states := e.graph.states.push { items := .ofKernels g sets kernel }
      index := e.index.insert (Item.cores kernel) e.graph.states.size } := by
  have hlook := e.graph.look_push { items := .ofKernels g sets kernel }
  constructor
  · intro cores hall q hq
    rw [Std.TreeMap.getElem?_insert] at hq
    split at hq
    · rename_i heq
      obtain rfl :=
        DottedRule.eq_of_compareLex_eq hg (Item.rule_mem_of_mem_cores hg hkernel) hall heq
      obtain rfl : e.graph.states.size = q := Option.some.inj hq
      refine ⟨by simp, ?_⟩
      rw [hlook, if_pos rfl]
      rfl
    · obtain ⟨hlt, hsame⟩ := h.sound cores hall q hq
      refine ⟨by simpa using Nat.lt_succ_of_lt hlt, ?_⟩
      rw [hlook, if_neg (Nat.ne_of_lt hlt)]
      exact hsame
  · intro q hq
    rw [Std.TreeMap.getElem?_insert]
    rcases Nat.lt_succ_iff_lt_or_eq.1 (show q < e.graph.states.size + 1 by simpa using hq)
      with hlt | rfl
    · rw [hlook, if_neg (Nat.ne_of_lt hlt), if_neg]
      · exact h.complete q hlt
      · -- An old state with the cores of the new one would be known by them.
        intro heq
        have hsame := DottedRule.eq_of_compareLex_eq hg (Item.rule_mem_of_mem_cores hg hkernel)
          (Item.rule_mem_of_mem_cores hg (hrules q)) heq
        rw [hsame, h.complete q hlt] at hnew
        contradiction
    · rw [hlook, if_pos rfl, if_pos]
      exact Std.ReflCmp.compare_self

/-! ## What interning does -/

/-- What becomes of an exploration when a kernel is interned and led to a state. -/
structure Interned (g : Grammar) (sets : FirstFollow) (merging : Merging) (e : Exploration)
    (kernel : List Item) (target : Nat) (e' : Exploration) : Prop where
  grows : e.graph.Grows e'.graph
  indexed : e'.Indexed g
  explored : e'.explored = e.explored
  transitions : ∀ q, (e'.graph.look q).transitions = (e.graph.look q).transitions
  target_lt : target < e'.graph.states.size
  mem_kernel : ∀ d, d ∈ (e'.graph.look target).kernel ↔ d ∈ kernel.map (·.core)
  source : ∀ q d t, Item.Expects (e'.graph.look q).items.kernels d t →
    Item.Expects (e.graph.look q).items.kernels d t ∨ (q = target ∧ Item.Expects kernel d t)
  arrived : merging = .lalr ∨ target = e.graph.states.size → ∀ d t, Item.Expects kernel d t →
    Item.Expects (e'.graph.look target).items.kernels d t
  fresh : ∀ q, e.graph.states.size ≤ q →
    e'.graph.look q = .absent ∨ e'.graph.look q = { items := .ofKernels g sets kernel }
  dirty_lt : ∀ q ∈ e'.graph.dirty.toList, q ∈ e.graph.dirty.toList ∨ q < e.graph.states.size

/-- With `Merging.firstFound` a kernel that is known leads to its state, which stays as it is. -/
private theorem interned_of_known (sets : FirstFollow) {e : Exploration} (hg : g.WellFormed)
    (he : e.Indexed g)
    (hrules : ∀ q, ∀ k ∈ (e.graph.look q).items.kernels, k.core.rule ∈ g.allRules)
    {kernel : List Item} (hkernel : ∀ k ∈ kernel, k.core.rule ∈ g.allRules) {target : Nat}
    (h : e.index[Item.cores kernel]? = some target) :
    Interned g sets .firstFound e kernel target e := by
  obtain ⟨hlt, hsame⟩ := he.sound _ (Item.rule_mem_of_mem_cores hg hkernel) _ h
  exact {
    grows := .refl _
    indexed := he
    explored := rfl
    transitions := fun _ => rfl
    target_lt := hlt
    mem_kernel := (Item.cores_eq_iff hg (hrules target) hkernel).1 hsame
    source := fun _ _ _ ht => .inl ht
    arrived := fun hnew => hnew.elim (fun h => by contradiction) fun h => absurd h hlt.ne
    fresh := fun q hq => .inl (StateGraph.look_of_size_le hq)
    dirty_lt := fun _ hq => .inl hq }

/-- With `Merging.lalr` the state takes in the lookaheads of the kernel. -/
private theorem Interned.inform {e : Exploration} {kernel : List Item} {target : Nat}
    (h : Interned g sets .firstFound e kernel target e) :
    Interned g sets .lalr e kernel target { e with graph := e.graph.inform target kernel } where
  grows := e.graph.grows_inform target kernel
  indexed := h.indexed.inform target kernel
  explored := rfl
  transitions := e.graph.transitions_inform target kernel
  target_lt := by simpa using h.target_lt
  mem_kernel d := by
    rw [e.graph.kernel_inform target kernel]
    exact h.mem_kernel d
  source q d t ht := by
    rcases (e.graph.expects_inform target kernel).1 ht with ht | ⟨hq, -, hseed⟩
    · exact .inl ht
    · exact .inr ⟨hq, hseed⟩
  arrived _ d t ht := by
    apply (e.graph.expects_inform target kernel).2
    exact .inr ⟨rfl, (h.mem_kernel d).2 (Item.mem_core_of_expects ht), ht⟩
  fresh q hq := .inl (StateGraph.look_of_size_le (by simpa using hq))
  dirty_lt q hq := by
    rcases e.graph.mem_dirty_inform target kernel hq with hq | ⟨rfl, hlt⟩
    · exact .inl hq
    · exact .inr hlt

/-- A kernel that is not known becomes a state of its own. -/
private theorem interned_of_new {e : Exploration} (hg : g.WellFormed) (he : e.Indexed g)
    (hrules : ∀ q, ∀ k ∈ (e.graph.look q).items.kernels, k.core.rule ∈ g.allRules)
    {kernel : List Item} (hkernel : ∀ k ∈ kernel, k.core.rule ∈ g.allRules)
    (h : e.index[Item.cores kernel]? = none) :
    Interned g sets merging e kernel e.graph.states.size
      { e with
        graph.states := e.graph.states.push { items := .ofKernels g sets kernel }
        index := e.index.insert (Item.cores kernel) e.graph.states.size } := by
  have hlook := e.graph.look_push { items := .ofKernels g sets kernel }
  have hnew := hlook e.graph.states.size
  rw [if_pos rfl] at hnew
  exact {
    grows := e.graph.grows_push _
    indexed := he.push hg hrules hkernel h
    explored := rfl
    transitions := fun q => by
      rw [hlook]
      split
      · rename_i hq
        rw [StateGraph.look_of_size_le (Nat.le_of_eq hq.symm)]
        rfl
      · rfl
    target_lt := by simp
    mem_kernel := fun d => by
      rw [hnew]
      rfl
    source := fun q d t ht => by
      rw [hlook] at ht
      split at ht
      · rename_i hq
        exact .inr ⟨hq, ht⟩
      · exact .inl ht
    arrived := fun _ d t ht => by
      rw [hnew]
      exact ht
    fresh := fun q hq => by
      rcases Nat.eq_or_lt_of_le hq with rfl | hlt
      · exact .inr hnew
      · refine .inl ?_
        rw [hlook, if_neg (Nat.ne_of_gt hlt), StateGraph.look_of_size_le hq]
    dirty_lt := fun _ hq => .inl hq }

/-- Interning does what `Interned` says. -/
theorem interned {e : Exploration} (hg : g.WellFormed) (he : e.Indexed g)
    (hrules : ∀ q, ∀ k ∈ (e.graph.look q).items.kernels, k.core.rule ∈ g.allRules)
    {kernel : List Item} (hkernel : ∀ k ∈ kernel, k.core.rule ∈ g.allRules) :
    Interned g sets merging e kernel (e.intern g sets merging kernel).1
      (e.intern g sets merging kernel).2 := by
  unfold intern
  dsimp only
  cases h : e.index[Item.cores kernel]? with
  | none => exact interned_of_new hg he hrules hkernel h
  | some target =>
      have hknown := interned_of_known sets hg he hrules hkernel h
      cases merging with
      | firstFound => exact hknown
      | lalr => exact hknown.inform

/-! ## The shape of the graph -/

/-- A state that has just been made, or is not there, has the lookaheads that its kernel asks
for. -/
theorem expects_new {state : State} {kernel : List Item} (hg : g.WellFormed)
    (hsets : sets.Declared g) (hkernel : ∀ k ∈ kernel, k.core.rule ∈ g.allRules)
    (h : state = .absent ∨ state = { items := .ofKernels g sets kernel }) (n : Nonterminal)
    (t : Terminal) : Pending.Expects state.items.pendings n t ↔
      Foreseen g sets state.items.kernels n t := by
  rcases h with rfl | rfl
  · exact iff_of_false (by simp [State.absent, Pending.Expects]) not_foreseen_nil
  · exact Expansion.expects_ofKernels hg hsets hkernel

theorem mem_symbol_new {state : State} {kernel : List Item} (hg : g.WellFormed)
    (hsets : sets.Declared g) (hkernel : ∀ k ∈ kernel, k.core.rule ∈ g.allRules)
    (h : state = .absent ∨ state = { items := .ofKernels g sets kernel }) (n : Nonterminal) :
    n ∈ state.items.pendings.map (·.symbol) ↔ Awaited g state.kernel n := by
  rcases h with rfl | rfl
  · exact iff_of_false (by simp [State.absent]) not_awaited_nil
  · exact Expansion.mem_symbol_ofKernels hg hsets hkernel

/-- Interning keeps the shape. -/
theorem Interned.shaped {e e' : Exploration} {kernel : List Item} {target : Nat}
    (hg : g.WellFormed) (hsets : sets.Declared g) (hkernel : ∀ k ∈ kernel, k.core.Of g)
    (hnodup : (kernel.map (·.core)).Nodup) (h : Interned g sets merging e kernel target e')
    (hs : Shaped g e.graph.look) :
    Shaped g e'.graph.look := by
  have hrules : ∀ k ∈ kernel, k.core.rule ∈ g.allRules := fun k hk => (hkernel k hk).1
  -- Both ends of a transition have been there before, and they keep their cores.
  have hold : ∀ p x q, (x, q) ∈ (e.graph.look p).transitions →
      (e'.graph.look p).kernel = (e.graph.look p).kernel ∧
      (e'.graph.look q).kernel = (e.graph.look q).kernel := by
    intro p x q hedge
    obtain ⟨-, d, hd, hx⟩ := hs.next p x q hedge
    have hmem := (hs.target p x q hedge d.advance).2 ⟨d, hd, hx, rfl⟩
    exact ⟨h.grows.kernel p (StateGraph.lt_size_of_mem_transitions hedge),
      h.grows.kernel q (StateGraph.lt_size_of_mem_kernel hmem)⟩
  constructor
  case kernel_of =>
    intro q d hd
    rcases Nat.lt_or_ge q e.graph.states.size with hq | hq
    · exact hs.kernel_of q d (h.grows.kernel q hq ▸ hd)
    · rcases h.fresh q hq with hnew | hnew
      · rw [hnew] at hd
        contradiction
      · rw [hnew] at hd
        obtain ⟨k, hk, rfl⟩ := List.mem_map.1 hd
        exact hkernel k hk
  case distinct =>
    intro q
    rcases Nat.lt_or_ge q e.graph.states.size with hq | hq
    · rw [h.grows.kernel q hq]
      exact hs.distinct q
    · rcases h.fresh q hq with hnew | hnew
      · rw [hnew]
        exact List.nodup_nil
      · rw [hnew]
        exact hnodup
  case pending =>
    intro q n
    rcases Nat.lt_or_ge q e.graph.states.size with hq | hq
    · rw [h.grows.pendings q hq, h.grows.kernel q hq]
      exact hs.pending q n
    · exact mem_symbol_new hg hsets hrules (h.fresh q hq) n
  case start =>
    have hstart : (⟨g.acceptRule, 0⟩ : DottedRule) ∈ (e.graph.look 0).kernel := by simp [hs.start]
    rw [h.grows.kernel 0 (StateGraph.lt_size_of_mem_kernel hstart), hs.start]
  case nodup =>
    intro p
    rw [h.transitions]
    exact hs.nodup p
  case next =>
    intro p x q hedge
    rw [h.transitions] at hedge
    rw [(hold p x q hedge).1]
    exact hs.next p x q hedge
  case target =>
    intro p x q hedge
    rw [h.transitions] at hedge
    rw [(hold p x q hedge).1, (hold p x q hedge).2]
    exact hs.target p x q hedge

end Exploration

end ShiftReduce
