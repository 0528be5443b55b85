import ShiftReduce.Proofs.Automaton.Build

/-!
# Lookaheads that are due

A lookahead of a state is due if there is a reason for it: it is the end marker behind the
accepting production, or comes after a nonterminal, or is handed on within the state or over a
transition, from where it is due (`Due`).  Such reasons do not go round in circles, so
what is due is as little as there can be.  It depends on nothing but the cores and the
transitions of the states (`Due.mono`).

Every lookahead of an automaton is due, with either kind of merging (`due_of_build`).

## Strategy

It is enough that the lookaheads of kernels are due (`Justified`), since those of the pending
nonterminals are found from them (`Justified.due_of_mem`).  A kernel gets a lookahead when a state
is given its transitions, or when a state is cleaned, and in both cases it gets it from an item
of that state.
-/

namespace ShiftReduce

/-! ## Where lookaheads are kept -/

/-- What a state keeps lookaheads for: a core of its kernel, or a pending nonterminal. -/
inductive Keeper where
  | kernel (d : DottedRule)
  | pending (n : Nonterminal)
deriving DecidableEq

namespace ItemSet

/-- What an item set keeps the lookaheads of an item for.  The productions of a pending
nonterminal have theirs in common. -/
inductive Keeps (g : Grammar) (s : ItemSet) : DottedRule → Keeper → Prop
  | kernel {d : DottedRule} : d ∈ s.kernels.map (·.core) → Keeps g s d (.kernel d)
  | pending {n : Nonterminal} {r : Rule} : n ∈ s.pendings.map (·.symbol) →
      r ∈ g.productionsOf n → Keeps g s ⟨r, 0⟩ (.pending n)

/-- The lookaheads that are kept for something, as a set. -/
def lookaheadsOf (s : ItemSet) : Keeper → Set Terminal
  | .kernel d => {t | Item.Expects s.kernels d t}
  | .pending n => {t | Pending.Expects s.pendings n t}

variable {g : Grammar} {s : ItemSet}

/-- The lookaheads of an item are those at one of its keepers. -/
theorem expects_iff_exists_keeps {d : DottedRule} {t : Terminal} :
    Item.Expects (s.items g) d t ↔ ∃ keeper, s.Keeps g d keeper ∧ t ∈ s.lookaheadsOf keeper := by
  rw [expects_items]
  constructor
  · rintro (ht | ⟨hmarker, hrule, ht⟩)
    · exact ⟨_, .kernel (Item.mem_core_of_expects ht), ht⟩
    · obtain ⟨rule, marker⟩ := d
      obtain rfl : marker = 0 := hmarker
      exact ⟨_, .pending (Pending.mem_symbol_of_expects ht) (g.mem_productionsOf.2 ⟨hrule, rfl⟩),
        ht⟩
  · rintro ⟨keeper, hkeeps, ht⟩
    cases hkeeps with
    | kernel _ => exact .inl ht
    | pending _ hr =>
        obtain ⟨hmem, rfl⟩ := g.mem_productionsOf.1 hr
        exact .inr ⟨rfl, hmem, ht⟩

end ItemSet

theorem Shaped.inClosure_of_keeps {g : Grammar} {look : Nat → State} (h : Shaped g look) {q : Nat}
    {d : DottedRule} {keeper : Keeper} (hkeeps : (look q).items.Keeps g d keeper) :
    InClosure g (look q).kernel d := by
  cases hkeeps with
  | kernel hd => exact .inl hd
  | pending hn hr =>
      obtain ⟨hmem, rfl⟩ := g.mem_productionsOf.1 hr
      exact .inr ⟨rfl, hmem, (h.pending q _).1 hn⟩

/-! ## What is due -/

/-- There is a reason for a lookahead of a state. -/
inductive Due (g : Grammar) (sets : FirstFollow) (look : Nat → State) :
    Nat → Keeper → Terminal → Prop
  | start : Due g sets look 0 (.kernel ⟨g.acceptRule, 0⟩) g.endMarker
  | beyond {q : Nat} {d : DottedRule} {keeper : Keeper} {n : Nonterminal} {x : Symbol}
      {t : Terminal} : (look q).items.Keeps g d keeper → d.next? = some (.nonterminal n) →
      d.beyond? = some x → t ∈ sets.firstOf x → Due g sets look q (.pending n) t
  | last {q : Nat} {d : DottedRule} {keeper : Keeper} {n : Nonterminal} {t : Terminal} :
      (look q).items.Keeps g d keeper → d.next? = some (.nonterminal n) → d.beyond? = none →
      Due g sets look q keeper t → Due g sets look q (.pending n) t
  | advance {p q : Nat} {x : Symbol} {d : DottedRule} {keeper : Keeper} {t : Terminal} :
      (x, q) ∈ (look p).transitions → (look p).items.Keeps g d keeper → d.next? = some x →
      Due g sets look p keeper t → Due g sets look q (.kernel d.advance) t

/-- The lookaheads of all kernels are due. -/
def Justified (g : Grammar) (sets : FirstFollow) (look : Nat → State) : Prop :=
  ∀ q d t, Item.Expects (look q).items.kernels d t → Due g sets look q (.kernel d) t

section Growth

variable {g : Grammar} {sets : FirstFollow} {look look' : Nat → State}

/-- States that have the same cores as before, if they have been there, keep the lookaheads of
items at the same keepers. -/
theorem Shaped.keeps (hs : Shaped g look) (hs' : Shaped g look')
    (hkernel : ∀ q, (look q).kernel = [] ∨ (look' q).kernel = (look q).kernel) {q : Nat}
    {d : DottedRule} {keeper : Keeper} (h : (look q).items.Keeps g d keeper) :
    (look' q).items.Keeps g d keeper := by
  have hsame : (look' q).kernel = (look q).kernel := by
    rcases hkernel q with hnil | hsame
    · -- An empty kernel has no items at all.
      have hd := hs.inClosure_of_keeps h
      rw [hnil] at hd
      rcases hd with hd | ⟨-, -, hd⟩
      · contradiction
      · exact absurd hd not_awaited_nil
    · exact hsame
  cases h with
  | kernel hd => exact .kernel (hsame ▸ hd : d ∈ (look' q).kernel)
  | pending hn hr =>
      refine .pending ((hs'.pending q _).2 ?_) hr
      rw [hsame]
      exact (hs.pending q _).1 hn

/-- What is due stays due when states and transitions are added. -/
theorem Due.mono (hs : Shaped g look) (hs' : Shaped g look')
    (hkernel : ∀ q, (look q).kernel = [] ∨ (look' q).kernel = (look q).kernel)
    (htransitions : ∀ q, (look q).transitions ⊆ (look' q).transitions) {q : Nat} {keeper : Keeper}
    {t : Terminal} (h : Due g sets look q keeper t) : Due g sets look' q keeper t := by
  induction h with
  | start => exact .start
  | beyond hkeeps hn hx ht => exact .beyond (hs.keeps hs' hkernel hkeeps) hn hx ht
  | last hkeeps hn hlast _ ih => exact .last (hs.keeps hs' hkernel hkeeps) hn hlast ih
  | advance hedge hkeeps hx _ ih =>
      exact .advance (htransitions _ hedge) (hs.keeps hs' hkernel hkeeps) hx ih

/-- What follows from lookaheads that are due is due. -/
theorem Justified.foreseen (h : Justified g sets look) (hs : Shaped g look) {q : Nat}
    {n : Nonterminal} {t : Terminal} (ht : Foreseen g sets (look q).items.kernels n t) :
    Due g sets look q (.pending n) t := by
  induction ht with
  | @kernel k n t hk hn ht =>
      have hkeeps : (look q).items.Keeps g k.core (.kernel k.core) :=
        .kernel (List.mem_map_of_mem hk)
      cases hbeyond : k.core.beyond? with
      | none =>
          rw [hbeyond] at ht
          exact .last hkeeps hn hbeyond (h q _ t ⟨k, hk, rfl, ht⟩)
      | some x =>
          rw [hbeyond] at ht
          exact .beyond hkeeps hn hbeyond ht
  | @beyond m n r x rest t hm hr hbody ht =>
      have hkeeps : (look q).items.Keeps g ⟨r, 0⟩ (.pending m) :=
        .pending ((hs.pending q m).2 hm) hr
      exact .beyond hkeeps (by simp [DottedRule.next?, hbody])
        (by simp [DottedRule.beyond?, hbody]) ht
  | @last m n r t hm hr hbody ih =>
      exact .last (.pending ((hs.pending q m).2 hm.awaited) hr) (by simp [DottedRule.next?, hbody])
        (by simp [DottedRule.beyond?, hbody]) ih

/-- If the lookaheads of all kernels are due, so are those of the pending nonterminals. -/
theorem Justified.due_of_mem (h : Justified g sets look) (hs : Shaped g look)
    {clean : Nat → Prop} (hf : Fresh g sets clean look) {q : Nat} {keeper : Keeper} {t : Terminal}
    (ht : t ∈ (look q).items.lookaheadsOf keeper) : Due g sets look q keeper t := by
  cases keeper with
  | kernel d => exact h q d t ht
  | pending n => exact h.foreseen hs (hf.foreseen q n t ht)

/-- The lookaheads of all items are due. -/
theorem Justified.exists_due (h : Justified g sets look) (hs : Shaped g look)
    {clean : Nat → Prop} (hf : Fresh g sets clean look) {q : Nat} {d : DottedRule} {t : Terminal}
    (ht : (look q).Expects g d t) :
    ∃ keeper, (look q).items.Keeps g d keeper ∧ Due g sets look q keeper t := by
  obtain ⟨keeper, hkeeps, hmem⟩ := ItemSet.expects_iff_exists_keeps.1 ht
  exact ⟨keeper, hkeeps, h.due_of_mem hs hf hmem⟩

/-- Kernels that take in lookaheads from items of other states stay justified. -/
theorem Justified.step (h : Justified g sets look) (hs : Shaped g look) (hs' : Shaped g look')
    {clean : Nat → Prop} (hf : Fresh g sets clean look)
    (hkernel : ∀ q, (look q).kernel = [] ∨ (look' q).kernel = (look q).kernel)
    (htransitions : ∀ q, (look q).transitions ⊆ (look' q).transitions)
    (hsource : ∀ q d t, Item.Expects (look' q).items.kernels d t →
      Item.Expects (look q).items.kernels d t ∨ ∃ p x e, (x, q) ∈ (look' p).transitions ∧
        (look p).Expects g e t ∧ e.next? = some x ∧ e.advance = d) :
    Justified g sets look' := by
  intro q d t ht
  rcases hsource q d t ht with hold | ⟨p, x, e, hedge, he, hx, rfl⟩
  · exact (h q d t hold).mono hs hs' hkernel htransitions
  · obtain ⟨keeper, hkeeps, hdue⟩ := h.exists_due hs hf he
    exact .advance hedge (hs.keeps hs' hkernel hkeeps) hx
      (hdue.mono hs hs' hkernel htransitions)

end Growth

/-! ## Exploration and propagation -/

variable {g : Grammar} {sets : FirstFollow} {merging : Merging}

theorem Exploration.justified_start (hg : g.WellFormed) :
    Justified g sets (Exploration.start g sets).graph.look := by
  intro q d t ht
  rcases (Exploration.interned_start sets hg).source q d t ht with hold | ⟨rfl, k, hk, rfl, hmem⟩
  · simp [StateGraph.look, State.absent, Item.Expects] at hold
  · obtain rfl := List.mem_singleton.1 hk
    obtain rfl : t = g.endMarker := OrderedSet.mem_single.1 hmem
    exact .start

/-- Giving a state its transitions adds no lookahead without a reason. -/
theorem Exploration.Sound.justified_next {e : Exploration} (hg : g.WellFormed)
    (hsets : sets.Declared g) (hs : e.Sound g sets merging)
    (h : Justified g sets e.graph.look) (hdone : e.isDone = false) :
    Justified g sets (e.next g sets merging).graph.look := by
  have hlt : e.explored < e.graph.states.size := by simpa [Exploration.isDone] using hdone
  obtain ⟨e', hlinked, hnext⟩ := hs.exists_linking hg hsets hlt
  rw [hnext]
  apply h.step hs.shaped hlinked.shaped hs.fresh
  · intro q
    rcases Nat.lt_or_ge q e.graph.states.size with hq | hq
    · exact .inr (hlinked.grows.kernel q hq)
    · exact .inl (by rw [StateGraph.look_of_size_le hq]; rfl)
  · intro q
    by_cases hq : q = e.explored
    · rw [hq, hs.unexplored _ (Nat.le_refl _)]
      exact List.nil_subset _
    · rw [hlinked.transitions q hq]
      exact List.Subset.refl _
  · intro q d t ht
    rcases hlinked.origin q d t ht with hold | ⟨x, c, hc⟩
    · exact .inl hold
    · exact .inr ⟨e.explored, x, c, hc⟩

theorem Exploration.justified_full (merging : Merging) (hg : g.WellFormed)
    (hsets : sets.Declared g) :
    Justified g sets (Exploration.full g sets merging).graph.look :=
  (runUntil_invariant
    (P := fun (e : Exploration) => e.Sound g sets merging ∧ Justified g sets e.graph.look)
    (fun _ he hdone => ⟨(he.1.next hg hsets hdone).1, he.1.justified_next hg hsets he.2 hdone⟩) _
    ⟨Exploration.sound_start hg hsets, Exploration.justified_start hg⟩).2

/-- Cleaning a state adds no lookahead without a reason. -/
theorem StateGraph.Sound.justified_cleanNext {c : StateGraph} (hg : g.WellFormed)
    (hsets : sets.Declared g) (hs : c.Sound g sets) (h : Justified g sets c.look) :
    Justified g sets (c.cleanNext g sets).look := by
  have hs' := hs.cleanNext hg hsets
  cases hpop : c.dirty.pop with
  | none =>
      rwa [StateGraph.cleanNext_of_pop_none hpop]
  | some popped =>
      obtain ⟨id, dirty⟩ := popped
      have hlt : id < c.states.size :=
        hs.dirty_lt id (Queue.toList_of_pop hpop ▸ List.mem_cons_self)
      have hrenewed := hs.renew hg hsets hpop
      have hkernels := StateGraph.kernels_renew g sets dirty hlt
      have htransitions := StateGraph.transitions_renew g sets dirty hlt
      have hitems : (c.look id).items.refresh g sets =
          ((c.renew g sets id dirty).look id).items := by
        rw [StateGraph.look_renew hlt, if_pos rfl]
      rw [StateGraph.cleanNext_of_pop hpop hlt, hitems, ← htransitions id] at hs' ⊢
      -- The state itself only finds its pending nonterminals anew.
      have hmid : Justified g sets (c.renew g sets id dirty).look := by
        apply h.step hs.shaped hrenewed.shaped hs.fresh
        · exact fun q => .inr (StateGraph.kernel_renew g sets dirty hlt q)
        · exact fun q => by rw [htransitions]; exact List.Subset.refl _
        · exact fun q d t ht => .inl (hkernels q ▸ ht)
      apply hmid.step hrenewed.shaped hs'.shaped hrenewed.fresh
      · exact fun q => .inr (StateGraph.kernel_spread q)
      · exact fun q => by rw [StateGraph.transitions_spread]; exact List.Subset.refl _
      · intro q d t ht
        rcases StateGraph.source_spread ht with hold | ⟨x, e, hedge, he⟩
        · exact .inl hold
        · exact .inr ⟨id, x, e, (StateGraph.transitions_spread id).symm ▸ hedge, he⟩

theorem StateGraph.justified_propagate {c : StateGraph} (hg : g.WellFormed)
    (hsets : sets.Declared g) (hs : c.Sound g sets) (h : Justified g sets c.look) :
    Justified g sets (c.propagate g sets).look :=
  (runUntil_invariant (P := fun (c : StateGraph) => c.Sound g sets ∧ Justified g sets c.look)
    (fun _ hc _ => ⟨hc.1.cleanNext hg hsets, hc.1.justified_cleanNext hg hsets hc.2⟩) _
    ⟨hs, h⟩).2

/-- The graphs of a grammar have no lookahead without a reason. -/
theorem StateGraph.due_ofGrammar (hg : g.WellFormed) (merging : Merging) :
    Shaped g (StateGraph.ofGrammar g g.firstFollow merging).look ∧
      ∀ q keeper t,
        t ∈ ((StateGraph.ofGrammar g g.firstFollow merging).look q).items.lookaheadsOf keeper →
        Due g g.firstFollow (StateGraph.ofGrammar g g.firstFollow merging).look q keeper t := by
  have hsets := hg.declared_firstFollow
  cases merging with
  | firstFound =>
      have hsound := (Exploration.sound_full .firstFound hg hsets).1
      have hjustified := Exploration.justified_full .firstFound hg hsets
      exact ⟨hsound.shaped, fun _ _ _ => hjustified.due_of_mem hsound.shaped hsound.fresh⟩
  | lalr =>
      have hgraph := Automaton.sound_graph hg
      have hsound := StateGraph.sound_propagate hg hsets hgraph
      have hjustified := StateGraph.justified_propagate hg hsets hgraph
        (Exploration.justified_full .lalr hg hsets)
      exact ⟨hsound.shaped, fun _ _ _ => hjustified.due_of_mem hsound.shaped hsound.fresh⟩

/-- No automaton has a lookahead without a reason. -/
theorem Automaton.due_of_build (hg : g.WellFormed) {a : Automaton}
    (h : Automaton.build g merging = .ok a) {q : Nat} {keeper : Keeper} {t : Terminal}
    (ht : t ∈ (a.look q).items.lookaheadsOf keeper) : Due g g.firstFollow a.look q keeper t := by
  have ha := Automaton.consistent_of_build hg h
  obtain ⟨hshaped, hdue⟩ := StateGraph.due_ofGrammar hg merging
  rw [Automaton.build_eq] at h
  have hlook := Automaton.look_of_settle h
  rw [(hlook q).1] at ht
  apply (hdue q keeper t ht).mono hshaped ha.shaped
  · exact fun i => .inr (Automaton.kernel_of_settle h i)
  · exact fun i => by rw [(hlook i).2.1]; exact List.Subset.refl _

end ShiftReduce
