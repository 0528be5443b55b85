import ShiftReduce.Automaton.Graph
import ShiftReduce.Proofs.ItemSet.Goto

/-!
# What the states of a graph have to do with each other

The graph of item sets is built by steps that add states and transitions and let kernels
grow.  This file says what every such step keeps, in a form that the finished automaton has
as well: all statements are about a function that gives the state of a number.

* `Shaped`: cores and transitions are those of the automaton of the grammar without
  lookaheads.
* `Sourced`: every lookahead of a kernel comes from a state before it.
* `Fresh`: the pending nonterminals have the lookaheads that their kernel asks for.
* `Flowing`: lookaheads are handed on to the states after.

While a state is dirty, the last two are not asked of it.
-/

namespace ShiftReduce

/-! ## Looking up states -/

namespace State

/-- What stands for a state that is not there: no items and no transitions. -/
def absent : State := { items := ⟨[], []⟩ }

/-- The cores of the kernel. -/
def kernel (s : State) : List DottedRule := s.items.kernels.map (·.core)

/-- A terminal is a lookahead of a core in a state. -/
def Expects (g : Grammar) (s : State) (d : DottedRule) (t : Terminal) : Prop :=
  Item.Expects (s.items.items g) d t

@[simp] theorem kernel_absent : absent.kernel = [] := rfl

end State

namespace StateGraph

/-- The state of a number in a graph. -/
def look (c : StateGraph) (q : Nat) : State := c.states[q]?.getD .absent

theorem look_of_getElem? {c : StateGraph} {q : Nat} {s : State} (h : c.states[q]? = some s) :
    c.look q = s := by
  rw [look, h, Option.getD_some]

theorem getElem?_of_lt {c : StateGraph} {q : Nat} (h : q < c.states.size) :
    c.states[q]? = some (c.look q) := by
  rw [look, Array.getElem?_eq_getElem h, Option.getD_some]

theorem look_of_size_le {c : StateGraph} {q : Nat} (h : c.states.size ≤ q) :
    c.look q = .absent := by
  rw [look, Array.getElem?_eq_none h, Option.getD_none]

theorem lt_size_of_mem_kernel {c : StateGraph} {q : Nat} {d : DottedRule}
    (h : d ∈ (c.look q).kernel) : q < c.states.size := by
  by_contra hq
  rw [look_of_size_le (Nat.not_lt.1 hq)] at h
  contradiction

theorem lt_size_of_mem_transitions {c : StateGraph} {q : Nat} {edge : Symbol × Nat}
    (h : edge ∈ (c.look q).transitions) : q < c.states.size := by
  by_contra hq
  rw [look_of_size_le (Nat.not_lt.1 hq)] at h
  contradiction

/-- A new state comes last. -/
theorem look_push (c : StateGraph) (s : State) (q : Nat) :
    StateGraph.look ⟨c.states.push s, c.dirty⟩ q =
      if q = c.states.size then s else c.look q := by
  rw [look, Array.getElem?_push]
  split <;> rfl

theorem states_eq_map_look (c : StateGraph) :
    c.states.toList = (List.range c.states.size).map c.look := by
  apply List.ext_getElem (by simp)
  intro q hq _
  have hlt : q < c.states.size := by simpa using hq
  simp [look, hlt]

end StateGraph

/-! ## Cores -/

/-- A core is in the closure of a kernel: it is in the kernel, or its production is one of an
awaited nonterminal and the marker at the start. -/
def InClosure (g : Grammar) (kernel : List DottedRule) (d : DottedRule) : Prop :=
  d ∈ kernel ∨ (d.marker = 0 ∧ d.rule ∈ g.allRules ∧ Awaited g kernel d.rule.head)

/-- A core belongs to a grammar. -/
def DottedRule.Of (g : Grammar) (d : DottedRule) : Prop :=
  d.rule ∈ g.allRules ∧ d.marker ≤ d.rule.body.length

theorem InClosure.of {g : Grammar} {kernel : List DottedRule} (hkernel : ∀ d ∈ kernel, d.Of g)
    {d : DottedRule} (h : InClosure g kernel d) : d.Of g := by
  rcases h with h | ⟨hmarker, hrule, -⟩
  · exact hkernel d h
  · exact ⟨hrule, hmarker ▸ Nat.zero_le _⟩

/-- What comes next in the closure is awaited. -/
theorem InClosure.awaited {g : Grammar} {kernel : List DottedRule} {d : DottedRule}
    (hd : InClosure g kernel d) {n : Nonterminal} (hn : d.next? = some (.nonterminal n)) :
    Awaited g kernel n := by
  rcases hd with hd | ⟨hmarker, hrule, hawaited⟩
  · exact .kernel hd hn
  · obtain ⟨rule, marker⟩ := d
    obtain rfl : marker = 0 := hmarker
    have hhead : rule.body.head? = some (.nonterminal n) := by
      rw [List.head?_eq_getElem?]
      exact hn
    obtain ⟨rest, hbody⟩ := List.head?_eq_some_iff.1 hhead
    exact .rule hawaited (g.mem_productionsOf.2 ⟨hrule, rfl⟩) hbody

/-- The productions of the next nonterminal are in the closure. -/
theorem InClosure.of_next? {g : Grammar} {kernel : List DottedRule} {d : DottedRule}
    (hd : InClosure g kernel d) {n : Nonterminal} (hn : d.next? = some (.nonterminal n))
    {r : Rule} (hr : r ∈ g.productionsOf n) : InClosure g kernel ⟨r, 0⟩ := by
  obtain ⟨hmem, rfl⟩ := g.mem_productionsOf.1 hr
  exact .inr ⟨rfl, hmem, hd.awaited hn⟩

/-- What is awaited comes next in the closure. -/
theorem Awaited.exists_next {g : Grammar} {kernel : List DottedRule} {n : Nonterminal}
    (h : Awaited g kernel n) :
    ∃ d, InClosure g kernel d ∧ d.next? = some (.nonterminal n) := by
  cases h with
  | kernel hd hn => exact ⟨_, .inl hd, hn⟩
  | @rule m n r rest hm hr hbody =>
      obtain ⟨hmem, rfl⟩ := g.mem_productionsOf.1 hr
      exact ⟨⟨r, 0⟩, .inr ⟨rfl, hmem, hm⟩, by simp [DottedRule.next?, hbody]⟩

theorem DottedRule.Of.advance {g : Grammar} {d : DottedRule} (h : d.Of g) {x : Symbol}
    (hx : d.next? = some x) : d.advance.Of g :=
  ⟨h.1, (List.getElem?_eq_some_iff.1 hx).1⟩

theorem DottedRule.advance_ne_start {g : Grammar} (d : DottedRule) :
    d.advance ≠ ⟨g.acceptRule, 0⟩ := by
  intro h
  have := congrArg DottedRule.marker h
  simp [DottedRule.advance] at this

/-- The kernel that a kernel leads to over a symbol, as a set of cores. -/
def LeadsTo (g : Grammar) (kernel : List DottedRule) (x : Symbol) (kernel' : List DottedRule) :
    Prop :=
  ∀ d, d ∈ kernel' ↔ ∃ e, InClosure g kernel e ∧ e.next? = some x ∧ e.advance = d

/-- The cores and the transitions of states are those of an automaton without lookaheads. -/
structure Shaped (g : Grammar) (look : Nat → State) : Prop where
  kernel_of : ∀ q, ∀ d ∈ (look q).kernel, d.Of g
  distinct : ∀ q, (look q).kernel.Nodup
  pending : ∀ q n, n ∈ (look q).items.pendings.map (·.symbol) ↔ Awaited g (look q).kernel n
  start : (look 0).kernel = [⟨g.acceptRule, 0⟩]
  nodup : ∀ p, ((look p).transitions.map (·.1)).Nodup
  next : ∀ p x q, (x, q) ∈ (look p).transitions →
    x ≠ .terminal g.blank ∧ ∃ d, InClosure g (look p).kernel d ∧ d.next? = some x
  target : ∀ p x q, (x, q) ∈ (look p).transitions →
    LeadsTo g (look p).kernel x (look q).kernel

/-- Over every symbol that comes next in a state there is a transition. -/
def Explored (g : Grammar) (s : State) : Prop :=
  ∀ d x, InClosure g s.kernel d → d.next? = some x → x ≠ .terminal g.blank →
    ∃ q, (x, q) ∈ s.transitions

namespace Shaped

variable {g : Grammar} {look look' : Nat → State}

theorem rule_mem (h : Shaped g look) (q : Nat) :
    ∀ k ∈ (look q).items.kernels, k.core.rule ∈ g.allRules :=
  fun _ hk => (h.kernel_of q _ (List.mem_map_of_mem hk)).1

/-- The items of a state are the closure of its kernel. -/
theorem mem_items (h : Shaped g look) {q : Nat} {d : DottedRule} :
    d ∈ ((look q).items.items g).map (·.core) ↔ InClosure g (look q).kernel d := by
  rw [ItemSet.mem_core_items, h.pending]
  rfl

/-- The kernel that a state reaches over a symbol. -/
theorem leadsTo_advance (h : Shaped g look) (q : Nat) (x : Symbol) :
    LeadsTo g (look q).kernel x (((look q).items.advance g x).map (·.core)) := by
  intro d
  rw [ItemSet.advance, Item.mem_core_across]
  simp only [h.mem_items]

/-- The items that a state moves on belong to the grammar. -/
theorem of_advance (h : Shaped g look) {q : Nat} {x : Symbol} :
    ∀ k ∈ (look q).items.advance g x, k.core.Of g := by
  intro k hk
  obtain ⟨d, hd, hnext, hadvance⟩ := (h.leadsTo_advance q x _).1 (List.mem_map_of_mem hk)
  rw [← hadvance]
  exact (hd.of (h.kernel_of q)).advance hnext

theorem inClosure_of_expects (h : Shaped g look) {q : Nat} {d : DottedRule} {t : Terminal}
    (ht : (look q).Expects g d t) : InClosure g (look q).kernel d :=
  h.mem_items.1 (Item.mem_core_of_expects ht)

/-- No transition leads back to the start. -/
theorem target_ne_zero (h : Shaped g look) {p q : Nat} {x : Symbol}
    (hedge : (x, q) ∈ (look p).transitions) : q ≠ 0 := by
  rintro rfl
  have hmem : (⟨g.acceptRule, 0⟩ : DottedRule) ∈ (look 0).kernel := by simp [h.start]
  obtain ⟨e, -, -, he⟩ := (h.target p x 0 hedge _).1 hmem
  exact e.advance_ne_start he

/-- Changes of lookaheads do not matter to the shape. -/
theorem congr (h : Shaped g look) (hkernel : ∀ q, (look' q).kernel = (look q).kernel)
    (hpending : ∀ q n, n ∈ (look' q).items.pendings.map (·.symbol) ↔
      n ∈ (look q).items.pendings.map (·.symbol))
    (htransitions : ∀ q, (look' q).transitions = (look q).transitions) : Shaped g look' where
  kernel_of q := by rw [hkernel]; exact h.kernel_of q
  distinct q := by rw [hkernel]; exact h.distinct q
  pending q n := by rw [hpending, hkernel]; exact h.pending q n
  start := by rw [hkernel]; exact h.start
  nodup p := by rw [htransitions]; exact h.nodup p
  next p x q := by rw [htransitions, hkernel]; exact h.next p x q
  target p x q := by rw [htransitions, hkernel, hkernel]; exact h.target p x q

/-- A transition over a new symbol keeps the shape. -/
theorem link (hs : Shaped g look) {p q : Nat} {x : Symbol}
    (hlook : ∀ i, look' i = if i = p then
      { look i with transitions := (look i).transitions ++ [(x, q)] } else look i)
    (hnew : x ∉ (look p).transitions.map (·.1)) (hblank : x ≠ .terminal g.blank)
    (hnext : ∃ d, InClosure g (look p).kernel d ∧ d.next? = some x)
    (hleads : LeadsTo g (look p).kernel x (look q).kernel) : Shaped g look' := by
  have hitems : ∀ i, (look' i).items = (look i).items := by
    intro i
    rw [hlook]
    split <;> rfl
  have hkernel : ∀ i, (look' i).kernel = (look i).kernel := by
    intro i
    rw [State.kernel, hitems, State.kernel]
  have hedge : ∀ i y j, (y, j) ∈ (look' i).transitions →
      (y, j) ∈ (look i).transitions ∨ (i = p ∧ y = x ∧ j = q) := by
    intro i y j h
    rw [hlook] at h
    split at h
    · rename_i hi
      exact (List.mem_append.1 h).imp_right fun h => ⟨hi, by simpa using h⟩
    · exact .inl h
  constructor
  case kernel_of =>
    intro i
    rw [hkernel]
    exact hs.kernel_of i
  case distinct =>
    intro i
    rw [hkernel]
    exact hs.distinct i
  case pending =>
    intro i n
    rw [hitems, hkernel]
    exact hs.pending i n
  case start =>
    rw [hkernel]
    exact hs.start
  case nodup =>
    intro i
    rw [hlook]
    split
    · rename_i hi
      subst hi
      rw [List.map_append, List.nodup_append]
      refine ⟨hs.nodup i, by simp, ?_⟩
      rintro y hy z hz rfl
      have hyx : y = x := List.mem_singleton.1 hz
      exact hnew (hyx ▸ hy)
    · exact hs.nodup i
  case next =>
    intro i y j h
    rw [hkernel]
    rcases hedge i y j h with h | ⟨rfl, rfl, rfl⟩
    exacts [hs.next i y j h, ⟨hblank, hnext⟩]
  case target =>
    intro i y j h
    rw [hkernel, hkernel]
    rcases hedge i y j h with h | ⟨rfl, rfl, rfl⟩
    exacts [hs.target i y j h, hleads]

end Shaped

/-! ## Lookaheads -/

/-- Where the lookaheads of kernels come from: the first one is the end marker, and the others
are brought by transitions. -/
structure Sourced (g : Grammar) (look : Nat → State) : Prop where
  start : Item.Expects (look 0).items.kernels ⟨g.acceptRule, 0⟩ g.endMarker
  source : ∀ q d t, Item.Expects (look q).items.kernels d t →
    (d = ⟨g.acceptRule, 0⟩ ∧ t = g.endMarker) ∨
    ∃ p x e, (x, q) ∈ (look p).transitions ∧ (look p).Expects g e t ∧ e.next? = some x ∧
      e.advance = d
  declared : ∀ q d t, Item.Expects (look q).items.kernels d t →
    t.index < g.vocabulary.terminals.length

/-- A lookahead of an item that has not moved yet is that of the accepting production. -/
theorem Sourced.eq_start {g : Grammar} {look : Nat → State} (h : Sourced g look) {q : Nat}
    {d : DottedRule} {t : Terminal} (ht : Item.Expects (look q).items.kernels d t)
    (hmarker : d.marker = 0) : d = ⟨g.acceptRule, 0⟩ ∧ t = g.endMarker := by
  rcases h.source q d t ht with hstart | ⟨p, x, e, -, -, -, rfl⟩
  · exact hstart
  · exact absurd hmarker (Nat.succ_ne_zero _)

/-- Only the lookaheads of kernels have a source, and items may expect more than before. -/
theorem Sourced.congr {g : Grammar} {look look' : Nat → State} (h : Sourced g look)
    (hkernels : ∀ q, (look' q).items.kernels = (look q).items.kernels)
    (htransitions : ∀ q, (look' q).transitions = (look q).transitions)
    (hexpects : ∀ q d t, (look q).Expects g d t → (look' q).Expects g d t) :
    Sourced g look' := by
  constructor
  · rw [hkernels]
    exact h.start
  · intro q d t ht
    rw [hkernels] at ht
    rcases h.source q d t ht with hstart | ⟨p, x, e, hedge, he, hx, hadvance⟩
    · exact .inl hstart
    · rw [← htransitions] at hedge
      exact .inr ⟨p, x, e, hedge, hexpects p e t he, hx, hadvance⟩
  · intro q d t ht
    rw [hkernels] at ht
    exact h.declared q d t ht

/-- Pending nonterminals have no other lookaheads than their kernel asks for, and all of them
in the states that are clean. -/
structure Fresh (g : Grammar) (sets : FirstFollow) (clean : Nat → Prop) (look : Nat → State) :
    Prop where
  foreseen : ∀ q n t, Pending.Expects (look q).items.pendings n t →
    Foreseen g sets (look q).items.kernels n t
  expects : ∀ q, clean q → ∀ n t, Foreseen g sets (look q).items.kernels n t →
    Pending.Expects (look q).items.pendings n t

/-- The lookaheads of some items arrive over the transitions of a state. -/
def Arrived (look : Nat → State) (items : List Item) (transitions : List (Symbol × Nat)) : Prop :=
  ∀ x q, (x, q) ∈ transitions → ∀ d t, Item.Expects items d t → d.next? = some x →
    Item.Expects (look q).items.kernels d.advance t

/-- Clean states have handed on their lookaheads. -/
def Flowing (g : Grammar) (clean : Nat → Prop) (look : Nat → State) : Prop :=
  ∀ p, clean p → Arrived look ((look p).items.items g) (look p).transitions

/-- A state that is not there has nothing pending. -/
theorem not_awaited_nil {g : Grammar} {n : Nonterminal} : ¬ Awaited g [] n := by
  intro h
  induction h with
  | kernel hd _ => contradiction
  | rule _ _ _ ih => exact ih

theorem not_foreseen_nil {g : Grammar} {sets : FirstFollow} {n : Nonterminal} {t : Terminal} :
    ¬ Foreseen g sets [] n t := by
  intro h
  induction h with
  | kernel hk _ _ => contradiction
  | beyond hm _ _ _ => exact not_awaited_nil hm
  | last _ _ _ ih => exact ih

/-- All lookaheads that are foreseen are declared. -/
theorem Foreseen.declared {g : Grammar} (hg : g.WellFormed) {sets : FirstFollow}
    (hsets : sets.Declared g) {kernels : List Item}
    (hkernels : ∀ k ∈ kernels, k.core.rule ∈ g.allRules)
    (hdeclared : ∀ d t, Item.Expects kernels d t → t.index < g.vocabulary.terminals.length)
    {n : Nonterminal} {t : Terminal} (h : Foreseen g sets kernels n t) :
    t.index < g.vocabulary.terminals.length := by
  rcases Expansion.declares_of_foreseen hg hsets hkernels h with ht | ⟨k, hk, ht⟩
  · exact ht
  · exact hdeclared k.core t ⟨k, hk, rfl, ht⟩

/-- So are all lookaheads of a state. -/
theorem Sourced.declared_of_expects {g : Grammar} (hg : g.WellFormed) {sets : FirstFollow}
    (hsets : sets.Declared g) {look : Nat → State} (hs : Sourced g look)
    (hshaped : Shaped g look)
    (hforeseen : ∀ q n t, Pending.Expects (look q).items.pendings n t →
      Foreseen g sets (look q).items.kernels n t)
    {q : Nat} {d : DottedRule} {t : Terminal} (ht : (look q).Expects g d t) :
    t.index < g.vocabulary.terminals.length := by
  rcases ItemSet.expects_items.1 ht with ht | ⟨-, -, ht⟩
  · exact hs.declared q d t ht
  · exact (hforeseen q _ t ht).declared hg hsets (hshaped.rule_mem q) (hs.declared q)

end ShiftReduce
