import Mathlib.Data.Prod.Lex
import Mathlib.Order.Bounds.Basic
import ShiftReduce.Proofs.Automaton.Skeleton

/-!
# The numbers of the states

The exploration gives out numbers in the order in which it comes upon the states: it goes through
the states by their numbers and through the transitions of each in turn, and a state has the first
number that is left when the first transition to it is added.

## Strategy

The transitions into a state are known by their places (`entries`), and places are ordered as they
are visited.  Every transition is added at a place behind all that there are (`Numbered.lt_place`).
So the first transition into a state never changes, and by the time a state is entered all states
before it have been entered (`Numbered.attach`).

All of this is for `Merging.firstFound`, where a state keeps the items that it was made with
(`FoundAt`).  What does not depend on lookaheads holds of `Merging.lalr` as well, since the
skeletons are the same (`alike_ofGrammar`).
-/

namespace ShiftReduce

/-! ## Transitions by their places -/

/-- Where the transitions into a state are: the number of the state that a transition comes from,
and its place among the transitions there. -/
def entries (look : Nat → State) (q : Nat) : Set (Nat ×ₗ Nat) :=
  {place | ∃ x, (look (ofLex place).1).transitions[(ofLex place).2]? = some (x, q)}

theorem entries_congr {look look' : Nat → State}
    (h : ∀ p, (look' p).transitions = (look p).transitions) : entries look' = entries look := by
  funext q
  simp only [entries, h]

/-- A state has been found over the transition at a place: no transition into it comes before, and
its items are those of the kernel that the transition leads to. -/
structure FoundAt (g : Grammar) (sets : FirstFollow) (look : Nat → State) (q p i : Nat)
    (x : Symbol) : Prop where
  least : IsLeast (entries look q) (toLex (p, i))
  lt : p < q
  edge : (look p).transitions[i]? = some (x, q)
  items : (look q).items = .ofKernels g sets ((look p).items.advance g x)

namespace Exploration

variable {g : Grammar} {sets : FirstFollow}

/-- The place of the next transition. -/
def place (e : Exploration) : Nat ×ₗ Nat :=
  toLex (e.explored, (e.graph.look e.explored).transitions.length)

/-! ## Adding a transition -/

/-- One exploration is another with a transition more, to a state that is made for it if its number
is the first that is left. -/
structure Attached (g : Grammar) (sets : FirstFollow) (x : Symbol) (target : Nat)
    (e f : Exploration) : Prop where
  explored : f.explored = e.explored
  target_le : target ≤ e.graph.states.size
  size : f.graph.states.size = max e.graph.states.size (target + 1)
  index_lt : ∀ (cores : List DottedRule) (q : Nat),
    f.index[cores]? = some q → q < f.graph.states.size
  items : ∀ q < e.graph.states.size, (f.graph.look q).items = (e.graph.look q).items
  made : target = e.graph.states.size → (f.graph.look target).items =
    .ofKernels g sets ((e.graph.look e.explored).items.advance g x)
  transitions : ∀ p, (f.graph.look p).transitions = if p = e.explored then
    (e.graph.look p).transitions ++ [(x, target)] else (e.graph.look p).transitions

theorem exists_attached (g : Grammar) (sets : FirstFollow) {e : Exploration}
    (hlt : e.explored < e.graph.states.size)
    (hindex : ∀ (cores : List DottedRule) (q : Nat),
      e.index[cores]? = some q → q < e.graph.states.size) (x : Symbol) :
    ∃ target, Attached g sets x target e (e.connect g sets .firstFound
      (x, (e.graph.look e.explored).items.advance g x)) := by
  set kernel := (e.graph.look e.explored).items.advance g x
  have hlinked : (e.intern g sets .firstFound kernel).2.explored <
        (e.intern g sets .firstFound kernel).2.graph.states.size →
      Linked x (e.intern g sets .firstFound kernel).1 (e.intern g sets .firstFound kernel).2
        (e.connect g sets .firstFound (x, kernel)) := linked_connect (x, kernel)
  cases hknown : e.index[Item.cores kernel]? with
  | some id =>
      have hintern : e.intern g sets .firstFound kernel = (id, e) := by
        unfold intern
        dsimp only
        rw [hknown]
      rw [hintern] at hlinked
      have hl := hlinked hlt
      have hid : id < e.graph.states.size := hindex _ _ hknown
      refine ⟨id, hl.explored, hid.le, ?_, ?_, fun q _ => hl.items q, fun h => ?_, fun p => ?_⟩
      · rw [hl.size, max_eq_left hid]
      · rw [hl.index, hl.size]
        exact hindex
      · exact absurd h hid.ne
      · rw [hl.look]
        split <;> rfl
  | none =>
      rw [intern_of_new hknown] at hlinked
      have hl := hlinked (by simpa using Nat.lt_succ_of_lt hlt)
      refine ⟨e.graph.states.size, hl.explored, le_rfl, ?_, ?_, ?_, fun _ => ?_, fun p => ?_⟩
      · rw [hl.size, Array.size_push, max_eq_right (Nat.le_succ _)]
      · intro cores q hq
        rw [hl.index, Std.TreeMap.getElem?_insert] at hq
        rw [hl.size, Array.size_push]
        split at hq
        · obtain rfl := Option.some.inj hq
          exact Nat.lt_succ_self _
        · exact Nat.lt_succ_of_lt (hindex cores q hq)
      · intro q hq
        rw [hl.items, StateGraph.look_push, if_neg hq.ne]
      · rw [hl.items, StateGraph.look_push, if_pos rfl]
      · -- The state that has just been made has no transitions, as the absent one before it.
        have hsame : ∀ p, (StateGraph.look ⟨e.graph.states.push
            { items := .ofKernels g sets kernel }, e.graph.dirty⟩ p).transitions =
              (e.graph.look p).transitions := by
          intro p
          rw [StateGraph.look_push]
          split
          · rename_i hp
            rw [hp, StateGraph.look_of_size_le le_rfl]
            rfl
          · rfl
        rw [hl.look]
        split
        · exact congrArg (· ++ _) (hsame p)
        · exact hsame p

/-! ## One state after another -/

/-- The numbers of the states so far are in the order of the first transitions into them. -/
structure Numbered (g : Grammar) (sets : FirstFollow) (e : Exploration) : Prop where
  index_lt : ∀ (cores : List DottedRule) (q : Nat),
    e.index[cores]? = some q → q < e.graph.states.size
  target_lt : ∀ q place, place ∈ entries e.graph.look q → q < e.graph.states.size
  unexplored : ∀ p, e.explored < p → (e.graph.look p).transitions = []
  found : ∀ q < e.graph.states.size, q ≠ 0 → ∃ p i x, FoundAt g sets e.graph.look q p i x
  entered : ∀ q place, place ∈ entries e.graph.look q → ∀ q' < q, q' ≠ 0 →
    ∃ place' ∈ entries e.graph.look q', place' < place

namespace Attached

variable {x : Symbol} {target : Nat} {e f : Exploration} (h : Attached g sets x target e f)

include h

theorem getElem?_transitions {p i q : Nat} {y : Symbol} :
    (f.graph.look p).transitions[i]? = some (y, q) ↔
      (e.graph.look p).transitions[i]? = some (y, q) ∨
        (toLex (p, i) = e.place ∧ y = x ∧ q = target) := by
  have hplace : toLex (p, i) = e.place ↔
      p = e.explored ∧ i = (e.graph.look p).transitions.length := by
    rw [place, toLex_inj, Prod.mk.injEq]
    refine and_congr_right ?_
    rintro rfl
    rfl
  rw [hplace, h.transitions]
  by_cases hp : p = e.explored
  · rw [if_pos hp, List.getElem?_append]
    split
    · rename_i hi
      simp [hi.ne]
    · rename_i hi
      rw [List.getElem?_eq_none (Nat.le_of_not_lt hi), List.getElem?_singleton]
      by_cases hi' : i - (e.graph.look p).transitions.length = 0
      · have heq : i = (e.graph.look p).transitions.length := by omega
        simp [hp, heq, eq_comm]
      · have hne : i ≠ (e.graph.look p).transitions.length := by omega
        simp [hi', hne]
  · rw [if_neg hp]
    simp [hp]

theorem mem_entries {q : Nat} {place : Nat ×ₗ Nat} : place ∈ entries f.graph.look q ↔
    place ∈ entries e.graph.look q ∨ (place = e.place ∧ q = target) := by
  simp only [entries, Set.mem_ofPred_eq, h.getElem?_transitions, exists_or]
  simp

end Attached

namespace Numbered

variable {x : Symbol} {target : Nat} {e f : Exploration} (h : Numbered g sets e)

include h

/-- The places of the first transitions are in the order of the states. -/
theorem lt {q q' : Nat} {first first' : Nat ×ₗ Nat} (hne : q ≠ 0) (hlt : q < q')
    (hfirst : IsLeast (entries e.graph.look q) first)
    (hfirst' : IsLeast (entries e.graph.look q') first') : first < first' := by
  obtain ⟨between, hbetween, hbefore⟩ := h.entered q' first' hfirst'.1 q hlt hne
  exact (hfirst.2 hbetween).trans_lt hbefore

/-- The next transition comes behind all others. -/
theorem lt_place {q : Nat} {place : Nat ×ₗ Nat} (hplace : place ∈ entries e.graph.look q) :
    place < e.place := by
  obtain ⟨y, hy⟩ := hplace
  have hi := (List.getElem?_eq_some_iff.1 hy).1
  rw [Exploration.place, Prod.Lex.lt_iff]
  rcases lt_trichotomy (ofLex place).1 e.explored with hlt | heq | hgt
  · exact .inl hlt
  · exact .inr ⟨heq, heq ▸ hi⟩
  · rw [h.unexplored _ hgt] at hi
    exact absurd hi (Nat.not_lt_zero _)

/-- The first transition into a state remains the first. -/
theorem isLeast_attach (hf : Attached g sets x target e f) {q : Nat} {place : Nat ×ₗ Nat}
    (hleast : IsLeast (entries e.graph.look q) place) : IsLeast (entries f.graph.look q) place := by
  refine ⟨hf.mem_entries.2 (.inl hleast.1), fun place' hplace' => ?_⟩
  rcases hf.mem_entries.1 hplace' with hold | ⟨rfl, -⟩
  · exact hleast.2 hold
  · exact (h.lt_place hleast.1).le

/-- The first transition into a new state is the one that it is made for. -/
theorem isLeast_new (hf : Attached g sets x e.graph.states.size e f) :
    IsLeast (entries f.graph.look e.graph.states.size) e.place := by
  refine ⟨hf.mem_entries.2 (.inr ⟨rfl, rfl⟩), fun place' hplace' => ?_⟩
  rcases hf.mem_entries.1 hplace' with hold | ⟨rfl, -⟩
  · exact absurd (h.target_lt _ _ hold) (lt_irrefl _)
  · exact le_rfl

/-- A transition more leaves the states in order. -/
theorem attach (hf : Attached g sets x target e f) (hlt : e.explored < e.graph.states.size) :
    Numbered g sets f := by
  have hsize : e.graph.states.size ≤ f.graph.states.size := hf.size ▸ le_max_left _ _
  constructor
  case index_lt => exact hf.index_lt
  case target_lt =>
    intro q place hplace
    rcases hf.mem_entries.1 hplace with hold | ⟨-, rfl⟩
    · exact (h.target_lt q place hold).trans_le hsize
    · rw [hf.size]
      exact lt_max_of_lt_right (Nat.lt_succ_self _)
  case unexplored =>
    intro p hp
    rw [hf.explored] at hp
    rw [hf.transitions, if_neg hp.ne', h.unexplored p hp]
  case found =>
    intro q hq hne
    rcases Nat.lt_or_ge q e.graph.states.size with hold | hnew
    · obtain ⟨p, i, y, hfound⟩ := h.found q hold hne
      refine ⟨p, i, y, h.isLeast_attach hf hfound.least, hfound.lt,
        hf.getElem?_transitions.2 (.inl hfound.edge), ?_⟩
      rw [hf.items q hold, hf.items p (hfound.lt.trans hold), hfound.items]
    · -- There is one new number at most, and it is that of the target.
      have hle := hf.target_le
      obtain ⟨rfl, rfl⟩ : q = e.graph.states.size ∧ target = e.graph.states.size := by
        rw [hf.size] at hq
        omega
      have hedge := hf.getElem?_transitions.2 (.inr ⟨rfl, rfl, rfl⟩)
      refine ⟨_, _, x, h.isLeast_new hf, hlt, hedge, ?_⟩
      rw [hf.made rfl, hf.items _ hlt]
  case entered =>
    intro q place hplace q' hq' hne
    rcases hf.mem_entries.1 hplace with hold | ⟨rfl, rfl⟩
    · obtain ⟨place', hplace', hbefore⟩ := h.entered q place hold q' hq' hne
      exact ⟨place', hf.mem_entries.2 (.inl hplace'), hbefore⟩
    · obtain ⟨p, i, y, hfound⟩ := h.found q' (hq'.trans_le hf.target_le) hne
      exact ⟨_, hf.mem_entries.2 (.inl hfound.least.1), h.lt_place hfound.least.1⟩

/-- So do all transitions of a state. -/
theorem foldl_connect (hlt : e.explored < e.graph.states.size) {items : ItemSet}
    (hitems : (e.graph.look e.explored).items = items) (symbols : List Symbol) :
    Numbered g sets ((symbols.map fun x => (x, items.advance g x)).foldl
      (connect g sets .firstFound) e) := by
  induction symbols generalizing e with
  | nil => exact h
  | cons x symbols ih =>
      obtain ⟨target, hf⟩ := exists_attached g sets hlt h.index_lt x
      rw [hitems] at hf
      apply ih (h.attach hf hlt)
      · rw [hf.explored, hf.size]
        exact lt_max_of_lt_left hlt
      · rw [hf.explored, hf.items _ hlt, hitems]

/-- Exploring a state leaves the states in order. -/
theorem next : Numbered g sets (e.next g sets .firstFound) := by
  rcases Nat.lt_or_ge e.explored e.graph.states.size with hlt | hle
  · have hfold := h.foldl_connect hlt rfl ((e.graph.look e.explored).items.nextSymbols g)
    rw [next_eq hlt]
    exact ⟨hfold.index_lt, hfold.target_lt, fun p hp => hfold.unexplored p (Nat.lt_of_succ_lt hp),
      hfold.found, hfold.entered⟩
  · rw [Exploration.next, Array.getElem?_eq_none hle]
    exact h

end Numbered

/-- The start state has no transitions yet. -/
theorem numbered_start (g : Grammar) (sets : FirstFollow) : Numbered g sets (start g sets) := by
  have hempty : ({} : Exploration).index[Item.cores (startKernel g)]? = none := rfl
  have hsize : (start g sets).graph.states.size = 1 := by
    rw [start, intern_of_new hempty]
    rfl
  have htransitions : ∀ p, ((start g sets).graph.look p).transitions = [] := by
    intro p
    rw [start, intern_of_new hempty, StateGraph.look_push]
    split <;> rfl
  have hentries : ∀ q place, place ∉ entries (start g sets).graph.look q := by
    rintro q place ⟨x, hx⟩
    rw [htransitions] at hx
    contradiction
  constructor
  case index_lt =>
    intro cores q hq
    rw [start, intern_of_new hempty, Std.TreeMap.getElem?_insert] at hq
    split at hq
    · obtain rfl := Option.some.inj hq
      exact hsize ▸ Nat.zero_lt_one
    · contradiction
  case target_lt => exact fun q place hplace => absurd hplace (hentries q place)
  case unexplored => exact fun p _ => htransitions p
  case found =>
    intro q hq hne
    exact absurd (Nat.lt_one_iff.1 (hsize ▸ hq)) hne
  case entered => exact fun q place hplace => absurd hplace (hentries q place)

theorem numbered_upTo (g : Grammar) (sets : FirstFollow) (mark : Exploration → Bool) :
    Numbered g sets (upTo g sets .firstFound mark) :=
  runUntil_invariant (fun _ h _ => h.next) _ (numbered_start g sets)

theorem numbered_full (g : Grammar) (sets : FirstFollow) :
    Numbered g sets (full g sets .firstFound) :=
  runUntil_invariant (fun _ h _ => h.next) _ (numbered_start g sets)

end Exploration

end ShiftReduce
