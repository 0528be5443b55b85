import ShiftReduce.Proofs.Automaton.Build

/-!
# Paths of an automaton

The state stack of a parser is a path of the automaton, and the path spells a row of symbols.
An item of the topmost state says how the path got there: below the symbols before its marker
stands a state with the same production and the marker at the start (`Path.unwind`).  In the
other direction items go along with their lookaheads when a stack grows (`Spells.expects`).
-/

namespace ShiftReduce.Automaton

variable {g : Grammar} {a : Automaton}

theorem lt_length_of_mem_kernel {q : Nat} {d : DottedRule} (h : d ∈ (a.look q).kernel) :
    q < a.states.length := by
  by_contra hq
  rw [look, List.getElem?_eq_none (Nat.not_lt.1 hq), Option.getD_none] at h
  contradiction

/-- A transition leads to a state that is there. -/
theorem Consistent.target_lt_length (ha : a.Consistent g) {p q : Nat} {x : Symbol}
    (h : (a.look p).transition? x = some q) : q < a.states.length := by
  obtain ⟨-, d, hd, hnext⟩ := ha.shaped.next p x q (ha.transition?_eq_some_iff.1 h)
  exact lt_length_of_mem_kernel (ha.advance_mem_of_transition? h hd hnext)

/-- The states on a path from the start state, and the symbols between them.  Both lists begin
with the last. -/
inductive Path (a : Automaton) : List Nat → List Symbol → Prop
  | start : Path a [startState] []
  | step {p q : Nat} {states : List Nat} {x : Symbol} {symbols : List Symbol} :
      Path a (p :: states) symbols → (a.look p).transition? x = some q →
      Path a (q :: p :: states) (x :: symbols)

namespace Path

theorem ne_nil {states : List Nat} {symbols : List Symbol} (h : Path a states symbols) :
    ∃ q rest, states = q :: rest := by
  cases h with
  | start => exact ⟨_, _, rfl⟩
  | step _ _ => exact ⟨_, _, rfl⟩

/-- There is one state more than there are symbols. -/
theorem length_eq {states : List Nat} {symbols : List Symbol} (h : Path a states symbols) :
    states.length = symbols.length + 1 := by
  induction h with
  | start => rfl
  | step _ _ ih => rw [List.length_cons, ih, List.length_cons]

variable (ha : a.Consistent g)

include ha

/-- Every state of a path has a kernel. -/
theorem exists_mem_kernel {q : Nat} {states : List Nat} {symbols : List Symbol}
    (h : Path a (q :: states) symbols) : ∃ d, d ∈ (a.look q).kernel := by
  cases h with
  | start =>
      rw [startState, ha.shaped.start]
      exact ⟨_, List.mem_singleton.2 rfl⟩
  | step _ hx =>
      obtain ⟨-, d, hd, hnext⟩ := ha.shaped.next _ _ _ (ha.transition?_eq_some_iff.1 hx)
      exact ⟨d.advance, ha.advance_mem_of_transition? hx hd hnext⟩

theorem lt_length {q : Nat} {states : List Nat} {symbols : List Symbol}
    (h : Path a (q :: states) symbols) : q < a.states.length := by
  obtain ⟨d, hd⟩ := h.exists_mem_kernel ha
  exact lt_length_of_mem_kernel hd

/-- An item of the kernel has its marker at the start in the start state only. -/
theorem eq_start {q : Nat} {states : List Nat} {symbols : List Symbol}
    (h : Path a (q :: states) symbols) {d : DottedRule} (hd : d ∈ (a.look q).kernel)
    (hmarker : d.marker = 0) : states = [] ∧ symbols = [] := by
  cases h with
  | start => exact ⟨rfl, rfl⟩
  | step _ hx =>
      obtain ⟨e, -, -, rfl⟩ := ha.mem_closure_of_transition? hx hd
      exact absurd hmarker (Nat.succ_ne_zero _)

/-- It is the accepting production. -/
theorem eq_acceptRule {q : Nat} {states : List Nat} {symbols : List Symbol}
    (h : Path a (q :: states) symbols) {r : Rule} (hd : ⟨r, 0⟩ ∈ (a.look q).kernel) :
    r = g.acceptRule ∧ symbols = [] := by
  obtain ⟨rfl, rfl⟩ := h.eq_start ha hd rfl
  cases h
  rw [startState, ha.shaped.start, List.mem_singleton] at hd
  exact ⟨congrArg DottedRule.rule hd, rfl⟩

/-- What is below the symbols that an item has moved over. -/
theorem unwind {q : Nat} {states : List Nat} {symbols : List Symbol}
    (h : Path a (q :: states) symbols) {r : Rule} {marker : Nat}
    (hd : InClosure g (a.look q).kernel ⟨r, marker⟩) :
    ∃ p below spelled, symbols = (r.body.take marker).reverse ++ spelled ∧
      (q :: states).drop marker = p :: below ∧ Path a (p :: below) spelled ∧
      InClosure g (a.look p).kernel ⟨r, 0⟩ ∧
      ∀ x ∈ r.body.take marker, x ≠ .terminal g.blank := by
  induction marker generalizing q states symbols with
  | zero => exact ⟨q, states, symbols, rfl, rfl, h, hd, by simp⟩
  | succ marker ih =>
      -- The item has come over the last transition of the path, one place further back.
      have hkernel : ⟨r, marker + 1⟩ ∈ (a.look q).kernel :=
        hd.resolve_right fun hzero => absurd hzero.1 (Nat.succ_ne_zero marker)
      cases h with
      | start =>
          rw [startState, ha.shaped.start] at hkernel
          simp at hkernel
      | @step p' _ states x symbols hpath hx =>
          obtain ⟨e, he, hnext, hadvance⟩ := ha.mem_closure_of_transition? hx hkernel
          obtain rfl : e = ⟨r, marker⟩ := DottedRule.advance_inj hadvance
          obtain ⟨p, below, spelled, rfl, hdrop, hbelow, hp, hblank⟩ := ih hpath he
          have htake : r.body.take (marker + 1) = r.body.take marker ++ [x] :=
            DottedRule.take_of_next? hnext
          refine ⟨p, below, spelled, by simp [htake], by simpa using hdrop, hbelow, hp, ?_⟩
          intro y hy
          rw [htake, List.mem_append, List.mem_singleton] at hy
          rcases hy with hy | rfl
          exacts [hblank y hy, ha.ne_blank_of_transition? hx]

/-- A production that may be reduced has moved over all that it matches. -/
theorem take_of_isReducible (hg : g.WellFormed) {q : Nat} {states : List Nat}
    {symbols : List Symbol} (h : Path a (q :: states) symbols) {r : Rule} {marker : Nat}
    (hd : InClosure g (a.look q).kernel ⟨r, marker⟩)
    (hreducible : (⟨r, marker⟩ : DottedRule).isReducible = true) :
    r.body.take marker = r.matched ∧ marker = r.arity := by
  have hr : r ∈ g.allRules := (hd.of (ha.shaped.kernel_of q)).1
  unfold Rule.matched Rule.arity
  split
  · rename_i hepsilon
    have hbody := (hg.isEpsilon_iff_of_mem hr).1 hepsilon
    obtain ⟨-, -, -, -, -, -, -, hblank⟩ := h.unwind ha hd
    -- The body is the blank, and a path spells no blank.
    cases marker with
    | zero => exact ⟨rfl, rfl⟩
    | succ marker =>
        rw [hbody] at hblank
        exact absurd rfl (hblank (.terminal g.blank) (by simp))
  · rename_i hepsilon
    obtain rfl : marker = r.body.length := by
      simpa [DottedRule.isReducible, hepsilon] using hreducible
    exact ⟨List.take_length, rfl⟩

/-- What is below the symbols that a reduction takes. -/
theorem reduce (hg : g.WellFormed) {q : Nat} {states : List Nat} {symbols : List Symbol}
    (h : Path a (q :: states) symbols) {t : Terminal} {r : Rule}
    (hr : (a.look q).reduce? t = some r) :
    ∃ p below spelled, symbols = r.matched.reverse ++ spelled ∧
      (q :: states).drop r.arity = p :: below ∧ Path a (p :: below) spelled ∧
      InClosure g (a.look p).kernel ⟨r, 0⟩ := by
  obtain ⟨⟨_, marker⟩, hd, hreducible, rfl, -⟩ := ha.exists_of_reduce? hr
  obtain ⟨htake, hmarker⟩ := h.take_of_isReducible ha hg hd hreducible
  obtain ⟨p, below, spelled, hsymbols, hdrop, hpath, hp, -⟩ := h.unwind ha hd
  rw [htake] at hsymbols
  rw [hmarker] at hdrop
  exact ⟨p, below, spelled, hsymbols, hdrop, hpath, hp⟩

/-- Below the symbols that a reduction takes stands a state with a transition over the head. -/
theorem exists_goto (hg : g.WellFormed) {q : Nat} {states : List Nat} {symbols : List Symbol}
    (h : Path a (q :: states) symbols) {t : Terminal} {r : Rule}
    (hr : (a.look q).reduce? t = some r) (haccept : r.head ≠ .accept) :
    ∃ p below target, (q :: states).drop r.arity = p :: below ∧
      (a.look p).transition? (.nonterminal r.head) = some target := by
  obtain ⟨p, below, spelled, -, hdrop, hpath, hp⟩ := h.reduce ha hg hr
  rcases hp with hkernel | ⟨-, -, hawaited⟩
  · -- Only the accepting production is in a kernel with the marker at the start.
    obtain ⟨rfl, -⟩ := hpath.eq_acceptRule ha hkernel
    exact absurd rfl haccept
  · obtain ⟨d, hd, hnext⟩ := hawaited.exists_next
    obtain ⟨target, htarget, -⟩ := ha.exists_transition? hd hnext (by simp)
    exact ⟨p, below, target, hdrop, htarget⟩

/-- The accepting production is reduced when the start symbol is all that there is, and the end
marker comes next. -/
theorem reduce_accept (hg : g.WellFormed) {q : Nat} {states : List Nat} {symbols : List Symbol}
    (h : Path a (q :: states) symbols) {t : Terminal}
    (hr : (a.look q).reduce? t = some g.acceptRule) :
    symbols = [.nonterminal g.startSymbol] ∧ t = g.endMarker := by
  obtain ⟨p, below, spelled, rfl, -, hpath, hp⟩ := h.reduce ha hg hr
  obtain ⟨-, rfl⟩ := hpath.eq_start ha (ha.mem_kernel_of_acceptRule hg hp rfl) rfl
  obtain ⟨d, -, -, hd, ht⟩ := ha.exists_of_reduce? hr
  exact ⟨rfl, ha.eq_endMarker_of_expects hg hd ht⟩

end Path

/-! ## Growing stacks -/

/-- Transitions over some symbols lead from one stack to another. -/
inductive Spells (a : Automaton) : List Nat → List Symbol → List Nat → Prop
  | nil {states : List Nat} : Spells a states [] states
  | cons {p q : Nat} {states states' : List Nat} {x : Symbol} {symbols : List Symbol} :
      (a.look p).transition? x = some q → Spells a (q :: p :: states) symbols states' →
      Spells a (p :: states) (x :: symbols) states'

namespace Spells

variable {states states' : List Nat} {symbols : List Symbol}

/-- There is one state more for each symbol. -/
theorem drop_eq (h : Spells a states symbols states') :
    states'.drop symbols.length = states := by
  induction h with
  | nil => rfl
  | cons _ _ ih => rw [List.length_cons, ← List.tail_drop, ih, List.tail_cons]

theorem exists_top {p : Nat} (h : Spells a (p :: states) symbols states') :
    ∃ top below, states' = top :: below := by
  cases states' with
  | nil => simpa using h.drop_eq
  | cons top below => exact ⟨top, below, rfl⟩

/-- A path goes on over the symbols that are spelled. -/
theorem path (h : Spells a states symbols states') {spelled : List Symbol}
    (hpath : Path a states spelled) : Path a states' (symbols.reverse ++ spelled) := by
  induction h generalizing spelled with
  | nil => exact hpath
  | cons hq _ ih => simpa using ih (.step hpath hq)

variable {p top : Nat} {below : List Nat} {r : Rule} {marker : Nat} {rest : List Symbol}

/-- An item moves over the symbols that are spelled, and its lookaheads go along. -/
theorem expects (ha : a.Saturated g) (h : Spells a (p :: states) symbols (top :: below))
    {t : Terminal} (hd : (a.look p).Expects g ⟨r, marker⟩ t)
    (hdrop : r.body.drop marker = symbols ++ rest) :
    (a.look top).Expects g ⟨r, marker + symbols.length⟩ t := by
  induction symbols generalizing p states marker with
  | nil =>
      cases h
      exact hd
  | cons x symbols ih =>
      cases h with
      | cons hq h =>
          obtain ⟨hnext, hdrop'⟩ := DottedRule.next?_of_drop hdrop
          have hmoved := ih h (ha.expects_advance hq hd hnext) hdrop'
          rwa [Nat.add_assoc, Nat.add_comm 1] at hmoved

end Spells

end ShiftReduce.Automaton
