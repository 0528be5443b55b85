import ShiftReduce.Proofs.Automaton.Canonical
import ShiftReduce.Proofs.Automaton.LeastLookaheads
import ShiftReduce.Proofs.Grammar.Rightmost

/-!
# Lookaheads and rightmost derivations

In a grammar without blank bodies, and with `Merging.lalr`, the lookaheads of an item are exactly
the terminals that can come behind its production in that place (`validAt_of_expects`,
`Saturated.expects_of_validAt`): some rightmost derivation leads to the head of the production, with
the terminal next behind it, and what stands in front of the head leads, with what the item has moved
over, to the state.  So a state reduces a production before the terminals for which there is such a
derivation, and before no others (`reduce?_eq_some_iff_derivesRightmost`).

Every nonterminal has to derive a terminal string.  Otherwise a derivation may not get to a form
with terminals only behind the head, but lookaheads come about all the same.

## Strategy

That lookaheads are valid follows from `Closed`: the valid lookaheads are closed under the three ways
in which lookaheads come about (`closed_validAt`), so they are all that are due.  For a nonterminal
before something else one has to know that its item is valid at all, and this goes by induction over
the states, each of which is entered from one before it (`exists_validAt`).

That valid lookaheads are there is shown by induction over the derivation, for all nonterminals of
a form and not just for its last one (`Saturated.expects_of_derivesRightmost`).  What comes behind
such a nonterminal is not terminal, but derives a terminal string.
-/

namespace ShiftReduce.Automaton

variable {g : Grammar} {a : Automaton}

/-- A lookahead of an item is valid in a state: a rightmost derivation comes to a form in which it
stands behind the head of the production, and what is in front of the head leads, with the symbols
before the marker, from the start state to this state. -/
def ValidAt (g : Grammar) (a : Automaton) (q : Nat) (d : DottedRule) (t : Terminal) : Prop :=
  ∃ (before : List Symbol) (word : List Terminal),
    g.DerivesRightmost [.nonterminal .accept]
      (before ++ .nonterminal d.rule.head :: word.map .terminal) ∧
    a.walk startState (before ++ d.rule.body.take d.marker) = some q ∧
    (word ++ [g.endMarker]).head? = some t

/-- There is always something that comes first. -/
theorem exists_head?_append (word : List Terminal) (behind : Terminal) :
    ∃ t, (word ++ [behind]).head? = some t := by
  cases word with
  | nil => exact ⟨behind, rfl⟩
  | cons t word => exact ⟨t, rfl⟩

/-! ## Valid lookaheads are closed -/

namespace ValidAt

variable {p q : Nat} {d : DottedRule} {t : Terminal}

theorem start (g : Grammar) (a : Automaton) :
    ValidAt g a startState ⟨g.acceptRule, 0⟩ g.endMarker :=
  ⟨[], [], .refl _, rfl, rfl⟩

theorem advance (h : ValidAt g a p d t) {x : Symbol} (hx : (a.look p).transition? x = some q)
    (hnext : d.next? = some x) : ValidAt g a q d.advance t := by
  obtain ⟨before, word, hderives, hwalk, ht⟩ := h
  refine ⟨before, word, hderives, ?_, ht⟩
  rw [DottedRule.advance, DottedRule.take_of_next? hnext, ← List.append_assoc, walk_concat hwalk]
  exact hx

/-- The blank is no lookahead, since no form has it. -/
theorem ne_blank (hg : g.WellFormed) (h : ValidAt g a q d t) : t ≠ g.blank := by
  obtain ⟨before, word, hderives, -, ht⟩ := h
  cases word with
  | nil =>
      obtain rfl := Option.some.inj ht
      exact hg.endMarker_ne_blank
  | cons u word =>
      obtain rfl := Option.some.inj ht
      rcases hderives.eq_or_forall_mem hg with heq | hall
      · obtain ⟨-, -, hnil⟩ := eq_of_append_cons_eq_singleton heq
        contradiction
      · rintro rfl
        exact (hall (.terminal g.blank) (by simp)).2 rfl

variable (hg : g.WellFormed) (hfree : g.EpsilonFree)

include hg hfree

/-- What comes behind the productions of the next nonterminal is derived by the rest of the body, or
comes behind the body. -/
theorem production (h : ValidAt g a q d t) (hd : d.rule ∈ g.allRules) {n : Nonterminal}
    (hn : d.next? = some (.nonterminal n)) {r : Rule} (hr : r ∈ g.productionsOf n)
    {word : List Terminal}
    (hword : g.Derives (d.rule.body.drop (d.marker + 1)) (word.map .terminal)) {u : Terminal}
    (hu : (word ++ [t]).head? = some u) : ValidAt g a q ⟨r, 0⟩ u := by
  obtain ⟨-, rfl⟩ := g.mem_productionsOf.1 hr
  obtain ⟨before, behind, hderives, hwalk, ht⟩ := h
  refine ⟨before ++ d.rule.body.take d.marker, word ++ behind, ?_, by simpa using hwalk, ?_⟩
  · -- The body is put in, and what is behind the nonterminal is worked off.
    have hstep := Grammar.DerivesRightmost.of_rule hd before behind
    rw [hfree.matched_eq hg hd, DottedRule.body_of_next? hn] at hstep
    have hrest := hword.rightmost.within
      (before ++ d.rule.body.take d.marker ++ [.nonterminal r.head]) behind
    exact hderives.trans (hstep.trans (by simpa using hrest))
  · cases word with
    | nil =>
        obtain rfl := Option.some.inj hu
        exact ht
    | cons v word => exact hu

/-- If the kernel of a state has valid lookaheads then so has its closure. -/
theorem exists_of_closure (hproductive : g.Productive) {kernel : Set DottedRule}
    (hkernel : ∀ e ∈ kernel, e.rule ∈ g.allRules ∧ ∃ t, ValidAt g a q e t)
    (hd : g.Closure kernel d) : d.rule ∈ g.allRules ∧ ∃ t, ValidAt g a q d t := by
  induction hd with
  | kernel hd => exact hkernel _ hd
  | @production d r _ hr hnext ih =>
      obtain ⟨hmem, t, ht⟩ := ih
      obtain ⟨word, hword⟩ : ∃ word : List Terminal,
          g.Derives (d.rule.body.drop (d.marker + 1)) (word.map .terminal) :=
        hproductive.exists_derives fun x hx =>
          hg.declares_of_mem_body hmem (List.mem_of_mem_drop hx)
      obtain ⟨u, hu⟩ := exists_head?_append word t
      exact ⟨hr, u, ht.production hg hfree hmem hnext (g.mem_productionsOf.2 ⟨hr, rfl⟩) hword hu⟩

end ValidAt

section Build

variable (hg : g.WellFormed) (hfree : g.EpsilonFree) (hproductive : g.Productive)

include hg hfree hproductive

/-- Every item of a state has a valid lookahead. -/
theorem exists_validAt {merging : Merging} (h : build g merging = .ok a) {q : Nat}
    {d : DottedRule} (hd : InClosure g (a.look q).kernel d) : ∃ t, ValidAt g a q d t := by
  have ha := consistent_of_build hg h
  induction q using Nat.strong_induction_on generalizing d with
  | _ q ih =>
      refine (ValidAt.exists_of_closure hg hfree hproductive (fun e he => ?_)
        (inClosure_iff_closure.1 hd)).2
      refine ⟨(ha.shaped.kernel_of q e he).1, ?_⟩
      rcases exists_entry hg h (lt_length_of_mem_kernel he) with rfl | ⟨p, hp, x, hx⟩
      · obtain rfl : e = ⟨g.acceptRule, 0⟩ := by
          rw [ha.shaped.start] at he
          exact List.mem_singleton.1 he
        exact ⟨_, .start g a⟩
      · obtain ⟨e, hclosure, hnext, rfl⟩ := ha.mem_closure_of_transition? hx he
        obtain ⟨t, ht⟩ := ih p hp hclosure
        exact ⟨t, ht.advance hx hnext⟩

/-- The lookaheads that are valid for all items which keep theirs in one place are closed. -/
theorem closed_validAt {merging : Merging} (h : build g merging = .ok a) : Closed g a
    fun q keeper => {t | ∀ d, (a.look q).items.Keeps g d keeper → ValidAt g a q d t} := by
  have ha := consistent_of_build hg h
  have hrule : ∀ {q : Nat} {d : DottedRule} {keeper : Keeper},
      (a.look q).items.Keeps g d keeper → d.rule ∈ g.allRules := by
    intro q d keeper hkeeps
    exact ((ha.shaped.inClosure_of_keeps hkeeps).of (ha.shaped.kernel_of q)).1
  constructor
  case start =>
    rintro d (_ | _)
    exact .start g a
  case beyond =>
    intro q d keeper n x hkeeps hn hx t ht d' hkeeps'
    cases hkeeps' with
    | pending _ hr =>
        -- The item is valid for some lookahead, and this one comes from the symbol beyond.
        obtain ⟨u, hu⟩ :=
          exists_validAt hg hfree hproductive h (ha.shaped.inClosure_of_keeps hkeeps)
        obtain ⟨hlt, hget⟩ := List.getElem?_eq_some_iff.1 hx
        have hdeclares : ∀ y ∈ d.rule.body, g.vocabulary.Declares y :=
          fun y hy => hg.declares_of_mem_body (hrule hkeeps) hy
        have hrest : ∀ y ∈ d.rule.body.drop (d.marker + 2), g.vocabulary.Declares y :=
          fun y hy => hdeclares y (List.mem_of_mem_drop hy)
        obtain ⟨word, hword⟩ := Grammar.exists_derives_of_mem_firstOf hg hfree hproductive
          (hdeclares x (List.mem_of_getElem? hx)) hrest ht
        rw [← hget, List.getElem_cons_drop] at hword
        exact hu.production hg hfree (hrule hkeeps) hn hr hword rfl
  case last =>
    intro q d keeper n hkeeps hn hlast t ht d' hkeeps'
    cases hkeeps' with
    | pending _ hr =>
        have hnil : d.rule.body.drop (d.marker + 1) = [] :=
          List.drop_eq_nil_iff.2 (List.getElem?_eq_none_iff.1 hlast)
        have hderives : g.Derives (d.rule.body.drop (d.marker + 1))
            (([] : List Terminal).map .terminal) := hnil ▸ .refl []
        exact (ht d hkeeps).production hg hfree (hrule hkeeps) hn hr hderives rfl
  case advance =>
    intro p x q d keeper hedge hkeeps hnext t ht d' hkeeps'
    cases hkeeps' with
    | kernel _ => exact (ht d hkeeps).advance (ha.transition?_eq_some_iff.2 hedge) hnext

/-- Every lookahead is valid. -/
theorem validAt_of_expects {merging : Merging} (h : build g merging = .ok a) {q : Nat}
    {d : DottedRule} {t : Terminal} (ht : (a.look q).Expects g d t) : ValidAt g a q d t := by
  obtain ⟨keeper, hkeeps, hmem⟩ := ItemSet.expects_iff_exists_keeps.1 ht
  exact (closed_validAt hg hfree hproductive h).mem_of_due (due_of_build hg h hmem) d hkeeps

end Build

/-! ## Valid lookaheads have arrived -/

namespace Saturated

variable (hg : g.WellFormed) (hfree : g.EpsilonFree) (ha : a.Saturated g)

include hg hfree ha

/-- Wherever a nonterminal stands in a form, its productions expect what is derived behind it. -/
theorem expects_of_derivesRightmost {form : List Symbol}
    (h : g.DerivesRightmost [.nonterminal .accept] form) {before behind : List Symbol}
    {n : Nonterminal} (hform : form = before ++ .nonterminal n :: behind) {p : Nat}
    (hwalk : a.walk startState before = some p) {word : List Terminal}
    (hword : g.Derives behind (word.map .terminal)) {t : Terminal}
    (ht : (word ++ [g.endMarker]).head? = some t) {r : Rule} (hr : r ∈ g.productionsOf n) :
    (a.look p).Expects g ⟨r, 0⟩ t := by
  induction h generalizing before behind n p word t r with
  | refl =>
      obtain ⟨rfl, hn, rfl⟩ := eq_of_append_cons_eq_singleton hform.symm
      obtain rfl := Symbol.nonterminal.inj hn
      obtain ⟨hmem, hhead⟩ := g.mem_productionsOf.1 hr
      obtain rfl := hg.eq_acceptRule hmem hhead
      have hnil := @Grammar.Derives.eq_of_map_terminal g _ [] hword
      obtain rfl : word = [] := List.map_eq_nil_iff.1 hnil
      obtain rfl := Option.some.inj hwalk
      obtain rfl := Option.some.inj ht
      exact ItemSet.expects_items.2 (.inl ha.sourced.start)
  | tail hderives hstep ih =>
      obtain @⟨r', before', word', hr'⟩ := hstep
      rcases Grammar.exists_eq_of_rewritten hform with ⟨rest, rfl, rfl⟩ |
        ⟨left, right, hmatched, rfl, rfl⟩
      · -- The nonterminal has been there before, and something else is rewritten behind it.
        have hhead : r'.head ≠ .accept := by
          intro hhead
          rcases Grammar.DerivesRightmost.eq_or_forall_mem hg hderives with heq | hall
          · obtain ⟨hnil, -, -⟩ := eq_of_append_cons_eq_singleton heq
            simp at hnil
          · exact (hall (.nonterminal r'.head) (by simp)).1 (congrArg Symbol.nonterminal hhead)
        have hrewrites := Grammar.Rewrites.rule rest (word'.map .terminal)
          (Grammar.WellFormed.mem_rules_of_head_ne hr' hhead)
        exact ih (by simp) hwalk (.head hrewrites hword) ht hr
      · -- The nonterminal is in the body, and the item in front of it has come along.
        rw [hfree.matched_eq hg hr'] at hmatched
        obtain ⟨p', hbefore, hleft⟩ := exists_walk_of_append hwalk
        obtain ⟨u, hu⟩ := exists_head?_append word' g.endMarker
        have hbody := ih rfl hbefore (.refl _) hu (g.mem_productionsOf.2 ⟨hr', rfl⟩)
        obtain ⟨below, hspells⟩ := spells_of_walk hleft []
        have hmoved := hspells.expects ha hbody hmatched
        rw [Nat.zero_add] at hmoved
        have hdrop : r'.body.drop left.length = .nonterminal n :: right := by simp [hmatched]
        obtain ⟨hnext, hbeyond⟩ := DottedRule.next?_of_drop hdrop
        have hclosure := ha.shaped.inClosure_of_expects hmoved
        cases right with
        | nil =>
            have hlast : (⟨r', left.length⟩ : DottedRule).beyond? = none :=
              List.getElem?_eq_none_iff.2 (List.drop_eq_nil_iff.1 hbeyond)
            -- What is behind the body is terminal, so that it is derived from itself only.
            obtain rfl : word = word' := List.map_injective_iff.2
              (fun _ _ => Symbol.terminal.inj) (Grammar.Derives.eq_of_map_terminal hword)
            obtain rfl := Option.some.inj (ht.symm.trans hu)
            exact ha.expects_last hmoved hnext hlast hr
        | cons x right =>
            have hx := (DottedRule.next?_of_drop hbeyond).1
            have hfirst := Grammar.mem_firstOf_of_derives hg hfree hword ht
            exact ha.expects_beyond hclosure hnext hx hfirst hr

/-- Every valid lookahead has arrived. -/
theorem expects_of_validAt {q : Nat} {d : DottedRule} (hd : d.Of g) {t : Terminal}
    (h : ValidAt g a q d t) : (a.look q).Expects g d t := by
  obtain ⟨before, word, hderives, hwalk, ht⟩ := h
  obtain ⟨p, hbefore, htake⟩ := exists_walk_of_append hwalk
  have hstart := ha.expects_of_derivesRightmost hg hfree hderives rfl hbefore (.refl _) ht
    (g.mem_productionsOf.2 ⟨hd.1, rfl⟩)
  obtain ⟨below, hspells⟩ := spells_of_walk htake []
  have hmoved := hspells.expects ha hstart (List.take_append_drop d.marker d.rule.body).symm
  rwa [Nat.zero_add, List.length_take_of_le hd.2] at hmoved

end Saturated

/-! ## Reductions -/

/-- A state reduces a production before a terminal if and only if a rightmost derivation has the
terminal next behind the head of the production, and what is in front of the head leads, with the
body, to the state. -/
theorem reduce?_eq_some_iff_derivesRightmost {declarations : List Declaration}
    (hg : Grammar.define declarations = .ok g) (hfree : g.EpsilonFree)
    (hproductive : g.Productive) (ha : build g .lalr = .ok a) (q : Nat) {r : Rule}
    (hr : r ∈ g.allRules) (t : Terminal) : (a.look q).reduce? t = some r ↔
      ∃ (before : List Symbol) (word : List Terminal),
        g.DerivesRightmost [.nonterminal .accept]
          (before ++ .nonterminal r.head :: word.map .terminal) ∧
        a.walk startState (before ++ r.body) = some q ∧
        (word ++ [g.endMarker]).head? = some t := by
  have hg := Grammar.wellFormed_of_define hg
  have hsaturated := saturated_of_build hg ha
  have hvalid : ValidAt g a q ⟨r, r.body.length⟩ t ↔
      ∃ (before : List Symbol) (word : List Terminal),
        g.DerivesRightmost [.nonterminal .accept]
          (before ++ .nonterminal r.head :: word.map .terminal) ∧
        a.walk startState (before ++ r.body) = some q ∧
        (word ++ [g.endMarker]).head? = some t := by
    rw [ValidAt, List.take_length]
  rw [(hsaturated.settled q).reduce?_eq_some_iff, ← hvalid]
  constructor
  · rintro ⟨-, ⟨r', marker⟩, hexpects, hreducible, rfl⟩
    have hepsilon : r'.isEpsilon = false := hfree.isEpsilon_eq_false hg hr
    obtain rfl : marker = r'.body.length := by
      simpa [DottedRule.isReducible, hepsilon] using hreducible
    exact validAt_of_expects hg hfree hproductive ha hexpects
  · intro h
    refine ⟨h.ne_blank hg, ⟨r, r.body.length⟩, ?_, by simp [DottedRule.isReducible], rfl⟩
    exact hsaturated.expects_of_validAt hg hfree ⟨hr, Nat.le_refl _⟩ h

/-- Behind `b e` the production `E := e` is reduced before `d`, although the state has been found
behind `a e`, where only `c` comes next. -/
theorem reduce?_eq_some_iff_derivesRightmost_lateLookahead : ∃ g a q,
    Grammar.define Samples.lateLookahead = .ok g ∧ g.EpsilonFree ∧ g.Productive ∧
    build g .lalr = .ok a ∧ ⟨4, ⟨2⟩, [.terminal ⟨6⟩], false⟩ ∈ g.allRules ∧
    a.walk startState [.terminal ⟨2⟩, .terminal ⟨6⟩] = some q ∧
    a.walk startState [.terminal ⟨3⟩, .terminal ⟨6⟩] = some q ∧
    (a.look q).reduce? ⟨5⟩ = some ⟨4, ⟨2⟩, [.terminal ⟨6⟩], false⟩ := by
  have hpasses : passes Samples.lateLookahead .lalr (fun g a =>
      g.EpsilonFree ∧ g.vocabulary.nonterminals.length = 3 ∧ g.startSymbol = ⟨1⟩ ∧
        ⟨3, ⟨1⟩, [.terminal ⟨3⟩, .nonterminal ⟨2⟩, .terminal ⟨5⟩], false⟩ ∈ g.rules ∧
        ⟨4, ⟨2⟩, [.terminal ⟨6⟩], false⟩ ∈ g.rules ∧
        a.walk startState [.terminal ⟨2⟩, .terminal ⟨6⟩] = some 5 ∧
        a.walk startState [.terminal ⟨3⟩, .terminal ⟨6⟩] = some 5) = true := by decide +kernel
  obtain ⟨g, a, hg, ha, hcheck⟩ := exists_of_passes hpasses
  obtain ⟨hfree, hlength, hstart, hs, he, hwalk, hwalk'⟩ := of_decide_eq_true hcheck
  have hbody : g.Derives [.nonterminal ⟨2⟩] [.terminal ⟨6⟩] := .of_rule he
  have hproductive : g.Productive := by
    rintro ⟨i⟩ ⟨hne, hlt⟩
    have hsmall : i < 3 := hlength ▸ hlt
    obtain rfl | rfl | rfl : i = 0 ∨ i = 1 ∨ i = 2 := by omega
    · exact absurd rfl hne
    · exact ⟨[⟨3⟩, ⟨6⟩, ⟨5⟩],
        (Grammar.Derives.of_rule hs).trans (hbody.within [.terminal ⟨3⟩] [.terminal ⟨5⟩])⟩
    · exact ⟨[⟨6⟩], hbody⟩
  have hmem := Grammar.mem_allRules_of_mem he
  refine ⟨g, a, 5, hg, hfree, hproductive, ha, hmem, hwalk, hwalk', ?_⟩
  -- The form `b E d` comes from the start symbol by one production.
  have haccept : g.DerivesRightmost [.nonterminal .accept] [.nonterminal ⟨1⟩] :=
    hstart ▸ .of_rule Grammar.acceptRule_mem [] []
  have hform : g.DerivesRightmost [.nonterminal ⟨1⟩]
      [.terminal ⟨3⟩, .nonterminal ⟨2⟩, .terminal ⟨5⟩] :=
    .of_rule (Grammar.mem_allRules_of_mem hs) [] []
  exact (reduce?_eq_some_iff_derivesRightmost hg hfree hproductive ha 5 hmem ⟨5⟩).2
    ⟨[.terminal ⟨3⟩], [⟨5⟩], haccept.trans hform, hwalk', rfl⟩

end ShiftReduce.Automaton
