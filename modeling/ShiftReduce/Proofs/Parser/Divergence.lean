import ShiftReduce.Grammar.Samples
import ShiftReduce.Proofs.Automaton.SilentSteps
import ShiftReduce.Proofs.Parser.Run

/-!
# Which runs do not end

A parser may keep reducing without taking another token.  It does so if and only if its run comes
to a configuration that spins (`parse_halts_iff`): over the state on top, silent steps before the
next token lead from the nonterminal that has just been reduced back to the same state and the
same nonterminal.  With entries of 32 bits this is about automata with fewer than `2 ^ 31` states
(`Automaton.inWords_table`).

## Strategy

A configuration that spins comes to another one that spins, higher up, since silent steps need
nothing from below, no trees either (`Spinning.next`).

In the other direction, every run that does not end takes its last token at some time.  From
then on it visits places before that token only, one silent step after the other (`Visits.step`),
and silent steps without end come to a place that spins (`exists_spins`).
-/

namespace ShiftReduce

open Relation (TransGen ReflTransGen)

namespace Configuration

variable {t : ParseTable} {c c' : Configuration}

/-- The run never halts. -/
def Diverges (t : ParseTable) (c : Configuration) : Prop := ∀ fuel, c.run t fuel = none

theorem Diverges.exists_next (h : Diverges t c) : ∃ c', Next t c c' ∧ Diverges t c' := by
  cases hstep : c.step t with
  | halt verdict c' =>
      have hrun := h 1
      rw [run, hstep] at hrun
      contradiction
  | next c' =>
      refine ⟨c', hstep, ?_⟩
      intro fuel
      have hrun := h (fuel + 1)
      rwa [run, hstep] at hrun

theorem Diverges.of_next (hnext : Next t c c') (h : Diverges t c) : Diverges t c' := by
  obtain ⟨c'', hnext', h'⟩ := h.exists_next
  obtain rfl : c'' = c' := Move.next.inj (hnext'.symm.trans hnext)
  exact h'

theorem Diverges.of_reaches (hreach : ReflTransGen (Next t) c c') (h : Diverges t c) :
    Diverges t c' := by
  induction hreach with
  | refl => exact h
  | tail _ hnext ih => exact ih.of_next hnext

/-- A run has no more moves than the bound after which it goes on. -/
theorem run_eq_none_of_transGen {fuel : Nat} (hreach : TransGen (Next t) c c')
    (h : ∀ k < fuel, c'.run t k = none) : c.run t fuel = none := by
  induction hreach using TransGen.head_induction_on generalizing fuel with
  | single hnext =>
      cases fuel with
      | zero => rfl
      | succ fuel =>
          rw [run, hnext]
          exact h fuel (Nat.lt_succ_self fuel)
  | head hnext _ ih =>
      cases fuel with
      | zero => rfl
      | succ fuel =>
          rw [run, hnext]
          exact ih fun k hk => h k (Nat.lt_succ_of_lt hk)

/-- A run does not halt if it keeps coming back to configurations of some kind. -/
theorem diverges_of_recurring {P : Configuration → Prop}
    (recur : ∀ c, P c → ∃ c', TransGen (Next t) c c' ∧ P c') (hc : P c) : Diverges t c := by
  intro fuel
  -- Each time it comes back, the run has spent at least one of the moves that it may make.
  induction fuel using Nat.strong_induction_on generalizing c with
  | _ fuel ih =>
      obtain ⟨c', hreach, hc'⟩ := recur c hc
      exact run_eq_none_of_transGen hreach fun k hk => ih k hk hc'

theorem Diverges.of_reaches_symm (hreach : ReflTransGen (Next t) c c') (h : Diverges t c') :
    Diverges t c := by
  rcases Relation.reflTransGen_iff_eq_or_transGen.1 hreach with rfl | hreach
  · exact h
  · exact fun fuel => run_eq_none_of_transGen hreach fun k _ => h k

end Configuration

namespace Automaton

open ShiftReduce.Configuration (Next Diverges)

variable {g : Grammar} {a : Automaton}

/-- A parser is about to move over a nonterminal on which the state on top spins before the next
token. -/
inductive Spinning (g : Grammar) (a : Automaton) : Configuration → Prop
  | mk {p : Nat} {below : List Nat} {n : Nonterminal} {t : Terminal} {token : Token}
      {nodes : List Tree} {input : Input} :
      token.symbol = g.vocabulary.number (.terminal t) → Spins a t p n → nodes ≠ [] →
      Spinning g a ⟨p :: below, [⟨g.vocabulary.number (.nonterminal n), none⟩, .ofToken token],
        nodes, input⟩

section Consistent

variable (hg : g.WellFormed) (ha : a.Consistent g)

include hg ha

section Silent

variable {t : Terminal} {token : Token}
  (ht : token.symbol = g.vocabulary.number (.terminal t)) (below : List Nat) (input : Input)

include ht

/-- A silent step is two moves of a parser, if there are as many trees as states for it. -/
theorem exists_next_of_silent {states states' : List Nat} {n m : Nonterminal}
    (h : Silent a t (states, n) (states', m)) (hne : states' ≠ []) {nodes : List Tree}
    (hnodes : states.length ≤ nodes.length) :
    ∃ nodes', states'.length ≤ nodes'.length ∧ TransGen (Next (a.table g))
      ⟨states ++ below, [⟨g.vocabulary.number (.nonterminal n), none⟩, .ofToken token], nodes,
        input⟩
      ⟨states' ++ below, [⟨g.vocabulary.number (.nonterminal m), none⟩, .ofToken token], nodes',
        input⟩ := by
  cases h with
  | @step p q rest n r hq hr haccept =>
      have hlt : r.arity < (q :: p :: rest).length := by
        by_contra hle
        exact hne (List.drop_eq_nil_of_le (Nat.not_lt.1 hle))
      have harity : r.arity ≤ nodes.length := (Nat.le_of_lt_succ hlt).trans hnodes
      have hstates : r.arity < (q :: p :: (rest ++ below)).length := by
        simp only [List.length_cons, List.length_append] at hlt ⊢
        omega
      have hgoto := step_goto hg ha ⟨g.vocabulary.number (.nonterminal n), none⟩ rfl hq
        (rest ++ below) [.ofToken token] nodes input
      have hnode := step_node hg ha ht hr (p :: (rest ++ below)) nodes input haccept harity hstates
      rw [drop_above hlt.le] at hnode
      refine ⟨_, ?_, .head hgoto (.single hnode)⟩
      simp only [List.length_drop, List.length_cons] at hlt hnodes ⊢
      omega

theorem exists_next_of_transGen {states states' : List Nat} {n m : Nonterminal}
    (h : TransGen (Silent a t) (states, n) (states', m)) (hne : states' ≠ []) {nodes : List Tree}
    (hnodes : states.length ≤ nodes.length) :
    ∃ nodes', states'.length ≤ nodes'.length ∧ TransGen (Next (a.table g))
      ⟨states ++ below, [⟨g.vocabulary.number (.nonterminal n), none⟩, .ofToken token], nodes,
        input⟩
      ⟨states' ++ below, [⟨g.vocabulary.number (.nonterminal m), none⟩, .ofToken token], nodes',
        input⟩ := by
  generalize hx : (states, n) = x at h
  induction h using TransGen.head_induction_on generalizing states n nodes with
  | single hstep =>
      subst hx
      exact exists_next_of_silent hg ha ht below input hstep hne hnodes
  | @head x y hstep hrest ih =>
      subst hx
      obtain ⟨between, k⟩ := y
      have hbetween : between ≠ [] := by
        obtain ⟨z, hz, -⟩ := TransGen.head'_iff.1 hrest
        exact hz.ne_nil
      obtain ⟨mid, hmid, hfirst⟩ :=
        exists_next_of_silent hg ha ht below input hstep hbetween hnodes
      obtain ⟨nodes', hnodes', hafter⟩ := ih hmid rfl
      exact ⟨nodes', hnodes', hfirst.trans hafter⟩

end Silent

/-- What spins comes to spin again. -/
theorem Spinning.next {c : Configuration} (h : Spinning g a c) :
    ∃ c', TransGen (Next (a.table g)) c c' ∧ Spinning g a c' := by
  cases h with
  | @mk p below n t token nodes input ht hspins hne =>
      obtain ⟨above, hchain⟩ := hspins
      have hnodes : [p].length ≤ nodes.length := List.length_pos_iff.2 hne
      obtain ⟨nodes', hnodes', hreach⟩ :=
        exists_next_of_transGen hg ha ht below input hchain (List.cons_ne_nil _ _) hnodes
      have hne' : nodes' ≠ [] := List.length_pos_iff.1 (Nat.lt_of_lt_of_le (Nat.succ_pos _) hnodes')
      exact ⟨_, hreach, .mk ht ⟨above, hchain⟩ hne'⟩

/-! ### Runs without end -/

/-- A run comes to the place before a token where it is about to move over a nonterminal. -/
structure Visits (g : Grammar) (a : Automaton) (start : Configuration) (token : Token)
    (input : Input) (x : List Nat × Nonterminal) : Prop where
  ne_nil : x.1 ≠ []
  mem_symbols : .nonterminal x.2 ∈ g.vocabulary.symbols
  reaches : ∃ nodes, nodes ≠ [] ∧ ReflTransGen (Next (a.table g)) start ⟨x.1,
    [⟨g.vocabulary.number (.nonterminal x.2), none⟩, .ofToken token], nodes, input⟩

/-- A run comes to a place where the next token is taken from an input. -/
def Takes (g : Grammar) (a : Automaton) (start : Configuration) (input : Input) : Prop :=
  ∃ states nodes, states ≠ [] ∧
    ReflTransGen (Next (a.table g)) start ⟨states, [], nodes, input⟩

section Visits

variable {start : Configuration} {t : Terminal} {token : Token} {input : Input}
  {x : List Nat × Nonterminal}
  (ht : token.symbol = g.vocabulary.number (.terminal t)) (h : Diverges (a.table g) start)

include ht h

/-- A run without end goes on from there with a silent step, or it moves over the token. -/
theorem Visits.step (hx : Visits g a start token input x) :
    (∃ y, Silent a t x y ∧ Visits g a start token input y) ∨ Takes g a start input := by
  obtain ⟨states, n⟩ := x
  obtain ⟨hne, hn, nodes, hnodes, hreach⟩ := hx
  obtain ⟨p, below, rfl⟩ := List.exists_cons_of_ne_nil hne
  obtain ⟨c₁, hnext₁, hdiverges₁⟩ := (h.of_reaches hreach).exists_next
  rcases step_goto_cases hg ha hn p below [.ofToken token] nodes input with
    ⟨q, hq, hgoto⟩ | ⟨e, c, hgoto⟩
  · obtain rfl := Move.next.inj (hgoto.symm.trans hnext₁)
    obtain ⟨c₂, hnext₂, -⟩ := hdiverges₁.exists_next
    have hreach₂ := (hreach.tail hnext₁).tail hnext₂
    have hmove := tokenMove_step hg ha token q (p :: below) nodes input
    rw [hnext₂] at hmove
    cases hmove with
    | leaf _ _ => exact .inr ⟨_, _, List.cons_ne_nil _ _, hreach₂⟩
    | skip _ _ => exact .inr ⟨_, _, List.cons_ne_nil _ _, hreach₂⟩
    | @node t' r ht' hr haccept _ hlt =>
        obtain rfl : t' = t := Vocabulary.number_terminal_inj (ht'.symm.trans ht)
        have hrest : (q :: p :: below).drop r.arity ≠ [] := fun hnil =>
          absurd (List.drop_eq_nil_iff.1 hnil) (Nat.not_le.2 hlt)
        have hhead := hg.head_declared r (ha.mem_rules_of_reduce? hr haccept)
        exact .inl ⟨_, .step hq hr haccept, hrest, hhead.mem_symbols, _, List.cons_ne_nil _ _,
          hreach₂⟩
  · have hhalt := hnext₁.symm.trans hgoto
    contradiction

/-- If it never moves over the token, then it comes to spin. -/
theorem Visits.exists_spinning (hx : Visits g a start token input x)
    (hnever : ¬ Takes g a start input) :
    ∃ c, ReflTransGen (Next (a.table g)) start c ∧ Spinning g a c := by
  have hstep : ∀ y, Visits g a start token input y →
      ∃ z, Silent a t y z ∧ Visits g a start token input z := by
    intro y hy
    exact (hy.step hg ha ht h).resolve_right hnever
  choose! next hnext using hstep
  -- So it visits one place after the other, with a silent step between each two.
  have hvisits : ∀ i, Visits g a start token input (next^[i] x) := by
    intro i
    induction i with
    | zero => exact hx
    | succ i ih =>
        rw [Function.iterate_succ_apply']
        exact (hnext _ ih).2
  have hchain : ∀ i, Silent a t (next^[i] x) (next^[i + 1] x) := by
    intro i
    rw [Function.iterate_succ_apply']
    exact (hnext _ (hvisits i)).1
  obtain ⟨i, p, below, n, hi, hspins⟩ := exists_spins hg ha hchain
  have hplace := hvisits i
  rw [hi] at hplace
  obtain ⟨-, -, nodes, hnodes, hreach⟩ := hplace
  exact ⟨_, hreach, .mk ht hspins hnodes⟩

end Visits

/-- A run that does not halt comes to spin. -/
theorem exists_spinning {input : Input} : ∀ {states : List Nat} {nodes : List Tree},
    states ≠ [] → Diverges (a.table g) ⟨states, [], nodes, input⟩ →
    ∃ c, ReflTransGen (Next (a.table g)) ⟨states, [], nodes, input⟩ c ∧ Spinning g a c := by
  -- The run takes tokens from the input until it never moves over the one it has taken.
  induction input with
  | nil =>
      intro states nodes _ h
      obtain ⟨c, hnext, -⟩ := h.exists_next
      cases hnext
  | cons item rest ih =>
      intro states nodes hstates h
      obtain ⟨c, hnext, -⟩ := h.exists_next
      cases item with
      | error message => cases hnext
      | ok token =>
          by_cases htakes : Takes g a ⟨states, [], nodes, .ok token :: rest⟩ rest
          · obtain ⟨states', nodes', hstates', hreach⟩ := htakes
            obtain ⟨c, hc, hspins⟩ := ih hstates' (h.of_reaches hreach)
            exact ⟨c, hreach.trans hc, hspins⟩
          · obtain ⟨top, below, rfl⟩ := List.exists_cons_of_ne_nil hstates
            have hmove := tokenMove_step hg ha token top below nodes rest
            rw [← Configuration.step_load, hnext] at hmove
            cases hmove with
            | leaf _ _ => exact absurd ⟨_, _, List.cons_ne_nil _ _, .single hnext⟩ htakes
            | skip _ _ => exact absurd ⟨_, _, List.cons_ne_nil _ _, .single hnext⟩ htakes
            | @node t r ht hr haccept _ hlt =>
                have hne : (top :: below).drop r.arity ≠ [] := fun hnil =>
                  absurd (List.drop_eq_nil_iff.1 hnil) (Nat.not_le.2 hlt)
                have hhead := hg.head_declared r (ha.mem_rules_of_reduce? hr haccept)
                have hvisits : Visits g a ⟨top :: below, [], nodes, .ok token :: rest⟩ token rest
                    ((top :: below).drop r.arity, r.head) :=
                  ⟨hne, hhead.mem_symbols, _, List.cons_ne_nil _ _, .single hnext⟩
                exact hvisits.exists_spinning hg ha ht h htakes

end Consistent

end Automaton

/-! ## When a parser halts -/

namespace Parser

open Automaton ShiftReduce.Configuration

/-- A parser halts on an input if its run comes to no configuration that spins, and only then. -/
theorem halts_iff_not_spinning {g : Grammar} {a : Automaton} {p : Parser} (hg : g.WellFormed)
    (ha : a.Consistent g) (hp : p.table = a.table g) (input : Input) :
    (∃ fuel verdict p', p.parse fuel input = some (verdict, p')) ↔
      ∀ c, ReflTransGen (Next (a.table g)) (Configuration.start input) c →
        ¬ Spinning g a c := by
  constructor
  · rintro ⟨fuel, verdict, p', h⟩ c hreach hspins
    have hdiverges : Diverges (a.table g) (Configuration.start input) :=
      .of_reaches_symm hreach (diverges_of_recurring (fun c hc => Spinning.next hg ha hc) hspins)
    rw [parse, hp, hdiverges fuel] at h
    contradiction
  · intro hnone
    by_contra hall
    have hdiverges : Diverges (a.table g) (Configuration.start input) := by
      intro fuel
      by_contra hrun
      obtain ⟨⟨verdict, c⟩, hrun⟩ := Option.ne_none_iff_exists'.1 hrun
      exact hall ⟨fuel, verdict, _, parse_of_run hp hrun⟩
    obtain ⟨c, hreach, hspins⟩ := exists_spinning hg ha (List.cons_ne_nil _ _) hdiverges
    exact hnone c hreach hspins

/-- Where nothing spins, a parser always halts. -/
theorem halts_of_epsilonFree {g : Grammar} {a : Automaton} {p : Parser} (hg : g.WellFormed)
    (hfree : g.EpsilonFree) (ha : a.Saturated g) (hp : p.table = a.table g) (input : Input) :
    ∃ fuel verdict p', p.parse fuel input = some (verdict, p') := by
  apply (halts_iff_not_spinning hg ha.toConsistent hp input).2
  intro c _ hspinning
  cases hspinning with
  | mk _ hspins _ => exact not_spins hg hfree ha hspins

/-- A parser halts on an input if and only if its run comes to no configuration that spins.  With
`Merging.lalr`, and in a grammar without blank bodies, it halts on every input. -/
theorem parse_halts_iff {declarations : List Declaration} {g : Grammar} {merging : Merging}
    {a : Automaton} {p : Parser} (hg : Grammar.define declarations = .ok g)
    (ha : Automaton.build g merging = .ok a) (hp : p.table = a.table g) :
    (∀ input, (∃ fuel verdict p', p.parse fuel input = some (verdict, p')) ↔
      ∀ c, ReflTransGen (Next (a.table g)) (Configuration.start input) c → ¬ Spinning g a c) ∧
    (merging = .lalr → g.EpsilonFree →
      ∀ input, ∃ fuel verdict p', p.parse fuel input = some (verdict, p')) := by
  have hwell := Grammar.wellFormed_of_define hg
  refine ⟨halts_iff_not_spinning hwell (consistent_of_build hwell ha) hp, ?_⟩
  rintro rfl hfree
  exact halts_of_epsilonFree hwell hfree (saturated_of_build hwell ha) hp

/-- A parser for assignments through pointers always halts. -/
theorem parse_halts_pointer : ∃ g a,
    Grammar.define Samples.pointer = .ok g ∧ Automaton.build g .lalr = .ok a ∧
    g.EpsilonFree ∧
    ∀ input, ∃ fuel verdict p',
      (ofTable (a.table g)).parse fuel input = some (verdict, p') := by
  have hpasses : passes Samples.pointer .lalr (fun g _ => g.EpsilonFree) = true := by
    decide +kernel
  obtain ⟨g, a, hg, ha, hcheck⟩ := exists_of_passes hpasses
  have hfree : g.EpsilonFree := of_decide_eq_true hcheck
  exact ⟨g, a, hg, ha, hfree, (parse_halts_iff hg ha rfl).2 rfl hfree⟩

/-- `S := B Y | d Y e`, `A := B`, `B := A | x`, `Y := Blank`.  What follows `A` and `B` is looked up
in FIRST of `Y`, where the end marker is missing and `e` is not. -/
def hiddenCycle : List Declaration :=
  [.sentinel .blank "Blank", .sentinel .endMarker "$", .terminal "x", .terminal "d",
    .terminal "e", .nonterminal "S", .nonterminal "A", .nonterminal "B", .nonterminal "Y",
    .start ⟨1⟩,
    .rule (.nonterminal ⟨1⟩) [.nonterminal ⟨3⟩, .nonterminal ⟨4⟩],
    .rule (.nonterminal ⟨1⟩) [.terminal ⟨3⟩, .nonterminal ⟨4⟩, .terminal ⟨4⟩],
    .rule (.nonterminal ⟨2⟩) [.nonterminal ⟨3⟩],
    .rule (.nonterminal ⟨3⟩) [.nonterminal ⟨2⟩], .rule (.nonterminal ⟨3⟩) [.terminal ⟨2⟩],
    .rule (.nonterminal ⟨4⟩) [.terminal ⟨0⟩]]

/-- Whether an automaton goes round in the cycle of `hiddenCycle` once it has read `x`. -/
def hasHiddenCycle (a : Automaton) : Bool :=
  (a.look 0).transition? (.terminal ⟨2⟩) = some 5 ∧
    (a.look 5).reduce? ⟨4⟩ = some ⟨6, ⟨3⟩, [.terminal ⟨2⟩], false⟩ ∧
    (a.look 0).transition? (.nonterminal ⟨3⟩) = some 2 ∧
    (a.look 2).reduce? ⟨4⟩ = some ⟨4, ⟨2⟩, [.nonterminal ⟨3⟩], false⟩ ∧
    (a.look 0).transition? (.nonterminal ⟨2⟩) = some 4 ∧
    (a.look 4).reduce? ⟨4⟩ = some ⟨5, ⟨3⟩, [.nonterminal ⟨2⟩], false⟩

/-- Before `e` the parser never halts. -/
theorem parse_eq_none_of_hasHiddenCycle {g : Grammar} {a : Automaton} (hg : g.WellFormed)
    (ha : a.Consistent g) (h : hasHiddenCycle a = true) (fuel : Nat) :
    (ofTable (a.table g)).parse fuel [.ok ⟨3, "x"⟩, .ok ⟨5, "e"⟩] = none := by
  obtain ⟨hx, hfirst, hb, ha', hgoto, hback⟩ := of_decide_eq_true h
  have hspins : Spins a ⟨4⟩ 0 ⟨3⟩ :=
    ⟨[], .head (.step hb ha' (by decide)) (.single (.step hgoto hback (by decide)))⟩
  have hleaf := step_leaf hg ha ⟨3, "x"⟩ rfl hx [] [] [.ok ⟨5, "e"⟩]
  have htoken : Token.symbol ⟨5, "e"⟩ = g.vocabulary.number (.terminal ⟨4⟩) := rfl
  have hnode := step_node hg ha htoken hfirst [0] [.leaf 3 "x"] [] (by decide)
    (by decide) (by decide)
  have hdiverges : Diverges (a.table g) (Configuration.start [.ok ⟨3, "x"⟩, .ok ⟨5, "e"⟩]) := by
    refine .of_reaches_symm (.head hleaf (.single hnode)) (diverges_of_recurring
      (fun c hc => Spinning.next hg ha hc) ?_)
    exact .mk rfl hspins (List.cons_ne_nil _ _)
  rw [parse, ofTable, hdiverges fuel]
  rfl

/-- A grammar for which no merging gives a parser that halts on every input. -/
theorem not_parse_halts_hiddenCycle : ∃ g first lalr,
    Grammar.define hiddenCycle = .ok g ∧ Automaton.build g .firstFound = .ok first ∧
    Automaton.build g .lalr = .ok lalr ∧
    (∀ fuel, (ofTable (first.table g)).parse fuel [.ok ⟨3, "x"⟩, .ok ⟨5, "e"⟩] = none) ∧
    ∀ fuel, (ofTable (lalr.table g)).parse fuel [.ok ⟨3, "x"⟩, .ok ⟨5, "e"⟩] = none := by
  have hfirst : passes hiddenCycle .firstFound (fun _ a => hasHiddenCycle a) = true := by
    decide +kernel
  have hlalr : passes hiddenCycle .lalr (fun _ a => hasHiddenCycle a) = true := by
    decide +kernel
  obtain ⟨g, first, hg, ha, hcycle⟩ := exists_of_passes hfirst
  obtain ⟨g', lalr, hg', ha', hcycle'⟩ := exists_of_passes hlalr
  obtain rfl : g' = g := Except.ok.inj (hg'.symm.trans hg)
  have hwell := Grammar.wellFormed_of_define hg
  exact ⟨g', first, lalr, hg, ha, ha',
    parse_eq_none_of_hasHiddenCycle hwell (consistent_of_build hwell ha) hcycle,
    parse_eq_none_of_hasHiddenCycle hwell (consistent_of_build hwell ha') hcycle'⟩

end Parser

end ShiftReduce
