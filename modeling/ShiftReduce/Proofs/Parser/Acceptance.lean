import ShiftReduce.Proofs.Automaton.Reachability
import ShiftReduce.Proofs.Parser.Soundness

/-!
# Acceptance is a single entry

The accepting production is an item like any other: its lookahead comes to it by transitions, is
merged and handed on, and the end marker as well as the start symbol may be in other productions
too.  Still there is only one place in a table where it is reduced: the row of the state that the
start state leads to over the start symbol, and the column of the end marker.  So a run that
accepts ends with two states on its stack and with an end token ahead
(`Parser.exists_accepting_entry`).  With entries of 32 bits this is about automata with fewer than
`2 ^ 31` states (`Automaton.inWords_table`).

## Strategy

* No transition leads back to the start state, and markers move on with every transition.  So the
  accepting production is in the start state with the marker before its body, and in one other state
  with the marker behind it (`entered_of_accepting`).
* That state was made for the transition over the start symbol, and the end marker arrived over it,
  with either kind of merging (`exists_origin`).
* In the table the number one is that of the accepting production alone, and no transition has a
  negative entry.
-/

namespace ShiftReduce

/-- The entry of a row and a column. -/
def ParseTable.cell? (t : ParseTable) (row column : Nat) : Option Int :=
  t.actions[row]?.bind (·[column]?)

namespace Automaton

variable {g : Grammar} {a : Automaton} {merging : Merging}

/-! ## The state of the accepting production -/

/-- The item of the accepting production with its marker at the start is in the start state only. -/
theorem eq_startState_of_mem_kernel (hg : g.WellFormed) (ha : build g merging = .ok a) {p : Nat}
    (hp : ⟨g.acceptRule, 0⟩ ∈ (a.look p).kernel) : p = startState := by
  rcases exists_entry hg ha (lt_length_of_mem_kernel hp) with rfl | ⟨p', -, x, hx⟩
  · rfl
  · obtain ⟨e, -, -, he⟩ := (consistent_of_build hg ha).mem_closure_of_transition? hx hp
    exact absurd he e.advance_ne_start

/-- The item with the marker at the end is entered from the start state, over the start symbol. -/
theorem entered_of_accepting (hg : g.WellFormed) (ha : build g merging = .ok a) {p q : Nat}
    {x : Symbol} (hx : (a.look p).transition? x = some q)
    (hq : ⟨g.acceptRule, 1⟩ ∈ (a.look q).kernel) :
    p = startState ∧ x = .nonterminal g.startSymbol := by
  have hconsistent := consistent_of_build hg ha
  obtain ⟨e, he, hnext, hadvance⟩ := hconsistent.mem_closure_of_transition? hx hq
  obtain rfl : e = ⟨g.acceptRule, 0⟩ := DottedRule.advance_inj hadvance
  have hkernel := hconsistent.mem_kernel_of_acceptRule hg he rfl
  exact ⟨eq_startState_of_mem_kernel hg ha hkernel, (Option.some.inj hnext).symm⟩

/-- There is a transition from the start state over the start symbol. -/
theorem exists_accepting (ha : a.Consistent g) :
    ∃ q, (a.look startState).transition? (.nonterminal g.startSymbol) = some q ∧
      ⟨g.acceptRule, 1⟩ ∈ (a.look q).kernel := by
  have hstart : ⟨g.acceptRule, 0⟩ ∈ (a.look startState).kernel := by
    rw [startState, ha.shaped.start]
    exact List.mem_singleton.2 rfl
  exact ha.exists_transition? (.inl hstart) rfl (by simp)

/-- The accepting production is reduced before the end marker, in the state that the start symbol
leads to, and nowhere else. -/
theorem reduce?_acceptRule_iff (hg : g.WellFormed) (ha : build g merging = .ok a) {q : Nat}
    {t : Terminal} : (a.look q).reduce? t = some g.acceptRule ↔
      (a.look startState).transition? (.nonterminal g.startSymbol) = some q ∧
        t = g.endMarker := by
  have hconsistent := consistent_of_build hg ha
  obtain ⟨target, htarget, hkernel⟩ := exists_accepting hconsistent
  constructor
  · intro hr
    obtain ⟨⟨_, marker⟩, hd, hreducible, rfl, ht⟩ := hconsistent.exists_of_reduce? hr
    obtain rfl : marker = 1 := by
      simpa [DottedRule.isReducible, Grammar.acceptRule] using hreducible
    have hq := hconsistent.mem_kernel_of_acceptRule hg hd rfl
    refine ⟨?_, hconsistent.eq_endMarker_of_expects hg rfl ht⟩
    rcases exists_entry hg ha (lt_length_of_mem_kernel hq) with rfl | ⟨p, -, x, hx⟩
    · rw [hconsistent.shaped.start] at hq
      simp at hq
    · obtain ⟨rfl, rfl⟩ := entered_of_accepting hg ha hx hq
      exact hx
  · rintro ⟨hq, rfl⟩
    obtain rfl : target = q := Option.some.inj (htarget.symm.trans hq)
    -- The state was made for this transition, so that the end marker came over it.
    rcases exists_origin hg ha (lt_length_of_mem_kernel hkernel) with rfl | ⟨p, -, x, hx, harrived⟩
    · exact absurd rfl (hconsistent.ne_zero_of_transition? htarget)
    · obtain ⟨rfl, rfl⟩ := entered_of_accepting hg ha hx hkernel
      have hstart : (a.look startState).Expects g ⟨g.acceptRule, 0⟩ g.endMarker :=
        ItemSet.expects_items.2 (.inl hconsistent.sourced.start)
      exact (hconsistent.settled target).reduce?_eq_some_iff.2
        ⟨hg.endMarker_ne_blank, _, harrived _ _ hstart rfl, rfl, rfl⟩

/-! ## The entry of the accepting production -/

/-- An entry is that of the accepting production only where this is reduced. -/
theorem entry_eq_neg_one_iff (hg : g.WellFormed) (ha : a.Consistent g) {q : Nat} {x : Symbol} :
    (a.look q).entry x = -1 ↔
      ∃ t, x = .terminal t ∧ (a.look q).reduce? t = some g.acceptRule := by
  constructor
  · intro h
    rcases (a.look q).entry_cases x with ⟨-, hentry⟩ | ⟨target, -, hentry⟩ | ⟨t, r, rfl, hr, hentry⟩
    · omega
    · omega
    · have hnumber : r.number = g.acceptRule.number := by
        show r.number = 1
        omega
      obtain rfl := hg.eq_of_number_eq (ha.mem_allRules_of_reduce? hr) Grammar.acceptRule_mem
        hnumber
      exact ⟨t, rfl, hr⟩
  · rintro ⟨t, rfl, hr⟩
    exact State.entry_of_reduce? hr

theorem cell?_table (g : Grammar) (a : Automaton) (row column : Nat) :
    (a.table g).cell? row column =
      if row < a.states.length then ((a.look row).row g.vocabulary)[column]? else none := by
  unfold ParseTable.cell? table look
  split
  · rename_i hrow
    simp [hrow]
  · rename_i hrow
    simp [List.getElem?_eq_none (Nat.not_lt.1 hrow)]

/-- The table has one entry for the accepting production. -/
theorem cell?_eq_neg_one_iff (hg : g.WellFormed) (ha : build g merging = .ok a)
    {row column : Nat} : (a.table g).cell? row column = some (-1) ↔
      (a.look startState).transition? (.nonterminal g.startSymbol) = some row ∧
        column = (a.table g).endSymbol := by
  have hconsistent := consistent_of_build hg ha
  rw [cell?_table]
  constructor
  · intro h
    split at h
    · rcases State.getElem?_row_cases h with hzero | ⟨x, -, rfl, hentry⟩
      · contradiction
      · obtain ⟨t, rfl, hr⟩ := (entry_eq_neg_one_iff hg hconsistent).1 hentry.symm
        obtain ⟨hrow, rfl⟩ := (reduce?_acceptRule_iff hg ha).1 hr
        exact ⟨hrow, rfl⟩
    · contradiction
  · rintro ⟨hrow, rfl⟩
    have hr := (reduce?_acceptRule_iff hg ha).2 ⟨hrow, rfl⟩
    have hcolumn := State.getElem?_row (s := a.look row) hg.endMarker_declared.mem_symbols
    rw [if_pos (hconsistent.target_lt_length hrow)]
    refine hcolumn.trans (congrArg some ?_)
    exact (entry_eq_neg_one_iff hg hconsistent).2 ⟨g.endMarker, rfl, hr⟩

end Automaton

/-! ## The end of a run -/

namespace Parser

open Automaton

section Runs

variable {g : Grammar} {a : Automaton} (hg : g.WellFormed) (ha : a.Consistent g)

include hg ha

/-- A run that accepts does so behind the start symbol, before an end token. -/
theorem Growing.last {consumed : List Token} {states : List Nat} {spelled : List Symbol}
    {nodes : List Tree} {token : Token} (h : Growing g a (some token) consumed states spelled nodes)
    {rest : Input} {root : Tree} {c : Configuration}
    (hstep : Configuration.step (a.table g) ⟨states, [.ofToken token], nodes, rest⟩ =
      .halt (.ok root) c) :
    ∃ q, (a.look startState).transition? (.nonterminal g.startSymbol) = some q ∧
      c.states = [q, startState] ∧
      c.pending = [⟨(a.table g).endSymbol, some token.text⟩] := by
  obtain ⟨top, below, rfl⟩ := h.path.ne_nil
  have hmove := tokenMove_step hg ha token top below nodes rest
  rw [hstep] at hmove
  cases hmove with
  | @accept t r _ ht hr haccept hnodes _ =>
      rw [step_accept hg ha ht hr below nodes rest haccept hnodes] at hstep
      obtain ⟨-, rfl⟩ := Move.halt.inj hstep
      obtain rfl : r = g.acceptRule := hg.eq_acceptRule (ha.mem_allRules_of_reduce? hr) haccept
      obtain ⟨rfl, rfl⟩ := h.path.reduce_accept ha hg hr
      cases h.path with
      | step hpath hq =>
          cases hpath
          exact ⟨top, hq, rfl, congrArg (fun symbol => [Lookahead.mk symbol _]) ht⟩

/-- The same of any sound configuration. -/
theorem Sound.last {input : Input} {c c' : Configuration} (h : Sound g a input c) {root : Tree}
    (hstep : c.step (a.table g) = .halt (.ok root) c') :
    ∃ q text, (a.look startState).transition? (.nonterminal g.startSymbol) = some q ∧
      c'.states = [q, startState] ∧ c'.pending = [⟨(a.table g).endSymbol, some text⟩] := by
  cases h with
  | @growing ahead consumed states spelled nodes rest h _ =>
      rcases ahead with _ | token
      · rcases rest with _ | ⟨message | token, rest⟩
        · cases (Move.halt.inj hstep).1
        · cases (Move.halt.inj hstep).1
        · obtain ⟨q, hq⟩ := (h.load token).last hg ha hstep
          exact ⟨q, token.text, hq⟩
      · obtain ⟨q, hq⟩ := h.last hg ha hstep
        exact ⟨q, token.text, hq⟩
  | @reduced token consumed states spelled n tree nodes rest h _ =>
      obtain ⟨p, below, rfl⟩ := h.path.ne_nil
      rcases step_goto_cases hg ha h.declared p below [.ofToken token] (tree :: nodes) rest with
        ⟨q, -, hgoto⟩ | ⟨e, c, herror⟩
      · rw [hgoto] at hstep
        contradiction
      · rw [herror] at hstep
        cases (Move.halt.inj hstep).1

end Runs

/-- A table has a single entry for the accepting production, in the row of the state that the
start state leads to over the start symbol and in the column of the end marker, and a parser that
accepts, whatever it has parsed before, stops in that state, right above the start state, with
nothing pending but a token of the end marker. -/
theorem exists_accepting_entry {declarations : List Declaration} {g : Grammar} {merging : Merging}
    {a : Automaton} (hg : Grammar.define declarations = .ok g) (ha : build g merging = .ok a) :
    ∃ q, (a.look startState).transition? (.nonterminal g.startSymbol) = some q ∧
      (∀ row column, (a.table g).cell? row column = some (-1) ↔
        row = q ∧ column = (a.table g).endSymbol) ∧
      ∀ (p : Parser) (fuel : Nat) (input : Input) (root : Tree) (p' : Parser),
        p.table = a.table g → p.parse fuel input = some (.ok root, p') →
          p'.configuration.states = [q, startState] ∧
          ∃ text, p'.configuration.pending = [⟨(a.table g).endSymbol, some text⟩] := by
  have hg := Grammar.wellFormed_of_define hg
  have hconsistent := consistent_of_build hg ha
  obtain ⟨q, hq, -⟩ := exists_accepting hconsistent
  refine ⟨q, hq, fun row column => ?_, fun p fuel input root p' hp hparse => ?_⟩
  · rw [cell?_eq_neg_one_iff hg ha, hq, Option.some.injEq, eq_comm]
  · obtain ⟨last, hreach, hlast⟩ := exists_last_of_parse hp hparse
    obtain ⟨q', text, hq', hstates, hpending⟩ :=
      (sound_of_reaches hg hconsistent hreach).last hg hconsistent hlast
    obtain rfl : q = q' := Option.some.inj (hq.symm.trans hq')
    exact ⟨hstates, text, hpending⟩

/-- `S := x | ( S $ )`, with the start symbol and the end marker in a body. -/
def enclosedEnd : List Declaration :=
  [.sentinel .blank "Blank", .sentinel .endMarker "$", .terminal "x", .terminal "(",
    .terminal ")", .nonterminal "S", .start ⟨1⟩,
    .rule (.nonterminal ⟨1⟩) [.terminal ⟨2⟩],
    .rule (.nonterminal ⟨1⟩)
      [.terminal ⟨3⟩, .nonterminal ⟨1⟩, .terminal ⟨1⟩, .terminal ⟨4⟩]]

/-- `( x $ )` is accepted at the second of the end tokens. -/
theorem exists_accepting_entry_enclosedEnd : ∃ g a root p',
    Grammar.define enclosedEnd = .ok g ∧ build g .lalr = .ok a ∧
    (ofTable (a.table g)).parse 30
      [.ok ⟨4, "("⟩, .ok ⟨3, "x"⟩, .ok ⟨2, "$"⟩, .ok ⟨5, ")"⟩, .ok ⟨2, "$"⟩] =
        some (.ok root, p') ∧
    ∃ q, (a.look startState).transition? (.nonterminal g.startSymbol) = some q ∧
      (∀ row column, (a.table g).cell? row column = some (-1) ↔
        row = q ∧ column = (a.table g).endSymbol) ∧
      p'.configuration.states = [q, startState] ∧
      ∃ text, p'.configuration.pending = [⟨(a.table g).endSymbol, some text⟩] := by
  have hpasses : passes enclosedEnd .lalr (fun g a => a.accepts? g 30
      [.ok ⟨4, "("⟩, .ok ⟨3, "x"⟩, .ok ⟨2, "$"⟩, .ok ⟨5, ")"⟩, .ok ⟨2, "$"⟩] =
        some true) = true := by decide +kernel
  obtain ⟨g, a, hg, ha, hcheck⟩ := exists_of_passes hpasses
  obtain ⟨root, p', h⟩ := parse_of_accepts? (of_decide_eq_true hcheck)
  obtain ⟨q, hq, hentry, hlast⟩ := exists_accepting_entry hg ha
  exact ⟨g, a, root, p', hg, ha, h, q, hq, hentry, hlast _ _ _ _ _ rfl h⟩

end Parser

end ShiftReduce
