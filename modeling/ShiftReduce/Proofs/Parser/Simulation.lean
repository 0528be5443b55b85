import Mathlib.Data.List.Forall2
import ShiftReduce.Proofs.Table.Decoding

/-!
# Comparing runs with two tables

One table follows another if in related states the two call for the same action, where the states
to shift to are related again and productions are told apart by head and length only
(`ParseTable.Follows`).  Then the parsers move in lock step, with the same trees on the stack and
the same input ahead, and they give the same verdict (`Parser.corresponds_parse`).

The first table may be allowed to fail early, where the second one knows how to go on.  The run with
the first table then ends with an unexpected token, and the run with the second one reads no less of
the input.

For tables of automata it is enough to compare transitions and reductions
(`Automaton.corresponds_action`).
-/

namespace ShiftReduce

/-! ## What corresponds -/

/-- The same action, up to related states and the number of a production. -/
inductive Action.Corresponds (S : Nat → Nat → Prop) : Action → Action → Prop
  | shift {q q' : Nat} : S q q' → Corresponds S (.shift q) (.shift q')
  | reduce {rule rule' head length : Nat} :
      Corresponds S (.reduce rule head length) (.reduce rule' head length)
  | fail : Corresponds S .fail .fail
  | fault (fault : TableFault) : Corresponds S (.fault fault) (.fault fault)

/-- The second table calls for the same actions in related states.  If it is allowed, the first
table fails early instead. -/
structure ParseTable.Follows (S : Nat → Nat → Prop) (early : Prop) (t t' : ParseTable) : Prop where
  start : S initialState initialState
  terminalCount_eq : t'.terminalCount = t.terminalCount
  acceptSymbol_eq : t'.acceptSymbol = t.acceptSymbol
  action : ∀ q q', S q q' → ∀ n,
    (t.action q n).Corresponds S (t'.action q' n) ∨ (early ∧ t.action q n = .fail)

/-- The same error, up to the state in which a token was not expected. -/
inductive ParseError.Corresponds (S : Nat → Nat → Prop) : ParseError → ParseError → Prop
  | same (e : ParseError) : Corresponds S e e
  | unexpectedToken {symbol q q' : Nat} : S q q' →
      Corresponds S (.unexpectedToken symbol q) (.unexpectedToken symbol q')

/-- The same tree, or errors that correspond. -/
inductive Verdict.Corresponds (S : Nat → Nat → Prop) : Verdict → Verdict → Prop
  | ok (tree : Tree) : Corresponds S (.ok tree) (.ok tree)
  | error {e e' : ParseError} : e.Corresponds S e' → Corresponds S (.error e) (.error e')

namespace Configuration

/-- The same trees, the same symbols ahead and related states. -/
structure Corresponds (S : Nat → Nat → Prop) (c c' : Configuration) : Prop where
  states : List.Forall₂ S c.states c'.states
  pending_eq : c'.pending = c.pending
  nodes_eq : c'.nodes = c.nodes
  input_eq : c'.input = c.input

/-- Results that correspond. -/
def ResultCorresponds (S : Nat → Nat → Prop) (r r' : Verdict × Configuration) : Prop :=
  Verdict.Corresponds S r.1 r'.1 ∧ r.2.Corresponds S r'.2

end Configuration

/-- Moves that correspond. -/
inductive Move.Corresponds (S : Nat → Nat → Prop) : Move → Move → Prop
  | next {c c' : Configuration} : c.Corresponds S c' → Corresponds S (.next c) (.next c')
  | halt {verdict verdict' : Verdict} {c c' : Configuration} : verdict.Corresponds S verdict' →
      c.Corresponds S c' → Corresponds S (.halt verdict c) (.halt verdict' c')

/-- The configuration after a move. -/
def Move.configuration : Move → Configuration
  | .next c => c
  | .halt _ c => c

namespace Configuration

variable {S : Nat → Nat → Prop} {early : Prop} {t t' : ParseTable} {c c' : Configuration}

/-! ## How much of the input is left -/

theorem input_reduce (t : ParseTable) (c : Configuration) (head length : Nat) :
    (reduce t c head length).configuration.input = c.input := by
  rw [reduce_eq]
  split_ifs <;> rfl

/-- A move leaves of the input what is left when the next symbol has been taken. -/
theorem input_step (t : ParseTable) (c : Configuration) :
    (step t c).configuration.input = c.take.2.input := by
  unfold step
  split
  · rename_i htake
    rw [htake]
    rfl
  · rename_i htake
    rw [htake]
    split
    · rfl
    · split
      · rfl
      · exact input_reduce _ _ _ _
      · rfl
      · rfl

theorem input_take_suffix (c : Configuration) : c.take.2.input <:+ c.input := by
  obtain ⟨states, pending, nodes, input⟩ := c
  rcases pending with _ | ⟨lookahead, pending⟩
  · rcases input with _ | ⟨head, input⟩
    · exact List.suffix_rfl
    · cases head with
      | error message => exact List.suffix_cons _ _
      | ok token => exact List.suffix_cons _ _
  · exact List.suffix_rfl

/-- A run that has halted has taken at least what comes next. -/
theorem input_run_suffix {fuel : Nat} {r : Verdict × Configuration}
    (h : run t fuel c = some r) : r.2.input <:+ c.take.2.input := by
  induction fuel generalizing c with
  | zero => contradiction
  | succ fuel ih =>
      rw [run] at h
      have hinput := input_step t c
      cases hstep : step t c with
      | next d =>
          rw [hstep] at h hinput
          rw [← hinput]
          exact (ih h).trans d.input_take_suffix
      | halt verdict d =>
          rw [hstep] at h hinput
          obtain rfl := Option.some.inj h
          rw [← hinput]
          exact List.suffix_rfl

/-! ## One move -/

theorem corresponds_start (hf : t.Follows S early t') (input : Input) :
    (start input).Corresponds S (start input) :=
  ⟨.cons hf.start .nil, rfl, rfl, rfl⟩

/-- Both parsers take the same symbol, or fail to. -/
theorem Corresponds.take (h : c.Corresponds S c') :
    c'.take.1 = c.take.1 ∧ c.take.2.Corresponds S c'.take.2 := by
  obtain ⟨states, pending, nodes, input⟩ := c
  obtain ⟨states', pending', nodes', input'⟩ := c'
  obtain ⟨hstates, rfl, rfl, rfl⟩ := h
  rcases pending' with _ | ⟨lookahead, pending⟩
  · rcases input' with _ | ⟨head, input⟩
    · exact ⟨rfl, hstates, rfl, rfl, rfl⟩
    · cases head with
      | error message => exact ⟨rfl, hstates, rfl, rfl, rfl⟩
      | ok token => exact ⟨rfl, hstates, rfl, rfl, rfl⟩
  · exact ⟨rfl, hstates, rfl, rfl, rfl⟩

theorem Corresponds.shift (hf : t.Follows S early t') (h : c.Corresponds S c')
    (lookahead : Lookahead) {q q' : Nat} (hq : S q q') :
    (c.shift t lookahead q).Corresponds S (c'.shift t' lookahead q') where
  states := .cons hq h.states
  pending_eq := h.pending_eq
  nodes_eq := by
    show (if t'.isShift lookahead.symbol then _ else _) ++ c'.nodes = _
    rw [ParseTable.isShift, hf.terminalCount_eq, h.nodes_eq]
    rfl
  input_eq := h.input_eq

theorem Corresponds.reduce (hf : t.Follows S early t') (h : c.Corresponds S c')
    (head length : Nat) :
    (Configuration.reduce t c head length).Corresponds S
      (Configuration.reduce t' c' head length) := by
  have hlength := h.states.length_eq
  obtain ⟨states, pending, nodes, input⟩ := c
  obtain ⟨states', pending', nodes', input'⟩ := c'
  obtain ⟨hstates, rfl, rfl, rfl⟩ := h
  simp only [reduce_eq, hf.acceptSymbol_eq, hlength]
  split_ifs
  · exact .halt (.error (.same _)) ⟨hstates, rfl, rfl, rfl⟩
  · exact .halt (.ok _) ⟨hstates, rfl, rfl, rfl⟩
  · exact .halt (.error (.same _)) ⟨hstates, rfl, rfl, rfl⟩
  · exact .next ⟨List.forall₂_drop length hstates, rfl, rfl, rfl⟩

/-- Moves from configurations that correspond do so again, unless the first table fails early. -/
theorem Corresponds.step (hf : t.Follows S early t') (h : c.Corresponds S c') :
    (Configuration.step t c).Corresponds S (Configuration.step t' c') ∨
    (early ∧ ∃ symbol state d,
      Configuration.step t c = .halt (.error (.unexpectedToken symbol state)) d) := by
  obtain ⟨htake, hrest⟩ := h.take
  unfold Configuration.step
  rcases hc : c.take with ⟨taken, states, pending, nodes, input⟩
  rcases hc' : c'.take with ⟨taken', states', pending', nodes', input'⟩
  rw [hc, hc'] at htake hrest
  obtain rfl : taken' = taken := htake
  obtain ⟨hstates, rfl, rfl, rfl⟩ := hrest
  rcases taken' with e | lookahead
  · exact .inl (.halt (.error (.same e)) ⟨hstates, rfl, rfl, rfl⟩)
  · cases hstates with
    | nil => exact .inl (.halt (.error (.same _)) ⟨.nil, rfl, rfl, rfl⟩)
    | @cons q q' below below' hq hbelow =>
        dsimp only
        have hsame : Configuration.Corresponds S ⟨q :: below, pending', nodes', input'⟩
            ⟨q' :: below', pending', nodes', input'⟩ := ⟨.cons hq hbelow, rfl, rfl, rfl⟩
        rcases hf.action q q' hq lookahead.symbol with haction | ⟨hearly, hfail⟩
        · left
          generalize t.action q lookahead.symbol = action,
            t'.action q' lookahead.symbol = action' at haction
          cases haction with
          | shift htarget => exact .next (hsame.shift hf lookahead htarget)
          | @reduce _ _ head length =>
              have hback : Configuration.Corresponds S
                  ⟨q :: below, lookahead :: pending', nodes', input'⟩
                  ⟨q' :: below', lookahead :: pending', nodes', input'⟩ :=
                ⟨hsame.states, rfl, rfl, rfl⟩
              exact hback.reduce hf head length
          | fail => exact .halt (.error (.unexpectedToken hq)) hsame
          | fault fault => exact .halt (.error (.same _)) hsame
        · rw [hfail]
          exact .inr ⟨hearly, _, _, _, rfl⟩

/-! ## Whole runs -/

/-- From configurations that correspond, both runs halt with results that correspond, or neither
does within the bound; unless the first one fails early, and has then read no more of the input than
the second one when that halts. -/
theorem Corresponds.run (hf : t.Follows S early t') (h : c.Corresponds S c') (fuel : Nat) :
    Option.Rel (ResultCorresponds S) (c.run t fuel) (c'.run t' fuel) ∨
    (early ∧ ∃ symbol state d, c.run t fuel = some (.error (.unexpectedToken symbol state), d) ∧
      ∀ r, c'.run t' fuel = some r → r.2.input <:+ d.input) := by
  induction fuel generalizing c c' with
  | zero => exact .inl .none
  | succ fuel ih =>
      rcases h.step hf with hstep | ⟨hearly, symbol, state, d, hstep⟩
      · rw [Configuration.run, Configuration.run]
        generalize Configuration.step t c = move, Configuration.step t' c' = move' at hstep
        cases hstep with
        | next hnext => exact ih hnext
        | halt hverdict hhalt => exact .inl (.some ⟨hverdict, hhalt⟩)
      · refine .inr ⟨hearly, symbol, state, d, by rw [Configuration.run, hstep], fun r hr => ?_⟩
        -- Both have taken the same symbol, and the first one has taken nothing else.
        have hinput : d.input = c'.take.2.input := by
          have hfirst := input_step t c
          rw [hstep] at hfirst
          exact hfirst.trans h.take.2.input_eq.symm
        rw [hinput]
        exact input_run_suffix hr

end Configuration

namespace Parser

/-- Results of two parsers that correspond. -/
def ResultCorresponds (S : Nat → Nat → Prop) (r r' : Verdict × Parser) : Prop :=
  Verdict.Corresponds S r.1 r'.1 ∧ r.2.configuration.Corresponds S r'.2.configuration

/-- On every input two parsers halt with results that correspond, or neither does within the bound,
if the table of the second one follows that of the first; unless the first one fails early. -/
theorem corresponds_parse {S : Nat → Nat → Prop} {early : Prop} {p p' : Parser}
    (hf : p.table.Follows S early p'.table) (fuel : Nat) (input : Input) :
    Option.Rel (ResultCorresponds S) (p.parse fuel input) (p'.parse fuel input) ∨
    (early ∧ ∃ symbol state q,
      p.parse fuel input = some (.error (.unexpectedToken symbol state), q) ∧
      ∀ r, p'.parse fuel input = some r → r.2.configuration.input <:+ q.configuration.input) := by
  rcases (Configuration.corresponds_start hf input).run hf fuel with
    hrun | ⟨hearly, symbol, state, d, hrun, hinput⟩
  · left
    rw [parse, parse]
    generalize (Configuration.start input).run p.table fuel = result,
      (Configuration.start input).run p'.table fuel = result' at hrun
    cases hrun with
    | none => exact .none
    | some hr => exact .some hr
  · refine .inr ⟨hearly, symbol, state, _, parse_of_run rfl hrun, fun r hr => ?_⟩
    obtain ⟨result, hresult, rfl⟩ := Option.map_eq_some_iff.1 hr
    exact hinput result hresult

end Parser

/-! ## Tables of automata -/

namespace Automaton

variable {S : Nat → Nat → Prop} {g g' : Grammar} {a a' : Automaton}

/-- The columns that belong to no symbol are the same in every table. -/
theorem action_of_unused {q n : Nat} (hq : q < a.states.length)
    (hn : ∀ x ∈ g.vocabulary.symbols, g.vocabulary.number x ≠ n) :
    (a.table g).action q n = if n = 0 then .fail else .fault .symbol := by
  rw [action_of_lt hq]
  split_ifs with hzero
  · subst hzero
    rw [State.getElem?_row_zero]
    rfl
  · have hnone : ((a.look q).row g.vocabulary)[n]? = none := by
      apply Array.getElem?_eq_none
      rw [State.size_row]
      by_contra hlt
      obtain ⟨x, hx, heq⟩ := Vocabulary.exists_number_eq (v := g.vocabulary) (n := n)
        (Nat.pos_of_ne_zero hzero) (by omega)
      exact hn x hx heq
    rw [hnone]

/-- In states of which the second one has the transitions and the reductions of the first, the
tables call for the same action, unless the first one has none. -/
theorem corresponds_action (hg : g.WellFormed) (ha : a.Consistent g) (hg' : g'.WellFormed)
    (ha' : a'.Consistent g') (hvocabulary : g'.vocabulary = g.vocabulary) {p p' : Nat}
    (hp : p < a.states.length) (hp' : p' < a'.states.length)
    (htransition : ∀ x q, (a.look p).transition? x = some q →
      ∃ q', (a'.look p').transition? x = some q' ∧ S q q')
    (hreduce : ∀ t r, (a.look p).reduce? t = some r →
      ∃ r', (a'.look p').reduce? t = some r' ∧ r'.head = r.head ∧ r'.arity = r.arity) (n : Nat) :
    ((a.table g).action p n).Corresponds S ((a'.table g').action p' n) ∨
      (a.table g).action p n = .fail := by
  by_cases hn : ∃ x ∈ g.vocabulary.symbols, g.vocabulary.number x = n
  · obtain ⟨x, hx, rfl⟩ := hn
    rcases action_number_cases hg ha hp hx with ⟨q, hq, haction⟩ | ⟨t, r, rfl, hr, haction⟩ |
      ⟨-, -, hfail⟩
    · obtain ⟨q', hq', hrelated⟩ := htransition x q hq
      rw [haction, ← hvocabulary, action_of_transition? hg' ha' hq']
      exact .inl (.shift hrelated)
    · obtain ⟨r', hr', hhead, harity⟩ := hreduce t r hr
      rw [haction, ← hvocabulary, action_of_reduce? hg' ha' hr', reduction, reduction, hhead, harity,
        hvocabulary]
      exact .inl .reduce
    · exact .inr hfail
  · have hunused : ∀ x ∈ g.vocabulary.symbols, g.vocabulary.number x ≠ n :=
      fun x hx heq => hn ⟨x, hx, heq⟩
    rw [action_of_unused hp hunused, action_of_unused hp' (hvocabulary ▸ hunused)]
    split_ifs
    · exact .inr rfl
    · exact .inl (.fault _)

end Automaton

end ShiftReduce
