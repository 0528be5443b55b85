import ShiftReduce.Proofs.Automaton.Merging
import ShiftReduce.Proofs.Parser.Safety
import ShiftReduce.Proofs.Parser.Simulation

/-!
# Parsing with more lookaheads

What a parser accepts with the table of `Merging.firstFound`, it accepts with the table of
`Merging.lalr`, with the same tree; and where it meets an unexpected token with the table of
`Merging.lalr`, it has met one no later with the other table (`parse_lalr_of_firstFound`).  With
entries of 32 bits this is about automata with fewer than `2 ^ 31` states
(`Automaton.inWords_table`).

## Strategy

The two automata have the same states and transitions, and a reduction of the one with
`Merging.firstFound` is one of the other.  So the one table follows the other, each state being
related to itself, and the only entries in which they differ are failures in the first table
(`Automaton.follows_of_build`).  The rest is the comparison of runs with such tables.
-/

namespace ShiftReduce

namespace Automaton

variable {g : Grammar}

/-- A state of an automaton, related to the state of the same number. -/
def Same (a : Automaton) (q q' : Nat) : Prop := q' = q ∧ q < a.states.length

/-- The table of `Merging.lalr` follows the table of `Merging.firstFound`, but that this one may
fail early. -/
theorem follows_of_build (hg : g.WellFormed) {first lalr : Automaton}
    (hfirst : build g .firstFound = .ok first) (hlalr : build g .lalr = .ok lalr) :
    (first.table g).Follows first.Same True (lalr.table g) := by
  obtain ⟨hlength, hwithin⟩ := within_of_build hg hfirst hlalr
  have hfirst := consistent_of_build hg hfirst
  have hlalr := consistent_of_build hg hlalr
  constructor
  case start => exact ⟨rfl, Path.start.lt_length hfirst⟩
  case terminalCount_eq => rfl
  case acceptSymbol_eq => rfl
  case action =>
    rintro _ q ⟨rfl, hq⟩ n
    refine (corresponds_action hg hfirst hg hlalr rfl hq (hlength ▸ hq) ?_ ?_ n).imp id
      fun hfail => ⟨trivial, hfail⟩
    · intro x target htarget
      refine ⟨target, ?_, rfl, hfirst.target_lt_length htarget⟩
      rwa [State.transition?, ← (hwithin q).transitions]
    · intro t r hr
      exact ⟨r, (hwithin q).reduce? t r hr, rfl, rfl⟩

end Automaton

namespace Configuration

/-- If related states are equal, configurations that correspond are. -/
theorem Corresponds.eq {S : Nat → Nat → Prop} (hS : ∀ q q', S q q' → q' = q)
    {c c' : Configuration} (h : c.Corresponds S c') : c' = c := by
  obtain ⟨states, pending, nodes, input⟩ := c
  obtain ⟨states', pending', nodes', input'⟩ := c'
  obtain ⟨hstates, rfl, rfl, rfl⟩ := h
  obtain rfl : states = states' :=
    List.forall₂_eq_eq_eq ▸ hstates.imp fun q q' hq => (hS q q' hq).symm
  rfl

end Configuration

namespace Parser

variable {g : Grammar} {first lalr : Automaton}

/-- What is accepted with the table of `Merging.firstFound` is accepted with the table of
`Merging.lalr`, with the same tree, the same names in it and the same input left.  If a token is
unexpected with the table of `Merging.lalr`, one is with the other table, with no less of the input
left. -/
theorem parse_lalr_of_firstFound {declarations : List Declaration}
    (hg : Grammar.define declarations = .ok g)
    (hfirst : Automaton.build g .firstFound = .ok first)
    (hlalr : Automaton.build g .lalr = .ok lalr) (p p' : Parser)
    (hp : p.table = first.table g) (hp' : p'.table = lalr.table g) (fuel : Nat) (input : Input) :
    p'.table.names = p.table.names ∧
    (∀ root q, p.parse fuel input = some (.ok root, q) →
      ∃ q', p'.parse fuel input = some (.ok root, q') ∧ q'.configuration = q.configuration) ∧
    ∀ symbol state q',
      p'.parse fuel input = some (.error (.unexpectedToken symbol state), q') →
      ∃ symbol' state' q,
        p.parse fuel input = some (.error (.unexpectedToken symbol' state'), q) ∧
        q'.configuration.input <:+ q.configuration.input := by
  have hfollows := Automaton.follows_of_build (Grammar.wellFormed_of_define hg) hfirst hlalr
  rw [← hp, ← hp'] at hfollows
  have hparse := corresponds_parse hfollows fuel input
  generalize p.parse fuel input = result, p'.parse fuel input = result' at hparse
  refine ⟨by rw [hp, hp']; rfl, ?_, ?_⟩
  · rintro root q rfl
    rcases hparse with hparse | ⟨-, symbol, state, _, hfail, -⟩
    · cases hparse with
      | @some _ r' hr =>
          obtain ⟨verdict', q'⟩ := r'
          obtain ⟨hverdict, hq⟩ := hr
          cases hverdict
          exact ⟨q', rfl, hq.eq fun _ _ hsame => hsame.1⟩
    · cases hfail
  · rintro symbol state q' rfl
    rcases hparse with hparse | ⟨-, symbol', state', q, rfl, hinput⟩
    · cases hparse with
      | @some r _ hr =>
          obtain ⟨verdict, q⟩ := r
          obtain ⟨hverdict, hq⟩ := hr
          cases hverdict with
          | error he =>
              have hinput : q'.configuration.input <:+ q.configuration.input :=
                hq.input_eq ▸ List.suffix_rfl
              cases he <;> exact ⟨_, _, q, rfl, hinput⟩
    · exact ⟨symbol', state', q, rfl, hinput _ rfl⟩

/-- The tokens of `a e c`. -/
def firstContext : Input := [.ok ⟨3, "a"⟩, .ok ⟨7, "e"⟩, .ok ⟨5, "c"⟩, .ok ⟨2, "$"⟩]

/-- The tokens of `b e d c`. -/
def lateContext : Input := [.ok ⟨4, "b"⟩, .ok ⟨7, "e"⟩, .ok ⟨6, "d"⟩, .ok ⟨5, "c"⟩]

/-- Both parsers accept `a e c`, and both reject `b e d c`. -/
theorem parse_lalr_of_firstFound_lateLookahead : ∃ g first lalr root p p' state q' symbol q,
    Grammar.define Samples.lateLookahead = .ok g ∧
    Automaton.build g .firstFound = .ok first ∧ Automaton.build g .lalr = .ok lalr ∧
    (ofTable (first.table g)).parse 30 firstContext = some (.ok root, p) ∧
    (ofTable (lalr.table g)).parse 30 firstContext = some (.ok root, p') ∧
    p'.configuration = p.configuration ∧
    (ofTable (lalr.table g)).parse 30 lateContext =
      some (.error (.unexpectedToken 5 state), q') ∧
    (∃ state', (ofTable (first.table g)).parse 30 lateContext =
      some (.error (.unexpectedToken symbol state'), q)) ∧
    q'.configuration.input <:+ q.configuration.input := by
  have haccepts : Automaton.passes Samples.lateLookahead .firstFound (fun g a =>
      a.accepts? g 30 firstContext = some true) = true := by decide +kernel
  have hrejects : Automaton.passes Samples.lateLookahead .lalr (fun g a =>
      rejects g a 30 lateContext 5) = true := by decide +kernel
  obtain ⟨g, first, hg, hfirst, hcheck⟩ := Automaton.exists_of_passes haccepts
  obtain ⟨g', lalr, hg', hlalr, hcheck'⟩ := Automaton.exists_of_passes hrejects
  obtain rfl : g = g' := Except.ok.inj (hg.symm.trans hg')
  obtain ⟨root, p, hp⟩ := Automaton.parse_of_accepts? (of_decide_eq_true hcheck)
  obtain ⟨-, state, q', hq'⟩ := parse_of_rejects hcheck'
  have hparse := parse_lalr_of_firstFound hg hfirst hlalr (ofTable (first.table g))
    (ofTable (lalr.table g)) rfl rfl 30
  obtain ⟨-, haccepted, -⟩ := hparse firstContext
  obtain ⟨-, -, hrejected⟩ := hparse lateContext
  obtain ⟨p', hp', hsame⟩ := haccepted root p hp
  obtain ⟨symbol, state', q, hq, hsuffix⟩ := hrejected 5 state q' hq'
  exact ⟨g, first, lalr, root, p, p', state, q', symbol, q, hg, hfirst, hlalr, hp, hp', hsame, hq',
    ⟨state', hq⟩, hsuffix⟩

end Parser

end ShiftReduce
