import ShiftReduce.Grammar.Samples
import ShiftReduce.Proofs.Automaton.Reordering
import ShiftReduce.Proofs.Parser.Simulation

/-!
# Parsing with reordered grammars

With `Merging.lalr` the order of the rules of a grammar does not matter: reordered grammars have
automata or have none, and their parsers give the same trees and the same errors after the same
input, up to the number of the state in which a token was not expected
(`Parser.parse_of_reordered`).  With entries of 32 bits this is about automata with fewer than
`2 ^ 31` states (`Automaton.inWords_table`).

## Strategy

Mirrors have the same transitions and the same reductions, in both directions.  So in mirrors the
tables call for the same action, and each table follows the other (`Reordered.follows_of_build`).
-/

namespace ShiftReduce

variable {g g' : Grammar} {a a' : Automaton}

/-- States of the automata of two grammars that mirror each other. -/
structure Automaton.Mirrors (g' : Grammar) (a a' : Automaton) (q q' : Nat) : Prop where
  lt_length : q < a.states.length
  lt_length' : q' < a'.states.length
  mirrors : (a.look q).Mirrors g' (a'.look q')

theorem Automaton.Mirrors.symm (hg : g.WellFormed) (ha : build g .lalr = .ok a) {q q' : Nat}
    (h : a.Mirrors g' a' q q') : a'.Mirrors g a q' q :=
  ⟨h.lt_length', h.lt_length, h.mirrors.symm hg (canonical_kernelSet hg ha h.lt_length).rule_mem⟩

namespace Grammar.Reordered

open Automaton

variable (h : g.Reordered g') (hg : g.WellFormed) (hg' : g'.WellFormed)
  (ha : build g .lalr = .ok a) (ha' : build g' .lalr = .ok a')

include h hg hg' ha ha'

/-- Mirrors call for the same action, unless the first one calls for none. -/
theorem corresponds_mirror {q q' : Nat} (hq : a.Mirrors g' a' q q') (n : Nat) :
    ((a.table g).action q n).Corresponds (a.Mirrors g' a') ((a'.table g').action q' n) ∨
      (a.table g).action q n = .fail := by
  have hconsistent := consistent_of_build hg ha
  have hconsistent' := consistent_of_build hg' ha'
  apply corresponds_action hg hconsistent hg' hconsistent' h.vocabulary_eq hq.lt_length
    hq.lt_length'
  · intro x p hp
    obtain ⟨p', hp', hmirror⟩ := h.transition?_mirror hg hg' (grounded_of_build hg ha)
      hconsistent' hq.mirrors (hconsistent.transition?_eq_some_iff.1 hp)
    exact ⟨p', hp', hconsistent.target_lt_length hp, hconsistent'.target_lt_length hp', hmirror⟩
  · intro t r hr
    exact ⟨_, h.reduce?_mirror hg hg' ha ha' hq.lt_length' hq.mirrors hr, rfl, rfl⟩

/-- The table of a grammar follows that of the grammar that it is reordered to. -/
theorem follows_of_build : (a.table g).Follows (a.Mirrors g' a') False (a'.table g') := by
  have hconsistent := consistent_of_build hg ha
  have hconsistent' := consistent_of_build hg' ha'
  constructor
  case start =>
    refine ⟨Path.start.lt_length hconsistent, Path.start.lt_length hconsistent', ?_⟩
    have hstart := hconsistent'.kernelSet_start
    rw [← h.onto_start hg', ← Set.image_singleton, ← hconsistent.kernelSet_start] at hstart
    exact hstart
  case terminalCount_eq => exact congrArg (·.terminals.length) h.vocabulary_eq
  case acceptSymbol_eq => exact congrArg (·.number (.nonterminal .accept)) h.vocabulary_eq
  case action =>
    intro q q' hq n
    left
    rcases h.corresponds_mirror hg hg' ha ha' hq n with haction | hfail
    · exact haction
    · -- In the other direction, what is no failure there would be none here.
      have hback := h.symm.corresponds_mirror hg' hg ha' ha (hq.symm hg ha) n
      rw [hfail] at hback ⊢
      have hfail' : (a'.table g').action q' n = .fail := by
        rcases hback with hback | hfail'
        · generalize (a'.table g').action q' n = action' at hback
          cases hback
          rfl
        · exact hfail'
      rw [hfail']
      exact .fail

end Grammar.Reordered

namespace Parser

/-- Of two grammars with the same rules in another order, both have an automaton with
`Merging.lalr` or neither has.  Their tables give the same names to symbols, and on every input
their parsers halt within the same bounds, with the same tree or the same error, up to the state of
an unexpected token, and with the same input left. -/
theorem parse_of_reordered {declarations declarations' : List Declaration}
    (hg : Grammar.define declarations = .ok g) (hg' : Grammar.define declarations' = .ok g')
    (h : g.Reordered g') :
    ((∃ a, Automaton.build g .lalr = .ok a) ↔ ∃ a', Automaton.build g' .lalr = .ok a') ∧
    ∀ a a', Automaton.build g .lalr = .ok a → Automaton.build g' .lalr = .ok a' →
      ∀ p p' : Parser, p.table = a.table g → p'.table = a'.table g' →
        p'.table.names = p.table.names ∧
        ∀ fuel input, Option.Rel (ResultCorresponds (a.Mirrors g' a')) (p.parse fuel input)
          (p'.parse fuel input) := by
  have hg := Grammar.wellFormed_of_define hg
  have hg' := Grammar.wellFormed_of_define hg'
  refine ⟨⟨h.symm.exists_build hg' hg, h.exists_build hg hg'⟩, ?_⟩
  intro a a' ha ha' p p' hp hp'
  have hfollows := h.follows_of_build hg hg' ha ha'
  constructor
  · rw [hp, hp', Automaton.table, Automaton.table, h.vocabulary_eq]
  · intro fuel input
    rw [← hp, ← hp'] at hfollows
    exact (corresponds_parse hfollows fuel input).resolve_right fun hearly => hearly.1

/-- The declarations of `Samples.lateLookahead` with the rules in the opposite order. -/
def lateLookaheadReversed : List Declaration :=
  Samples.lateLookahead.take 10 ++ (Samples.lateLookahead.drop 10).reverse

/-- The tokens of `b e d`. -/
def lateSentence : Input := [.ok ⟨4, "b"⟩, .ok ⟨7, "e"⟩, .ok ⟨6, "d"⟩, .ok ⟨2, "$"⟩]

/-- Whether two lists of declarations define grammars with the same rules in different orders. -/
def reorders (declarations declarations' : List Declaration) : Bool :=
  match Grammar.define declarations, Grammar.define declarations' with
  | .ok g, .ok g' => g.Reordered g' && g.rules ≠ g'.rules
  | _, _ => false

theorem exists_of_reorders {declarations declarations' : List Declaration}
    (h : reorders declarations declarations' = true) :
    ∃ g g', Grammar.define declarations = .ok g ∧ Grammar.define declarations' = .ok g' ∧
      g.Reordered g' ∧ g.rules ≠ g'.rules := by
  unfold reorders at h
  split at h
  · rename_i g g' hg hg'
    exact ⟨g, g', hg, hg', by simpa using h⟩
  · contradiction

/-- `b e d` has the same tree when the rules come in the opposite order. -/
theorem parse_of_reordered_lateLookahead : ∃ g g' a a' root p p',
    Grammar.define Samples.lateLookahead = .ok g ∧
    Grammar.define lateLookaheadReversed = .ok g' ∧ g.Reordered g' ∧ g.rules ≠ g'.rules ∧
    Automaton.build g .lalr = .ok a ∧ Automaton.build g' .lalr = .ok a' ∧
    (ofTable (a.table g)).parse 30 lateSentence = some (.ok root, p) ∧
    (ofTable (a'.table g')).parse 30 lateSentence = some (.ok root, p') ∧
    p'.configuration.input = p.configuration.input := by
  have hreorders : reorders Samples.lateLookahead lateLookaheadReversed = true := by
    decide +kernel
  have haccepts : Automaton.passes Samples.lateLookahead .lalr (fun g a =>
      a.accepts? g 30 lateSentence = some true) = true := by decide +kernel
  obtain ⟨g, g', hg, hg', h, hne⟩ := exists_of_reorders hreorders
  obtain ⟨g'', a, hg'', ha, hcheck⟩ := Automaton.exists_of_passes haccepts
  obtain rfl : g = g'' := Except.ok.inj (hg.symm.trans hg'')
  obtain ⟨root, p, hp⟩ := Automaton.parse_of_accepts? (of_decide_eq_true hcheck)
  obtain ⟨hbuild, hparse⟩ := parse_of_reordered hg hg' h
  obtain ⟨a', ha'⟩ := hbuild.1 ⟨a, ha⟩
  obtain ⟨-, hrel⟩ := hparse a a' ha ha' (ofTable (a.table g)) (ofTable (a'.table g')) rfl rfl
  have hsame := hrel 30 lateSentence
  rw [hp] at hsame
  generalize hp' : (ofTable (a'.table g')).parse 30 lateSentence = result' at hsame
  cases hsame with
  | @some _ r' hr =>
      obtain ⟨verdict', p'⟩ := r'
      obtain ⟨hverdict, hinput⟩ := hr
      cases hverdict
      exact ⟨g, g', a, a', root, p, p', hg, hg', h, hne, ha, ha', hp, hp', hinput.input_eq⟩

end Parser

end ShiftReduce
