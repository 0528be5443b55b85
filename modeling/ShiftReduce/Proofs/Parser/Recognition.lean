import ShiftReduce.Proofs.Parser.Completeness
import ShiftReduce.Proofs.Parser.Divergence

/-!
# Grammars without blank bodies

For a grammar without blank bodies, and with `Merging.lalr`, a parser decides the language: it
returns the tree of every input that goes on from the leaves of a tree with an end token, it
fails on all other inputs, and no two trees have the same leaves (`parse_decides`).  With entries of
32 bits this is about automata with fewer than `2 ^ 31` states (`Automaton.inWords_table`).

## Strategy

Nothing vanishes, so the lookaheads of the automaton are enough for every tree, also before the
end marker (`Followed`).  What is retraced is returned, and a parser returns one tree only.  The
inputs without a tree are left: the parser halts on them (`parse_halts_iff` has why), and it does
not return a tree, since that would be a tree of the input.
-/

namespace ShiftReduce.Parser

open Automaton ShiftReduce.Configuration

/-- With `Merging.lalr`, and in a grammar without blank bodies, a parser returns the tree of an
input if there is one, and an error otherwise.  The tree of some leaves is the only one. -/
theorem parse_decides {declarations : List Declaration} {g : Grammar} {a : Automaton}
    {p : Parser} (hg : Grammar.define declarations = .ok g) (hfree : g.EpsilonFree)
    (ha : Automaton.build g .lalr = .ok a) (hp : p.table = a.table g) :
    (∀ (tree : Tree) (last : Token) (rest : Input),
      g.Forest [.nonterminal g.startSymbol] [tree] →
      last.symbol = g.vocabulary.number (.terminal g.endMarker) →
      ∃ fuel p', p.parse fuel (inputOf tree.leaves ++ .ok last :: rest) =
        some (.ok (.node (g.vocabulary.number (.nonterminal .accept)) [tree]), p')) ∧
    (∀ tree tree' : Tree, g.Forest [.nonterminal g.startSymbol] [tree] →
      g.Forest [.nonterminal g.startSymbol] [tree'] → tree.leaves = tree'.leaves →
      tree = tree') ∧
    (∀ input : Input,
      (¬ ∃ (tree : Tree) (last : Token) (rest : Input),
        g.Forest [.nonterminal g.startSymbol] [tree] ∧
        last.symbol = g.vocabulary.number (.terminal g.endMarker) ∧
        input = inputOf tree.leaves ++ .ok last :: rest) →
      ∃ fuel e p', p.parse fuel input = some (.error e, p')) := by
  have hwell := Grammar.wellFormed_of_define hg
  have hsaturated := saturated_of_build hwell ha
  have htree : ∀ (tree : Tree) (last : Token) (rest : Input),
      g.Forest [.nonterminal g.startSymbol] [tree] →
      last.symbol = g.vocabulary.number (.terminal g.endMarker) →
      ∃ fuel p', p.parse fuel (inputOf tree.leaves ++ .ok last :: rest) =
        some (.ok (.node (g.vocabulary.number (.nonterminal .accept)) [tree]), p') := by
    intro tree last rest hf hlast
    obtain ⟨states, hretraces⟩ :=
      exists_retraces_of_followed hwell hsaturated hf (.inr (.inr hfree))
    exact parse_of_retraces hwell hsaturated hp hretraces hlast rest
  refine ⟨htree, ?_, ?_⟩
  · intro tree tree' hf hf' hleaves
    -- Both trees are what the parser returns for their leaves.
    obtain ⟨fuel, p', h⟩ := htree tree ⟨_, ""⟩ [] hf rfl
    obtain ⟨fuel', p'', h'⟩ := htree tree' ⟨_, ""⟩ [] hf' rfl
    rw [hleaves] at h
    have hverdict := congrArg Prod.fst (parse_unique h h')
    simpa using hverdict
  · intro input hnone
    obtain ⟨fuel, verdict, p', h⟩ := halts_of_epsilonFree hwell hfree hsaturated hp input
    cases verdict with
    | error e => exact ⟨fuel, e, p', h⟩
    | ok root =>
        obtain ⟨tree, consumed, text, states, -, hretraces, hinput, hleaves⟩ :=
          accepted_of_parse hwell hsaturated.toConsistent hp h
        apply absurd _ hnone
        refine ⟨tree, ⟨g.vocabulary.number (.terminal g.endMarker), text⟩,
          p'.configuration.input, hretraces.forest, rfl, ?_⟩
        rw [hinput, hleaves, inputOf_map_leaf]

/-- The tree of `a e c`, where a state before `c` has been merged with one before `d`. -/
theorem parse_decides_lateLookahead : ∃ g a tree fuel p',
    Grammar.define Samples.lateLookahead = .ok g ∧ g.EpsilonFree ∧
    Automaton.build g .lalr = .ok a ∧ g.Forest [.nonterminal g.startSymbol] [tree] ∧
    tree.leaves = [(3, "a"), (7, "e"), (5, "c")] ∧
    (ofTable (a.table g)).parse fuel
      [.ok ⟨3, "a"⟩, .ok ⟨7, "e"⟩, .ok ⟨5, "c"⟩, .ok ⟨2, "$"⟩, .ok ⟨3, "a"⟩] =
        some (.ok (.node (g.vocabulary.number (.nonterminal .accept)) [tree]), p') := by
  have hpasses : passes Samples.lateLookahead .lalr (fun g _ =>
      g.EpsilonFree ∧ g.startSymbol = ⟨1⟩ ∧ g.endMarker = ⟨1⟩ ∧
        ⟨2, ⟨1⟩, [.terminal ⟨2⟩, .nonterminal ⟨2⟩, .terminal ⟨4⟩], false⟩ ∈ g.rules ∧
        ⟨4, ⟨2⟩, [.terminal ⟨6⟩], false⟩ ∈ g.rules) = true := by decide +kernel
  obtain ⟨g, a, hg, ha, hcheck⟩ := exists_of_passes hpasses
  obtain ⟨hfree, hstart, hend, hs, he⟩ := of_decide_eq_true hcheck
  have hinner : g.Forest [.nonterminal ⟨2⟩, .terminal ⟨4⟩] _ :=
    .node he (.leaf ⟨6⟩ "e" .nil) (.leaf ⟨4⟩ "c" .nil)
  have hforest : g.Forest [.nonterminal ⟨1⟩] _ := .node hs (.leaf ⟨2⟩ "a" hinner) .nil
  rw [← hstart] at hforest
  have hlast : Token.symbol ⟨2, "$"⟩ = g.vocabulary.number (.terminal g.endMarker) := by
    rw [hend]
    rfl
  have htable : (ofTable (a.table g)).table = a.table g := rfl
  obtain ⟨fuel, p', h⟩ :=
    (parse_decides hg hfree ha htable).1 _ _ [.ok ⟨3, "a"⟩] hforest hlast
  exact ⟨g, a, _, fuel, p', hg, hfree, ha, hforest, by simp [Vocabulary.number],
    by simpa [Vocabulary.number] using h⟩

end ShiftReduce.Parser
