import ShiftReduce.Grammar.Samples
import ShiftReduce.Proofs.Parser.Run

/-!
# Whatever is accepted is derived

A parser with the table of an automaton returns derivation trees of the grammar only, for the
tokens that it has read (`root_of_parse`).  Nothing is assumed of the input: its tokens may bear
any numbers, those of nonterminals among them, and the source of the tokens may fail.  With entries
of 32 bits this is about automata with fewer than `2 ^ 31` states (`Automaton.inWords_table`).

## Strategy

The invariant `Sound` of a run follows the stack of states as a path of the automaton.

* As long as there are as many trees as symbols on the path, the automaton retraces the trees,
  and their leaves are the tokens that have been read.
* A token with the number of a nonterminal is moved over like that nonterminal, but leaves no
  tree behind.  From then on there are fewer trees than symbols, and no move makes up for that.

A parser that accepts has the start symbol on its path and one tree at least, so the second
case is excluded then.
-/

namespace ShiftReduce

open Automaton
open Relation (ReflTransGen)
open ShiftReduce.Configuration (Next)

/-- The leaf of a token. -/
def Token.leaf (token : Token) : Nat × String := (token.symbol, token.text)

@[simp] theorem inputOf_map_leaf (tokens : List Token) :
    inputOf (tokens.map Token.leaf) = tokens.map .ok := by
  rw [inputOf, List.map_map]
  rfl

namespace Parser

variable {g : Grammar} {a : Automaton}

/-! ## The invariant -/

/-- The trees on the stack of a parser are those that the tokens read so far call for, or they
are fewer than the symbols on the path. -/
structure Growing (g : Grammar) (a : Automaton) (ahead : Option Token) (consumed : List Token)
    (states : List Nat) (spelled : List Symbol) (nodes : List Tree) : Prop where
  path : Path a states spelled
  length_le : nodes.length ≤ spelled.length
  leaves : nodes.length = spelled.length →
    Tree.leavesOfAll nodes.reverse = consumed.map Token.leaf
  retraces : nodes.length = spelled.length → ∀ u : Terminal,
    (∀ token ∈ ahead, token.symbol = g.vocabulary.number (.terminal u)) →
    Retraces g a (fun _ => True) u [startState] spelled.reverse nodes.reverse states

/-- The same after a reduction, when the new tree lies on top and the parser has not yet moved
over its symbol. -/
structure Reduced (g : Grammar) (a : Automaton) (ahead : Token) (consumed : List Token)
    (states : List Nat) (spelled : List Symbol) (n : Nonterminal) (tree : Tree)
    (nodes : List Tree) : Prop where
  path : Path a states spelled
  declared : .nonterminal n ∈ g.vocabulary.symbols
  length_le : nodes.length ≤ spelled.length
  leaves : nodes.length = spelled.length →
    Tree.leavesOfAll (nodes.reverse ++ [tree]) = consumed.map Token.leaf
  retraces : nodes.length = spelled.length → ∃ r children u v top below,
    r ∈ g.rules ∧ r.head = n ∧ tree = .node (g.vocabulary.number (.nonterminal n)) children ∧
    ahead.symbol = g.vocabulary.number (.terminal u) ∧ g.Leads children u v ∧
    Retraces g a (fun _ => True) v [startState] spelled.reverse nodes.reverse states ∧
    Retraces g a (fun _ => True) u states r.matched children (top :: below) ∧
    (a.look top).reduce? u = some r

/-- The invariant of a run on an input. -/
inductive Sound (g : Grammar) (a : Automaton) (input : Input) : Configuration → Prop
  | growing (ahead : Option Token) {consumed : List Token} {states : List Nat}
      {spelled : List Symbol} {nodes : List Tree} {rest : Input} :
      Growing g a ahead consumed states spelled nodes →
      input = consumed.map .ok ++ ahead.toList.map .ok ++ rest →
      Sound g a input ⟨states, ahead.toList.map .ofToken, nodes, rest⟩
  | reduced {ahead : Token} {consumed : List Token} {states : List Nat}
      {spelled : List Symbol} {n : Nonterminal} {tree : Tree} {nodes : List Tree} {rest : Input} :
      Reduced g a ahead consumed states spelled n tree nodes →
      input = consumed.map .ok ++ .ok ahead :: rest →
      Sound g a input ⟨states, [⟨g.vocabulary.number (.nonterminal n), none⟩, .ofToken ahead],
        tree :: nodes, rest⟩

theorem growing_start : Growing g a none [] [startState] [] [] :=
  ⟨.start, Nat.le_refl _, fun _ => by simp, fun _ u _ => .nil⟩

theorem sound_start (input : Input) : Sound g a input (Configuration.start input) :=
  .growing none growing_start rfl

/-! ## One move -/

section Moves

variable {consumed : List Token} {states : List Nat} {spelled : List Symbol} {nodes : List Tree}

/-- A token is taken from the input. -/
theorem Growing.load (h : Growing g a none consumed states spelled nodes) (token : Token) :
    Growing g a (some token) consumed states spelled nodes :=
  { h with retraces := fun hlength u _ => h.retraces hlength u (by simp) }

/-- A terminal becomes a leaf. -/
theorem Growing.shift {p q : Nat} {t : Terminal} {token : Token}
    (h : Growing g a (some token) consumed (p :: states) spelled nodes)
    (ht : token.symbol = g.vocabulary.number (.terminal t))
    (hq : (a.look p).transition? (.terminal t) = some q) :
    Growing g a none (consumed ++ [token]) (q :: p :: states) (.terminal t :: spelled)
      (.leaf token.symbol token.text :: nodes) where
  path := .step h.path hq
  length_le := by simpa using h.length_le
  leaves hlength := by
    have hlength : nodes.length = spelled.length := by simpa using hlength
    simp [h.leaves hlength, Token.leaf]
  retraces hlength u _ := by
    have hlength : nodes.length = spelled.length := by simpa using hlength
    have hbefore := h.retraces hlength t (by simpa using ht)
    rw [List.reverse_cons, List.reverse_cons, ht]
    exact hbefore.append (.inr ⟨token.text, [], by simp⟩) (.leaf hq .nil)

/-- A token with the number of a nonterminal leaves no tree. -/
theorem Growing.skip {p q : Nat} {n : Nonterminal} {token : Token}
    (h : Growing g a (some token) consumed (p :: states) spelled nodes)
    (hq : (a.look p).transition? (.nonterminal n) = some q) :
    Growing g a none (consumed ++ [token]) (q :: p :: states) (.nonterminal n :: spelled)
      nodes := by
  have hlt : nodes.length < (Symbol.nonterminal n :: spelled).length :=
    Nat.lt_succ_of_le h.length_le
  exact ⟨.step h.path hq, hlt.le, fun he => absurd he hlt.ne, fun he => absurd he hlt.ne⟩

/-- The parser moves over the symbol of a new tree. -/
theorem Reduced.goto {p q : Nat} {n : Nonterminal} {token : Token} {tree : Tree}
    (h : Reduced g a token consumed (p :: states) spelled n tree nodes)
    (hq : (a.look p).transition? (.nonterminal n) = some q) :
    Growing g a (some token) consumed (q :: p :: states) (.nonterminal n :: spelled)
      (tree :: nodes) where
  path := .step h.path hq
  length_le := by simpa using h.length_le
  leaves hlength := by
    have hlength : nodes.length = spelled.length := by simpa using hlength
    rw [List.reverse_cons]
    exact h.leaves hlength
  retraces hlength u hu := by
    have hlength : nodes.length = spelled.length := by simpa using hlength
    obtain ⟨r, children, u', v, top, below, hr, rfl, rfl, hu', hleads, hbefore, hchildren,
      hreduce⟩ := h.retraces hlength
    obtain rfl : u' = u :=
      Vocabulary.number_terminal_inj (hu'.symm.trans (by simpa using hu))
    rw [List.reverse_cons, List.reverse_cons]
    exact hbefore.append (Grammar.Leads.node_iff.2 hleads)
      (.node hr .nil hchildren (fun _ => hreduce) hq .nil)

variable (hg : g.WellFormed) (ha : a.Consistent g)

include hg ha

/-- The trees of a body are joined. -/
theorem Growing.reduce {top : Nat} {t : Terminal} {r : Rule} {token : Token}
    (h : Growing g a (some token) consumed (top :: states) spelled nodes)
    (ht : token.symbol = g.vocabulary.number (.terminal t))
    (hr : (a.look top).reduce? t = some r) (haccept : r.head ≠ .accept)
    (hlength : r.arity ≤ nodes.length) :
    ∃ spelled', Reduced g a token consumed ((top :: states).drop r.arity) spelled' r.head
      (.node (g.vocabulary.number (.nonterminal r.head)) (nodes.take r.arity).reverse)
      (nodes.drop r.arity) := by
  have hrule : r ∈ g.rules := ha.mem_rules_of_reduce? hr haccept
  obtain ⟨p, below, spelled, rfl, hdrop, hpath, -⟩ := h.path.reduce ha hg hr
  have hle := h.length_le
  rw [List.length_append, List.length_reverse, Rule.length_matched] at hle
  have hequal : (nodes.drop r.arity).length = spelled.length →
      nodes.length = (r.matched.reverse ++ spelled).length := by
    intro he
    rw [List.length_drop] at he
    rw [List.length_append, List.length_reverse, Rule.length_matched]
    omega
  have hnodes : (nodes.drop r.arity).reverse ++ (nodes.take r.arity).reverse =
      nodes.reverse := by
    rw [← List.reverse_append, List.take_append_drop]
  refine ⟨spelled, hdrop ▸ hpath, (hg.head_declared r hrule).mem_symbols, ?_, ?_, ?_⟩
  · rw [List.length_drop]
    omega
  · intro he
    rw [← h.leaves (hequal he), ← hnodes]
    simp
  · intro he
    -- The trees of the body are the last ones that have been retraced.
    have hretraces := h.retraces (hequal he) t (by simpa using ht)
    rw [List.reverse_append, List.reverse_reverse] at hretraces
    obtain ⟨left, children, v, mid, htrees, hleads, hleft, hchildren⟩ := hretraces.split
    have hmid : (top :: states).drop r.arity = mid := by
      rw [← Rule.length_matched]
      exact hchildren.spells.drop_eq
    have hlengths : left.length = (nodes.drop r.arity).reverse.length := by
      rw [hleft.forest.length_eq, List.length_reverse, List.length_reverse, he]
    obtain ⟨hl, hc⟩ := List.append_inj (hnodes.trans htrees) hlengths.symm
    rw [hl, hc, hmid]
    exact ⟨r, children, t, v, top, states, hrule, rfl, rfl, ht, hleads, hleft, hchildren, hr⟩

end Moves

/-! ## Runs -/

/-- What a parser that accepts has done: it has retraced a tree of the start symbol over all
tokens but the last, which is an end token. -/
def Accepted (g : Grammar) (a : Automaton) (input : Input) (root : Tree) (rest : Input) : Prop :=
  ∃ (tree : Tree) (consumed : List Token) (text : String) (states : List Nat),
    root = .node (g.vocabulary.number (.nonterminal .accept)) [tree] ∧
    Retraces g a (fun _ => True) g.endMarker [startState] [.nonterminal g.startSymbol] [tree]
      states ∧
    input = consumed.map .ok ++ .ok ⟨g.vocabulary.number (.terminal g.endMarker), text⟩ :: rest ∧
    tree.leaves = consumed.map Token.leaf

section Runs

variable (hg : g.WellFormed) (ha : a.Consistent g)

include hg ha

/-- A parser that accepts has a single tree. -/
theorem Growing.accept {input rest : Input} {consumed : List Token} {top : Nat}
    {states : List Nat} {spelled : List Symbol} {nodes : List Tree} {token : Token} {t : Terminal}
    {r : Rule} (h : Growing g a (some token) consumed (top :: states) spelled nodes)
    (hinput : input = consumed.map .ok ++ .ok token :: rest)
    (ht : token.symbol = g.vocabulary.number (.terminal t))
    (hr : (a.look top).reduce? t = some r) (haccept : r.head = .accept)
    (hlength : r.arity ≤ nodes.length) :
    Accepted g a input
      (.node (g.vocabulary.number (.nonterminal .accept)) (nodes.take r.arity).reverse) rest := by
  obtain rfl : r = g.acceptRule := hg.eq_acceptRule (ha.mem_allRules_of_reduce? hr) haccept
  obtain ⟨rfl, rfl⟩ := h.path.reduce_accept ha hg hr
  have hone : nodes.length = 1 := Nat.le_antisymm h.length_le hlength
  obtain ⟨tree, rfl⟩ := List.length_eq_one_iff.1 hone
  have hleaves := h.leaves rfl
  refine ⟨tree, consumed, token.text, top :: states, rfl, ?_, ?_, by simpa using hleaves⟩
  · exact h.retraces rfl g.endMarker (by simpa using ht)
  · rw [hinput, ← ht]

/-- A move that starts from a token. -/
theorem Growing.step {input rest : Input} {consumed : List Token} {states : List Nat}
    {spelled : List Symbol} {nodes : List Tree} {token : Token}
    (h : Growing g a (some token) consumed states spelled nodes)
    (hinput : input = consumed.map .ok ++ .ok token :: rest) :
    match Configuration.step (a.table g) ⟨states, [.ofToken token], nodes, rest⟩ with
    | .next c => Sound g a input c
    | .halt (.ok root) c => Accepted g a input root c.input
    | .halt (.error _) _ => True := by
  obtain ⟨top, below, rfl⟩ := h.path.ne_nil
  have hinput' : input = (consumed ++ [token]).map .ok ++ (none : Option Token).toList.map .ok ++
      rest := by
    simp [hinput]
  have hmove := tokenMove_step hg ha token top below nodes rest
  -- All that matters of the move is what `TokenMove` says.
  generalize Configuration.step (a.table g) ⟨top :: below, [.ofToken token], nodes, rest⟩ = move
    at hmove ⊢
  cases hmove with
  | leaf hn hq => exact .growing none (h.shift hn hq) hinput'
  | skip _ hq => exact .growing none (h.skip hq) hinput'
  | node hn hr haccept hnodes _ =>
      obtain ⟨spelled', hreduced⟩ := h.reduce hg ha hn hr haccept hnodes
      exact .reduced hreduced hinput
  | @accept t r c hn hr haccept hnodes hrest =>
      show Accepted g a input _ c.input
      rw [hrest]
      exact h.accept hg ha hinput hn hr haccept hnodes
  | error => trivial

/-- One move keeps the invariant, or it is the last one. -/
theorem Sound.step {input : Input} {c : Configuration} (h : Sound g a input c) :
    match c.step (a.table g) with
    | .next c => Sound g a input c
    | .halt (.ok root) c => Accepted g a input root c.input
    | .halt (.error _) _ => True := by
  cases h with
  | @growing ahead consumed states spelled nodes rest h hinput =>
      cases ahead with
      | some token => exact h.step hg ha (by simpa using hinput)
      | none =>
          rcases rest with _ | ⟨message | token, rest⟩
          · trivial
          · trivial
          · exact (h.load token).step hg ha (by simpa using hinput)
  | @reduced token consumed states spelled n tree nodes rest h hinput =>
      obtain ⟨p, below, rfl⟩ := h.path.ne_nil
      rcases step_goto_cases hg ha h.declared p below [.ofToken token] (tree :: nodes) rest with
        ⟨q, hq, hstep⟩ | ⟨e, c, hstep⟩
      · rw [hstep]
        exact .growing (some token) (h.goto hq) (by simpa using hinput)
      · rw [hstep]
        trivial

/-- All configurations that a run comes to are sound. -/
theorem sound_of_reaches {input : Input} {c : Configuration}
    (h : ReflTransGen (Next (a.table g)) (Configuration.start input) c) : Sound g a input c := by
  induction h with
  | refl => exact sound_start input
  | tail _ hnext ih =>
      have hstep := ih.step hg ha
      rw [hnext] at hstep
      exact hstep

end Runs

/-- What a parser returns has been retraced, whatever it has parsed before. -/
theorem accepted_of_parse (hg : g.WellFormed) (ha : a.Consistent g) {p : Parser}
    (hp : p.table = a.table g) {fuel : Nat} {input : Input} {root : Tree} {p' : Parser}
    (h : p.parse fuel input = some (.ok root, p')) :
    Accepted g a input root p'.configuration.input := by
  obtain ⟨last, hreach, hlast⟩ := exists_last_of_parse hp h
  have hstep := (sound_of_reaches hg ha hreach).step hg ha
  rw [hlast] at hstep
  exact hstep

/-! ## Soundness -/

/-- A tree that a parser returns is a derivation tree of the augmented grammar for the tokens
that it has read.  Its root is the accepting production over the start symbol, every inner node
is a rule with trees for what the rule matches, and its leaves are the tokens before the first
end token that the parser has come to, with which it stops reading. -/
theorem root_of_parse {declarations : List Declaration} {g : Grammar} {merging : Merging}
    {a : Automaton} {p : Parser} {fuel : Nat} {input : Input} {root : Tree} {p' : Parser}
    (hg : Grammar.define declarations = .ok g) (ha : Automaton.build g merging = .ok a)
    (hp : p.table = a.table g) (h : p.parse fuel input = some (.ok root, p')) :
    ∃ (tree : Tree) (consumed : List Token) (last : Token),
      root = .node (g.vocabulary.number (.nonterminal .accept)) [tree] ∧
      g.Forest [.nonterminal g.startSymbol] [tree] ∧
      root.leaves = consumed.map Token.leaf ∧
      last.symbol = g.vocabulary.number (.terminal g.endMarker) ∧
      input = consumed.map .ok ++ .ok last :: p'.configuration.input := by
  have hg := Grammar.wellFormed_of_define hg
  obtain ⟨tree, consumed, text, states, hroot, hretraces, hinput, hleaves⟩ :=
    accepted_of_parse hg (Automaton.consistent_of_build hg ha) hp h
  refine ⟨tree, consumed, _, hroot, hretraces.forest, ?_, rfl, hinput⟩
  rw [hroot]
  simpa using hleaves

/-- The tree of `*p = x`. -/
theorem root_of_parse_pointer : ∃ g a root p',
    Grammar.define Samples.pointer = .ok g ∧ Automaton.build g .firstFound = .ok a ∧
    (ofTable (a.table g)).parse 30
      [.ok ⟨3, "*"⟩, .ok ⟨4, "p"⟩, .ok ⟨5, "="⟩, .ok ⟨4, "x"⟩, .ok ⟨2, "$"⟩, .ok ⟨4, "y"⟩] =
        some (.ok root, p') ∧
    ∃ (tree : Tree) (consumed : List Token) (last : Token),
      root = .node (g.vocabulary.number (.nonterminal .accept)) [tree] ∧
      g.Forest [.nonterminal g.startSymbol] [tree] ∧
      root.leaves = consumed.map Token.leaf ∧
      last.symbol = g.vocabulary.number (.terminal g.endMarker) ∧
      [.ok ⟨3, "*"⟩, .ok ⟨4, "p"⟩, .ok ⟨5, "="⟩, .ok ⟨4, "x"⟩, .ok ⟨2, "$"⟩, .ok ⟨4, "y"⟩] =
        consumed.map .ok ++ .ok last :: p'.configuration.input := by
  have hpasses : passes Samples.pointer .firstFound (fun g a => a.accepts? g 30
      [.ok ⟨3, "*"⟩, .ok ⟨4, "p"⟩, .ok ⟨5, "="⟩, .ok ⟨4, "x"⟩, .ok ⟨2, "$"⟩, .ok ⟨4, "y"⟩] =
        some true) = true := by decide +kernel
  obtain ⟨g, a, hg, ha, hcheck⟩ := exists_of_passes hpasses
  obtain ⟨root, p', h⟩ := parse_of_accepts? (of_decide_eq_true hcheck)
  exact ⟨g, a, root, p', hg, ha, h, root_of_parse hg ha rfl h⟩

end Parser

end ShiftReduce
