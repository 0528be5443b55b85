import ShiftReduce.Proofs.Automaton.ViablePrefix
import ShiftReduce.Proofs.Parser.Soundness

/-!
# How a parser fails

On an input whose tokens bear the numbers of terminals, a parser with the table of an automaton
never finds its table or its stacks at fault.  After a reduction there is always a transition
over the head, so what a failing parser complains about is the token that it has read last, the
end of the input, or the source of the input (`failure_of_parse`).  And it complains in time: the
tokens that it has shifted, at any moment of a run, are the beginning of a sentential form
(`viable_of_run`).  With entries of 32 bits this is about automata with fewer than `2 ^ 31` states
(`Automaton.inWords_table`): beyond, an entry may lead to another state or be taken for a reduction.

## Strategy

The invariant `Balanced` adds to `Sound` that all tokens are terminals, that there is a tree for
each symbol on the path, and that there is a transition for a head that has just been reduced.
The first two make sure that a reduction finds what it takes, and the last one that the parser
can move on.  The trees on the stack have the tokens shifted so far as their leaves, and a path
spells the beginning of a sentential form (`Path.viable`).
-/

namespace ShiftReduce

open Automaton
open Relation (ReflTransGen)
open ShiftReduce.Configuration (Next)

/-! ## Tokens that are terminals -/

/-- A token bears the number of a terminal. -/
def Token.IsTerminal (g : Grammar) (token : Token) : Prop :=
  ∃ t, .terminal t ∈ g.vocabulary.symbols ∧ token.symbol = g.vocabulary.number (.terminal t)

/-- The numbers of terminals are those from one up to their count. -/
theorem Token.isTerminal_of_le {g : Grammar} {a : Automaton} {token : Token}
    (h : 1 ≤ token.symbol ∧ token.symbol ≤ (a.table g).terminalCount) : token.IsTerminal g := by
  have hle : token.symbol ≤ g.vocabulary.terminals.length := h.2
  refine ⟨⟨token.symbol - 1⟩, Vocabulary.terminal_mem_symbols.2 ?_, ?_⟩
  · show token.symbol - 1 < g.vocabulary.terminals.length
    omega
  · show token.symbol = token.symbol - 1 + 1
    omega

/-- Tokens are the beginning of a sentential form. -/
def Grammar.Viable (g : Grammar) (tokens : List Token) : Prop :=
  ∃ (word : List Terminal) (rest : List Symbol),
    tokens.map (·.symbol) = word.map (fun t => g.vocabulary.number (.terminal t)) ∧
    g.Derives [.nonterminal g.startSymbol] (word.map .terminal ++ rest)

namespace Parser

variable {g : Grammar} {a : Automaton}

/-- How an input goes on where a parser has failed with it, after some tokens have been shifted:
with a failure of the source, not at all, or with the token that was not expected.  What is left
of the input comes behind that. -/
inductive Failure (input : Input) (shifted : List Token) : ParseError → Input → Prop
  | source {message : String} {rest : Input} :
      input = shifted.map .ok ++ .error message :: rest →
      Failure input shifted (.source message) rest
  | unexpectedEnd : input = shifted.map .ok → Failure input shifted .unexpectedEnd []
  | unexpectedToken {last : Token} {state : Nat} {rest : Input} :
      input = shifted.map .ok ++ .ok last :: rest →
      Failure input shifted (.unexpectedToken last.symbol state) rest

/-! ## The invariant -/

/-- The invariant of a run on terminals. -/
inductive Balanced (g : Grammar) (a : Automaton) (input : Input) : Configuration → Prop
  | growing (ahead : Option Token) {consumed : List Token} {states : List Nat}
      {spelled : List Symbol} {nodes : List Tree} {rest : Input} :
      Growing g a ahead consumed states spelled nodes → nodes.length = spelled.length →
      (∀ token ∈ ahead, token.IsTerminal g) →
      input = consumed.map .ok ++ ahead.toList.map .ok ++ rest →
      Balanced g a input ⟨states, ahead.toList.map .ofToken, nodes, rest⟩
  | reduced {ahead : Token} {consumed : List Token} {p q : Nat} {states : List Nat}
      {spelled : List Symbol} {n : Nonterminal} {tree : Tree} {nodes : List Tree} {rest : Input} :
      Reduced g a ahead consumed (p :: states) spelled n tree nodes →
      nodes.length = spelled.length → ahead.IsTerminal g →
      (a.look p).transition? (.nonterminal n) = some q →
      input = consumed.map .ok ++ .ok ahead :: rest →
      Balanced g a input ⟨p :: states, [⟨g.vocabulary.number (.nonterminal n), none⟩,
        .ofToken ahead], tree :: nodes, rest⟩

theorem balanced_start (input : Input) : Balanced g a input (Configuration.start input) :=
  .growing none growing_start rfl (by simp) rfl

/-! ## One move -/

section Moves

variable (hg : g.WellFormed) (ha : a.Consistent g)

include hg ha

/-- The tokens shifted so far are the beginning of a sentential form. -/
theorem Growing.viable {ahead : Option Token} {consumed : List Token} {states : List Nat}
    {spelled : List Symbol} {nodes : List Tree}
    (h : Growing g a ahead consumed states spelled nodes) (hlength : nodes.length = spelled.length)
    (hahead : ∀ token ∈ ahead, token.IsTerminal g) : g.Viable consumed := by
  obtain ⟨u, hu⟩ : ∃ u : Terminal,
      ∀ token ∈ ahead, token.symbol = g.vocabulary.number (.terminal u) := by
    cases ahead with
    | none => exact ⟨g.endMarker, by simp⟩
    | some token =>
        obtain ⟨t, -, ht⟩ := hahead token rfl
        exact ⟨t, by simpa using ht⟩
  obtain ⟨word, hword, hderives⟩ := (h.retraces hlength u hu).forest.exists_derives
  obtain ⟨rest, hrest⟩ := h.path.viable hg ha
  refine ⟨word, rest, ?_, hrest.trans (hderives.append (.refl rest))⟩
  rw [← hword, h.leaves hlength, List.map_map]
  rfl

/-- A reduction finds the trees that it takes, and a transition over its head. -/
theorem Growing.balanced_reduce {input rest : Input} {consumed : List Token} {top : Nat}
    {below : List Nat} {spelled : List Symbol} {nodes : List Tree} {token : Token} {t : Terminal}
    {r : Rule} (h : Growing g a (some token) consumed (top :: below) spelled nodes)
    (hlength : nodes.length = spelled.length) (hterminal : token.IsTerminal g)
    (hinput : input = consumed.map .ok ++ .ok token :: rest)
    (ht : token.symbol = g.vocabulary.number (.terminal t))
    (hr : (a.look top).reduce? t = some r) (haccept : r.head ≠ .accept) :
    r.arity ≤ nodes.length ∧ r.arity < (top :: below).length ∧
    Balanced g a input ⟨(top :: below).drop r.arity,
      [⟨g.vocabulary.number (.nonterminal r.head), none⟩, .ofToken token],
      .node (g.vocabulary.number (.nonterminal r.head)) (nodes.take r.arity).reverse ::
        nodes.drop r.arity, rest⟩ := by
  obtain ⟨p, states, target, hdrop, htarget⟩ := h.path.exists_goto ha hg hr haccept
  have hstates : r.arity < (top :: below).length := by
    by_contra hle
    rw [List.drop_eq_nil_of_le (Nat.not_lt.1 hle)] at hdrop
    contradiction
  have hpath := h.path.length_eq
  have hnodes : r.arity ≤ nodes.length := by omega
  obtain ⟨spelled', hreduced⟩ := h.reduce hg ha ht hr haccept hnodes
  have hlength' : (nodes.drop r.arity).length = spelled'.length := by
    have hpath' := hreduced.path.length_eq
    rw [List.length_drop] at hpath' ⊢
    omega
  refine ⟨hnodes, hstates, ?_⟩
  rw [hdrop] at hreduced ⊢
  exact .reduced hreduced hlength' hterminal htarget hinput

/-- A move that starts from a token. -/
theorem Growing.balanced_step {input rest : Input} {consumed : List Token} {states : List Nat}
    {spelled : List Symbol} {nodes : List Tree} {token : Token}
    (h : Growing g a (some token) consumed states spelled nodes)
    (hlength : nodes.length = spelled.length) (hterminal : token.IsTerminal g)
    (hinput : input = consumed.map .ok ++ .ok token :: rest) :
    match Configuration.step (a.table g) ⟨states, [.ofToken token], nodes, rest⟩ with
    | .next c => Balanced g a input c
    | .halt (.ok _) _ => True
    | .halt (.error e) c => ∃ shifted, g.Viable shifted ∧ Failure input shifted e c.input := by
  have hviable := h.viable hg ha hlength (by simpa using hterminal)
  obtain ⟨top, below, rfl⟩ := h.path.ne_nil
  obtain ⟨t, hdeclared, ht⟩ := hterminal
  rcases action_terminal_cases (h.path.lt_length ha) hdeclared with ⟨q, hq⟩ | ⟨r, hr⟩ | hfail
  · rw [step_leaf hg ha token ht hq]
    exact .growing none (h.shift ht hq) (by simpa using hlength) (by simp) (by simp [hinput])
  · by_cases haccept : r.head = .accept
    · -- The path is the start symbol alone, so there is the one tree that is asked for.
      obtain rfl : r = g.acceptRule := hg.eq_acceptRule (ha.mem_allRules_of_reduce? hr) haccept
      obtain ⟨rfl, -⟩ := h.path.reduce_accept ha hg hr
      rw [step_accept hg ha ht hr below nodes rest rfl (Nat.le_of_eq hlength.symm)]
      trivial
    · obtain ⟨hnodes, hstates, hbalanced⟩ :=
        h.balanced_reduce hg ha hlength ⟨t, hdeclared, ht⟩ hinput ht hr haccept
      rw [step_node hg ha ht hr below nodes rest haccept hnodes hstates]
      exact hbalanced
  · rw [← ht] at hfail
    rw [Configuration.step_fail hfail]
    exact ⟨consumed, hviable, .unexpectedToken hinput⟩

/-- The parser moves over the head of the production that has been reduced. -/
theorem Reduced.balanced_goto {input rest : Input} {consumed : List Token} {p q : Nat}
    {states : List Nat} {spelled : List Symbol} {n : Nonterminal} {tree : Tree}
    {nodes : List Tree} {token : Token}
    (h : Reduced g a token consumed (p :: states) spelled n tree nodes)
    (hlength : nodes.length = spelled.length) (hterminal : token.IsTerminal g)
    (hq : (a.look p).transition? (.nonterminal n) = some q)
    (hinput : input = consumed.map .ok ++ .ok token :: rest) :
    ∃ c, Configuration.step (a.table g) ⟨p :: states,
        [⟨g.vocabulary.number (.nonterminal n), none⟩, .ofToken token], tree :: nodes, rest⟩ =
      .next c ∧ Balanced g a input c :=
  ⟨_, step_goto hg ha _ rfl hq states [.ofToken token] (tree :: nodes) rest,
    .growing (some token) (h.goto hq) (by simpa using hlength) (by simpa using hterminal)
      (by simpa using hinput)⟩

/-- One move keeps the invariant, or it is the last one and the input goes on as it should. -/
theorem Balanced.step {input : Input} (hinput : ∀ token, .ok token ∈ input → token.IsTerminal g)
    {c : Configuration} (h : Balanced g a input c) :
    match c.step (a.table g) with
    | .next c => Balanced g a input c
    | .halt (.ok _) _ => True
    | .halt (.error e) c => ∃ shifted, g.Viable shifted ∧ Failure input shifted e c.input := by
  cases h with
  | @growing ahead consumed states spelled nodes rest h hlength hahead hrest =>
      cases ahead with
      | some token =>
          exact h.balanced_step hg ha hlength (hahead token rfl) (by simpa using hrest)
      | none =>
          have hviable := h.viable hg ha hlength hahead
          rcases rest with _ | ⟨message | token, rest⟩
          · exact ⟨consumed, hviable, .unexpectedEnd (by simpa using hrest)⟩
          · exact ⟨consumed, hviable, .source (by simpa using hrest)⟩
          · have hterminal := hinput token (by simp [hrest])
            exact (h.load token).balanced_step hg ha hlength hterminal (by simpa using hrest)
  | @reduced token consumed p q states spelled n tree nodes rest h hlength hterminal hq hrest =>
      obtain ⟨c, hstep, hc⟩ := h.balanced_goto hg ha hlength hterminal hq hrest
      rw [hstep]
      exact hc

/-- The leaves of the trees on the stack are the tokens shifted so far, and these are the
beginning of a sentential form. -/
theorem Balanced.viable {input : Input} {c : Configuration} (h : Balanced g a input c) :
    ∃ (shifted : List Token) (ahead : Option Token),
      input = shifted.map .ok ++ ahead.toList.map .ok ++ c.input ∧
      Tree.leavesOfAll c.nodes.reverse = shifted.map Token.leaf ∧ g.Viable shifted := by
  cases h with
  | @growing ahead consumed states spelled nodes rest h hlength hahead hrest =>
      exact ⟨consumed, ahead, hrest, h.leaves hlength, h.viable hg ha hlength hahead⟩
  | @reduced token consumed p q states spelled n tree nodes rest h hlength hterminal hq hrest =>
      refine ⟨consumed, some token, by simpa using hrest, ?_, ?_⟩
      · rw [List.reverse_cons]
        exact h.leaves hlength
      · exact (h.goto hq).viable hg ha (by simpa using hlength) (by simpa using hterminal)

/-- Where the head of a production comes next, the table says to move over it. -/
theorem Balanced.exists_goto {input : Input} {c : Configuration} (h : Balanced g a input c)
    {head : Lookahead} (hmem : head ∈ c.pending) (htext : head.text = none) :
    ∃ top below target, c.states = top :: below ∧
      (a.table g).action top head.symbol = .shift target := by
  cases h with
  | growing _ _ _ _ _ =>
      obtain ⟨token, -, rfl⟩ := List.mem_map.1 hmem
      contradiction
  | @reduced token consumed p q states _ n _ _ _ _ _ _ hq _ =>
      rcases List.mem_cons.1 hmem with rfl | hmem
      · exact ⟨p, states, q, rfl, action_of_transition? hg ha hq⟩
      · obtain rfl := List.mem_singleton.1 hmem
        contradiction

end Moves

/-! ## Runs -/

section Runs

variable {p : Parser} {input : Input}

/-- All configurations that a run comes to are balanced. -/
theorem balanced_of_reaches (hg : g.WellFormed) (ha : a.Consistent g)
    (hinput : ∀ token, .ok token ∈ input → token.IsTerminal g) {c : Configuration}
    (h : ReflTransGen (Next (a.table g)) (Configuration.start input) c) :
    Balanced g a input c := by
  induction h with
  | refl => exact balanced_start input
  | tail _ hnext ih =>
      have hstep := ih.step hg ha hinput
      rw [hnext] at hstep
      exact hstep

/-- What has been shifted before a failure is viable. -/
theorem exists_failure (hg : g.WellFormed) (ha : a.Consistent g) (hp : p.table = a.table g)
    (hinput : ∀ token, .ok token ∈ input → token.IsTerminal g) {fuel : Nat} {e : ParseError}
    {p' : Parser} (h : p.parse fuel input = some (.error e, p')) :
    ∃ shifted, g.Viable shifted ∧ Failure input shifted e p'.configuration.input := by
  obtain ⟨last, hreach, hlast⟩ := exists_last_of_parse hp h
  have hstep := (balanced_of_reaches hg ha hinput hreach).step hg ha hinput
  rw [hlast] at hstep
  exact hstep

end Runs

/-- The tokens of `x = = y`. -/
def doubleEqual : Input := [.ok ⟨4, "x"⟩, .ok ⟨5, "="⟩, .ok ⟨5, "="⟩, .ok ⟨4, "y"⟩, .ok ⟨2, "$"⟩]

/-- Whether an input of terminals is rejected with a token of some number. -/
def rejects (g : Grammar) (a : Automaton) (fuel : Nat) (input : Input) (symbol : Nat) : Bool :=
  input.all (fun entry => match entry with
    | .error _ => true
    | .ok token => 1 ≤ token.symbol && token.symbol ≤ (a.table g).terminalCount) &&
  match (ofTable (a.table g)).parse fuel input with
  | some (.error (.unexpectedToken n _), _) => n = symbol
  | _ => false

theorem parse_of_rejects {fuel : Nat} {input : Input} {symbol : Nat}
    (h : rejects g a fuel input symbol = true) :
    (∀ token, .ok token ∈ input →
      1 ≤ token.symbol ∧ token.symbol ≤ (a.table g).terminalCount) ∧
    ∃ state p', (ofTable (a.table g)).parse fuel input =
      some (.error (.unexpectedToken symbol state), p') := by
  obtain ⟨hall, hparse⟩ := Bool.and_eq_true_iff.1 h
  constructor
  · intro token htoken
    simpa using List.all_eq_true.1 hall _ htoken
  · split at hparse
    · rename_i n state p' heq
      obtain rfl : n = symbol := of_decide_eq_true hparse
      exact ⟨state, p', heq⟩
    · contradiction

theorem rejects_doubleEqual : passes Samples.pointer .firstFound (fun g a =>
    rejects g a 30 doubleEqual 5) = true := by decide +kernel

/-- On terminals a parser fails only if the source fails, if the input ends, or if the token
that it has read last is not expected.  Wherever the head of a production that has just been
reduced comes next, there is a transition over it. -/
theorem failure_of_parse {declarations : List Declaration} {g : Grammar} {merging : Merging}
    {a : Automaton} {p : Parser} {input : Input}
    (hg : Grammar.define declarations = .ok g) (ha : Automaton.build g merging = .ok a)
    (hp : p.table = a.table g)
    (hinput : ∀ token, .ok token ∈ input →
      1 ≤ token.symbol ∧ token.symbol ≤ p.table.terminalCount) :
    (∀ fuel e p', p.parse fuel input = some (.error e, p') →
      ∃ shifted, Failure input shifted e p'.configuration.input) ∧
    ∀ c, ReflTransGen (Next p.table) (Configuration.start input) c →
      ∀ head ∈ c.pending, head.text = none →
        ∃ top below target, c.states = top :: below ∧
          p.table.action top head.symbol = .shift target := by
  have hg := Grammar.wellFormed_of_define hg
  have ha := Automaton.consistent_of_build hg ha
  rw [hp] at hinput ⊢
  have hterminal : ∀ token, .ok token ∈ input → token.IsTerminal g := fun token htoken =>
    Token.isTerminal_of_le (hinput token htoken)
  constructor
  · intro fuel e p' h
    obtain ⟨shifted, -, hfailure⟩ := exists_failure hg ha hp hterminal h
    exact ⟨shifted, hfailure⟩
  · intro c hreach head hmem htext
    exact (balanced_of_reaches hg ha hterminal hreach).exists_goto hg ha hmem htext

/-- `x = = y` fails at the second `=`. -/
theorem failure_of_parse_pointer : ∃ g a state p',
    Grammar.define Samples.pointer = .ok g ∧ Automaton.build g .firstFound = .ok a ∧
    (∀ token, .ok token ∈ doubleEqual →
      1 ≤ token.symbol ∧ token.symbol ≤ (a.table g).terminalCount) ∧
    (ofTable (a.table g)).parse 30 doubleEqual =
      some (.error (.unexpectedToken 5 state), p') ∧
    ∃ shifted, Failure doubleEqual shifted (.unexpectedToken 5 state) p'.configuration.input := by
  obtain ⟨g, a, hg, ha, hcheck⟩ := exists_of_passes rejects_doubleEqual
  obtain ⟨hinput, state, p', h⟩ := parse_of_rejects hcheck
  obtain ⟨hfailure, -⟩ := failure_of_parse (p := ofTable (a.table g)) hg ha rfl hinput
  exact ⟨g, a, state, p', hg, ha, hinput, h, hfailure 30 _ p' h⟩

/-- At any moment of a run on terminals, the tokens that have been shifted, which are the leaves of
the trees on the stack, are the beginning of a sentential form.  So are the tokens before one
that is not expected. -/
theorem viable_of_run {declarations : List Declaration} {g : Grammar} {merging : Merging}
    {a : Automaton} {p : Parser} {input : Input}
    (hg : Grammar.define declarations = .ok g) (ha : Automaton.build g merging = .ok a)
    (hp : p.table = a.table g)
    (hinput : ∀ token, .ok token ∈ input →
      1 ≤ token.symbol ∧ token.symbol ≤ p.table.terminalCount) :
    (∀ c, ReflTransGen (Next p.table) (Configuration.start input) c →
      ∃ (shifted : List Token) (ahead : Option Token),
        input = shifted.map .ok ++ ahead.toList.map .ok ++ c.input ∧
        Tree.leavesOfAll c.nodes.reverse = shifted.map Token.leaf ∧ g.Viable shifted) ∧
    ∀ fuel symbol state p',
      p.parse fuel input = some (.error (.unexpectedToken symbol state), p') →
      ∃ (shifted : List Token) (last : Token),
        input = shifted.map .ok ++ .ok last :: p'.configuration.input ∧
        last.symbol = symbol ∧ g.Viable shifted := by
  have hg := Grammar.wellFormed_of_define hg
  have ha := Automaton.consistent_of_build hg ha
  rw [hp] at hinput ⊢
  have hterminal : ∀ token, .ok token ∈ input → token.IsTerminal g := fun token htoken =>
    Token.isTerminal_of_le (hinput token htoken)
  constructor
  · intro c hreach
    exact (balanced_of_reaches hg ha hterminal hreach).viable hg ha
  · intro fuel symbol state p' h
    obtain ⟨shifted, hviable, hfailure⟩ := exists_failure hg ha hp hterminal h
    cases hfailure with
    | @unexpectedToken last _ _ hrest => exact ⟨shifted, last, hrest, rfl, hviable⟩

/-- What comes before the second `=` of `x = = y` is the beginning of a sentential form. -/
theorem viable_of_run_pointer : ∃ g a state p',
    Grammar.define Samples.pointer = .ok g ∧ Automaton.build g .firstFound = .ok a ∧
    (∀ token, .ok token ∈ doubleEqual →
      1 ≤ token.symbol ∧ token.symbol ≤ (a.table g).terminalCount) ∧
    (ofTable (a.table g)).parse 30 doubleEqual =
      some (.error (.unexpectedToken 5 state), p') ∧
    ∃ (shifted : List Token) (last : Token),
      doubleEqual = shifted.map .ok ++ .ok last :: p'.configuration.input ∧
      last.symbol = 5 ∧ g.Viable shifted := by
  obtain ⟨g, a, hg, ha, hcheck⟩ := exists_of_passes rejects_doubleEqual
  obtain ⟨hinput, state, p', h⟩ := parse_of_rejects hcheck
  obtain ⟨-, hviable⟩ := viable_of_run (p := ofTable (a.table g)) hg ha rfl hinput
  exact ⟨g, a, state, p', hg, ha, hinput, h, hviable 30 5 state p' h⟩

end Parser

end ShiftReduce
