import ShiftReduce.Proofs.Parser.Soundness

/-!
# What the trees yield with any table

A parse table may come from anywhere: entries may lead nowhere, lengths may be anything, and a head
may be reduced before another head.  None of this brings the tokens out of order, takes one twice or
makes one up (`Parser.yields_of_parse`).  All that is asked of a table is that the heads of its
productions have no numbers of terminals (`ParseTable.Separated`).  Otherwise a reduction would be
taken for a token and make a leaf.  The table of an automaton is of this kind, whatever the
automaton has in its states (`Parser.yields_of_parse_table`).

## Strategy

`Yields` is what holds of a parser between its moves.  The tokens that it has taken are those that
it has moved over, which make the leaves on its stack, and at most one more, which waits behind the
heads of reductions.  Tokens with the numbers of nonterminals are moved over without a leaf.

A reduction cuts the stack of trees at some place and joins what is above: the leaves stay as they
are (`leaves_reduce`).  So a tree that is accepted has the last of them.
-/

namespace ShiftReduce

open Relation (ReflTransGen)
open ShiftReduce.Configuration (Next)

/-! ## Tables -/

namespace ParseTable

variable {t : ParseTable}

/-- No production has the number of a terminal for its head.  There is no production of number
zero. -/
def Separated (t : ParseTable) : Prop :=
  ∀ rule head, 0 < rule → t.heads[rule]? = some head → t.terminalCount < head

/-- The leaves that tokens make: one for each token whose number is not behind those of the
terminals. -/
def leavesOf (t : ParseTable) (tokens : List Token) : List (Nat × String) :=
  (tokens.filter fun token => token.symbol ≤ t.terminalCount).map Token.leaf

theorem leavesOf_concat (tokens : List Token) (token : Token) :
    t.leavesOf (tokens ++ [token]) = t.leavesOf tokens ++
      if token.symbol ≤ t.terminalCount then [token.leaf] else [] := by
  by_cases hterminal : token.symbol ≤ t.terminalCount
  · simp [leavesOf, hterminal]
  · simp [leavesOf, hterminal]

/-- What is reduced has no number of a terminal. -/
theorem Separated.lt_head (ht : t.Separated) {state symbol rule head length : Nat}
    (h : t.action state symbol = .reduce rule head length) : t.terminalCount < head := by
  have hdecode : ∀ entry, t.decode entry = .reduce rule head length → t.terminalCount < head := by
    intro entry hentry
    unfold decode at hentry
    split at hentry
    · contradiction
    · rename_i hzero
      split at hentry
      · contradiction
      · dsimp only at hentry
        split at hentry
        · rename_i head' length' hhead hlength
          obtain ⟨-, rfl, -⟩ := Action.reduce.injEq .. ▸ hentry
          exact ht _ _ (Int.natAbs_pos.2 hzero) hhead
        · contradiction
  unfold action at h
  split at h
  · contradiction
  · split at h
    · contradiction
    · exact hdecode _ h

end ParseTable

/-- The heads in the table of an automaton have no numbers of terminals, since nonterminals are
numbered behind these. -/
theorem Automaton.separated_table (g : Grammar) (a : Automaton) : (a.table g).Separated := by
  intro rule head hpos hhead
  obtain ⟨i, rfl⟩ := Nat.exists_eq_succ_of_ne_zero (Nat.ne_of_gt hpos)
  obtain ⟨r, -, rfl⟩ : ∃ r, g.allRules[i]? = some r ∧
      g.vocabulary.number (.nonterminal r.head) = head := by
    simpa [table] using hhead
  show g.vocabulary.terminals.length < g.vocabulary.terminals.length + r.head.index + 1
  omega

/-- What a move can be when something is pending. -/
theorem Configuration.step_pending_cases (t : ParseTable) (current : Nat) (states : List Nat)
    (lookahead : Lookahead) (pending : List Lookahead) (nodes : List Tree) (input : Input) :
    (∃ target, step t ⟨current :: states, lookahead :: pending, nodes, input⟩ =
      .next ⟨target :: current :: states, pending,
        (if t.isShift lookahead.symbol then
          [Tree.leaf lookahead.symbol (lookahead.text.getD "")] else []) ++ nodes, input⟩) ∨
    (∃ rule head length, t.action current lookahead.symbol = .reduce rule head length ∧
      step t ⟨current :: states, lookahead :: pending, nodes, input⟩ =
        reduce t ⟨current :: states, lookahead :: pending, nodes, input⟩ head length) ∨
    ∃ e c, step t ⟨current :: states, lookahead :: pending, nodes, input⟩ =
      .halt (.error e) c := by
  cases haction : t.action current lookahead.symbol with
  | shift target => exact .inl ⟨target, step_shift haction⟩
  | reduce rule head length => exact .inr (.inl ⟨rule, head, length, rfl, step_reduce haction⟩)
  | fail => exact .inr (.inr (step_stuck lookahead (.inl haction) states pending nodes input))
  | fault fault =>
      exact .inr (.inr (step_stuck lookahead (.inr ⟨fault, haction⟩) states pending nodes input))

/-- To join the topmost trees leaves the leaves as they are. -/
theorem leaves_reduce (nodes : List Tree) (length head : Nat) :
    Tree.leavesOfAll (Tree.node head (nodes.take length).reverse :: nodes.drop length).reverse =
      Tree.leavesOfAll nodes.reverse := by
  calc Tree.leavesOfAll (Tree.node head (nodes.take length).reverse :: nodes.drop length).reverse
      = Tree.leavesOfAll (nodes.drop length).reverse ++
          Tree.leavesOfAll (nodes.take length).reverse := by simp
    _ = Tree.leavesOfAll (nodes.take length ++ nodes.drop length).reverse := by
      rw [List.reverse_append, Tree.leavesOfAll_append]
    _ = Tree.leavesOfAll nodes.reverse := by rw [List.take_append_drop]

/-! ## The invariant -/

namespace Parser

variable {t : ParseTable} {input : Input}

/-- A parser has moved over some tokens of its input, and those with the numbers of terminals are
the leaves on its stack.  One more token may be pending, behind heads of productions. -/
structure Yields (t : ParseTable) (input : Input) (moved : List Token) (ahead : Option Token)
    (c : Configuration) : Prop where
  states_ne_nil : c.states ≠ []
  input_eq : input = moved.map .ok ++ ahead.toList.map .ok ++ c.input
  leaves : Tree.leavesOfAll c.nodes.reverse = t.leavesOf moved
  pending : ∃ heads, c.pending = heads ++ ahead.toList.map .ofToken ∧
    (∀ head ∈ heads, head.text = none ∧ t.terminalCount < head.symbol) ∧
    (ahead = none → heads = [])

theorem yields_start (t : ParseTable) (input : Input) :
    Yields t input [] none (.start input) where
  states_ne_nil := List.cons_ne_nil _ _
  input_eq := rfl
  leaves := rfl
  pending := ⟨[], rfl, by simp, fun _ => rfl⟩

namespace Yields

variable {moved : List Token} {ahead : Option Token} {states : List Nat} {nodes : List Tree}
  {lookahead : Lookahead} {pending : List Lookahead} {rest : Input}

/-- What is pending ends with a token. -/
theorem exists_ahead (h : Yields t input moved ahead ⟨states, lookahead :: pending, nodes, rest⟩) :
    ∃ token, ahead = some token := by
  obtain ⟨heads, hpending, -, hnone⟩ := h.pending
  cases ahead with
  | some token => exact ⟨token, rfl⟩
  | none =>
      rw [hnone rfl] at hpending
      contradiction

/-- A token is taken from the input. -/
theorem load {token : Token}
    (h : Yields t input moved ahead ⟨states, [], nodes, .ok token :: rest⟩) :
    Yields t input moved (some token) ⟨states, [.ofToken token], nodes, rest⟩ := by
  obtain ⟨heads, hpending, -, -⟩ := h.pending
  cases ahead with
  | some other => simp at hpending
  | none =>
      have hinput := h.input_eq
      exact ⟨h.states_ne_nil, by simpa using hinput, h.leaves, [], rfl, by simp, by simp⟩

/-- A move that does not fail comes before something that is pending. -/
theorem exists_loaded {c : Configuration} (h : Yields t input moved ahead c) :
    (∃ e c', c.step t = .halt (.error e) c') ∨
    ∃ current states lookahead pending nodes rest token,
      c.step t = Configuration.step t ⟨current :: states, lookahead :: pending, nodes, rest⟩ ∧
      Yields t input moved (some token)
        ⟨current :: states, lookahead :: pending, nodes, rest⟩ := by
  obtain ⟨states, pending, nodes, rest⟩ := c
  cases states with
  | nil => exact absurd rfl h.states_ne_nil
  | cons current states =>
      cases pending with
      | cons lookahead pending =>
          obtain ⟨token, rfl⟩ := h.exists_ahead
          exact .inr ⟨_, _, _, _, _, _, token, rfl, h⟩
      | nil =>
          rcases rest with _ | ⟨message | token, rest⟩
          · exact .inl ⟨_, _, rfl⟩
          · exact .inl ⟨_, _, rfl⟩
          · exact .inr ⟨_, _, _, _, _, _, token, Configuration.step_load, h.load⟩

/-- The parser moves over what comes next.  Only a token can make a leaf. -/
theorem shift {current : Nat} {token : Token} (h : Yields t input moved (some token)
      ⟨current :: states, lookahead :: pending, nodes, rest⟩) (target : Nat) :
    ∃ moved' ahead', Yields t input moved' ahead' ⟨target :: current :: states, pending,
      (if t.isShift lookahead.symbol then
        [Tree.leaf lookahead.symbol (lookahead.text.getD "")] else []) ++ nodes, rest⟩ := by
  obtain ⟨heads, hpending, hheads, -⟩ := h.pending
  cases heads with
  | cons head heads =>
      obtain ⟨rfl, rfl⟩ := List.cons.inj hpending
      have hnot : ¬ t.isShift lookahead.symbol = true := by
        have hlt := (hheads lookahead List.mem_cons_self).2
        simpa [ParseTable.isShift] using hlt
      rw [if_neg hnot, List.nil_append]
      refine ⟨moved, some token, List.cons_ne_nil _ _, h.input_eq, h.leaves, heads, rfl, ?_, ?_⟩
      · exact fun head hmem => hheads head (List.mem_cons_of_mem _ hmem)
      · exact fun hnone => absurd hnone (Option.some_ne_none token)
  | nil =>
      obtain ⟨rfl, rfl⟩ := List.cons.inj hpending
      refine ⟨moved ++ [token], none, List.cons_ne_nil _ _, ?_, ?_, [], rfl, by simp, fun _ => rfl⟩
      · have hinput := h.input_eq
        simpa using hinput
      · have hleaves : Tree.leavesOfAll nodes.reverse = t.leavesOf moved := h.leaves
        rw [ParseTable.leavesOf_concat, List.reverse_append, Tree.leavesOfAll_append, hleaves]
        congr 1
        by_cases hterminal : token.symbol ≤ t.terminalCount
        · simp [ParseTable.isShift, Lookahead.ofToken, Token.leaf, hterminal]
        · simp [ParseTable.isShift, Lookahead.ofToken, hterminal]

/-- The parser reduces. -/
theorem reduce {token : Token}
    (h : Yields t input moved (some token) ⟨states, lookahead :: pending, nodes, rest⟩)
    {head length : Nat} (hhead : t.terminalCount < head) (hlength : length < states.length) :
    Yields t input moved (some token) ⟨states.drop length,
      ⟨head, none⟩ :: lookahead :: pending,
      .node head (nodes.take length).reverse :: nodes.drop length, rest⟩ := by
  obtain ⟨heads, hpending, hheads, -⟩ := h.pending
  refine ⟨?_, h.input_eq, (leaves_reduce nodes length head).trans h.leaves,
    ⟨head, none⟩ :: heads, congrArg _ hpending, ?_, ?_⟩
  · exact mt List.drop_eq_nil_iff.1 (Nat.not_le.2 hlength)
  · exact List.forall_mem_cons.2 ⟨⟨rfl, hhead⟩, hheads⟩
  · exact fun hnone => absurd hnone (Option.some_ne_none token)

end Yields

/-- What a move can be: it keeps the invariant, accepts a tree with the last leaves while one token
is pending, or fails. -/
inductive Outcome (t : ParseTable) (input : Input) : Move → Prop
  | next {moved : List Token} {ahead : Option Token} {c : Configuration} :
      Yields t input moved ahead c → Outcome t input (.next c)
  | accept {moved : List Token} {last : Token} {c : Configuration} {root : Tree} :
      input = moved.map .ok ++ .ok last :: c.input → root.leaves <:+ t.leavesOf moved →
      Outcome t input (.halt (.ok root) c)
  | error {e : ParseError} {c : Configuration} : Outcome t input (.halt (.error e) c)

theorem Yields.outcome_reduce (ht : t.Separated) {moved : List Token} {current : Nat}
    {states : List Nat} {lookahead : Lookahead} {pending : List Lookahead} {nodes : List Tree}
    {rest : Input} {token : Token} (h : Yields t input moved (some token)
      ⟨current :: states, lookahead :: pending, nodes, rest⟩) {rule head length : Nat}
    (haction : t.action current lookahead.symbol = .reduce rule head length) :
    Outcome t input (Configuration.reduce t
      ⟨current :: states, lookahead :: pending, nodes, rest⟩ head length) := by
  rw [Configuration.reduce_eq]
  dsimp only
  split_ifs with hnodes haccept hstates
  · exact .error
  · have hinput := h.input_eq
    have hleaves := (leaves_reduce nodes length head).trans h.leaves
    apply Outcome.accept (by simpa using hinput)
    exact ⟨Tree.leavesOfAll (nodes.drop length).reverse, by simpa using hleaves⟩
  · exact .error
  · exact .next (h.reduce (ht.lt_head haction) (Nat.lt_of_not_le hstates))

theorem Yields.outcome_step (ht : t.Separated) {moved : List Token} {ahead : Option Token}
    {c : Configuration} (h : Yields t input moved ahead c) : Outcome t input (c.step t) := by
  rcases h.exists_loaded with ⟨e, c', herror⟩ |
    ⟨current, states, lookahead, pending, nodes, rest, token, heq, hloaded⟩
  · rw [herror]
    exact .error
  · rw [heq]
    rcases Configuration.step_pending_cases t current states lookahead pending nodes rest with
      ⟨target, hshift⟩ | ⟨rule, head, length, haction, hreduce⟩ | ⟨e, c', herror⟩
    · rw [hshift]
      obtain ⟨moved', ahead', hnext⟩ := hloaded.shift target
      exact .next hnext
    · rw [hreduce]
      exact hloaded.outcome_reduce ht haction
    · rw [herror]
      exact .error

/-- A run keeps the invariant. -/
theorem yields_of_reaches (ht : t.Separated) {c : Configuration}
    (h : ReflTransGen (Next t) (.start input) c) :
    ∃ moved ahead, Yields t input moved ahead c := by
  induction h with
  | refl => exact ⟨[], none, yields_start t input⟩
  | tail _ hstep ih =>
      obtain ⟨moved, ahead, hyields⟩ := ih
      have houtcome := hyields.outcome_step ht
      rw [hstep] at houtcome
      cases houtcome with
      | next hnext => exact ⟨_, _, hnext⟩

/-- What a parser accepts has the last leaves of all tokens that it has taken but the last. -/
theorem leaves_of_parse (ht : t.Separated) {p p' : Parser} (hp : p.table = t) {fuel : Nat}
    {root : Tree} (h : p.parse fuel input = some (.ok root, p')) :
    ∃ moved last, input = moved.map .ok ++ .ok last :: p'.configuration.input ∧
      root.leaves <:+ t.leavesOf moved := by
  obtain ⟨c, hreaches, hlast⟩ := exists_last_of_parse hp h
  obtain ⟨moved, ahead, hyields⟩ := yields_of_reaches ht hreaches
  have houtcome := hyields.outcome_step ht
  rw [hlast] at houtcome
  cases houtcome with
  | accept hinput hleaves => exact ⟨_, _, hinput, hleaves⟩

/-- With any table whose heads are no terminals and on any input: whenever a parser is about to
move, its stack of states is not empty, and the leaves on its stack of trees are the tokens that it
has taken and that are no longer pending.  What it accepts has the last leaves of all tokens that it
has taken but the last. -/
theorem yields_of_parse (ht : t.Separated) (input : Input) :
    (∀ c, ReflTransGen (Next t) (.start input) c →
      ∃ moved ahead, Yields t input moved ahead c) ∧
    ∀ (p : Parser) (fuel : Nat) (root : Tree) (p' : Parser), p.table = t →
      p.parse fuel input = some (.ok root, p') →
      ∃ moved last, input = moved.map .ok ++ .ok last :: p'.configuration.input ∧
        root.leaves <:+ t.leavesOf moved :=
  ⟨fun _ => yields_of_reaches ht, fun _ _ _ _ hp hparse => leaves_of_parse ht hp hparse⟩

/-- A malformed table: it moves over a token with the number of a nonterminal, reduces before the
head of a reduction, and accepts while there is a tree left. -/
def crossedTable : ParseTable where
  terminalCount := 2
  heads := #[0, 3, 4, 5]
  lengths := #[0, 1, 0, 2]
  actions := #[#[0, 1, 0, 0, 0, 0], #[0, 0, 0, 2, 0, 0], #[0, 3, 0, -2, 4, 0],
    #[0, 0, -1, 0, 0, 0], #[0, 0, 0, 5, 0, 0], #[0, 0, -3, 0, 0, 0]]
  names := #[]
  acceptSymbol := 5
  endSymbol := 2

/-- What it accepts of four tokens has the last leaf of the two that they make. -/
theorem yields_of_parse_crossedTable : crossedTable.Separated ∧ ∃ root p',
    (Parser.ofTable crossedTable).parse 9
      [.ok ⟨1, "a"⟩, .ok ⟨3, "b"⟩, .ok ⟨1, "c"⟩, .ok ⟨2, "d"⟩] = some (.ok root, p') ∧
    root.leaves = [(1, "c")] ∧ ∃ moved last,
      [.ok ⟨1, "a"⟩, .ok ⟨3, "b"⟩, .ok ⟨1, "c"⟩, .ok ⟨2, "d"⟩] =
        moved.map .ok ++ .ok last :: p'.configuration.input ∧
      root.leaves <:+ crossedTable.leavesOf moved := by
  have hseparated : crossedTable.Separated := by
    intro rule head hpos hhead
    rcases rule with _ | _ | _ | _ | rule
    · contradiction
    · obtain rfl := Option.some.inj hhead
      decide
    · obtain rfl := Option.some.inj hhead
      decide
    · obtain rfl := Option.some.inj hhead
      decide
    · contradiction
  have hparse : (Parser.ofTable crossedTable).parse 9
      [.ok ⟨1, "a"⟩, .ok ⟨3, "b"⟩, .ok ⟨1, "c"⟩, .ok ⟨2, "d"⟩] =
        some (.ok (.node 5 [.node 3 [.leaf 1 "c"], .node 4 []]), ⟨crossedTable,
          ⟨[5, 4, 2, 1, 0], [⟨2, some "d"⟩], [.leaf 1 "a"], []⟩⟩) := rfl
  obtain ⟨-, haccepted⟩ := yields_of_parse hseparated
    [.ok ⟨1, "a"⟩, .ok ⟨3, "b"⟩, .ok ⟨1, "c"⟩, .ok ⟨2, "d"⟩]
  exact ⟨hseparated, _, _, hparse, by simp, haccepted _ 9 _ _ rfl hparse⟩

/-- The table of any automaton is such a table.  On any input the leaves on the stack of trees are
those of the terminals that have been taken and are no longer pending, and a tree that is accepted
has the last of them. -/
theorem yields_of_parse_table (g : Grammar) (a : Automaton) (input : Input) :
    (∀ c, ReflTransGen (Next (a.table g)) (.start input) c →
      ∃ moved ahead, Yields (a.table g) input moved ahead c) ∧
    ∀ (p : Parser) (fuel : Nat) (root : Tree) (p' : Parser), p.table = a.table g →
      p.parse fuel input = some (.ok root, p') →
      ∃ moved last, input = moved.map .ok ++ .ok last :: p'.configuration.input ∧
        root.leaves <:+ (a.table g).leavesOf moved :=
  have hseparated := Automaton.separated_table g a
  ⟨fun _ => yields_of_reaches hseparated,
    fun _ _ _ _ hp hparse => leaves_of_parse hseparated hp hparse⟩

end Parser

end ShiftReduce
