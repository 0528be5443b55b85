import ShiftReduce.Parser.Basic
import ShiftReduce.Proofs.Automaton.Retrace
import ShiftReduce.Proofs.Table.Actions

/-!
# Runs of the parser

The moves of a parser whose table comes from an automaton, and the runs that are made of them.
`Configuration.Reaches` says that a run from one configuration goes on as a run from another,
whatever the bound on the moves may be.

The main statement is `Automaton.reaches_of_retraces`: trees that the automaton retraces are
built, in front of any input and on top of any stack.

Here and wherever a parser has the table of an automaton, the entries are integers of any size, and
nothing is asked of the number of states.  Where entries are signed words of 32 bits, the table is
the same one only below `2 ^ 31` states (`Automaton.inWords_table`), and what is said of the parser
is said up to there.
-/

namespace ShiftReduce

open Relation (ReflTransGen)

/-- The tokens of some leaves, as an input. -/
def inputOf (leaves : List (Nat × String)) : Input :=
  leaves.map fun leaf => .ok ⟨leaf.1, leaf.2⟩

@[simp] theorem inputOf_nil : inputOf [] = [] := rfl

@[simp] theorem inputOf_cons (leaf : Nat × String) (leaves : List (Nat × String)) :
    inputOf (leaf :: leaves) = .ok ⟨leaf.1, leaf.2⟩ :: inputOf leaves := rfl

@[simp] theorem inputOf_append (leaves leaves' : List (Nat × String)) :
    inputOf (leaves ++ leaves') = inputOf leaves ++ inputOf leaves' := by
  simp [inputOf]

/-- A token that comes next. -/
def Lookahead.ofToken (token : Token) : Lookahead := ⟨token.symbol, some token.text⟩

namespace Configuration

variable {t : ParseTable} {c c' c'' : Configuration} {states : List Nat}
  {pending : List Lookahead} {nodes : List Tree} {input : Input}

/-! ## Single moves -/

/-- A token may as well have been taken before. -/
theorem step_load {token : Token} :
    step t ⟨states, [], nodes, .ok token :: input⟩ =
      step t ⟨states, [.ofToken token], nodes, input⟩ := rfl

theorem step_shift {current target : Nat} {lookahead : Lookahead}
    (h : t.action current lookahead.symbol = .shift target) :
    step t ⟨current :: states, lookahead :: pending, nodes, input⟩ =
      .next ⟨target :: current :: states, pending,
        (if t.isShift lookahead.symbol then
          [Tree.leaf lookahead.symbol (lookahead.text.getD "")] else []) ++ nodes, input⟩ := by
  simp only [step, take, h]
  rfl

theorem step_reduce {current rule head length : Nat} {lookahead : Lookahead}
    (h : t.action current lookahead.symbol = .reduce rule head length) :
    step t ⟨current :: states, lookahead :: pending, nodes, input⟩ =
      reduce t ⟨current :: states, lookahead :: pending, nodes, input⟩ head length := by
  simp only [step, take, h]

theorem step_fail {current : Nat} {lookahead : Lookahead}
    (h : t.action current lookahead.symbol = .fail) :
    step t ⟨current :: states, lookahead :: pending, nodes, input⟩ =
      .halt (.error (.unexpectedToken lookahead.symbol current))
        ⟨current :: states, pending, nodes, input⟩ := by
  simp only [step, take, h]

/-- Where the table says neither to shift nor to reduce, the parser fails. -/
theorem step_stuck {current : Nat} (lookahead : Lookahead)
    (h : t.action current lookahead.symbol = .fail ∨
      ∃ fault, t.action current lookahead.symbol = .fault fault)
    (states : List Nat) (pending : List Lookahead) (nodes : List Tree) (input : Input) :
    ∃ e c, step t ⟨current :: states, lookahead :: pending, nodes, input⟩ =
      .halt (.error e) c := by
  rcases h with h | ⟨fault, h⟩
  · exact ⟨_, _, step_fail h⟩
  · refine ⟨.table fault, ⟨current :: states, pending, nodes, input⟩, ?_⟩
    simp only [step, take, h]

/-! ## Runs -/

/-- A run from one configuration goes on as a run from another after some moves. -/
def Reaches (t : ParseTable) (c c' : Configuration) : Prop :=
  ∃ moves, ∀ fuel, c.run t (moves + fuel) = c'.run t fuel

namespace Reaches

theorem refl (c : Configuration) : Reaches t c c := ⟨0, fun fuel => by rw [Nat.zero_add]⟩

theorem trans (h : Reaches t c c') (h' : Reaches t c' c'') : Reaches t c c'' := by
  obtain ⟨m, hm⟩ := h
  obtain ⟨n, hn⟩ := h'
  exact ⟨m + n, fun fuel => by rw [Nat.add_assoc, hm, hn]⟩

theorem of_step (h : c.step t = .next c') : Reaches t c c' :=
  ⟨1, fun fuel => by rw [Nat.add_comm, run, h]⟩

/-- Configurations with the same next move have the same runs. -/
theorem of_step_eq (h : c.step t = c'.step t) : Reaches t c c' := by
  refine ⟨0, fun fuel => ?_⟩
  rw [Nat.zero_add]
  cases fuel with
  | zero => rfl
  | succ fuel => rw [run, run, h]

theorem load {token : Token} : Reaches t ⟨states, [], nodes, .ok token :: input⟩
    ⟨states, [.ofToken token], nodes, input⟩ := of_step_eq step_load

theorem unload {token : Token} : Reaches t ⟨states, [.ofToken token], nodes, input⟩
    ⟨states, [], nodes, .ok token :: input⟩ := of_step_eq step_load.symm

/-- A run halts if it gets to a configuration that does. -/
theorem run_of_halt {verdict : Verdict} (h : Reaches t c c')
    (hhalt : c'.step t = .halt verdict c'') : ∃ fuel, c.run t fuel = some (verdict, c'') := by
  obtain ⟨moves, h⟩ := h
  exact ⟨moves + 1, by rw [h, run, hhalt]⟩

end Reaches

/-- A run that halts gives the same with a larger bound. -/
theorem run_add {fuel : Nat} {result : Verdict × Configuration} (h : c.run t fuel = some result)
    (more : Nat) : c.run t (fuel + more) = some result := by
  induction fuel generalizing c with
  | zero => contradiction
  | succ fuel ih =>
      rw [Nat.add_right_comm, run]
      rw [run] at h
      cases hstep : step t c with
      | next c' =>
          rw [hstep] at h
          exact ih h
      | halt verdict c' =>
          rw [hstep] at h
          exact h

/-- All runs that halt have the same result. -/
theorem run_unique {m n : Nat} {result result' : Verdict × Configuration}
    (h : c.run t m = some result) (h' : c.run t n = some result') : result = result' := by
  have hm := run_add h n
  have hn := run_add h' m
  rw [Nat.add_comm n, hm] at hn
  exact Option.some.inj hn

/-- A move leads from one configuration to another. -/
def Next (t : ParseTable) (c c' : Configuration) : Prop := c.step t = .next c'

/-- A run that halts comes to a last configuration. -/
theorem exists_last_of_run {fuel : Nat} {verdict : Verdict} (h : c.run t fuel = some (verdict, c')) :
    ∃ last, ReflTransGen (Next t) c last ∧ last.step t = .halt verdict c' := by
  induction fuel generalizing c with
  | zero => contradiction
  | succ fuel ih =>
      rw [run] at h
      cases hstep : c.step t with
      | next c'' =>
          rw [hstep] at h
          obtain ⟨last, hreach, hlast⟩ := ih h
          exact ⟨last, .head hstep hreach, hlast⟩
      | halt verdict' c'' =>
          rw [hstep] at h
          obtain ⟨rfl, rfl⟩ := Prod.mk.injEq .. ▸ Option.some.inj h
          exact ⟨c, .refl, hstep⟩

end Configuration

/-- A parser gives what its run gives. -/
theorem Parser.parse_of_run {p : Parser} {t : ParseTable} (hp : p.table = t) {fuel : Nat}
    {input : Input} {verdict : Verdict} {c : Configuration}
    (h : (Configuration.start input).run t fuel = some (verdict, c)) :
    p.parse fuel input = some (verdict, ⟨t, c⟩) := by
  rw [parse, hp, h]
  rfl

/-- A parser that halts has come to a last configuration. -/
theorem Parser.exists_last_of_parse {p : Parser} {t : ParseTable} (hp : p.table = t) {fuel : Nat}
    {input : Input} {verdict : Verdict} {p' : Parser}
    (h : p.parse fuel input = some (verdict, p')) :
    ∃ last, ReflTransGen (Configuration.Next t) (Configuration.start input) last ∧
      last.step t = .halt verdict p'.configuration := by
  obtain ⟨⟨_, c⟩, hrun, heq⟩ := Option.map_eq_some_iff.1 h
  obtain ⟨rfl, rfl⟩ := Prod.mk.injEq .. ▸ heq
  rw [hp] at hrun
  exact Configuration.exists_last_of_run hrun

/-- A parser gives at most one result, whatever the bound. -/
theorem Parser.parse_unique {p : Parser} {m n : Nat} {input : Input}
    {result result' : Verdict × Parser} (h : p.parse m input = some result)
    (h' : p.parse n input = some result') : result = result' := by
  obtain ⟨first, hrun, rfl⟩ := Option.map_eq_some_iff.1 h
  obtain ⟨second, hrun', rfl⟩ := Option.map_eq_some_iff.1 h'
  rw [Configuration.run_unique hrun hrun']

/-! ## One grammar -/

/-- Whether declarations give a grammar and an automaton that pass a check. -/
def Automaton.passes (declarations : List Declaration) (merging : Merging)
    (check : Grammar → Automaton → Bool) : Bool :=
  match Grammar.define declarations with
  | .error _ => false
  | .ok g =>
    match Automaton.build g merging with
    | .error _ => false
    | .ok a => check g a

theorem Automaton.exists_of_passes {declarations : List Declaration} {merging : Merging}
    {check : Grammar → Automaton → Bool}
    (h : Automaton.passes declarations merging check = true) :
    ∃ g a, Grammar.define declarations = .ok g ∧ Automaton.build g merging = .ok a ∧
      check g a = true := by
  unfold Automaton.passes at h
  cases hg : Grammar.define declarations with
  | error e => simp [hg] at h
  | ok g =>
      rw [hg] at h
      dsimp only at h
      cases ha : Automaton.build g merging with
      | error e => simp [ha] at h
      | ok a =>
          rw [ha] at h
          exact ⟨g, a, rfl, ha, h⟩

/-- Whether a new parser accepts an input within a bound on its moves, if it halts. -/
def Automaton.accepts? (g : Grammar) (a : Automaton) (fuel : Nat) (input : Input) : Option Bool :=
  ((Parser.ofTable (a.table g)).parse fuel input).map (·.1.isOk)

theorem Automaton.parse_of_accepts? {g : Grammar} {a : Automaton} {fuel : Nat} {input : Input}
    (h : a.accepts? g fuel input = some true) :
    ∃ root p', (Parser.ofTable (a.table g)).parse fuel input = some (.ok root, p') := by
  obtain ⟨⟨verdict, p'⟩, hparse, hok⟩ := Option.map_eq_some_iff.1 h
  cases verdict with
  | error e => contradiction
  | ok root => exact ⟨root, p', hparse⟩

theorem Automaton.parse_ne_of_accepts? {g : Grammar} {a : Automaton} {fuel : Nat} {input : Input}
    (h : a.accepts? g fuel input = some false) (more : Nat) (root : Tree) (p' : Parser) :
    (Parser.ofTable (a.table g)).parse more input ≠ some (.ok root, p') := by
  intro hmore
  obtain ⟨⟨verdict, p''⟩, hparse, hok⟩ := Option.map_eq_some_iff.1 h
  obtain rfl : verdict = .ok root := congrArg Prod.fst (Parser.parse_unique hparse hmore)
  contradiction

/-! ## Moves of an automaton -/

namespace Automaton

open ShiftReduce.Configuration (Reaches)

variable {g : Grammar} {a : Automaton}

theorem isShift_iff {x : Symbol} (hx : x ∈ g.vocabulary.symbols) :
    (a.table g).isShift (g.vocabulary.number x) = true ↔ ∃ t, x = .terminal t := by
  rw [ParseTable.isShift, decide_eq_true_iff]
  exact Vocabulary.number_le_iff hx

section Moves

variable (hg : g.WellFormed) (ha : a.Consistent g)

include hg ha

/-- Over a terminal the parser takes a token and makes it a leaf. -/
theorem step_leaf {p q : Nat} {t : Terminal} (token : Token)
    (ht : token.symbol = g.vocabulary.number (.terminal t))
    (h : (a.look p).transition? (.terminal t) = some q) (states : List Nat) (nodes : List Tree)
    (input : Input) :
    Configuration.step (a.table g) ⟨p :: states, [.ofToken token], nodes, input⟩ =
      .next ⟨q :: p :: states, [], .leaf token.symbol token.text :: nodes, input⟩ := by
  have hshift : (a.table g).isShift token.symbol = true := by
    rw [ht, isShift_iff (ha.declares_of_transition? hg h).mem_symbols]
    exact ⟨t, rfl⟩
  have haction : (a.table g).action p token.symbol = .shift q := ht ▸ action_of_transition? hg ha h
  rw [Configuration.step_shift haction]
  simp only [Lookahead.ofToken, hshift]
  rfl

/-- Over a nonterminal the parser moves on. -/
theorem step_goto {p q : Nat} {n : Nonterminal} (lookahead : Lookahead)
    (hn : lookahead.symbol = g.vocabulary.number (.nonterminal n))
    (h : (a.look p).transition? (.nonterminal n) = some q) (states : List Nat)
    (pending : List Lookahead) (nodes : List Tree) (input : Input) :
    Configuration.step (a.table g) ⟨p :: states, lookahead :: pending, nodes, input⟩ =
      .next ⟨q :: p :: states, pending, nodes, input⟩ := by
  have hshift : ¬ (a.table g).isShift lookahead.symbol = true := by
    rw [hn, isShift_iff (ha.declares_of_transition? hg h).mem_symbols]
    simp
  have haction : (a.table g).action p lookahead.symbol = .shift q :=
    hn ▸ action_of_transition? hg ha h
  rw [Configuration.step_shift haction]
  simp only [hshift]
  rfl

variable {top : Nat} {t : Terminal} {r : Rule} {token : Token}
  (ht : token.symbol = g.vocabulary.number (.terminal t))
  (hr : (a.look top).reduce? t = some r) (below : List Nat) (nodes : List Tree) (input : Input)

include ht hr

/-- A reduction joins the trees of the body. -/
theorem step_node (haccept : r.head ≠ .accept) (hnodes : r.arity ≤ nodes.length)
    (hstates : r.arity < (top :: below).length) :
    Configuration.step (a.table g) ⟨top :: below, [.ofToken token], nodes, input⟩ =
      .next ⟨(top :: below).drop r.arity,
        [⟨g.vocabulary.number (.nonterminal r.head), none⟩, .ofToken token],
        .node (g.vocabulary.number (.nonterminal r.head)) (nodes.take r.arity).reverse ::
          nodes.drop r.arity, input⟩ := by
  have hhead : g.vocabulary.number (.nonterminal r.head) ≠ (a.table g).acceptSymbol :=
    mt number_eq_acceptSymbol_iff.1 haccept
  have haction : (a.table g).action top token.symbol = reduction g r :=
    ht ▸ action_of_reduce? hg ha hr
  rw [Configuration.step_reduce haction, Configuration.reduce_eq]
  simp only [if_neg (Nat.not_lt.2 hnodes), if_neg hhead, if_neg (Nat.not_le.2 hstates)]

/-- The accepting production ends the run with what is on top. -/
theorem step_accept (haccept : r.head = .accept) (hnodes : r.arity ≤ nodes.length) :
    Configuration.step (a.table g) ⟨top :: below, [.ofToken token], nodes, input⟩ =
      .halt (.ok (.node (g.vocabulary.number (.nonterminal .accept)) (nodes.take r.arity).reverse))
        ⟨top :: below, [.ofToken token], nodes.drop r.arity, input⟩ := by
  have hhead : g.vocabulary.number (.nonterminal r.head) = (a.table g).acceptSymbol :=
    number_eq_acceptSymbol_iff.2 haccept
  have haction : (a.table g).action top token.symbol = reduction g r :=
    ht ▸ action_of_reduce? hg ha hr
  rw [Configuration.step_reduce haction, Configuration.reduce_eq]
  simp only [if_neg (Nat.not_lt.2 hnodes), if_pos hhead]
  rw [haccept]

/-- A reduction that finds too little on the stacks fails. -/
theorem step_short
    (h : nodes.length < r.arity ∨ (r.head ≠ .accept ∧ (top :: below).length ≤ r.arity)) :
    ∃ e c, Configuration.step (a.table g) ⟨top :: below, [.ofToken token], nodes, input⟩ =
      .halt (.error e) c := by
  have haction : (a.table g).action top token.symbol = reduction g r :=
    ht ▸ action_of_reduce? hg ha hr
  rw [Configuration.step_reduce haction, Configuration.reduce_eq]
  by_cases hnodes : nodes.length < r.arity
  · simp only [if_pos hnodes]
    exact ⟨_, _, rfl⟩
  · obtain ⟨haccept, hstates⟩ := h.resolve_left hnodes
    have hhead : g.vocabulary.number (.nonterminal r.head) ≠ (a.table g).acceptSymbol :=
      mt number_eq_acceptSymbol_iff.1 haccept
    simp only [if_neg hnodes, if_neg hhead, if_pos hstates]
    exact ⟨_, _, rfl⟩

end Moves

/-! ### What a move can be -/

/-- What a move before a token can be. -/
inductive TokenMove (g : Grammar) (a : Automaton) (token : Token) (top : Nat)
    (below : List Nat) (nodes : List Tree) (input : Input) : Move → Prop
  | leaf {t : Terminal} {q : Nat} : token.symbol = g.vocabulary.number (.terminal t) →
      (a.look top).transition? (.terminal t) = some q →
      TokenMove g a token top below nodes input
        (.next ⟨q :: top :: below, [], .leaf token.symbol token.text :: nodes, input⟩)
  | skip {n : Nonterminal} {q : Nat} : token.symbol = g.vocabulary.number (.nonterminal n) →
      (a.look top).transition? (.nonterminal n) = some q →
      TokenMove g a token top below nodes input (.next ⟨q :: top :: below, [], nodes, input⟩)
  | node {t : Terminal} {r : Rule} : token.symbol = g.vocabulary.number (.terminal t) →
      (a.look top).reduce? t = some r → r.head ≠ .accept → r.arity ≤ nodes.length →
      r.arity < (top :: below).length →
      TokenMove g a token top below nodes input
        (.next ⟨(top :: below).drop r.arity,
          [⟨g.vocabulary.number (.nonterminal r.head), none⟩, .ofToken token],
          .node (g.vocabulary.number (.nonterminal r.head)) (nodes.take r.arity).reverse ::
            nodes.drop r.arity, input⟩)
  | accept {t : Terminal} {r : Rule} {c : Configuration} :
      token.symbol = g.vocabulary.number (.terminal t) → (a.look top).reduce? t = some r →
      r.head = .accept → r.arity ≤ nodes.length → c.input = input →
      TokenMove g a token top below nodes input
        (.halt (.ok (.node (g.vocabulary.number (.nonterminal .accept))
          (nodes.take r.arity).reverse)) c)
  | error {e : ParseError} {c : Configuration} :
      TokenMove g a token top below nodes input (.halt (.error e) c)

section Moves

variable (hg : g.WellFormed) (ha : a.Consistent g)

include hg ha

theorem tokenMove_step (token : Token) (top : Nat) (below : List Nat) (nodes : List Tree)
    (input : Input) : TokenMove g a token top below nodes input
      (Configuration.step (a.table g) ⟨top :: below, [.ofToken token], nodes, input⟩) := by
  rcases action_cases hg ha top token.symbol with ⟨x, q, -, hn, hq, -⟩ |
    ⟨t, r, -, hn, hr, -⟩ | hstuck
  · cases x with
    | terminal t =>
        rw [step_leaf hg ha token hn hq]
        exact .leaf hn hq
    | nonterminal n =>
        rw [step_goto hg ha (.ofToken token) hn hq]
        exact .skip hn hq
  · by_cases hnodes : r.arity ≤ nodes.length
    · by_cases haccept : r.head = .accept
      · rw [step_accept hg ha hn hr below nodes input haccept hnodes]
        exact .accept hn hr haccept hnodes rfl
      · by_cases hstates : r.arity < (top :: below).length
        · rw [step_node hg ha hn hr below nodes input haccept hnodes hstates]
          exact .node hn hr haccept hnodes hstates
        · obtain ⟨e, c, hstep⟩ := step_short hg ha hn hr below nodes input
            (.inr ⟨haccept, Nat.not_lt.1 hstates⟩)
          rw [hstep]
          exact .error
    · obtain ⟨e, c, hstep⟩ := step_short hg ha hn hr below nodes input
        (.inl (Nat.not_le.1 hnodes))
      rw [hstep]
      exact .error
  · obtain ⟨e, c, hstep⟩ := Configuration.step_stuck (.ofToken token) hstuck below []
      nodes input
    rw [hstep]
    exact .error

/-- Before the head of a production, the parser moves on or fails. -/
theorem step_goto_cases {n : Nonterminal} (hdeclared : .nonterminal n ∈ g.vocabulary.symbols)
    (top : Nat) (below : List Nat) (pending : List Lookahead) (nodes : List Tree)
    (input : Input) :
    (∃ q, (a.look top).transition? (.nonterminal n) = some q ∧
      Configuration.step (a.table g)
        ⟨top :: below, ⟨g.vocabulary.number (.nonterminal n), none⟩ :: pending, nodes, input⟩ =
          .next ⟨q :: top :: below, pending, nodes, input⟩) ∨
    ∃ e c, Configuration.step (a.table g)
      ⟨top :: below, ⟨g.vocabulary.number (.nonterminal n), none⟩ :: pending, nodes, input⟩ =
        .halt (.error e) c := by
  rcases action_cases hg ha top (g.vocabulary.number (.nonterminal n)) with
    ⟨x, q, hx, hn, hq, -⟩ | ⟨t, r, ht, hn, -⟩ | hstuck
  · obtain rfl := Vocabulary.number_inj hdeclared hx hn
    exact .inl ⟨q, hq, step_goto hg ha _ rfl hq below pending nodes input⟩
  · have := Vocabulary.number_inj hdeclared ht hn
    contradiction
  · exact .inr (Configuration.step_stuck _ hstuck below pending nodes input)

/-! ### Trees -/

/-- A reduction takes the children that lie on top. -/
theorem reaches_node {top p : Nat} {below states : List Nat} {t : Terminal} {r : Rule}
    {children : List Tree} (hr : (a.look top).reduce? t = some r) (haccept : r.head ≠ .accept)
    (hchildren : children.length = r.arity) (hdrop : (top :: below).drop r.arity = p :: states)
    (nodes : List Tree) (text : String) (input : Input) :
    Reaches (a.table g)
      ⟨top :: below, [], children.reverse ++ nodes,
        .ok ⟨g.vocabulary.number (.terminal t), text⟩ :: input⟩
      ⟨p :: states, [⟨g.vocabulary.number (.nonterminal r.head), none⟩,
          .ofToken ⟨g.vocabulary.number (.terminal t), text⟩],
        .node (g.vocabulary.number (.nonterminal r.head)) children :: nodes, input⟩ := by
  have hstates : r.arity < (top :: below).length := by
    by_contra hle
    rw [List.drop_eq_nil_of_le (Nat.not_lt.1 hle)] at hdrop
    contradiction
  have hnodes : r.arity ≤ (children.reverse ++ nodes).length := by
    rw [List.length_append, List.length_reverse]
    omega
  have htoken : Token.symbol ⟨g.vocabulary.number (.terminal t), text⟩ =
      g.vocabulary.number (.terminal t) := rfl
  have hstep := step_node hg ha htoken hr below _ input haccept hnodes hstates
  have htake : (children.reverse ++ nodes).take r.arity = children.reverse := by
    rw [← hchildren, ← List.length_reverse, List.take_left]
  have hrest : (children.reverse ++ nodes).drop r.arity = nodes := by
    rw [← hchildren, ← List.length_reverse, List.drop_left]
  rw [htake, hrest, hdrop, List.reverse_reverse] at hstep
  exact Reaches.load.trans (.of_step hstep)

/-- Trees that are retraced are built. -/
theorem reaches_of_retraces {u : Terminal} {states states' : List Nat} {symbols : List Symbol}
    {trees : List Tree} (h : Retraces g a (fun _ => True) u states symbols trees states') :
    ∀ (nodes : List Tree) (text : String) (rest : Input), Reaches (a.table g)
      ⟨states, [], nodes, inputOf (Tree.leavesOfAll trees) ++
        .ok ⟨g.vocabulary.number (.terminal u), text⟩ :: rest⟩
      ⟨states', [], trees.reverse ++ nodes,
        .ok ⟨g.vocabulary.number (.terminal u), text⟩ :: rest⟩ := by
  induction h with
  | nil =>
      intro nodes text rest
      simpa using Reaches.refl _
  | @leaf u t leafText p q states states' symbols trees hq _ ih =>
      intro nodes text rest
      have hleaf := step_leaf hg ha ⟨g.vocabulary.number (.terminal t), leafText⟩ rfl hq states
        nodes (inputOf (Tree.leavesOfAll trees) ++
          .ok ⟨g.vocabulary.number (.terminal u), text⟩ :: rest)
      have hrest := ih (.leaf (g.vocabulary.number (.terminal t)) leafText :: nodes) text rest
      simpa using Reaches.load.trans ((Reaches.of_step hleaf).trans hrest)
  | @node u v r p q top states below states' symbols children trees hr hleads hchildren hreduce
      hq _ ihchildren ih =>
      intro nodes text rest
      -- The terminal that leads the rest of the input is the one that the reduction sees.
      obtain ⟨text', rest', hinput⟩ : ∃ text' rest', inputOf (Tree.leavesOfAll trees) ++
          .ok ⟨g.vocabulary.number (.terminal u), text⟩ :: rest =
            .ok ⟨g.vocabulary.number (.terminal v), text'⟩ :: rest' := by
        rcases hleads with ⟨hnil, rfl⟩ | ⟨text', more, hcons⟩
        · exact ⟨text, rest, by rw [hnil]; rfl⟩
        · exact ⟨text', _, by rw [hcons]; rfl⟩
      have hlength : children.length = r.arity := by
        rw [hchildren.forest.length_eq, Rule.length_matched]
      -- A reduction takes as many states as the children have put on the stack.
      have hdrop := hchildren.spells.drop_eq
      rw [Rule.length_matched] at hdrop
      have haccept : r.head ≠ .accept := (hg.head_declared r hr).1
      have hbefore := ihchildren nodes text' rest'
      have hnode := reaches_node hg ha (hreduce trivial) haccept hlength hdrop nodes text' rest'
      have hgoto := step_goto hg ha ⟨g.vocabulary.number (.nonterminal r.head), none⟩ rfl hq states
        [.ofToken ⟨g.vocabulary.number (.terminal v), text'⟩]
        (.node (g.vocabulary.number (.nonterminal r.head)) children :: nodes) rest'
      have hafter :=
        ih (.node (g.vocabulary.number (.nonterminal r.head)) children :: nodes) text rest
      rw [hinput] at hafter
      have hrun := hbefore.trans
        (hnode.trans ((Reaches.of_step hgoto).trans (Reaches.unload.trans hafter)))
      simpa [List.append_assoc, hinput] using hrun

/-- A tree of the start symbol that is retraced is what a parser returns, if the accepting production
is reduced in the state that it leads to.  It does not matter what the parser has parsed before, nor
what comes behind the end token. -/
theorem parse_of_reduce? {p : Parser} (hp : p.table = a.table g) {tree : Tree} {top : Nat}
    {below : List Nat} (h : Retraces g a (fun _ => True) g.endMarker [startState]
      [.nonterminal g.startSymbol] [tree] (top :: below))
    (hr : (a.look top).reduce? g.endMarker = some g.acceptRule) (text : String) (rest : Input) :
    ∃ fuel p', p.parse fuel (inputOf tree.leaves ++
        .ok ⟨g.vocabulary.number (.terminal g.endMarker), text⟩ :: rest) =
      some (.ok (.node (g.vocabulary.number (.nonterminal .accept)) [tree]), p') := by
  have hreaches := reaches_of_retraces hg ha h [] text rest
  rw [Tree.leavesOfAll_cons, Tree.leavesOfAll_nil, List.append_nil] at hreaches
  have htoken : Token.symbol ⟨g.vocabulary.number (.terminal g.endMarker), text⟩ =
      g.vocabulary.number (.terminal g.endMarker) := rfl
  have haccept := step_accept hg ha htoken hr below [tree] rest rfl (Nat.le_refl 1)
  obtain ⟨fuel, hrun⟩ := (hreaches.trans .load).run_of_halt haccept
  exact ⟨fuel, _, Parser.parse_of_run hp hrun⟩

end Moves

end Automaton

end ShiftReduce
