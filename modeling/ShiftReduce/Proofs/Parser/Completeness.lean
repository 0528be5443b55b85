import ShiftReduce.Proofs.Parser.Soundness

/-!
# Which derived strings are accepted

With `Merging.lalr` a parser can fail on a derived string only before an end marker: every
other reduction that a derivation tree calls for is granted (`Retraces.complete`).  So the
strings that are accepted are exactly those with a tree whose reductions before end markers are
granted (`parse_isOk_iff`).  With entries of 32 bits this is about automata with fewer than `2 ^ 31`
states (`Automaton.inWords_table`).

## Strategy

The automaton always has the transitions that a tree calls for (`exists_retraces`).  A reduction
is granted when its lookahead has come to the state, and for that the place in the body where
the nonterminal stands must know what comes behind it.

* If a leaf comes behind, then FIRST of the next symbol holds it, even if symbols in between
  vanish.
* If nothing but vanishing symbols come behind, then FIRST of the next symbol holds what is in
  FOLLOW of the head, and so whatever comes behind the body has to be there (`Followed`).

The first case puts the leaf into FOLLOW of the nonterminal as well, which is what the second
case asks for further down.  The end marker alone comes from no leaf: it is in the FOLLOW sets
only if it is in FOLLOW of the start symbol, where nothing puts it.
-/

namespace ShiftReduce

/-- The body of a production starts with what it matches, and if it goes on then it matches
nothing. -/
theorem Rule.exists_body_eq (r : Rule) : ∃ rest, r.body = r.matched ++ rest := by
  unfold matched
  split
  · exact ⟨r.body, rfl⟩
  · exact ⟨[], (List.append_nil _).symm⟩

/-- Where a symbol is left to match, the body goes on in the same way. -/
theorem Rule.drop_body_of_drop_matched {r : Rule} {marker : Nat} {x : Symbol}
    {symbols : List Symbol} (h : r.matched.drop marker = x :: symbols) :
    r.body.drop marker = x :: symbols ∧ r.matched.drop (marker + 1) = symbols := by
  have hmatched : r.matched = r.body := by
    apply Rule.matched_eq_body
    intro hnil
    simp [hnil] at h
  refine ⟨hmatched ▸ h, ?_⟩
  rw [← List.tail_drop, h, List.tail_cons]

namespace Automaton

variable {g : Grammar} {a : Automaton}

/-- The automaton has all transitions that trees call for. -/
theorem exists_retraces (hg : g.WellFormed) (ha : a.Consistent g) {symbols : List Symbol}
    {trees : List Tree} (h : g.Forest symbols trees) :
    ∀ {u : Terminal} {p : Nat} {states : List Nat} {r : Rule} {marker : Nat}
      {rest : List Symbol}, InClosure g (a.look p).kernel ⟨r, marker⟩ →
      r.body.drop marker = symbols ++ rest → (∀ x ∈ symbols, x ≠ .terminal g.blank) →
      ∃ states', Retraces g a (fun _ => False) u (p :: states) symbols trees states' := by
  induction h with
  | nil => exact fun _ _ _ => ⟨_, .nil⟩
  | leaf t text _ ih =>
      intro u p states r marker rest hd hdrop hblank
      obtain ⟨hnext, hdrop'⟩ := DottedRule.next?_of_drop hdrop
      obtain ⟨hx, hblank'⟩ := List.forall_mem_cons.1 hblank
      obtain ⟨q, hq, hmoved⟩ := ha.exists_transition? hd hnext hx
      obtain ⟨states', h⟩ := ih (.inl hmoved) hdrop' hblank'
      exact ⟨states', .leaf hq h⟩
  | @node r' children symbols trees hr _ _ ihchildren ih =>
      intro u p states r marker rest hd hdrop hblank
      obtain ⟨hnext, hdrop'⟩ := DottedRule.next?_of_drop hdrop
      obtain ⟨hx, hblank'⟩ := List.forall_mem_cons.1 hblank
      obtain ⟨q, hq, hmoved⟩ := ha.exists_transition? hd hnext hx
      obtain ⟨states', h⟩ := @ih u _ (p :: states) _ _ _ (.inl hmoved) hdrop' hblank'
      obtain ⟨v, hv⟩ := h.forest.exists_leads u
      have hmem := Grammar.mem_allRules_of_mem hr
      obtain ⟨rest', hbody⟩ := r'.exists_body_eq
      obtain ⟨below, hchildren⟩ := @ihchildren v _ states _ _ _
        (hd.of_next? hnext (g.mem_productionsOf.2 ⟨hmem, rfl⟩)) hbody
        fun x hx => (hg.declares_of_mem_matched hmem hx).2
      obtain ⟨top, below, rfl⟩ := hchildren.spells.exists_top
      exact ⟨states', .node hr hv hchildren (fun hfalse => hfalse.elim) hq h⟩

/-! ## Reductions that are granted -/

/-- What may come behind a body is known where the body is looked at: it is in FOLLOW of the
head, or it need not be, since no symbol of the body can vanish. -/
def Followed (g : Grammar) (r : Rule) (u : Terminal) : Prop :=
  u ∈ g.firstFollow.follow.get r.head ∨
    (r = g.acceptRule ∧ u ∈ g.firstFollow.follow.get g.startSymbol) ∨ g.EpsilonFree

/-- No leaf of retraced trees is the blank. -/
theorem Retraces.ne_blank_of_mem_leaves (ha : a.Consistent g) {calls : Terminal → Prop}
    {u : Terminal} {states states' : List Nat} {symbols : List Symbol} {trees : List Tree}
    (h : Retraces g a calls u states symbols trees states') {t : Terminal} {text : String}
    (ht : (g.vocabulary.number (.terminal t), text) ∈ Tree.leavesOfAll trees) : t ≠ g.blank := by
  induction h with
  | nil => simp at ht
  | leaf hq _ ih =>
      rw [Tree.leavesOfAll_cons, Tree.leaves_leaf, List.singleton_append, List.mem_cons] at ht
      rcases ht with ht | ht
      · obtain rfl := Vocabulary.number_terminal_inj (v := g.vocabulary) (congrArg Prod.fst ht)
        rintro rfl
        exact ha.ne_blank_of_transition? hq rfl
      · exact ih ht
  | node _ _ _ _ _ _ ihchildren ih =>
      rw [Tree.leavesOfAll_cons, Tree.leaves_node, List.mem_append] at ht
      exact ht.elim ihchildren ih

theorem Retraces.ne_blank_of_leads (ha : a.Consistent g) {calls : Terminal → Prop}
    {u v : Terminal} {states states' : List Nat} {symbols : List Symbol} {trees : List Tree}
    (h : Retraces g a calls u states symbols trees states') (hv : g.Leads trees u v)
    (hblank : u ≠ g.blank) : v ≠ g.blank := by
  rcases hv with ⟨-, rfl⟩ | ⟨text, rest, hcons⟩
  · exact hblank
  · exact h.ne_blank_of_mem_leaves ha (hcons ▸ List.mem_cons_self)

section Saturated

variable (hg : g.WellFormed) (ha : a.Saturated g)

include hg ha

/-- Where a nonterminal comes next, its productions know what comes behind it. -/
theorem expects_of_leads {p : Nat} {r r' : Rule} {marker : Nat} {symbols : List Symbol}
    {trees : List Tree} {u v : Terminal} (hd : InClosure g (a.look p).kernel ⟨r, marker⟩)
    (hdrop : r.body.drop marker = .nonterminal r'.head :: symbols) (hr' : r' ∈ g.allRules)
    (hf : g.Forest symbols trees) (hleads : g.Leads trees u v)
    (hbehind : Tree.leavesOfAll trees = [] →
      (a.look p).Expects g ⟨r, marker⟩ u ∧ Followed g r u) :
    (a.look p).Expects g ⟨r', 0⟩ v ∧ Followed g r' v := by
  have hs := hg.closed_firstFollow
  have hr : r ∈ g.allRules := (hd.of (ha.shaped.kernel_of p)).1
  obtain ⟨hnext, hdrop'⟩ := DottedRule.next?_of_drop hdrop
  have hprod : r' ∈ g.productionsOf r'.head := g.mem_productionsOf.2 ⟨hr', rfl⟩
  have hbeyond : (⟨r, marker⟩ : DottedRule).beyond? = symbols.head? := by
    rw [DottedRule.beyond?, ← List.head?_drop, hdrop']
  -- The accepting production has nothing behind its only symbol.
  have haccept : r = g.acceptRule → symbols = [] ∧ r'.head = g.startSymbol := by
    rintro rfl
    rcases marker with _ | marker
    · obtain ⟨hhead, hnil⟩ := List.cons.inj hdrop
      exact ⟨hnil.symm, (Symbol.nonterminal.inj hhead).symm⟩
    · simp [Grammar.acceptRule] at hdrop
  rcases symbols with _ | ⟨y, rest⟩
  · -- The nonterminal is the last one, so the production is what knows what comes behind.
    cases hf
    obtain rfl := hleads.eq_of_leaves_eq_nil Tree.leavesOfAll_nil
    obtain ⟨hexpects, hfollowed⟩ := hbehind Tree.leavesOfAll_nil
    refine ⟨ha.expects_last hexpects hnext hbeyond hprod, ?_⟩
    rcases hfollowed with hfollow | ⟨hrule, hfollow⟩ | hfree
    · exact .inl (hs.mem_follow_of_leads hg hr hdrop .nil hleads fun _ => hfollow)
    · exact .inl ((haccept hrule).2 ▸ hfollow)
    · exact .inr (.inr hfree)
  · have hfollow : (Tree.leavesOfAll trees = [] → v ∈ g.firstFollow.follow.get r.head) →
        (a.look p).Expects g ⟨r', 0⟩ v ∧ Followed g r' v := by
      intro hvanish
      have hbehind' : Tree.leavesOfAll trees = [] → u ∈ g.firstFollow.follow.get r.head :=
        fun hnil => hleads.eq_of_leaves_eq_nil hnil ▸ hvanish hnil
      have hfirst := hs.mem_firstOf_of_leads hg hr hdrop' hf hleads hbehind'
      exact ⟨ha.expects_beyond hd hnext hbeyond hfirst hprod,
        .inl (hs.mem_follow_of_leads hg hr hdrop hf hleads hbehind')⟩
    by_cases hnil : Tree.leavesOfAll trees = []
    · rcases (hbehind hnil).2 with hu | ⟨hrule, -⟩ | hfree
      · exact hfollow fun _ => hleads.eq_of_leaves_eq_nil hnil ▸ hu
      · exact absurd (haccept hrule).1 (List.cons_ne_nil _ _)
      · exact absurd hnil (hf.leaves_ne_nil hg hfree (List.cons_ne_nil _ _))
    · exact hfollow fun h => absurd h hnil

/-- Retraced trees have all their reductions granted, if those are that were asked for. -/
theorem Retraces.complete {calls : Terminal → Prop} {u : Terminal} {states states' : List Nat}
    {symbols : List Symbol} {trees : List Tree}
    (h : Retraces g a calls u states symbols trees states') :
    ∀ {p : Nat} {below : List Nat} {r : Rule} {marker : Nat}, states = p :: below →
      InClosure g (a.look p).kernel ⟨r, marker⟩ → r.matched.drop marker = symbols →
      u ≠ g.blank → (¬ calls u → (a.look p).Expects g ⟨r, marker⟩ u ∧ Followed g r u) →
      Retraces g a (fun _ => True) u states symbols trees states' := by
  induction h with
  | nil => exact fun _ _ _ _ _ => .nil
  | leaf hq _ ih =>
      intro p' below r marker hstates hd hdrop hblank hbacked
      obtain ⟨rfl, rfl⟩ := List.cons.inj hstates
      obtain ⟨hbody, hdrop'⟩ := Rule.drop_body_of_drop_matched hdrop
      obtain ⟨hnext, -⟩ := DottedRule.next?_of_drop hbody
      refine .leaf hq (ih rfl (.inl (ha.advance_mem_of_transition? hq hd hnext)) hdrop' hblank ?_)
      intro hcalls
      exact (hbacked hcalls).imp_left fun hexpects => ha.expects_advance hq hexpects hnext
  | @node u v r' p q top states below states' symbols children trees hr hleads hchildren hreduce
      hq hrest ihchildren ih =>
      intro p' below' r marker hstates hd hdrop hblank hbacked
      obtain ⟨rfl, rfl⟩ := List.cons.inj hstates
      obtain ⟨hbody, hdrop'⟩ := Rule.drop_body_of_drop_matched hdrop
      obtain ⟨hnext, -⟩ := DottedRule.next?_of_drop hbody
      have hmem := Grammar.mem_allRules_of_mem hr
      have hvblank : v ≠ g.blank := hrest.ne_blank_of_leads ha.toConsistent hleads hblank
      have hclosure : InClosure g (a.look p).kernel ⟨r', 0⟩ :=
        hd.of_next? hnext (g.mem_productionsOf.2 ⟨hmem, rfl⟩)
      have hexpects : ¬ calls v → (a.look p).Expects g ⟨r', 0⟩ v ∧ Followed g r' v := by
        intro hcalls
        refine expects_of_leads hg ha hd hbody hmem hrest.forest hleads fun hnil => hbacked ?_
        rwa [← hleads.eq_of_leaves_eq_nil hnil]
      have hchildren' := ihchildren rfl hclosure rfl hvblank hexpects
      -- The lookahead goes along with the item from the start of the body to its end.
      have hgranted : (a.look top).reduce? v = some r' := by
        by_cases hcalls : calls v
        · exact hreduce hcalls
        · obtain ⟨rest, hmatched⟩ := r'.exists_body_eq
          have htop := hchildren.spells.expects ha (hexpects hcalls).1 hmatched
          refine (ha.settled top).reduce?_eq_some_iff.2 ⟨hvblank, _, htop, ?_, rfl⟩
          rw [Nat.zero_add, Rule.length_matched]
          exact DottedRule.isReducible_arity r'
      refine .node hr hleads hchildren' (fun _ => hgranted) hq ?_
      refine ih rfl (.inl (ha.advance_mem_of_transition? hq hd hnext)) hdrop' hblank ?_
      intro hcalls
      exact (hbacked hcalls).imp_left fun hexpects => ha.expects_advance hq hexpects hnext

/-! ## Trees of the start symbol -/

/-- The reductions of a tree of the start symbol that have an end marker behind them are
granted. -/
def EndGranted (g : Grammar) (a : Automaton) (tree : Tree) : Prop :=
  ∃ states, Retraces g a (· = g.endMarker) g.endMarker [startState]
    [.nonterminal g.startSymbol] [tree] states

omit hg ha in
/-- The start state has the accepting production before its body. -/
theorem inClosure_start (ha : a.Consistent g) :
    InClosure g (a.look startState).kernel ⟨g.acceptRule, 0⟩ := by
  refine .inl ?_
  rw [startState, ha.shaped.start]
  exact List.mem_singleton.2 rfl

omit hg in
theorem expects_start : (a.look startState).Expects g ⟨g.acceptRule, 0⟩ g.endMarker :=
  ItemSet.expects_items.2 (.inl ha.sourced.start)

/-- A tree is retraced if its reductions before end markers are granted. -/
theorem EndGranted.retraces {tree : Tree} (h : EndGranted g a tree) :
    ∃ states, Retraces g a (fun _ => True) g.endMarker [startState]
      [.nonterminal g.startSymbol] [tree] states := by
  obtain ⟨states, h⟩ := h
  exact ⟨states, h.complete hg ha rfl (inClosure_start ha.toConsistent) rfl hg.endMarker_ne_blank
    fun hne => absurd rfl hne⟩

/-- All trees are retraced if the end marker is known to follow the start symbol. -/
theorem exists_retraces_of_followed {tree : Tree}
    (hf : g.Forest [.nonterminal g.startSymbol] [tree])
    (hend : Followed g g.acceptRule g.endMarker) :
    ∃ states, Retraces g a (fun _ => True) g.endMarker [startState]
      [.nonterminal g.startSymbol] [tree] states := by
  have hstart := inClosure_start ha.toConsistent
  obtain ⟨states, h⟩ : ∃ states, Retraces g a (fun _ => False) g.endMarker [startState]
      [.nonterminal g.startSymbol] [tree] states :=
    exists_retraces hg ha.toConsistent hf hstart rfl (by simp)
  exact ⟨states, h.complete hg ha rfl hstart rfl hg.endMarker_ne_blank
    fun _ => ⟨expects_start ha, hend⟩⟩

/-- Where the start symbol has been retraced, the accepting production is reduced. -/
theorem reduce?_accept {calls : Terminal → Prop} {u : Terminal} {tree : Tree} {top : Nat}
    {below : List Nat}
    (h : Retraces g a calls u [startState] [.nonterminal g.startSymbol] [tree] (top :: below)) :
    (a.look top).reduce? g.endMarker = some g.acceptRule := by
  have htop := h.spells.expects ha (expects_start ha) (List.append_nil _).symm
  exact (ha.settled top).reduce?_eq_some_iff.2 ⟨hg.endMarker_ne_blank, _, htop, rfl, rfl⟩

end Saturated

end Automaton

namespace Parser

open Automaton

variable {g : Grammar} {a : Automaton}

/-- A tree of the start symbol that is retraced is what a parser returns, whatever it has parsed
before and whatever comes behind the end token. -/
theorem parse_of_retraces (hg : g.WellFormed) (ha : a.Saturated g) {p : Parser}
    (hp : p.table = a.table g) {tree : Tree} {states : List Nat}
    (h : Retraces g a (fun _ => True) g.endMarker [startState] [.nonterminal g.startSymbol]
      [tree] states) {last : Token}
    (hlast : last.symbol = g.vocabulary.number (.terminal g.endMarker)) (rest : Input) :
    ∃ fuel p', p.parse fuel (inputOf tree.leaves ++ .ok last :: rest) =
      some (.ok (.node (g.vocabulary.number (.nonterminal .accept)) [tree]), p') := by
  obtain ⟨symbol, text⟩ := last
  obtain rfl : symbol = _ := hlast
  obtain ⟨top, below, rfl⟩ := h.spells.exists_top
  exact parse_of_reduce? hg ha.toConsistent hp h (reduce?_accept hg ha h) text rest

/-- An input is accepted if and only if it goes on from the leaves of a tree with an end token, and
the automaton grants the reductions of the tree that come before the end.  If the end marker is
in FOLLOW of the start symbol, then every derived string is accepted. -/
theorem parse_isOk_iff {declarations : List Declaration} {g : Grammar} {a : Automaton}
    {p : Parser} (hg : Grammar.define declarations = .ok g)
    (ha : Automaton.build g .lalr = .ok a) (hp : p.table = a.table g) :
    (∀ input, (∃ fuel root p', p.parse fuel input = some (.ok root, p')) ↔
      ∃ tree last rest, g.Forest [.nonterminal g.startSymbol] [tree] ∧ EndGranted g a tree ∧
        last.symbol = g.vocabulary.number (.terminal g.endMarker) ∧
        input = inputOf tree.leaves ++ .ok last :: rest) ∧
    (g.endMarker ∈ g.firstFollow.follow.get g.startSymbol →
      ∀ (word : List Terminal) (tokens : List Token) (last : Token),
        g.Derives [.nonterminal g.startSymbol] (word.map .terminal) →
        tokens.map (·.symbol) = word.map (fun t => g.vocabulary.number (.terminal t)) →
        last.symbol = g.vocabulary.number (.terminal g.endMarker) →
        ∃ fuel root p', p.parse fuel ((tokens ++ [last]).map .ok) = some (.ok root, p')) := by
  have hg := Grammar.wellFormed_of_define hg
  have ha := Automaton.saturated_of_build hg ha
  refine ⟨fun input => ⟨?_, ?_⟩, ?_⟩
  · rintro ⟨fuel, root, p', h⟩
    obtain ⟨tree, consumed, text, states, -, hretraces, hinput, hleaves⟩ :=
      accepted_of_parse hg ha.toConsistent hp h
    have hgranted : EndGranted g a tree := ⟨states, hretraces.mono fun _ _ => trivial⟩
    refine ⟨tree, ⟨g.vocabulary.number (.terminal g.endMarker), text⟩, p'.configuration.input,
      hretraces.forest, hgranted, rfl, ?_⟩
    rw [hinput, hleaves, inputOf_map_leaf]
  · rintro ⟨tree, last, rest, -, hgranted, hlast, rfl⟩
    obtain ⟨states, hretraces⟩ := hgranted.retraces hg ha
    obtain ⟨fuel, p', h⟩ := parse_of_retraces hg ha hp hretraces hlast rest
    exact ⟨fuel, _, p', h⟩
  · intro hend word tokens last hderives htokens hlast
    have hleaves : (tokens.map Token.leaf).map (·.1) =
        word.map (fun t => g.vocabulary.number (.terminal t)) := by
      rw [← htokens, List.map_map]
      rfl
    obtain ⟨trees, hf, htrees⟩ := Grammar.exists_forest_of_derives hderives hleaves
    obtain ⟨tree, rfl⟩ := hf.exists_eq_singleton
    obtain ⟨states, hretraces⟩ := exists_retraces_of_followed hg ha hf (.inr (.inl ⟨rfl, hend⟩))
    obtain ⟨fuel, p', h⟩ := parse_of_retraces hg ha hp hretraces hlast []
    refine ⟨fuel, .node (g.vocabulary.number (.nonterminal .accept)) [tree], p', ?_⟩
    rw [← h, List.map_append]
    simp only [Tree.leavesOfAll_cons, Tree.leavesOfAll_nil, List.append_nil] at htrees
    rw [htrees, inputOf_map_leaf]
    rfl

/-- `S := X Y`, `X := x`, `Y := Blank`, where nothing is known to follow `S`. -/
def vanishingEnd : List Declaration :=
  [.sentinel .blank "Blank", .sentinel .endMarker "$", .terminal "x", .nonterminal "S",
    .nonterminal "X", .nonterminal "Y", .start ⟨1⟩,
    .rule (.nonterminal ⟨1⟩) [.nonterminal ⟨2⟩, .nonterminal ⟨3⟩],
    .rule (.nonterminal ⟨2⟩) [.terminal ⟨2⟩], .rule (.nonterminal ⟨3⟩) [.terminal ⟨0⟩]]

/-- The same with `Z := S $`, so that the end marker follows `S`. -/
def followedEnd : List Declaration :=
  vanishingEnd ++
    [.nonterminal "Z", .rule (.nonterminal ⟨4⟩) [.nonterminal ⟨1⟩, .terminal ⟨1⟩]]

/-- Whether a grammar has the parts of `vanishingEnd`. -/
def hasVanishingEnd (g : Grammar) : Bool :=
  g.startSymbol = ⟨1⟩ ∧ g.endMarker = ⟨1⟩ ∧
    ⟨2, ⟨1⟩, [.nonterminal ⟨2⟩, .nonterminal ⟨3⟩], false⟩ ∈ g.rules ∧
    ⟨3, ⟨2⟩, [.terminal ⟨2⟩], false⟩ ∈ g.rules ∧ ⟨4, ⟨3⟩, [.terminal ⟨0⟩], true⟩ ∈ g.rules

/-- `S` derives `x`. -/
theorem derives_of_hasVanishingEnd (h : hasVanishingEnd g = true) :
    g.endMarker = ⟨1⟩ ∧
      g.Derives [.nonterminal g.startSymbol] [.terminal ⟨2⟩] := by
  obtain ⟨hstart, hend, hs, hx, hy⟩ := of_decide_eq_true h
  have hbody : g.Rewrites [.nonterminal ⟨1⟩] [.nonterminal ⟨2⟩, .nonterminal ⟨3⟩] :=
    .rule [] [] hs
  have hfirst : g.Rewrites [.nonterminal ⟨2⟩, .nonterminal ⟨3⟩]
      [.terminal ⟨2⟩, .nonterminal ⟨3⟩] := .rule [] [.nonterminal ⟨3⟩] hx
  have hsecond : g.Rewrites [.terminal ⟨2⟩, .nonterminal ⟨3⟩] [.terminal ⟨2⟩] :=
    .rule [.terminal ⟨2⟩] [] hy
  refine ⟨hend, hstart ▸ ?_⟩
  exact .head hbody (.head hfirst (.head hsecond .refl))

/-- A derived string that is never accepted. -/
theorem not_parse_isOk_vanishingEnd : ∃ g a,
    Grammar.define vanishingEnd = .ok g ∧ Automaton.build g .lalr = .ok a ∧
    g.Derives [.nonterminal g.startSymbol] [.terminal ⟨2⟩] ∧
    g.vocabulary.number (.terminal ⟨2⟩) = 3 ∧ g.vocabulary.number (.terminal g.endMarker) = 2 ∧
    ∀ fuel root p', (ofTable (a.table g)).parse fuel [.ok ⟨3, "x"⟩, .ok ⟨2, "$"⟩] ≠
      some (.ok root, p') := by
  have hpasses : passes vanishingEnd .lalr (fun g a => hasVanishingEnd g &&
      a.accepts? g 20 [.ok ⟨3, "x"⟩, .ok ⟨2, "$"⟩] = some false) = true := by decide +kernel
  obtain ⟨g, a, hg, ha, hcheck⟩ := exists_of_passes hpasses
  rw [Bool.and_eq_true] at hcheck
  obtain ⟨hend, hderives⟩ := derives_of_hasVanishingEnd hcheck.1
  refine ⟨g, a, hg, ha, hderives, rfl, ?_, ?_⟩
  · rw [hend]
    rfl
  · exact parse_ne_of_accepts? (of_decide_eq_true hcheck.2)

/-- The same string is accepted where the end marker is known to follow. -/
theorem parse_isOk_followedEnd : ∃ g a,
    Grammar.define followedEnd = .ok g ∧ Automaton.build g .lalr = .ok a ∧
    g.endMarker ∈ g.firstFollow.follow.get g.startSymbol ∧
    g.Derives [.nonterminal g.startSymbol] [.terminal ⟨2⟩] ∧
    ∃ fuel root p', (ofTable (a.table g)).parse fuel [.ok ⟨3, "x"⟩, .ok ⟨2, "$"⟩] =
      some (.ok root, p') := by
  have hpasses : passes followedEnd .lalr (fun g _ => hasVanishingEnd g &&
      g.endMarker ∈ g.firstFollow.follow.get g.startSymbol) = true := by decide +kernel
  obtain ⟨g, a, hg, ha, hcheck⟩ := exists_of_passes hpasses
  rw [Bool.and_eq_true] at hcheck
  obtain ⟨hend, hderives⟩ := derives_of_hasVanishingEnd hcheck.1
  have hfollow := of_decide_eq_true hcheck.2
  refine ⟨g, a, hg, ha, hfollow, hderives, ?_⟩
  exact (parse_isOk_iff hg ha rfl).2 hfollow [⟨2⟩] [⟨3, "x"⟩] ⟨2, "$"⟩ hderives rfl
    (by rw [hend]; rfl)

end Parser

end ShiftReduce
