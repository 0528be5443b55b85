import ShiftReduce.Proofs.Lexer
import ShiftReduce.Proofs.Parser.Acceptance

/-!
# Printing a tree and parsing it again

The leaves of an accepted tree are printed as the names of their symbols, with the name of the end
token behind them (`ParseTable.print`).  If no name of a terminal has a blank in it, the text is read
as the same terminals again, and a parser comes to the same tree.  Only the texts of the leaves are
different: each is the name of its symbol now (`Tree.rename`).  With entries of 32 bits this is about
automata with fewer than `2 ^ 31` states (`Automaton.inWords_table`).

## Strategy

What a parser does is retracing a tree (`Accepted`), and for that the texts of the leaves do not
matter (`Retraces.rename`).  So the tree with the names is retraced as well, and what is retraced is
parsed (`parse_of_reduce?`).
-/

namespace ShiftReduce

/-! ## Names for texts -/

namespace Tree

mutual

/-- The tree in which each leaf has the name of its symbol for its text. -/
def rename (name : Nat → String) : Tree → Tree
  | leaf symbol _ => leaf symbol (name symbol)
  | node symbol children => node symbol (renameAll name children)

/-- The same for some trees. -/
def renameAll (name : Nat → String) : List Tree → List Tree
  | [] => []
  | tree :: rest => tree.rename name :: renameAll name rest

end

mutual

theorem leaves_rename (name : Nat → String) :
    ∀ tree : Tree, (tree.rename name).leaves = tree.leaves.map fun leaf => (leaf.1, name leaf.1)
  | leaf symbol text => by simp [rename]
  | node symbol children => by
      rw [rename, leaves_node, leaves_node, leavesOfAll_renameAll name children]

theorem leavesOfAll_renameAll (name : Nat → String) :
    ∀ trees : List Tree, leavesOfAll (renameAll name trees) =
      (leavesOfAll trees).map fun leaf => (leaf.1, name leaf.1)
  | [] => rfl
  | tree :: rest => by
      rw [renameAll, leavesOfAll_cons, leavesOfAll_cons, List.map_append, leaves_rename name tree,
        leavesOfAll_renameAll name rest]

end

end Tree

/-- The names of the leaves of a tree and of the end token, with spaces between them. -/
def ParseTable.print (t : ParseTable) (tree : Tree) : String :=
  " ".intercalate (tree.leaves.map (fun leaf => t.name leaf.1) ++ [t.name t.endSymbol])

/-! ## Trees that are retraced -/

/-- What comes first does not depend on texts. -/
theorem Grammar.Leads.rename {g : Grammar} {trees : List Tree} {u v : Terminal}
    (h : g.Leads trees u v) (name : Nat → String) : g.Leads (Tree.renameAll name trees) u v := by
  rcases h with ⟨hnil, rfl⟩ | ⟨text, rest, hcons⟩
  · exact .inl ⟨by rw [Tree.leavesOfAll_renameAll, hnil, List.map_nil], rfl⟩
  · exact .inr ⟨_, _, by rw [Tree.leavesOfAll_renameAll, hcons, List.map_cons]⟩

namespace Automaton

variable {g : Grammar} {a : Automaton} {calls : Terminal → Prop} {u : Terminal}
  {states states' : List Nat} {symbols : List Symbol} {trees : List Tree}

/-- Nor does the way of retracing a tree. -/
theorem Retraces.rename (h : Retraces g a calls u states symbols trees states')
    (name : Nat → String) :
    Retraces g a calls u states symbols (Tree.renameAll name trees) states' := by
  induction h with
  | nil => exact .nil
  | leaf hq _ ih => exact .leaf hq ih
  | node hr hleads _ hreduce hq _ ihchildren ih =>
      exact .node hr (hleads.rename name) ihchildren hreduce hq ih

/-- The leaves of trees that are retraced are declared terminals. -/
theorem Retraces.exists_word (hg : g.WellFormed) (ha : a.Consistent g)
    (h : Retraces g a calls u states symbols trees states') :
    ∃ word : List Terminal, (∀ t ∈ word, t.index < g.vocabulary.terminals.length) ∧
      (Tree.leavesOfAll trees).map (·.1) =
        word.map fun t => g.vocabulary.number (.terminal t) := by
  induction h with
  | nil => exact ⟨[], by simp, rfl⟩
  | @leaf u t text p q states states' symbols trees hq _ ih =>
      obtain ⟨word, hword, hleaves⟩ := ih
      refine ⟨t :: word, List.forall_mem_cons.2 ⟨?_, hword⟩, by simp [hleaves]⟩
      exact ha.declares_of_transition? hg hq
  | node _ _ _ _ _ _ ihchildren ih =>
      obtain ⟨front, hfront, hchildren⟩ := ihchildren
      obtain ⟨word, hword, hleaves⟩ := ih
      refine ⟨front ++ word, List.forall_mem_append.2 ⟨hfront, hword⟩, ?_⟩
      simp [hchildren, hleaves]

/-- What is retraced from the start state over the start symbol, leads to the state in which the
accepting production is reduced. -/
theorem Retraces.reduce?_top (hg : g.WellFormed) {merging : Merging}
    (ha : build g merging = .ok a) {tree : Tree}
    (h : Retraces g a calls u [startState] [.nonterminal g.startSymbol] [tree] states) :
    ∃ top below, states = top :: below ∧
      (a.look top).reduce? g.endMarker = some g.acceptRule := by
  cases h.spells with
  | cons hq hrest =>
      cases hrest with
      | nil => exact ⟨_, _, rfl, (reduce?_acceptRule_iff hg ha).2 ⟨hq, rfl⟩⟩

/-- The leaves of a tree by their numbers and names are its terminals by theirs. -/
theorem map_leaves {β : Type} (f : Nat → String → β) (a : Automaton) {tree : Tree}
    {word : List Terminal} (hword : ∀ t ∈ word, t.index < g.vocabulary.terminals.length)
    (hleaves : tree.leaves.map (·.1) = word.map fun t => g.vocabulary.number (.terminal t)) :
    tree.leaves.map (fun leaf => f leaf.1 ((a.table g).name leaf.1)) =
      word.map fun t => f (g.vocabulary.number (.terminal t)) (g.vocabulary.name (.terminal t)) := by
  have hname : ∀ t ∈ word, (a.table g).name (g.vocabulary.number (.terminal t)) =
      g.vocabulary.name (.terminal t) :=
    fun t ht => name_table a (Vocabulary.terminal_mem_symbols.2 (hword t ht))
  calc tree.leaves.map (fun leaf => f leaf.1 ((a.table g).name leaf.1))
      = (tree.leaves.map (·.1)).map fun symbol => f symbol ((a.table g).name symbol) := by
        rw [List.map_map]
        rfl
    _ = word.map fun t => f (g.vocabulary.number (.terminal t))
          ((a.table g).name (g.vocabulary.number (.terminal t))) := by
        rw [hleaves, List.map_map]
        rfl
    _ = word.map fun t => f (g.vocabulary.number (.terminal t))
          (g.vocabulary.name (.terminal t)) :=
        List.map_congr_left fun t ht => by rw [hname t ht]

end Automaton

namespace Parser

open Automaton

/-- The text of an accepted tree is accepted again, and the tree is the same but for the texts of
the leaves. -/
theorem parse_print {declarations : List Declaration} {g : Grammar} {merging : Merging}
    {a : Automaton} {p p' q : Parser} {fuel : Nat} {input : Input} {root : Tree}
    (hg : Grammar.define declarations = .ok g)
    (hblank : ∀ entry ∈ g.vocabulary.terminals, ∀ c ∈ entry.name.toList, Text.isBlank c = false)
    (ha : build g merging = .ok a) (hp : p.table = a.table g)
    (h : p.parse fuel input = some (.ok root, p')) (hq : q.table = a.table g) :
    ∃ fuel q', q.parse fuel ((a.table g).read ((a.table g).print root)) =
      some (.ok (root.rename (a.table g).name), q') := by
  have hnamed := Grammar.named_of_define hg
  have hg := Grammar.wellFormed_of_define hg
  have hconsistent := consistent_of_build hg ha
  obtain ⟨tree, -, -, states, rfl, hretraces, -, -⟩ := accepted_of_parse hg hconsistent hp h
  obtain ⟨top, below, rfl, hreduce⟩ := hretraces.reduce?_top hg ha
  obtain ⟨word, hword, hleaves⟩ := hretraces.exists_word hg hconsistent
  rw [Tree.leavesOfAll_cons, Tree.leavesOfAll_nil, List.append_nil] at hleaves
  have hend : g.endMarker.index < g.vocabulary.terminals.length := hg.endMarker_declared
  have hprint : (a.table g).print (.node (g.vocabulary.number (.nonterminal .accept)) [tree]) =
      " ".intercalate ((word ++ [g.endMarker]).map fun t => g.vocabulary.name (.terminal t)) := by
    have hlast : (a.table g).name (a.table g).endSymbol = g.vocabulary.name (.terminal g.endMarker) :=
      name_table a (Vocabulary.terminal_mem_symbols.2 hend)
    rw [ParseTable.print, Tree.leaves_node, Tree.leavesOfAll_cons, Tree.leavesOfAll_nil,
      List.append_nil, map_leaves (fun _ name => name) a hword hleaves, hlast, List.map_append]
    rfl
  have hread : (a.table g).read
      ((a.table g).print (.node (g.vocabulary.number (.nonterminal .accept)) [tree])) =
        inputOf (tree.rename (a.table g).name).leaves ++
          [.ok ⟨g.vocabulary.number (.terminal g.endMarker),
            g.vocabulary.name (.terminal g.endMarker)⟩] := by
    have hall := List.forall_mem_append.2 ⟨hword, List.forall_mem_singleton.2 hend⟩
    rw [hprint, read_names hnamed hblank a hall, List.map_append, Tree.leaves_rename, inputOf,
      List.map_map]
    congr 1
    exact (map_leaves (fun symbol name => (.ok ⟨symbol, name⟩ : Except String Token)) a hword
      hleaves).symm
  rw [hread]
  exact parse_of_reduce? hg hconsistent hq (hretraces.rename (a.table g).name) hreduce _ []

/-- The tree of `*p = x`, printed with the names of its terminals and parsed again. -/
theorem parse_print_pointer : ∃ g a root p',
    Grammar.define Samples.pointer = .ok g ∧
    (∀ entry ∈ g.vocabulary.terminals, ∀ c ∈ entry.name.toList, Text.isBlank c = false) ∧
    build g .lalr = .ok a ∧
    (ofTable (a.table g)).parse 30
      [.ok ⟨3, "*"⟩, .ok ⟨4, "p"⟩, .ok ⟨5, "="⟩, .ok ⟨4, "x"⟩, .ok ⟨2, ""⟩] =
        some (.ok root, p') ∧
    ∃ fuel q', (ofTable (a.table g)).parse fuel ((a.table g).read ((a.table g).print root)) =
      some (.ok (root.rename (a.table g).name), q') := by
  have hpasses : passes Samples.pointer .lalr (fun g a =>
      (g.vocabulary.terminals.all fun entry => entry.name.toList.all fun c => !Text.isBlank c) &&
      decide (a.accepts? g 30
        [.ok ⟨3, "*"⟩, .ok ⟨4, "p"⟩, .ok ⟨5, "="⟩, .ok ⟨4, "x"⟩, .ok ⟨2, ""⟩] = some true)) =
        true := by decide +kernel
  obtain ⟨g, a, hg, ha, hcheck⟩ := exists_of_passes hpasses
  obtain ⟨hnames, haccepts⟩ := (Bool.and_eq_true _ _).mp hcheck
  obtain ⟨root, p', h⟩ := parse_of_accepts? (of_decide_eq_true haccepts)
  have hblank : ∀ entry ∈ g.vocabulary.terminals, ∀ c ∈ entry.name.toList,
      Text.isBlank c = false := by
    simpa using hnames
  exact ⟨g, a, root, p', hg, hblank, ha, h, parse_print hg hblank ha rfl h rfl⟩

end Parser

end ShiftReduce
