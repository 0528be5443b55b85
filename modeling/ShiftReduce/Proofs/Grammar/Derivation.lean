import Mathlib.Logic.Relation
import ShiftReduce.Parser.Tree
import ShiftReduce.Proofs.Grammar.Numbering
import ShiftReduce.Proofs.Grammar.Productions

/-!
# Derivations

What a grammar derives, in two forms.  `Grammar.Derives` rewrites sentential forms, one
nonterminal at a time.  `Grammar.Forest` is about trees as a parser builds them: a row of
trees that derives a row of symbols, where the root of each tree bears the number of its
symbol.  A production with a blank body derives the empty string in both.

`exists_forest_of_derives` leads from the first form to the second: whatever texts the
terminals of a derived string may bear, there are trees with exactly these leaves.
`Forest.exists_derives` leads back.
-/

namespace ShiftReduce

/-! ## Leaves -/

namespace Tree

@[simp] theorem leavesOfAll_nil : leavesOfAll [] = [] := by
  simp [leavesOfAll]

@[simp] theorem leavesOfAll_cons (tree : Tree) (rest : List Tree) :
    leavesOfAll (tree :: rest) = tree.leaves ++ leavesOfAll rest := by
  simp [leavesOfAll]

@[simp] theorem leaves_leaf (symbol : Nat) (text : String) :
    (leaf symbol text).leaves = [(symbol, text)] := by
  simp [leaves]

@[simp] theorem leaves_node (symbol : Nat) (children : List Tree) :
    (node symbol children).leaves = leavesOfAll children := by
  simp [leaves]

@[simp] theorem leavesOfAll_append (trees rest : List Tree) :
    leavesOfAll (trees ++ rest) = leavesOfAll trees ++ leavesOfAll rest := by
  induction trees with
  | nil => simp
  | cons tree trees ih => simp [ih]

end Tree

namespace Grammar

/-! ## Trees -/

/-- Trees that derive symbols, one tree for each.  A leaf is a terminal, and a node is the
head of a rule with trees for what the rule matches. -/
inductive Forest (g : Grammar) : List Symbol → List Tree → Prop
  | nil : Forest g [] []
  | leaf (t : Terminal) (text : String) {symbols : List Symbol} {trees : List Tree} :
      Forest g symbols trees →
      Forest g (.terminal t :: symbols) (.leaf (g.vocabulary.number (.terminal t)) text :: trees)
  | node {r : Rule} {children : List Tree} {symbols : List Symbol} {trees : List Tree} :
      r ∈ g.rules → Forest g r.matched children → Forest g symbols trees →
      Forest g (.nonterminal r.head :: symbols)
        (.node (g.vocabulary.number (.nonterminal r.head)) children :: trees)

namespace Forest

variable {g : Grammar} {symbols symbols' : List Symbol} {trees trees' : List Tree}

theorem append (h : g.Forest symbols trees) (h' : g.Forest symbols' trees') :
    g.Forest (symbols ++ symbols') (trees ++ trees') := by
  induction h with
  | nil => exact h'
  | leaf t text _ ih => exact .leaf t text ih
  | node hr hchildren _ _ ih => exact .node hr hchildren ih

theorem length_eq (h : g.Forest symbols trees) : trees.length = symbols.length := by
  induction h with
  | nil => rfl
  | leaf _ _ _ ih => simp [ih]
  | node _ _ _ _ ih => simp [ih]

/-- A forest of a row that is made of two rows is made of their forests. -/
theorem split (h : g.Forest (symbols ++ symbols') trees) :
    ∃ left right, trees = left ++ right ∧ g.Forest symbols left ∧ g.Forest symbols' right := by
  induction symbols generalizing trees with
  | nil => exact ⟨[], trees, rfl, .nil, h⟩
  | cons x symbols ih =>
      rw [List.cons_append] at h
      cases h with
      | leaf t text h =>
          obtain ⟨left, right, rfl, hleft, hright⟩ := ih h
          exact ⟨_, right, rfl, .leaf t text hleft, hright⟩
      | node hr hchildren h =>
          obtain ⟨left, right, rfl, hleft, hright⟩ := ih h
          exact ⟨_, right, rfl, .node hr hchildren hleft, hright⟩

/-- A forest of one symbol is a tree. -/
theorem exists_eq_singleton {x : Symbol} (h : g.Forest [x] trees) : ∃ tree, trees = [tree] :=
  List.length_eq_one_iff.1 h.length_eq

/-- In a grammar without blank bodies every tree has a leaf. -/
theorem leaves_ne_nil (hg : g.WellFormed) (hfree : g.EpsilonFree) (h : g.Forest symbols trees)
    (hne : symbols ≠ []) : Tree.leavesOfAll trees ≠ [] := by
  induction h with
  | nil => exact absurd rfl hne
  | leaf t text _ _ => simp
  | @node r children _ _ hr _ _ ihchildren _ =>
      have hmem := mem_allRules_of_mem hr
      have hchildren := ihchildren (hfree.matched_eq hg hmem ▸ hg.ne_nil_of_mem hmem)
      simp [hchildren]

end Forest

/-! ## Rewriting -/

/-- One nonterminal of a sentential form is replaced by what a rule for it matches. -/
inductive Rewrites (g : Grammar) : List Symbol → List Symbol → Prop
  | rule {r : Rule} (before behind : List Symbol) : r ∈ g.rules →
      Rewrites g (before ++ .nonterminal r.head :: behind) (before ++ r.matched ++ behind)

/-- A sentential form comes from another by rewriting. -/
def Derives (g : Grammar) : List Symbol → List Symbol → Prop :=
  Relation.ReflTransGen g.Rewrites

/-- What rewrites on its own rewrites within a longer form. -/
theorem Rewrites.within {g : Grammar} {symbols symbols' : List Symbol}
    (h : g.Rewrites symbols symbols') (before behind : List Symbol) :
    g.Rewrites (before ++ symbols ++ behind) (before ++ symbols' ++ behind) := by
  obtain ⟨left, right, hr⟩ := h
  simpa using Rewrites.rule (before ++ left) (right ++ behind) hr

namespace Derives

variable {g : Grammar} {symbols symbols' symbols'' : List Symbol}

theorem refl (symbols : List Symbol) : g.Derives symbols symbols := Relation.ReflTransGen.refl

theorem trans (h : g.Derives symbols symbols') (h' : g.Derives symbols' symbols'') :
    g.Derives symbols symbols'' := Relation.ReflTransGen.trans h h'

theorem within (h : g.Derives symbols symbols') (before behind : List Symbol) :
    g.Derives (before ++ symbols ++ behind) (before ++ symbols' ++ behind) :=
  Relation.ReflTransGen.lift (before ++ · ++ behind)
    (fun _ _ (hstep : g.Rewrites _ _) => hstep.within before behind) _ _ h

theorem of_rule {r : Rule} (hr : r ∈ g.rules) : g.Derives [.nonterminal r.head] r.matched := by
  have hstep := Rewrites.rule [] [] hr
  rw [List.nil_append, List.nil_append, List.append_nil] at hstep
  exact Relation.ReflTransGen.single hstep

theorem append {left left' right right' : List Symbol} (hleft : g.Derives left left')
    (hright : g.Derives right right') : g.Derives (left ++ right) (left' ++ right') := by
  have hfirst := hleft.within [] right
  have hsecond := hright.within left' []
  simp only [List.nil_append, List.append_nil] at hfirst hsecond
  exact hfirst.trans hsecond

end Derives

/-- A rewriting step can be undone in a forest without a change to its leaves. -/
theorem Rewrites.exists_forest {g : Grammar} {symbols symbols' : List Symbol}
    (h : g.Rewrites symbols symbols') {trees : List Tree} (hf : g.Forest symbols' trees) :
    ∃ trees', g.Forest symbols trees' ∧ Tree.leavesOfAll trees' = Tree.leavesOfAll trees := by
  obtain ⟨before, behind, hr⟩ := h
  obtain ⟨front, right, rfl, hfront, hright⟩ := hf.split
  obtain ⟨left, children, rfl, hleft, hchildren⟩ := hfront.split
  exact ⟨_, hleft.append (.node hr hchildren hright), by simp⟩

/-- Terminals with any texts are a forest of leaves. -/
theorem forest_of_terminals (g : Grammar) : ∀ {word : List Terminal} {tokens : List (Nat × String)},
    tokens.map (·.1) = word.map (fun t => g.vocabulary.number (.terminal t)) →
    ∃ trees, g.Forest (word.map .terminal) trees ∧ Tree.leavesOfAll trees = tokens := by
  intro word
  induction word with
  | nil =>
      intro tokens h
      obtain rfl : tokens = [] := by simpa using h
      exact ⟨[], .nil, by simp⟩
  | cons t word ih =>
      intro tokens h
      obtain ⟨⟨number, text⟩, rest, rfl, rfl, hrest⟩ := List.map_eq_cons_iff.1 h
      obtain ⟨trees, hf, rfl⟩ := ih hrest
      exact ⟨_, .leaf t text hf, by simp⟩

/-- A derived string has trees, whatever texts its terminals bear. -/
theorem exists_forest_of_derives {g : Grammar} {symbols : List Symbol} {word : List Terminal}
    (h : g.Derives symbols (word.map .terminal)) {tokens : List (Nat × String)}
    (htokens : tokens.map (·.1) = word.map (fun t => g.vocabulary.number (.terminal t))) :
    ∃ trees, g.Forest symbols trees ∧ Tree.leavesOfAll trees = tokens := by
  induction h using Relation.ReflTransGen.head_induction_on with
  | refl => exact forest_of_terminals g htokens
  | head hstep _ ih =>
      obtain ⟨trees, hf, rfl⟩ := ih
      exact hstep.exists_forest hf

/-- The leaves of trees are derived by the row of their symbols. -/
theorem Forest.exists_derives {g : Grammar} {symbols : List Symbol} {trees : List Tree}
    (h : g.Forest symbols trees) : ∃ word : List Terminal,
      (Tree.leavesOfAll trees).map (·.1) = word.map (fun t => g.vocabulary.number (.terminal t)) ∧
      g.Derives symbols (word.map .terminal) := by
  induction h with
  | nil => exact ⟨[], by simp, .refl []⟩
  | leaf t text _ ih =>
      obtain ⟨word, hleaves, hderives⟩ := ih
      exact ⟨t :: word, by simp [hleaves], (Derives.refl [.terminal t]).append hderives⟩
  | node hr _ _ ihchildren ih =>
      obtain ⟨first, hfirst, hchildren⟩ := ihchildren
      obtain ⟨word, hleaves, hderives⟩ := ih
      refine ⟨first ++ word, by simp [hfirst, hleaves], ?_⟩
      rw [List.map_append]
      exact ((Derives.of_rule hr).trans hchildren).append hderives

end Grammar

end ShiftReduce
