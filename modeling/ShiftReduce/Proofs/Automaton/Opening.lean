import ShiftReduce.Proofs.Automaton.ViablePrefix
import ShiftReduce.Proofs.Grammar.Rightmost

/-!
# How a tree of the start symbol may open

If every nonterminal derives a terminal string, then any trees for what a path of the automaton
spells, and for a nonterminal that may come next, can stand at the left in a tree of the start
symbol (`Path.opens`).

## Strategy

The trees of the path are closed from the top.  The nonterminal comes next in an item of the last
state: it stands behind what the item has moved over, and for the rest of the production there are
trees.  Together they make a node for the head, which comes next in an item further down.

A place in a tree is described by what stands to the left of it (`Tree.Cut`).
-/

namespace ShiftReduce

/-! ## Places in a tree -/

namespace Tree

/-- The numbers of the leaves of some trees. -/
def frontier (trees : List Tree) : List Nat := (leavesOfAll trees).map (·.1)

@[simp] theorem frontier_nil : frontier [] = [] := by simp [frontier]

@[simp] theorem frontier_leaf (symbol : Nat) (text : String) (trees : List Tree) :
    frontier (leaf symbol text :: trees) = symbol :: frontier trees := by simp [frontier]

@[simp] theorem frontier_node (symbol : Nat) (children trees : List Tree) :
    frontier (node symbol children :: trees) = frontier children ++ frontier trees := by
  simp [frontier]

@[simp] theorem frontier_append (trees trees' : List Tree) :
    frontier (trees ++ trees') = frontier trees ++ frontier trees' := by simp [frontier]

/-- A row of trees is cut at a place, which may be within one of them: the trees that stand to the
left of it, each as a whole, and the numbers of the leaves behind it. -/
inductive Cut : List Tree → List Tree → List Nat → Prop
  | between (left right : List Tree) : Cut (left ++ right) left (frontier right)
  | within {children inner : List Tree} {behind : List Nat} (left right : List Tree)
      (symbol : Nat) : Cut children inner behind →
      Cut (left ++ node symbol children :: right) (left ++ inner) (behind ++ frontier right)

namespace Cut

variable {trees left : List Tree} {behind : List Nat}

/-- What is left and what is behind are all leaves. -/
theorem frontier_eq (h : Cut trees left behind) : frontier trees = frontier left ++ behind := by
  induction h with
  | between left right => simp
  | within left right symbol _ ih => simp [ih]

/-- More trees on either side. -/
theorem extend (h : Cut trees left behind) (before after : List Tree) :
    Cut (before ++ trees ++ after) (before ++ left) (behind ++ frontier after) := by
  cases h with
  | between left right =>
      have hcut := between (before ++ left) (right ++ after)
      simpa using hcut
  | within left right symbol h =>
      have hcut := within (before ++ left) (right ++ after) symbol h
      simpa using hcut

/-- The row becomes the children of a node. -/
theorem node (h : Cut trees left behind) (symbol : Nat) :
    Cut [.node symbol trees] left behind := by
  have hcut := within [] [] symbol h
  simpa using hcut

end Cut

end Tree

namespace Grammar

variable {g : Grammar}

/-- Trees stand at the left in a tree of the start symbol. -/
def Opens (g : Grammar) (left : List Tree) : Prop :=
  ∃ tree behind, g.Forest [.nonterminal g.startSymbol] [tree] ∧ Tree.Cut [tree] left behind

/-- In a grammar whose nonterminals derive terminal strings, declared symbols have trees. -/
theorem Productive.exists_forest (h : g.Productive) {symbols : List Symbol}
    (hsymbols : ∀ x ∈ symbols, g.vocabulary.Declares x) : ∃ trees, g.Forest symbols trees := by
  obtain ⟨word, hderives⟩ := h.exists_derives hsymbols
  have htokens : (word.map fun t => (g.vocabulary.number (.terminal t), "")).map (·.1) =
      word.map fun t => g.vocabulary.number (.terminal t) := by
    rw [List.map_map]
    rfl
  obtain ⟨trees, hf, -⟩ := exists_forest_of_derives hderives htokens
  exact ⟨trees, hf⟩

end Grammar

/-- A tree for what comes next in an item, and trees for what the item has moved over, are among
trees for all that the production matches. -/
theorem exists_row_of_next? {g : Grammar} (hg : g.WellFormed) (hproductive : g.Productive)
    {d : DottedRule} (hd : d.rule ∈ g.allRules) {n : Nonterminal}
    (hnext : d.next? = some (.nonterminal n)) {upper inner : List Tree} {tree : Tree}
    {behind : List Nat} (hupper : g.Forest (d.rule.body.take d.marker) upper)
    (htree : g.Forest [.nonterminal n] [tree]) (hcut : Tree.Cut [tree] inner behind) :
    ∃ row behind', g.Forest d.rule.matched row ∧ Tree.Cut row (upper ++ inner) behind' := by
  obtain ⟨rest, hrest⟩ : ∃ rest, g.Forest (d.rule.body.drop (d.marker + 1)) rest :=
    hproductive.exists_forest fun x hx =>
      hg.declares_of_mem_body hd (List.mem_of_mem_drop hx)
  refine ⟨_, _, ?_, hcut.extend upper rest⟩
  rw [DottedRule.matched_eq_body hg hd hnext (by simp), DottedRule.body_of_next? hnext,
    List.append_assoc]
  exact hupper.append (htree.append hrest)

/-! ## Paths -/

namespace Automaton.Path

variable {g : Grammar} {a : Automaton} {p : Nat} {below : List Nat} {spelled : List Symbol}
  {n : Nonterminal}

/-- All symbols of a path are declared. -/
theorem declares (hg : g.WellFormed) (ha : a.Consistent g) {states : List Nat}
    (h : Path a states spelled) : ∀ x ∈ spelled, g.vocabulary.Declares x := by
  induction h with
  | start => simp
  | step _ hx ih => exact List.forall_mem_cons.2 ⟨ha.declares_of_transition? hg hx, ih⟩

variable (hg : g.WellFormed) (ha : a.Consistent g) (hproductive : g.Productive)

include hg ha hproductive

/-- A tree for an awaited nonterminal stands behind the trees of the path in a tree of the start
symbol.  The place may as well be within the tree. -/
theorem opens_of_awaited (h : Path a (p :: below) spelled) (hn : Awaited g (a.look p).kernel n)
    {left inner : List Tree} {tree : Tree} {behind : List Nat}
    (hleft : g.Forest spelled.reverse left) (htree : g.Forest [.nonterminal n] [tree])
    (hcut : Tree.Cut [tree] inner behind) : g.Opens (left ++ inner) := by
  -- The node that is made is awaited further down the path, or here for fewer reasons.
  induction hlength : spelled.length using Nat.strong_induction_on
    generalizing p below spelled n left inner tree behind with
  | _ length ihpath =>
      subst hlength
      induction hn generalizing inner tree behind with
      | @kernel d n hd hnext =>
          obtain ⟨r, marker⟩ := d
          have hr : r ∈ g.allRules := (ha.shaped.kernel_of p _ hd).1
          obtain ⟨p', below', spelled', hspelled, -, hpath, hp', -⟩ := h.unwind ha (.inl hd)
          rw [hspelled, List.reverse_append, List.reverse_reverse] at hleft
          obtain ⟨lower, upper, rfl, hlower, hupper⟩ := hleft.split
          obtain ⟨row, behind', hrow, hwithin⟩ :=
            exists_row_of_next? hg hproductive hr hnext hupper htree hcut
          rw [List.append_assoc]
          by_cases haccept : r.head = .accept
          · -- The accepting production matches the start symbol.
            obtain rfl := hg.eq_acceptRule hr haccept
            obtain ⟨-, rfl⟩ := hpath.eq_acceptRule ha (ha.mem_kernel_of_acceptRule hg hp' rfl)
            cases hlower
            obtain ⟨root, rfl⟩ := hrow.exists_eq_singleton
            exact ⟨root, behind', hrow, hwithin⟩
          · have hnot : ∀ {q states symbols}, Path a (q :: states) symbols →
                ⟨r, 0⟩ ∉ (a.look q).kernel := by
              intro q states symbols hq hmem
              exact haccept (congrArg Rule.head (hq.eq_acceptRule ha hmem).1)
            have hawaited : Awaited g (a.look p').kernel r.head :=
              (hp'.resolve_left (hnot hpath)).2.2
            have hshorter : spelled'.length < spelled.length := by
              have hmarker : marker ≠ 0 := by
                rintro rfl
                exact hnot h hd
              have hlt : marker < r.body.length := (List.getElem?_eq_some_iff.1 hnext).1
              rw [hspelled, List.length_append, List.length_reverse, List.length_take]
              omega
            have hnode := Grammar.Forest.node (Grammar.WellFormed.mem_rules_of_head_ne hr haccept)
              hrow .nil
            exact ihpath _ hshorter hpath hawaited hlower hnode (hwithin.node _) rfl
      | @rule m n r rest hm hr hbody ih =>
          obtain ⟨hmem, rfl⟩ := g.mem_productionsOf.1 hr
          have hnext : (⟨r, 0⟩ : DottedRule).next? = some (.nonterminal n) := by
            simp [DottedRule.next?, hbody]
          have haccept : r.head ≠ .accept := by
            intro haccept
            have hdeclares := Expansion.declares_of_awaited hg
              (fun d hd => (ha.shaped.kernel_of p d hd).1) hm
            exact g.vocabulary.not_declares_accept (haccept ▸ hdeclares)
          obtain ⟨row, behind', hrow, hwithin⟩ :=
            exists_row_of_next? hg hproductive hmem hnext .nil htree hcut
          have hnode := Grammar.Forest.node (Grammar.WellFormed.mem_rules_of_head_ne hmem haccept)
            hrow .nil
          exact ih hnode (hwithin.node _)

/-- Trees for a path, and for a nonterminal over which it goes on, stand at the left in a tree of
the start symbol. -/
theorem opens (h : Path a (p :: below) spelled) {q : Nat}
    (hq : (a.look p).transition? (.nonterminal n) = some q) {trees : List Tree}
    (hf : g.Forest (spelled.reverse ++ [.nonterminal n]) trees) : g.Opens trees := by
  obtain ⟨left, right, rfl, hleft, hright⟩ := hf.split
  obtain ⟨tree, rfl⟩ := hright.exists_eq_singleton
  obtain ⟨-, d, hd, hnext⟩ := ha.shaped.next p _ q (ha.transition?_eq_some_iff.1 hq)
  exact h.opens_of_awaited hg ha hproductive (hd.awaited hnext) hleft hright
    (.between [tree] [])

end Automaton.Path

end ShiftReduce
