import ShiftReduce.Proofs.Automaton.Path
import ShiftReduce.Proofs.FirstFollow.Derivation

/-!
# Retracing trees

An automaton retraces a row of trees from a stack of states when it has a transition over the
root of each of them, and reduces the production of each node once its children have been
retraced.  `Automaton.Retraces` says so without a parser: which terminal a reduction sees is
read off the trees, since it is the first leaf behind the node.

The relation has a parameter, the terminals before which reductions are asked for.  With all
terminals it is what a parser does; with fewer of them it says where a parser might fail.

* `Retraces.append`, `Retraces.split`: rows of trees may be joined and cut.
* `Retraces.forest`, `Retraces.spells`: what it takes apart from the reductions.
-/

namespace ShiftReduce

/-! ## What comes first -/

namespace Grammar.Leads

variable {g : Grammar} {trees trees' : List Tree} {behind first first' : Terminal}

theorem nil : g.Leads [] behind behind := .inl ⟨Tree.leavesOfAll_nil, rfl⟩

/-- What comes first in two rows of trees is what comes first in the first of them when it is
followed by the second. -/
theorem append (h : g.Leads trees first first') (h' : g.Leads trees' behind first) :
    g.Leads (trees ++ trees') behind first' := by
  rcases h with ⟨hnil, rfl⟩ | ⟨text, rest, hcons⟩
  · rcases h' with ⟨hnil', rfl⟩ | ⟨text, rest, hcons'⟩
    · exact .inl ⟨by simp [hnil, hnil'], rfl⟩
    · exact .inr ⟨text, rest, by simp [hnil, hcons']⟩
  · exact .inr ⟨text, rest ++ Tree.leavesOfAll trees', by simp [hcons]⟩

theorem of_append (h : g.Leads (trees ++ trees') behind first')
    (h' : g.Leads trees' behind first) : g.Leads trees first first' := by
  rcases hl : Tree.leavesOfAll trees with _ | ⟨leaf, rest⟩
  · refine .inl ⟨hl, ?_⟩
    rcases h with ⟨hnil, rfl⟩ | ⟨text, more, hcons⟩
    · rw [Tree.leavesOfAll_append, hl, List.nil_append] at hnil
      exact (h'.eq_of_leaves_eq_nil hnil).symm
    · rw [Tree.leavesOfAll_append, hl, List.nil_append] at hcons
      rcases h' with ⟨hnil', -⟩ | ⟨text', more', hcons'⟩
      · simp [hnil'] at hcons
      · rw [hcons'] at hcons
        exact (Vocabulary.number_terminal_inj (v := g.vocabulary)
          (congrArg Prod.fst (List.cons.inj hcons).1)).symm
  · rcases h with ⟨hnil, -⟩ | ⟨text, more, hcons⟩
    · simp [hl] at hnil
    · rw [Tree.leavesOfAll_append, hl, List.cons_append, List.cons.injEq] at hcons
      exact .inr ⟨text, rest, hcons.1 ▸ hl⟩

/-- The first leaf of a node is that of its children. -/
theorem node_iff {symbol : Nat} : g.Leads [.node symbol trees] behind first ↔
    g.Leads trees behind first := by
  simp [Leads]

end Grammar.Leads

namespace Automaton

/-! ## Retracing -/

/-- The automaton retraces trees over their symbols, from one stack of states to another.  The
terminal comes after the trees, and `calls` holds of the terminals before which reductions are
asked for. -/
inductive Retraces (g : Grammar) (a : Automaton) (calls : Terminal → Prop) :
    Terminal → List Nat → List Symbol → List Tree → List Nat → Prop
  | nil {u : Terminal} {states : List Nat} : Retraces g a calls u states [] [] states
  | leaf {u t : Terminal} {text : String} {p q : Nat} {states states' : List Nat}
      {symbols : List Symbol} {trees : List Tree} :
      (a.look p).transition? (.terminal t) = some q →
      Retraces g a calls u (q :: p :: states) symbols trees states' →
      Retraces g a calls u (p :: states) (.terminal t :: symbols)
        (.leaf (g.vocabulary.number (.terminal t)) text :: trees) states'
  | node {u v : Terminal} {r : Rule} {p q top : Nat} {states below states' : List Nat}
      {symbols : List Symbol} {children trees : List Tree} :
      r ∈ g.rules → g.Leads trees u v →
      Retraces g a calls v (p :: states) r.matched children (top :: below) →
      (calls v → (a.look top).reduce? v = some r) →
      (a.look p).transition? (.nonterminal r.head) = some q →
      Retraces g a calls u (q :: p :: states) symbols trees states' →
      Retraces g a calls u (p :: states) (.nonterminal r.head :: symbols)
        (.node (g.vocabulary.number (.nonterminal r.head)) children :: trees) states'

namespace Retraces

variable {g : Grammar} {a : Automaton} {calls : Terminal → Prop} {u v : Terminal}
  {states mid states' : List Nat} {symbols symbols' : List Symbol} {trees trees' : List Tree}

theorem forest (h : Retraces g a calls u states symbols trees states') :
    g.Forest symbols trees := by
  induction h with
  | nil => exact .nil
  | leaf _ _ ih => exact .leaf _ _ ih
  | node hr _ _ _ _ _ ihchildren ih => exact .node hr ihchildren ih

/-- Retracing trees is spelling their symbols. -/
theorem spells (h : Retraces g a calls u states symbols trees states') :
    Spells a states symbols states' := by
  induction h with
  | nil => exact .nil
  | leaf hq _ ih => exact .cons hq ih
  | node _ _ _ _ hq _ _ ih => exact .cons hq ih

/-- Fewer reductions may be asked for. -/
theorem mono {calls' : Terminal → Prop} (hcalls : ∀ t, calls' t → calls t)
    (h : Retraces g a calls u states symbols trees states') :
    Retraces g a calls' u states symbols trees states' := by
  induction h with
  | nil => exact .nil
  | leaf hq _ ih => exact .leaf hq ih
  | node hr hleads _ hreduce hq _ ihchildren ih =>
      exact .node hr hleads ihchildren (fun hv => hreduce (hcalls _ hv)) hq ih

/-- Rows of trees may be joined. -/
theorem append (h : Retraces g a calls v states symbols trees mid)
    (hleads : g.Leads trees' u v) (h' : Retraces g a calls u mid symbols' trees' states') :
    Retraces g a calls u states (symbols ++ symbols') (trees ++ trees') states' := by
  induction h with
  | nil => exact h'
  | leaf hq _ ih => exact .leaf hq (ih hleads h')
  | node hr hfirst hchildren hreduce hq _ _ ih =>
      exact .node hr (hfirst.append hleads) hchildren hreduce hq (ih hleads h')

/-- A row of trees may be cut. -/
theorem split (h : Retraces g a calls u states (symbols ++ symbols') trees states') :
    ∃ left right v mid, trees = left ++ right ∧ g.Leads right u v ∧
      Retraces g a calls v states symbols left mid ∧
      Retraces g a calls u mid symbols' right states' := by
  induction symbols generalizing states trees with
  | nil =>
      obtain ⟨v, hv⟩ := h.forest.exists_leads u
      exact ⟨[], trees, v, states, rfl, hv, .nil, h⟩
  | cons x symbols ih =>
      rw [List.cons_append] at h
      cases h with
      | leaf hq h =>
          obtain ⟨left, right, v, mid, rfl, hv, hleft, hright⟩ := ih h
          exact ⟨_, right, v, mid, rfl, hv, .leaf hq hleft, hright⟩
      | node hr hleads hchildren hreduce hq h =>
          obtain ⟨left, right, v, mid, rfl, hv, hleft, hright⟩ := ih h
          exact ⟨_, right, v, mid, rfl, hv,
            .node hr (hleads.of_append hv) hchildren hreduce hq hleft, hright⟩

end Retraces

end Automaton

end ShiftReduce
