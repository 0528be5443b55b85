import ShiftReduce.Proofs.Automaton.Opening
import ShiftReduce.Proofs.Automaton.Retrace

/-!
# Counting steps

What a parser does depends on its states and on the numbers of the tokens that are left.  Trees and
texts do not enter into it, and of the numbers only the next one does.  `Steps` counts the shifts
and the reductions from one position to another.

* `Steps.le_of_stuck`: no more steps are taken than it takes to get stuck.
* `Steps.of_next`: the steps before a number are the same whatever comes behind it.
* `Retraces.exists_steps_of_cut`: up to a place in trees that are retraced, there are at least as
  many steps as nodes to the left of it.
-/

namespace ShiftReduce

/-! ## Nodes -/

namespace Tree

mutual

/-- How many nodes a tree has, apart from its leaves. -/
def nodeCount : Tree → Nat
  | leaf _ _ => 0
  | node _ children => nodeCountOfAll children + 1

/-- How many nodes some trees have. -/
def nodeCountOfAll : List Tree → Nat
  | [] => 0
  | tree :: rest => tree.nodeCount + nodeCountOfAll rest

end

@[simp] theorem nodeCountOfAll_nil : nodeCountOfAll [] = 0 := by simp [nodeCountOfAll]

@[simp] theorem nodeCountOfAll_leaf (symbol : Nat) (text : String) (trees : List Tree) :
    nodeCountOfAll (leaf symbol text :: trees) = nodeCountOfAll trees := by
  simp [nodeCountOfAll, nodeCount]

@[simp] theorem nodeCountOfAll_node (symbol : Nat) (children trees : List Tree) :
    nodeCountOfAll (node symbol children :: trees) =
      nodeCountOfAll children + nodeCountOfAll trees + 1 := by
  simp only [nodeCountOfAll, nodeCount]
  omega

@[simp] theorem nodeCountOfAll_append (trees trees' : List Tree) :
    nodeCountOfAll (trees ++ trees') = nodeCountOfAll trees + nodeCountOfAll trees' := by
  induction trees with
  | nil => simp
  | cons tree trees ih =>
      simp only [List.cons_append, nodeCountOfAll, ih]
      omega

end Tree

/-- The first of the leaves of some trees, and of what comes behind them, is what leads. -/
theorem Grammar.Leads.exists_rest {g : Grammar} {trees : List Tree} {u v : Terminal}
    (h : g.Leads trees u v) (input : List Nat) : ∃ rest,
      Tree.frontier trees ++ g.vocabulary.number (.terminal u) :: input =
        g.vocabulary.number (.terminal v) :: rest := by
  rcases h with ⟨hnil, rfl⟩ | ⟨text, more, hcons⟩
  · exact ⟨input, by simp [Tree.frontier, hnil]⟩
  · exact ⟨_, by rw [Tree.frontier, hcons]; rfl⟩

namespace Automaton

variable {g : Grammar} {a : Automaton}

/-! ## Steps -/

/-- The states of a parser, the topmost first, and the numbers of the tokens that are left. -/
structure Position where
  states : List Nat
  input : List Nat

/-- A shift, or a reduction and the transition over its head. -/
inductive Step (g : Grammar) (a : Automaton) : Position → Position → Prop
  | shift {p q next : Nat} {t : Terminal} {below input : List Nat} :
      next = g.vocabulary.number (.terminal t) → (a.look p).transition? (.terminal t) = some q →
      Step g a ⟨p :: below, next :: input⟩ ⟨q :: p :: below, input⟩
  | reduce {top p q next : Nat} {t : Terminal} {r : Rule} {states below input : List Nat} :
      next = g.vocabulary.number (.terminal t) → (a.look top).reduce? t = some r →
      (top :: states).drop r.arity = p :: below →
      (a.look p).transition? (.nonterminal r.head) = some q →
      Step g a ⟨top :: states, next :: input⟩ ⟨q :: p :: below, next :: input⟩

/-- A number of steps from one position to another. -/
inductive Steps (g : Grammar) (a : Automaton) : Nat → Position → Position → Prop
  | refl {x : Position} : Steps g a 0 x x
  | head {count : Nat} {x y z : Position} : Step g a x y → Steps g a count y z →
      Steps g a (count + 1) x z

/-- No step can be taken. -/
def Stuck (g : Grammar) (a : Automaton) (x : Position) : Prop := ∀ y, ¬ Step g a x y

/-- A position allows of one step at most. -/
theorem Step.unique (ha : a.Consistent g) {x y z : Position} (h : Step g a x y)
    (h' : Step g a x z) : y = z := by
  cases h with
  | @shift p q _ t _ _ ht hq =>
      cases h' with
      | shift ht' hq' =>
          obtain rfl := Vocabulary.number_terminal_inj (ht.symm.trans ht')
          rw [Option.some.inj (hq.symm.trans hq')]
      | reduce ht' hr =>
          obtain rfl := Vocabulary.number_terminal_inj (ht.symm.trans ht')
          rw [(ha.settled p).transition?_of_reduce? hr] at hq
          contradiction
  | @reduce top p q _ t r _ _ _ ht hr hdrop hq =>
      cases h' with
      | shift ht' hq' =>
          obtain rfl := Vocabulary.number_terminal_inj (ht.symm.trans ht')
          rw [(ha.settled top).transition?_of_reduce? hr] at hq'
          contradiction
      | reduce ht' hr' hdrop' hq' =>
          obtain rfl := Vocabulary.number_terminal_inj (ht.symm.trans ht')
          obtain rfl := Option.some.inj (hr.symm.trans hr')
          obtain ⟨rfl, rfl⟩ := List.cons.inj (hdrop.symm.trans hdrop')
          rw [Option.some.inj (hq.symm.trans hq')]

namespace Steps

variable {m n : Nat} {x y z : Position}

theorem trans (h : Steps g a m x y) (h' : Steps g a n y z) : Steps g a (m + n) x z := by
  induction h with
  | refl => rwa [Nat.zero_add]
  | head hstep _ ih =>
      rw [Nat.add_right_comm]
      exact .head hstep (ih h')

/-- No more steps are taken than it takes to get stuck. -/
theorem le_of_stuck (ha : a.Consistent g) (h : Steps g a m x y) (h' : Steps g a n x z)
    (hstuck : Stuck g a z) : m ≤ n := by
  induction h generalizing n with
  | refl => exact Nat.zero_le n
  | head hstep _ ih =>
      cases h' with
      | refl => exact absurd hstep (hstuck _)
      | head hstep' h' => exact Nat.succ_le_succ (ih (hstep.unique ha hstep' ▸ h'))

/-- The input is taken from the front. -/
theorem exists_prefix (h : Steps g a n x y) : ∃ taken, x.input = taken ++ y.input := by
  induction h with
  | refl => exact ⟨[], rfl⟩
  | head hstep _ ih =>
      obtain ⟨taken, htaken⟩ := ih
      cases hstep with
      | shift _ _ => exact ⟨_ :: taken, congrArg (_ :: ·) htaken⟩
      | reduce _ _ _ _ => exact ⟨taken, htaken⟩

/-- The steps before a number are the same whatever comes behind it. -/
theorem of_next {states states' taken rest : List Nat} {next : Nat}
    (h : Steps g a n ⟨states, taken ++ next :: rest⟩ ⟨states', next :: rest⟩)
    (rest' : List Nat) :
    Steps g a n ⟨states, taken ++ next :: rest'⟩ ⟨states', next :: rest'⟩ := by
  generalize hx : Position.mk states (taken ++ next :: rest) = x at h
  generalize hy : Position.mk states' (next :: rest) = y at h
  induction h generalizing states taken with
  | refl =>
      subst hy
      obtain ⟨rfl, hinput⟩ := Position.mk.inj hx
      obtain rfl : taken = [] := by simpa using hinput
      exact .refl
  | head hstep hsteps ih =>
      subst hy
      obtain ⟨taken', htaken'⟩ := hsteps.exists_prefix
      cases hstep with
      | @shift _ _ number _ _ input ht hq =>
          obtain ⟨rfl, hinput⟩ := Position.mk.inj hx
          obtain rfl : input = taken' ++ next :: rest := htaken'
          rw [← List.cons_append] at hinput
          obtain rfl : taken = number :: taken' := List.append_cancel_right hinput
          exact .head (.shift ht hq) (ih rfl rfl)
      | @reduce _ _ _ number _ _ _ _ _ ht hr hdrop hq =>
          obtain ⟨rfl, hinput⟩ := Position.mk.inj hx
          -- A reduction sees the next number, and that is the same in both inputs.
          obtain ⟨input', hinput'⟩ : ∃ input', taken ++ next :: rest' = number :: input' := by
            cases taken with
            | nil => exact ⟨rest', congrArg (· :: rest') (List.cons.inj hinput).1⟩
            | cons first taken =>
                exact ⟨_, congrArg (· :: (taken ++ next :: rest')) (List.cons.inj hinput).1⟩
          have hrest := ih (congrArg (Position.mk _) hinput) rfl
          rw [hinput'] at hrest ⊢
          exact .head (.reduce ht hr hdrop hq) hrest

end Steps

/-! ## Steps along trees -/

/-- A row of trees that are retraced may be cut between two of them. -/
theorem Retraces.split_trees {calls : Terminal → Prop} {u : Terminal} {states states' : List Nat}
    {symbols : List Symbol} {left right : List Tree}
    (h : Retraces g a calls u states symbols (left ++ right) states') :
    ∃ v mid symbols₁ symbols₂, g.Leads right u v ∧ Retraces g a calls v states symbols₁ left mid ∧
      Retraces g a calls u mid symbols₂ right states' := by
  have hlength := h.forest.length_eq
  rw [List.length_append] at hlength
  rw [← List.take_append_drop left.length symbols] at h
  obtain ⟨left', right', v, mid, htrees, hv, hleft, hright⟩ := h.split
  have hleft' : left.length = left'.length := by
    rw [hleft.forest.length_eq, List.length_take]
    omega
  obtain ⟨rfl, rfl⟩ := List.append_inj htrees hleft'
  exact ⟨v, mid, _, _, hv, hleft, hright⟩

/-- Trees that are retraced take a step for each of their nodes, and more for their leaves. -/
theorem Retraces.exists_steps {u : Terminal} {states states' : List Nat} {symbols : List Symbol}
    {trees : List Tree} (h : Retraces g a (fun _ => True) u states symbols trees states') :
    ∀ input : List Nat, ∃ count, Tree.nodeCountOfAll trees ≤ count ∧ Steps g a count
      ⟨states, Tree.frontier trees ++ g.vocabulary.number (.terminal u) :: input⟩
      ⟨states', g.vocabulary.number (.terminal u) :: input⟩ := by
  induction h with
  | nil =>
      intro input
      exact ⟨0, by simp, by simpa using Steps.refl⟩
  | leaf hq _ ih =>
      intro input
      obtain ⟨count, hcount, hsteps⟩ := ih input
      refine ⟨count + 1, by simpa using hcount.trans (Nat.le_succ count), ?_⟩
      rw [Tree.frontier_leaf]
      exact .head (.shift rfl hq) hsteps
  | node _ hleads hchildren hreduce hq _ ihchildren ih =>
      intro input
      obtain ⟨rest, hrest⟩ := hleads.exists_rest input
      obtain ⟨count, hcount, hsteps⟩ := ihchildren rest
      obtain ⟨more, hmore, hafter⟩ := ih input
      have hdrop := hchildren.spells.drop_eq
      rw [Rule.length_matched] at hdrop
      rw [hrest] at hafter
      refine ⟨count + (more + 1), ?_, ?_⟩
      · rw [Tree.nodeCountOfAll_node]
        omega
      · rw [Tree.frontier_node, List.append_assoc, hrest]
        exact hsteps.trans (.head (.reduce rfl (hreduce trivial) hdrop hq) hafter)

/-- Up to a place in trees that are retraced, there are at least as many steps as nodes to the left
of it. -/
theorem Retraces.exists_steps_of_cut {trees left : List Tree} {behind : List Nat}
    (hcut : Tree.Cut trees left behind) :
    ∀ {u : Terminal} {states states' : List Nat} {symbols : List Symbol},
      Retraces g a (fun _ => True) u states symbols trees states' →
      ∀ input : List Nat, ∃ count mid, Tree.nodeCountOfAll left ≤ count ∧ Steps g a count
        ⟨states, Tree.frontier left ++ (behind ++ g.vocabulary.number (.terminal u) :: input)⟩
        ⟨mid, behind ++ g.vocabulary.number (.terminal u) :: input⟩ := by
  induction hcut with
  | between left right =>
      intro u states states' symbols h input
      obtain ⟨v, mid, _, _, hleads, hleft, -⟩ := h.split_trees
      obtain ⟨rest, hrest⟩ := hleads.exists_rest input
      obtain ⟨count, hcount, hsteps⟩ := hleft.exists_steps rest
      rw [← hrest] at hsteps
      exact ⟨count, mid, hcount, hsteps⟩
  | @within children inner behind left right symbol hcut ih =>
      intro u states states' symbols h input
      obtain ⟨v, mid, _, _, hleads, hleft, hright⟩ := h.split_trees
      cases hright with
      | node _ hfirst hchildren =>
          -- The steps within the node come after those for the trees before it.
          obtain ⟨rest, hrest⟩ := hleads.exists_rest input
          obtain ⟨count, hcount, hbefore⟩ := hleft.exists_steps rest
          obtain ⟨rest', hrest'⟩ := hfirst.exists_rest input
          obtain ⟨more, states'', hmore, hwithin⟩ := ih hchildren rest'
          refine ⟨count + more, states'', ?_, ?_⟩
          · rw [Tree.nodeCountOfAll_append]
            omega
          · rw [← hrest, Tree.frontier_node, hcut.frontier_eq] at hbefore
            rw [← hrest'] at hwithin
            simp only [Tree.frontier_append, List.append_assoc] at hbefore hwithin ⊢
            exact hbefore.trans hwithin

end Automaton

end ShiftReduce
