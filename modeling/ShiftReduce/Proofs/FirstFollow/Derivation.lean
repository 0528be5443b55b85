import ShiftReduce.Proofs.FirstFollow.Limit
import ShiftReduce.Proofs.Grammar.Derivation

/-!
# FIRST and FOLLOW miss nothing

Sets that are `FirstFollow.Closed` know how derived strings begin and how they go on:

* the first leaf of a tree is in FIRST of its root (`mem_firstOf_of_leaf`);
* the root of a tree without leaves has the blank in FIRST, and all of its FOLLOW
  (`blank_mem_firstOf`, `mem_first_of_mem_follow`);
* in the body of a production, what comes first behind a place is in FIRST of the symbol
  at that place, even if that symbol and many after it vanish (`mem_firstOf_of_leads`).

The last statement is why the generator can do with FIRST of a single symbol.  It needs
whatever follows the body to be in FOLLOW of the head.
-/

namespace ShiftReduce

/-- What comes first when trees are followed by a terminal: their first leaf, or that
terminal if they have none. -/
def Grammar.Leads (g : Grammar) (trees : List Tree) (behind first : Terminal) : Prop :=
  (Tree.leavesOfAll trees = [] ∧ first = behind) ∨
    ∃ text rest, Tree.leavesOfAll trees = (g.vocabulary.number (.terminal first), text) :: rest

namespace Grammar.Forest

variable {g : Grammar} {symbols : List Symbol} {trees : List Tree}

/-- The leaves of a forest are terminals. -/
theorem exists_leaf_eq (h : g.Forest symbols trees) : ∀ leaf ∈ Tree.leavesOfAll trees,
    ∃ t text, leaf = (g.vocabulary.number (.terminal t), text) := by
  induction h with
  | nil => intro leaf hleaf; simp at hleaf
  | leaf t text _ ih =>
      intro leaf hleaf
      rw [Tree.leavesOfAll_cons, Tree.leaves_leaf, List.singleton_append, List.mem_cons] at hleaf
      rcases hleaf with rfl | hleaf
      · exact ⟨t, text, rfl⟩
      · exact ih leaf hleaf
  | node _ _ _ ihchildren ih =>
      intro leaf hleaf
      rw [Tree.leavesOfAll_cons, Tree.leaves_node, List.mem_append] at hleaf
      exact hleaf.elim (ihchildren leaf) (ih leaf)

theorem exists_leads (h : g.Forest symbols trees) (behind : Terminal) :
    ∃ first, g.Leads trees behind first := by
  rcases hl : Tree.leavesOfAll trees with _ | ⟨leaf, rest⟩
  · exact ⟨behind, .inl ⟨hl, rfl⟩⟩
  · obtain ⟨t, text, rfl⟩ := h.exists_leaf_eq leaf (hl ▸ List.mem_cons_self)
    exact ⟨t, .inr ⟨text, rest, hl⟩⟩

end Grammar.Forest

theorem Grammar.Leads.eq_of_leaves_eq_nil {g : Grammar} {trees : List Tree}
    {behind first : Terminal} (h : g.Leads trees behind first)
    (hl : Tree.leavesOfAll trees = []) : first = behind := by
  obtain ⟨-, hfirst⟩ | ⟨text, rest, hcons⟩ := h
  · exact hfirst
  · simp [hl] at hcons

namespace FirstFollow

variable {g : Grammar} {s : FirstFollow}

/-! ## Bodies -/

theorem mem_ofBody_cons {blank t : Terminal} {beyond : OrderedSet Terminal} {x : Symbol}
    {rest : List Symbol} (h : t ∈ s.firstOf x) : t ∈ s.ofBody blank beyond (x :: rest) := by
  unfold ofBody
  split
  · exact OrderedSet.mem_union.2 (.inl h)
  · exact h

theorem mem_ofBody_of_rest {blank t : Terminal} {beyond : OrderedSet Terminal} {x : Symbol}
    {rest : List Symbol} (hx : blank ∈ s.firstOf x) (h : t ∈ s.ofBody blank beyond rest) :
    t ∈ s.ofBody blank beyond (x :: rest) := by
  unfold ofBody
  rw [if_pos hx]
  exact OrderedSet.mem_union.2 (.inr h)

/-- A body whose matched symbols all have the blank in FIRST has it in all of its symbols. -/
theorem blank_mem_of_matched (hg : g.WellFormed) {r : Rule} (hr : r ∈ g.allRules)
    (h : ∀ x ∈ r.matched, g.blank ∈ s.firstOf x) : ∀ x ∈ r.body, g.blank ∈ s.firstOf x := by
  intro x hx
  unfold Rule.matched at h
  split at h
  · rename_i hepsilon
    rw [(hg.isEpsilon_iff_of_mem hr).1 hepsilon, List.mem_singleton] at hx
    exact hx ▸ OrderedSet.mem_single.2 rfl
  · exact h x hx

/-- If all that a production matches has the blank in FIRST, then so has its head. -/
theorem Closed.blank_mem_head (hs : s.Closed g) (hg : g.WellFormed) {r : Rule}
    (hr : r ∈ g.allRules) (h : ∀ x ∈ r.matched, g.blank ∈ s.firstOf x) :
    g.blank ∈ s.first.get r.head := by
  have hbody := blank_mem_of_matched hg hr h
  obtain ⟨x, rest, hx⟩ := List.exists_cons_of_ne_nil (hg.ne_nil_of_mem hr)
  exact hs.first r hr g.blank (hx ▸ mem_ofBody_cons (hbody x (hx ▸ List.mem_cons_self)))

/-- If all that a production matches has the blank in FIRST, then FIRST of its head has all of its
FOLLOW. -/
theorem Closed.mem_head_of_mem_follow (hs : s.Closed g) (hg : g.WellFormed) {r : Rule}
    (hr : r ∈ g.allRules) (h : ∀ x ∈ r.matched, g.blank ∈ s.firstOf x) {t : Terminal}
    (ht : t ∈ s.follow.get r.head) : t ∈ s.first.get r.head :=
  hs.first r hr t (mem_ofBody.2 (.inr ⟨blank_mem_of_matched hg hr h, ht⟩))

/-! ## Trees without leaves -/

/-- A symbol that derives nothing has the blank in FIRST. -/
theorem Closed.blank_mem_firstOf (hs : s.Closed g) (hg : g.WellFormed) {symbols : List Symbol}
    {trees : List Tree} (h : g.Forest symbols trees) (hl : Tree.leavesOfAll trees = []) :
    ∀ x ∈ symbols, g.blank ∈ s.firstOf x := by
  induction h with
  | nil => intro x hx; contradiction
  | leaf t text _ _ => simp at hl
  | @node r children _ _ hr _ _ ihchildren ih =>
      rw [Tree.leavesOfAll_cons, Tree.leaves_node, List.append_eq_nil_iff] at hl
      have hhead := hs.blank_mem_head hg (Grammar.mem_allRules_of_mem hr) (ihchildren hl.1)
      exact List.forall_mem_cons.2 ⟨hhead, ih hl.2⟩

/-- FOLLOW of a nonterminal that derives nothing is part of its FIRST. -/
theorem Closed.mem_first_of_mem_follow (hs : s.Closed g) (hg : g.WellFormed) {n : Nonterminal}
    {tree : Tree} (h : g.Forest [.nonterminal n] [tree]) (hl : tree.leaves = []) {t : Terminal}
    (ht : t ∈ s.follow.get n) : t ∈ s.first.get n := by
  cases h with
  | @node r children _ _ hr hchildren _ =>
      rw [Tree.leaves_node] at hl
      exact hs.mem_head_of_mem_follow hg (Grammar.mem_allRules_of_mem hr)
        (hs.blank_mem_firstOf hg hchildren hl) ht

/-! ## The first leaf -/

/-- The first leaf of a forest is among what its symbols lend. -/
theorem Closed.mem_ofBody_of_leaf (hs : s.Closed g) (hg : g.WellFormed) {symbols : List Symbol}
    {trees : List Tree} (h : g.Forest symbols trees) {t : Terminal} {text : String}
    {rest : List (Nat × String)}
    (hl : Tree.leavesOfAll trees = (g.vocabulary.number (.terminal t), text) :: rest)
    (beyond : OrderedSet Terminal) : t ∈ s.ofBody g.blank beyond symbols := by
  induction h generalizing rest beyond with
  | nil => simp at hl
  | leaf u _ _ _ =>
      rw [Tree.leavesOfAll_cons, Tree.leaves_leaf, List.singleton_append, List.cons.injEq,
        Prod.mk.injEq] at hl
      obtain rfl := Vocabulary.number_terminal_inj hl.1.1
      exact mem_ofBody_cons (OrderedSet.mem_single.2 rfl)
  | @node r children symbols trees hr hchildren _ ihchildren ih =>
      rw [Tree.leavesOfAll_cons, Tree.leaves_node] at hl
      rcases hc : Tree.leavesOfAll children with _ | ⟨leaf, more⟩
      · -- The node derives nothing, so the leaf comes from the trees behind it.
        rw [hc, List.nil_append] at hl
        have hnode := hs.blank_mem_firstOf hg (.node hr hchildren .nil) (by simpa using hc)
        exact mem_ofBody_of_rest (hnode _ List.mem_cons_self) (ih hl beyond)
      · -- The leaf is one of the node, whose production is not blank then.
        rw [hc, List.cons_append, List.cons.injEq] at hl
        have hmatched := ihchildren (hl.1 ▸ hc) (s.follow.get r.head)
        have hbody : r.matched = r.body := by
          apply Rule.matched_eq_body
          intro hnil
          rw [hnil] at hchildren
          cases hchildren
          simp at hc
        exact mem_ofBody_cons (hs.first r (Grammar.mem_allRules_of_mem hr) t (hbody ▸ hmatched))

/-- The first leaf of a tree is in FIRST of its root. -/
theorem Closed.mem_firstOf_of_leaf (hs : s.Closed g) (hg : g.WellFormed) {x : Symbol}
    {tree : Tree} (h : g.Forest [x] [tree]) {t : Terminal} {text : String}
    {rest : List (Nat × String)}
    (hl : tree.leaves = (g.vocabulary.number (.terminal t), text) :: rest) : t ∈ s.firstOf x := by
  have ht := hs.mem_ofBody_of_leaf hg h (by simpa using hl) ∅
  simp only [ofBody] at ht
  split at ht
  · exact (OrderedSet.mem_union.1 ht).resolve_right (OrderedSet.not_mem_empty t)
  · exact ht

/-! ## What comes first behind a place in a body -/

/-- A place in a body and the next one. -/
private theorem getElem?_of_drop {body rest : List Symbol} {x : Symbol} {i : Nat}
    (h : body.drop i = x :: rest) :
    body[i]? = some x ∧ body.drop (i + 1) = rest ∧ body[i + 1]? = rest.head? := by
  have hdrop : body.drop (i + 1) = rest := by
    rw [← List.tail_drop, h, List.tail_cons]
  refine ⟨?_, hdrop, ?_⟩
  · rw [← List.head?_drop, h, List.head?_cons]
  · rw [← List.head?_drop, hdrop]

/-- A symbol that vanishes has in FIRST what its place in a body lends to FOLLOW. -/
theorem Closed.mem_firstOf_of_after (hs : s.Closed g) (hg : g.WellFormed) {r : Rule}
    (hr : r ∈ g.allRules) {i : Nat} {x : Symbol} (hi : r.body[i]? = some x) {tree : Tree}
    (hf : g.Forest [x] [tree]) (hl : tree.leaves = []) {t : Terminal}
    (ht : t ∈ s.after r.head r.body[i + 1]?) : t ∈ s.firstOf x := by
  cases x with
  | terminal u =>
      cases hf
      simp at hl
  | nonterminal n => exact hs.mem_first_of_mem_follow hg hf hl (hs.follow r hr i n hi t ht)

/-- FIRST of a symbol of a body holds whatever may come first from there on. -/
theorem Closed.mem_firstOf_of_leads (hs : s.Closed g) (hg : g.WellFormed) {r : Rule}
    (hr : r ∈ g.allRules) {behind first : Terminal} :
    ∀ {rest : List Symbol} {x : Symbol} {i : Nat} {trees : List Tree},
      r.body.drop i = x :: rest → g.Forest (x :: rest) trees → g.Leads trees behind first →
      (Tree.leavesOfAll trees = [] → behind ∈ s.follow.get r.head) → first ∈ s.firstOf x := by
  intro rest
  induction rest with
  | nil =>
      intro x i trees hdrop hf hleads hbehind
      obtain ⟨tree, rfl⟩ := hf.exists_eq_singleton
      obtain ⟨hi, -, hi'⟩ := getElem?_of_drop hdrop
      rcases hleads with ⟨hl, rfl⟩ | ⟨text, more, hl⟩
      · apply hs.mem_firstOf_of_after hg hr hi hf (by simpa using hl)
        rw [hi']
        exact hbehind hl
      · exact hs.mem_firstOf_of_leaf hg hf (by simpa using hl)
  | cons y rest ih =>
      intro x i trees hdrop hf hleads hbehind
      rw [← List.singleton_append] at hf
      obtain ⟨left, right, rfl, hleft, hright⟩ := hf.split
      obtain ⟨tree, rfl⟩ := hleft.exists_eq_singleton
      obtain ⟨hi, hdrop', hi'⟩ := getElem?_of_drop hdrop
      rcases hl : tree.leaves with _ | ⟨leaf, more⟩
      · -- The symbol vanishes, and what its successor lends it is in FOLLOW of it.
        have hleads' : g.Leads right behind first := by
          simpa [Grammar.Leads, hl] using hleads
        apply hs.mem_firstOf_of_after hg hr hi hleft hl
        rw [hi']
        exact ih hdrop' hright hleads' fun hr => hbehind (by simp [hl, hr])
      · rcases hleads with ⟨hnil, -⟩ | ⟨text, more', hcons⟩
        · simp [hl] at hnil
        · have hleaf : leaf = (g.vocabulary.number (.terminal first), text) := by
            rw [List.singleton_append, Tree.leavesOfAll_cons, hl, List.cons_append,
              List.cons.injEq] at hcons
            exact hcons.1
          exact hs.mem_firstOf_of_leaf hg hleft (hleaf ▸ hl)

/-- FOLLOW of a nonterminal of a body holds whatever may come first behind it. -/
theorem Closed.mem_follow_of_leads (hs : s.Closed g) (hg : g.WellFormed) {r : Rule}
    (hr : r ∈ g.allRules) {behind first : Terminal} {n : Nonterminal} {rest : List Symbol}
    {i : Nat} {trees : List Tree} (hdrop : r.body.drop i = .nonterminal n :: rest)
    (hf : g.Forest rest trees) (hleads : g.Leads trees behind first)
    (hbehind : Tree.leavesOfAll trees = [] → behind ∈ s.follow.get r.head) :
    first ∈ s.follow.get n := by
  obtain ⟨hi, hdrop', hi'⟩ := getElem?_of_drop hdrop
  apply hs.follow r hr i n hi first
  rw [hi']
  cases rest with
  | nil =>
      cases hf
      obtain rfl := hleads.eq_of_leaves_eq_nil Tree.leavesOfAll_nil
      exact hbehind Tree.leavesOfAll_nil
  | cons y rest => exact hs.mem_firstOf_of_leads hg hr hdrop' hf hleads hbehind

end FirstFollow

end ShiftReduce
