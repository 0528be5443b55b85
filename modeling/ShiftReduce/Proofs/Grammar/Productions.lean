import ShiftReduce.Proofs.Grammar.WellFormed

/-!
# The productions of a well-formed grammar

`Grammar.WellFormed` speaks of the declared rules.  Most of the generator works on
`Grammar.allRules`, with the accepting production among them, and what it relies on is
collected here: bodies are not empty and use declared symbols only, a number belongs to
one production, and so does a head with a body.
-/

namespace ShiftReduce

/-- The symbols of the input that a production matches: its body, or nothing if that is the
blank. -/
def Rule.matched (r : Rule) : List Symbol := if r.isEpsilon then [] else r.body

@[simp] theorem Rule.length_matched (r : Rule) : r.matched.length = r.arity := by
  unfold matched arity
  split <;> simp

theorem Rule.arity_le (r : Rule) : r.arity ≤ r.body.length := by
  unfold arity
  split <;> simp

/-- A production that matches something matches its whole body. -/
theorem Rule.matched_eq_body {r : Rule} (h : r.matched ≠ []) : r.matched = r.body := by
  unfold matched at h ⊢
  split
  · rename_i hepsilon
    rw [if_pos hepsilon] at h
    exact absurd rfl h
  · rfl

namespace Grammar

variable {g : Grammar}

theorem mem_allRules {r : Rule} : r ∈ g.allRules ↔ r = g.acceptRule ∨ r ∈ g.rules :=
  List.mem_cons

theorem acceptRule_mem : g.acceptRule ∈ g.allRules := List.mem_cons_self

theorem mem_allRules_of_mem {r : Rule} (h : r ∈ g.rules) : r ∈ g.allRules :=
  List.mem_cons_of_mem _ h

namespace WellFormed

variable (hg : g.WellFormed)

include hg

theorem ne_nil_of_mem {r : Rule} (hr : r ∈ g.allRules) : r.body ≠ [] := by
  rcases mem_allRules.1 hr with rfl | hr
  · simp [acceptRule]
  · exact hg.body_ne_nil r hr

theorem declares_of_mem_body {r : Rule} (hr : r ∈ g.allRules) {x : Symbol} (hx : x ∈ r.body) :
    g.vocabulary.Declares x := by
  rcases mem_allRules.1 hr with rfl | hr
  · obtain rfl : x = .nonterminal g.startSymbol := by simpa [acceptRule] using hx
    exact hg.start_declared
  · exact hg.body_declared r hr x hx

/-- The reserved nonterminal is in no body. -/
theorem accept_not_mem_body {r : Rule} (hr : r ∈ g.allRules) :
    Symbol.nonterminal .accept ∉ r.body :=
  fun h => g.vocabulary.not_declares_accept (hg.declares_of_mem_body hr h)

theorem head_lt_of_mem {r : Rule} (hr : r ∈ g.allRules) :
    r.head.index < g.vocabulary.nonterminals.length := by
  rcases mem_allRules.1 hr with rfl | hr
  · exact hg.accept_declared
  · exact (hg.head_declared r hr).2

theorem eq_acceptRule {r : Rule} (hr : r ∈ g.allRules) (h : r.head = .accept) :
    r = g.acceptRule := by
  rcases mem_allRules.1 hr with rfl | hr
  · rfl
  · exact absurd h (hg.head_declared r hr).1

omit hg in
theorem mem_rules_of_head_ne {r : Rule} (hr : r ∈ g.allRules) (h : r.head ≠ .accept) :
    r ∈ g.rules := by
  rcases mem_allRules.1 hr with rfl | hr
  · exact absurd rfl h
  · exact hr

/-! ### Blank bodies -/

theorem isEpsilon_iff_of_mem {r : Rule} (hr : r ∈ g.allRules) :
    r.isEpsilon = true ↔ r.body = [.terminal g.blank] := by
  rcases mem_allRules.1 hr with rfl | hr
  · simp [acceptRule]
  · exact hg.isEpsilon_iff r hr

theorem isEpsilon_of_blank_mem {r : Rule} (hr : r ∈ g.allRules)
    (h : .terminal g.blank ∈ r.body) : r.isEpsilon = true := by
  rcases mem_allRules.1 hr with rfl | hr
  · simp [acceptRule] at h
  · exact (hg.isEpsilon_iff r hr).2 (hg.blank_alone r hr h)

theorem declares_of_mem_matched {r : Rule} (hr : r ∈ g.allRules) {x : Symbol}
    (hx : x ∈ r.matched) : g.vocabulary.Declares x ∧ x ≠ .terminal g.blank := by
  unfold Rule.matched at hx
  split at hx
  · contradiction
  · rename_i hepsilon
    refine ⟨hg.declares_of_mem_body hr hx, ?_⟩
    rintro rfl
    exact hepsilon (hg.isEpsilon_of_blank_mem hr hx)

/-! ### Numbers -/

theorem getElem?_allRules {i : Nat} {r : Rule} (h : g.allRules[i]? = some r) :
    r.number = i + 1 := by
  cases i with
  | zero =>
      obtain rfl : g.acceptRule = r := by simpa [allRules] using h
      rfl
  | succ i =>
      have := hg.number_eq i r (by simpa [allRules] using h)
      simp only [Draft.firstRuleNumber] at this
      omega

theorem getElem?_of_mem {r : Rule} (hr : r ∈ g.allRules) :
    ∃ i, r.number = i + 1 ∧ g.allRules[i]? = some r := by
  obtain ⟨i, hi⟩ := List.mem_iff_getElem?.1 hr
  exact ⟨i, hg.getElem?_allRules hi, hi⟩

/-- A number belongs to one production. -/
theorem eq_of_number_eq {r r' : Rule} (hr : r ∈ g.allRules) (hr' : r' ∈ g.allRules)
    (h : r.number = r'.number) : r = r' := by
  obtain ⟨i, hi, hri⟩ := hg.getElem?_of_mem hr
  obtain ⟨j, hj, hrj⟩ := hg.getElem?_of_mem hr'
  obtain rfl : i = j := by omega
  exact Option.some.inj (hri.symm.trans hrj)

/-- A head and a body belong to one declared rule. -/
theorem eq_of_body_eq {r r' : Rule} (hr : r ∈ g.rules) (hr' : r' ∈ g.rules)
    (hhead : r.head = r'.head) (hbody : r.body = r'.body) : r = r' := by
  have hforward : g.rules.Pairwise fun r r' => r.head = r'.head ∧ r.body = r'.body → r = r' :=
    hg.distinct.imp fun h hc => absurd hc h
  have hbackward : g.rules.Pairwise fun r r' => r'.head = r.head ∧ r'.body = r.body → r' = r :=
    hg.distinct.imp fun h hc => absurd ⟨hc.1.symm, hc.2.symm⟩ h
  exact List.Pairwise.forall_of_forall_of_flip (fun _ _ _ => rfl) hforward hbackward hr hr'
    ⟨hhead, hbody⟩

end WellFormed

/-! ### Grammars without blank bodies -/

/-- No rule has the blank as its body. -/
def EpsilonFree (g : Grammar) : Prop := ∀ r ∈ g.rules, r.body ≠ [.terminal g.blank]

instance (g : Grammar) : Decidable g.EpsilonFree :=
  inferInstanceAs (Decidable (∀ r ∈ g.rules, r.body ≠ [.terminal g.blank]))

namespace EpsilonFree

variable (hfree : g.EpsilonFree) (hg : g.WellFormed)

include hfree hg

theorem isEpsilon_eq_false {r : Rule} (hr : r ∈ g.allRules) : r.isEpsilon = false := by
  rcases mem_allRules.1 hr with rfl | hr
  · rfl
  · exact Bool.eq_false_iff.2 fun h => hfree r hr ((hg.isEpsilon_iff r hr).1 h)

theorem matched_eq {r : Rule} (hr : r ∈ g.allRules) : r.matched = r.body := by
  rw [Rule.matched, hfree.isEpsilon_eq_false hg hr]
  rfl

/-- Every reduction takes a symbol. -/
theorem arity_pos {r : Rule} (hr : r ∈ g.allRules) : 0 < r.arity := by
  rw [← Rule.length_matched, hfree.matched_eq hg hr]
  exact List.length_pos_iff.2 (hg.ne_nil_of_mem hr)

theorem ne_blank_of_mem {r : Rule} (hr : r ∈ g.allRules) {x : Symbol} (hx : x ∈ r.body) :
    x ≠ .terminal g.blank :=
  (hg.declares_of_mem_matched hr (hfree.matched_eq hg hr ▸ hx)).2

end EpsilonFree

end Grammar

end ShiftReduce
