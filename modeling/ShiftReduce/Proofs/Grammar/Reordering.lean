import Mathlib.Data.List.Perm.Basic
import ShiftReduce.Proofs.FirstFollow.LeastSolution

/-!
# Grammars with their rules in another order

Two grammars may differ in nothing but the order of their rules (`Grammar.Reordered`).  Then a rule
of the one has a counterpart in the other, with another number but with the same head and body
(`Grammar.counterpart`), and FIRST and FOLLOW are the same sets (`Reordered.below_firstFollow`).
-/

namespace ShiftReduce

deriving instance DecidableEq for TerminalEntry, Vocabulary

/-- What is declared of a rule. -/
def Rule.content (r : Rule) : Nonterminal × List Symbol := (r.head, r.body)

namespace Grammar

/-- A grammar with the same symbols and with the same rules in any order. -/
structure Reordered (g g' : Grammar) : Prop where
  vocabulary_eq : g'.vocabulary = g.vocabulary
  startSymbol_eq : g'.startSymbol = g.startSymbol
  endMarker_eq : g'.endMarker = g.endMarker
  blank_eq : g'.blank = g.blank
  perm : (g'.rules.map Rule.content).Perm (g.rules.map Rule.content)

instance (g g' : Grammar) : Decidable (g.Reordered g') :=
  decidable_of_iff (g'.vocabulary = g.vocabulary ∧ g'.startSymbol = g.startSymbol ∧
      g'.endMarker = g.endMarker ∧ g'.blank = g.blank ∧
      (g'.rules.map Rule.content).Perm (g.rules.map Rule.content))
    ⟨fun ⟨hvocabulary, hstart, hend, hblank, hperm⟩ => ⟨hvocabulary, hstart, hend, hblank, hperm⟩,
      fun h => ⟨h.vocabulary_eq, h.startSymbol_eq, h.endMarker_eq, h.blank_eq, h.perm⟩⟩

theorem Reordered.symm {g g' : Grammar} (h : g.Reordered g') : g'.Reordered g :=
  ⟨h.vocabulary_eq.symm, h.startSymbol_eq.symm, h.endMarker_eq.symm, h.blank_eq.symm, h.perm.symm⟩

/-! ## Counterparts -/

/-- A rule under the number that its head and its body have in a grammar. -/
def counterpart (g : Grammar) (r : Rule) : Rule :=
  { r with number := ((g.allRules.find? fun s => s.content = r.content).map (·.number)).getD 0 }

/-- The last grammar decides on the number. -/
theorem counterpart_counterpart (g g' : Grammar) (r : Rule) :
    g.counterpart (g'.counterpart r) = g.counterpart r := rfl

/-- A head and a body belong to one production. -/
theorem WellFormed.eq_of_content_eq {g : Grammar} (hg : g.WellFormed) {r r' : Rule}
    (hr : r ∈ g.allRules) (hr' : r' ∈ g.allRules) (h : r.content = r'.content) : r = r' := by
  obtain ⟨hhead, hbody⟩ := Prod.mk.inj h
  by_cases haccept : r.head = .accept
  · rw [hg.eq_acceptRule hr haccept, hg.eq_acceptRule hr' (hhead ▸ haccept)]
  · exact hg.eq_of_body_eq (WellFormed.mem_rules_of_head_ne hr haccept)
      (WellFormed.mem_rules_of_head_ne hr' (hhead ▸ haccept)) hhead hbody

/-- The counterpart of a rule is the production with its head and its body. -/
theorem counterpart_eq {g : Grammar} (hg : g.WellFormed) {r s : Rule} (hs : s ∈ g.allRules)
    (hcontent : s.content = r.content) (hepsilon : s.isEpsilon = r.isEpsilon) :
    g.counterpart r = s := by
  have hfind : g.allRules.find? (fun s => s.content = r.content) = some s := by
    cases h : g.allRules.find? (fun s => s.content = r.content) with
    | none =>
        have hnone := List.find?_eq_none.1 h s hs
        exact absurd (decide_eq_true hcontent) hnone
    | some s' =>
        have hcontent' : s'.content = r.content := by simpa using List.find?_some h
        rw [hg.eq_of_content_eq (List.mem_of_find?_eq_some h) hs (hcontent'.trans hcontent.symm)]
  obtain ⟨hhead, hbody⟩ := Prod.mk.inj hcontent
  rw [counterpart, hfind, ← hhead, ← hbody, ← hepsilon]
  rfl

theorem counterpart_of_mem {g : Grammar} (hg : g.WellFormed) {r : Rule} (hr : r ∈ g.allRules) :
    g.counterpart r = r :=
  counterpart_eq hg hr rfl rfl

/-- Different productions have different counterparts. -/
theorem eq_of_counterpart_eq {g : Grammar} (hg : g.WellFormed) (g' : Grammar) {r r' : Rule}
    (hr : r ∈ g.allRules) (hr' : r' ∈ g.allRules) (h : g'.counterpart r = g'.counterpart r') :
    r = r' := by
  calc r = g.counterpart r := (counterpart_of_mem hg hr).symm
    _ = g.counterpart (g'.counterpart r) := (counterpart_counterpart g g' r).symm
    _ = g.counterpart (g'.counterpart r') := by rw [h]
    _ = g.counterpart r' := counterpart_counterpart g g' r'
    _ = r' := counterpart_of_mem hg hr'

namespace Reordered

variable {g g' : Grammar} (h : g.Reordered g') (hg : g.WellFormed) (hg' : g'.WellFormed)

include h

theorem acceptRule_eq : g'.acceptRule = g.acceptRule := by
  rw [acceptRule, acceptRule, h.startSymbol_eq]

include hg hg'

/-- The counterpart of a production is one of the other grammar. -/
theorem counterpart_mem {r : Rule} (hr : r ∈ g.allRules) : g'.counterpart r ∈ g'.allRules := by
  rcases mem_allRules.1 hr with rfl | hr
  · rw [← h.acceptRule_eq, counterpart_of_mem hg' acceptRule_mem]
    exact acceptRule_mem
  · obtain ⟨s, hs, hcontent⟩ := List.mem_map.1 (h.perm.mem_iff.2 (List.mem_map_of_mem hr))
    obtain ⟨-, hbody⟩ := Prod.mk.inj hcontent
    have hepsilon : s.isEpsilon = r.isEpsilon := by
      rw [Bool.eq_iff_iff, hg'.isEpsilon_iff s hs, hg.isEpsilon_iff r hr, h.blank_eq, hbody]
    rw [counterpart_eq hg' (mem_allRules_of_mem hs) hcontent hepsilon]
    exact mem_allRules_of_mem hs

/-! ## FIRST and FOLLOW -/

/-- What is in the FIRST and FOLLOW sets of the one grammar is in those of the other. -/
theorem below_firstFollow : g.firstFollow.Below g'.firstFollow := by
  have hclosed := hg'.closed_firstFollow
  apply FirstFollow.Closed.below
  constructor
  case first =>
    intro r hr t ht
    apply hclosed.first (g'.counterpart r) (h.counterpart_mem hg hg' hr) t
    rwa [h.blank_eq]
  case follow =>
    intro r hr i n hi t ht
    exact hclosed.follow (g'.counterpart r) (h.counterpart_mem hg hg' hr) i n hi t ht

end Reordered

end Grammar

end ShiftReduce
