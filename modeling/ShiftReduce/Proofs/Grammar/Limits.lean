import ShiftReduce.Proofs.Grammar.WellFormed

/-!
# How large a grammar can be

The terminals, the nonterminals and the productions of a grammar are numbered below
`Draft.idLimit`, and a declaration that would go beyond is refused.  So the numbers of a table fit
in words of a fixed width (`Grammar.Limited`), whatever has been declared.
-/

namespace ShiftReduce

namespace Draft

/-- A draft keeps within the limit of identifiers. -/
structure Limited (d : Draft) : Prop where
  terminals_le : d.vocabulary.terminals.length ≤ idLimit
  nonterminals_le : d.vocabulary.nonterminals.length ≤ idLimit
  number_lt : ∀ r ∈ d.rules, r.number < idLimit

theorem limited_empty : empty.Limited :=
  ⟨Nat.zero_le _, by decide, fun _ hr => absurd hr List.not_mem_nil⟩

theorem Limited.addTerminal {d d' : Draft} (hd : d.Limited) {entry : TerminalEntry} {t : Terminal}
    (h : d.addTerminal entry = .ok (t, d')) : d'.Limited := by
  unfold Draft.addTerminal at h
  split_ifs at h with _ _ hlimit
  obtain ⟨-, rfl⟩ := Prod.mk.inj (Except.ok.inj h)
  refine { hd with terminals_le := ?_ }
  rw [List.length_append, List.length_singleton]
  exact Nat.succ_le_of_lt (Nat.lt_of_not_le hlimit)

theorem Limited.addNonterminal {d d' : Draft} (hd : d.Limited) {name : String} {n : Nonterminal}
    (h : d.addNonterminal name = .ok (n, d')) : d'.Limited := by
  unfold Draft.addNonterminal at h
  split_ifs at h with _ _ hlimit
  obtain ⟨-, rfl⟩ := Prod.mk.inj (Except.ok.inj h)
  refine { hd with nonterminals_le := ?_ }
  rw [List.length_append, List.length_singleton]
  exact Nat.succ_le_of_lt (Nat.lt_of_not_le hlimit)

theorem Limited.addSentinel {d d' : Draft} (hd : d.Limited) {part : Sentinel} {name : String}
    {t : Terminal} (h : d.addSentinel part name = .ok (t, d')) : d'.Limited := by
  obtain ⟨-, d₁, hadd, rfl⟩ := addSentinel_eq_ok h
  have hd₁ := hd.addTerminal hadd
  cases part with
  | endMarker => exact ⟨hd₁.terminals_le, hd₁.nonterminals_le, hd₁.number_lt⟩
  | blank => exact ⟨hd₁.terminals_le, hd₁.nonterminals_le, hd₁.number_lt⟩

theorem Limited.addRule {d d' : Draft} (hd : d.Limited) {head : Nonterminal} {body : List Symbol}
    {number : Nat} (h : d.addRule head body = .ok (number, d')) : d'.Limited := by
  unfold Draft.addRule at h
  dsimp only at h
  split_ifs at h with _ _ _ hlimit
  obtain ⟨-, rfl⟩ := Prod.mk.inj (Except.ok.inj h)
  refine { hd with number_lt := fun r hr => ?_ }
  rcases List.mem_append.1 hr with hr | hr
  · exact hd.number_lt r hr
  · obtain rfl := List.mem_singleton.1 hr
    exact Nat.lt_of_not_le hlimit

/-- A declaration keeps within the limit. -/
theorem Limited.declare {d d' : Draft} (hd : d.Limited) {declaration : Declaration}
    {declared : Declared} (h : d.declare declaration = .ok (declared, d')) : d'.Limited := by
  cases declaration with
  | terminal name =>
      obtain ⟨⟨t, d₁⟩, hadd, he⟩ := map_eq_ok h
      cases he
      exact hd.addTerminal hadd
  | nonterminal name =>
      obtain ⟨⟨n, d₁⟩, hadd, he⟩ := map_eq_ok h
      cases he
      exact hd.addNonterminal hadd
  | sentinel part name =>
      obtain ⟨⟨t, d₁⟩, hadd, he⟩ := map_eq_ok h
      cases he
      exact hd.addSentinel hadd
  | start symbol =>
      simp only [Draft.declare] at h
      split_ifs at h
      cases h
      exact ⟨hd.terminals_le, hd.nonterminals_le, hd.number_lt⟩
  | rule head body =>
      cases head with
      | terminal t => contradiction
      | nonterminal head =>
          simp only [Draft.declare] at h
          split_ifs at h
          obtain ⟨⟨number, d₁⟩, hadd, he⟩ := map_eq_ok h
          cases he
          exact hd.addRule hadd

end Draft

namespace Grammar

/-- All identifiers of a grammar are below the limit. -/
structure Limited (g : Grammar) : Prop where
  terminals_le : g.vocabulary.terminals.length ≤ Draft.idLimit
  nonterminals_le : g.vocabulary.nonterminals.length ≤ Draft.idLimit
  number_lt : ∀ r ∈ g.allRules, r.number < Draft.idLimit

theorem limited_of_define {declarations : List Declaration} {g : Grammar}
    (h : define declarations = .ok g) : g.Limited := by
  obtain ⟨d, hd, hfinish⟩ := exists_finish_of_define Draft.limited_empty
    (fun hd hdeclare => hd.declare hdeclare) h
  unfold Draft.finish at hfinish
  split at hfinish
  · contradiction
  · contradiction
  · contradiction
  · cases hfinish
    refine ⟨hd.terminals_le, hd.nonterminals_le, fun r hr => ?_⟩
    rcases List.mem_cons.1 hr with rfl | hr
    · show 1 < Draft.idLimit
      decide
    · exact hd.number_lt r hr

end Grammar

end ShiftReduce
