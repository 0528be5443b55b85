import ShiftReduce.Proofs.Automaton.Path
import ShiftReduce.Proofs.Grammar.Derivation

/-!
# Viable prefixes

The symbols that a path of the automaton spells are the beginning of a sentential form
(`Path.viable`).  Lookaheads do not enter into this, so it makes no difference how states have
been merged.

## Strategy

An item is valid behind a row of symbols if the row ends with what the item has moved over, and
a sentential form goes on from there with the rest of its production (`Valid`).  The accepting
production is valid behind the empty row.  The closure adds the productions of a nonterminal
that comes next, and these are valid behind the same row; a transition moves the marker, and
then the row is longer by the symbol.  So by induction along a path all items of its last state
are valid behind what it spells (`Path.valid`), and every state of a path has an item.
-/

namespace ShiftReduce

/-- A production with a symbol left to move over matches its body. -/
theorem DottedRule.matched_eq_body {g : Grammar} (hg : g.WellFormed) {d : DottedRule}
    (hd : d.rule ∈ g.allRules) {x : Symbol} (hx : d.next? = some x)
    (hblank : x ≠ .terminal g.blank) : d.rule.matched = d.rule.body := by
  unfold Rule.matched
  split
  · rename_i hepsilon
    have hmem := List.mem_of_getElem? hx
    rw [(hg.isEpsilon_iff_of_mem hd).1 hepsilon, List.mem_singleton] at hmem
    exact absurd hmem hblank
  · rfl

/-! ## Valid items -/

/-- An item is valid behind a row of symbols: what it has moved over comes last in the row, and
with the whole of what its production matches in that place there is a sentential form. -/
def Valid (g : Grammar) (spelled : List Symbol) (d : DottedRule) : Prop :=
  ∃ before rest, spelled = before ++ d.rule.matched.take d.marker ∧
    g.Derives [.nonterminal g.startSymbol] (before ++ d.rule.matched ++ rest)

namespace Valid

variable {g : Grammar} {spelled : List Symbol} {d : DottedRule}

/-- The accepting production is valid at the very start. -/
theorem start (g : Grammar) : Valid g [] ⟨g.acceptRule, 0⟩ :=
  ⟨[], [], rfl, .refl _⟩

/-- A row with a valid item behind it goes on to a sentential form. -/
theorem viable (h : Valid g spelled d) :
    ∃ rest, g.Derives [.nonterminal g.startSymbol] (spelled ++ rest) := by
  obtain ⟨before, rest, rfl, hderives⟩ := h
  refine ⟨d.rule.matched.drop d.marker ++ rest, ?_⟩
  rw [List.append_assoc before, ← List.append_assoc (d.rule.matched.take d.marker),
    List.take_append_drop, ← List.append_assoc]
  exact hderives

variable (hg : g.WellFormed)

include hg

/-- The marker moves over a symbol that is added to the row. -/
theorem advance (h : Valid g spelled d) (hd : d.rule ∈ g.allRules) {x : Symbol}
    (hx : d.next? = some x) (hblank : x ≠ .terminal g.blank) :
    Valid g (spelled ++ [x]) d.advance := by
  obtain ⟨before, rest, rfl, hderives⟩ := h
  refine ⟨before, rest, ?_, hderives⟩
  have hnext : d.rule.matched[d.marker]? = some x := by
    rw [DottedRule.matched_eq_body hg hd hx hblank]
    exact hx
  rw [DottedRule.advance, List.take_add_one, hnext, List.append_assoc]
  rfl

/-- The productions of a nonterminal that comes next are valid as well. -/
theorem production (h : Valid g spelled d) (hd : d.rule ∈ g.allRules) {n : Nonterminal}
    (hn : d.next? = some (.nonterminal n)) {r : Rule} (hr : r ∈ g.productionsOf n) :
    Valid g spelled ⟨r, 0⟩ := by
  obtain ⟨hmem, rfl⟩ := g.mem_productionsOf.1 hr
  have haccept : r.head ≠ .accept := by
    intro haccept
    have hbody := List.mem_of_getElem? hn
    rw [haccept] at hbody
    exact hg.accept_not_mem_body hd hbody
  have hrule : r ∈ g.rules := Grammar.WellFormed.mem_rules_of_head_ne hmem haccept
  obtain ⟨before, rest, rfl, hderives⟩ := h
  -- The nonterminal is replaced where it stands, right behind the row.
  obtain ⟨behind, hmatched⟩ : ∃ behind, d.rule.matched =
      d.rule.matched.take d.marker ++ .nonterminal r.head :: behind := by
    rw [DottedRule.matched_eq_body hg hd hn (by simp)]
    exact ⟨d.rule.body.drop (d.marker + 1), DottedRule.body_of_next? hn⟩
  refine ⟨before ++ d.rule.matched.take d.marker, behind ++ rest, by simp, ?_⟩
  have hstep := (Grammar.Derives.of_rule hrule).within
    (before ++ d.rule.matched.take d.marker) (behind ++ rest)
  rw [hmatched] at hderives
  exact hderives.trans (by simpa using hstep)

/-- If the kernel is valid then so is its closure. -/
theorem of_inClosure {kernel : List DottedRule} (hkernel : ∀ e ∈ kernel, e.Of g)
    (h : ∀ e ∈ kernel, Valid g spelled e) (hd : InClosure g kernel d) : Valid g spelled d := by
  -- Every awaited nonterminal comes next in a valid item.
  have hawaited : ∀ {n : Nonterminal}, Awaited g kernel n →
      ∃ e : DottedRule, e.rule ∈ g.allRules ∧ e.next? = some (.nonterminal n) ∧
        Valid g spelled e := by
    intro n hn
    induction hn with
    | kernel he hnext => exact ⟨_, (hkernel _ he).1, hnext, h _ he⟩
    | @rule m n r rest _ hr hbody ih =>
        obtain ⟨e, he, hnext, hvalid⟩ := ih
        have hfirst : (⟨r, 0⟩ : DottedRule).next? = some (.nonterminal n) := by
          simp [DottedRule.next?, hbody]
        exact ⟨⟨r, 0⟩, (g.mem_productionsOf.1 hr).1, hfirst, hvalid.production hg he hnext hr⟩
  rcases hd with hd | ⟨hmarker, hrule, hn⟩
  · exact h d hd
  · obtain ⟨e, he, hnext, hvalid⟩ := hawaited hn
    obtain ⟨r, marker⟩ := d
    obtain rfl : marker = 0 := hmarker
    exact hvalid.production hg he hnext (g.mem_productionsOf.2 ⟨hrule, rfl⟩)

end Valid

/-! ## Paths -/

namespace Automaton.Path

variable {g : Grammar} {a : Automaton} {q : Nat} {states : List Nat} {symbols : List Symbol}

variable (hg : g.WellFormed) (ha : a.Consistent g)

include hg ha

/-- The items of the last state of a path are valid behind what the path spells. -/
theorem valid (h : Path a (q :: states) symbols) {d : DottedRule}
    (hd : InClosure g (a.look q).kernel d) : Valid g symbols.reverse d := by
  induction symbols generalizing q states d with
  | nil =>
      refine .of_inClosure hg (ha.shaped.kernel_of q) (fun e he => ?_) hd
      cases h with
      | start =>
          rw [startState, ha.shaped.start, List.mem_singleton] at he
          exact he ▸ .start g
  | cons x symbols ih =>
      refine .of_inClosure hg (ha.shaped.kernel_of q) (fun e he => ?_) hd
      cases h with
      | @step p _ _ _ _ hpath hx =>
          obtain ⟨e, hbefore, hnext, rfl⟩ := ha.mem_closure_of_transition? hx he
          rw [List.reverse_cons]
          exact (ih hpath hbefore).advance hg (hbefore.of (ha.shaped.kernel_of p)).1 hnext
            (ha.ne_blank_of_transition? hx)

/-- What a path spells is the beginning of a sentential form. -/
theorem viable (h : Path a states symbols) :
    ∃ rest, g.Derives [.nonterminal g.startSymbol] (symbols.reverse ++ rest) := by
  obtain ⟨q, below, rfl⟩ := h.ne_nil
  obtain ⟨d, hd⟩ := h.exists_mem_kernel ha
  exact (h.valid hg ha (.inl hd)).viable

end Automaton.Path

end ShiftReduce
