import Mathlib.Data.List.Chain
import ShiftReduce.Proofs.FirstFollow.Derivation

/-!
# FIRST and FOLLOW in sentential forms

A derivation need not come to an end: nonterminals that derive no terminal string take part in
sentential forms as well, and so does the reserved nonterminal (`Grammar.Yields`).  FIRST and
FOLLOW miss nothing of such forms either (`mem_of_yields`): they have the terminals at the
beginning of what a nonterminal yields and right behind it in what the reserved nonterminal
yields.

## Strategy

* At the beginning the induction goes backwards.  A form that begins with a terminal lends it, and a
  form lends whatever it lends after one more step (`Closed.mem_ofBody_of_unfolds`).
* For what stands behind a nonterminal it goes forwards, with an invariant on all places of a form:
  of two symbols next to each other, FOLLOW of the first has all of FIRST of the second (`Meets`).
  A nonterminal that vanishes brings two symbols together.  They meet since its FIRST then has all
  of its FOLLOW, and this is how a terminal gets past any number of vanishing symbols, one at a
  time.
-/

namespace ShiftReduce

namespace Grammar

/-- One nonterminal of a form, which may be the reserved one, is replaced by what a production for
it matches. -/
inductive Unfolds (g : Grammar) : List Symbol → List Symbol → Prop
  | rule {r : Rule} (before behind : List Symbol) : r ∈ g.allRules →
      Unfolds g (before ++ .nonterminal r.head :: behind) (before ++ (r.matched ++ behind))

/-- A form comes from another by replacing nonterminals. -/
def Yields (g : Grammar) : List Symbol → List Symbol → Prop :=
  Relation.ReflTransGen g.Unfolds

end Grammar

namespace FirstFollow

variable {g : Grammar} {s : FirstFollow} {symbols symbols' : List Symbol}

/-! ## The beginning of a form -/

theorem ofBody_append (blank : Terminal) (beyond : OrderedSet Terminal)
    (before behind : List Symbol) : s.ofBody blank beyond (before ++ behind) =
      s.ofBody blank (s.ofBody blank beyond behind) before := by
  induction before with
  | nil => rfl
  | cons x before ih => simp only [List.cons_append, ofBody, ih]

/-- What is behind the symbols of a body is lent if it is lent on its own. -/
theorem mem_ofBody_append_of_imp {blank t : Terminal} {beyond : OrderedSet Terminal}
    {before behind behind' : List Symbol}
    (h : t ∈ s.ofBody blank beyond behind → t ∈ s.ofBody blank beyond behind')
    (ht : t ∈ s.ofBody blank beyond (before ++ behind)) :
    t ∈ s.ofBody blank beyond (before ++ behind') := by
  rw [ofBody_append, mem_ofBody] at ht ⊢
  exact ht.imp_right fun ⟨hall, ht⟩ => ⟨hall, h ht⟩

/-- A nonterminal lends what is lent by all that one of its productions matches. -/
theorem Closed.mem_ofBody_of_rule (hs : s.Closed g) (hg : g.WellFormed) {r : Rule}
    (hr : r ∈ g.allRules) {t : Terminal} {beyond : OrderedSet Terminal} {behind : List Symbol}
    (h : t ∈ s.ofBody g.blank beyond (r.matched ++ behind)) :
    t ∈ s.ofBody g.blank beyond (.nonterminal r.head :: behind) := by
  rw [ofBody_append] at h
  rcases mem_ofBody.1 h with ⟨i, y, hy, hbefore, ht⟩ | ⟨hall, ht⟩
  · have hbody : r.matched = r.body :=
      Rule.matched_eq_body (List.ne_nil_of_mem (List.mem_of_getElem? hy))
    rw [hbody] at hy hbefore
    exact mem_ofBody_cons (hs.first r hr t (mem_ofBody.2 (.inl ⟨i, y, hy, hbefore, ht⟩)))
  · exact mem_ofBody_of_rest (hs.blank_mem_head hg hr hall) ht

theorem Closed.mem_ofBody_of_unfolds (hs : s.Closed g) (hg : g.WellFormed)
    (h : g.Unfolds symbols symbols') {t : Terminal} {beyond : OrderedSet Terminal}
    (ht : t ∈ s.ofBody g.blank beyond symbols') : t ∈ s.ofBody g.blank beyond symbols := by
  obtain ⟨before, behind, hr⟩ := h
  exact mem_ofBody_append_of_imp (hs.mem_ofBody_of_rule hg hr) ht

/-- A form lends the terminal at the beginning of what it yields. -/
theorem Closed.mem_ofBody_of_yields (hs : s.Closed g) (hg : g.WellFormed) {t : Terminal}
    {rest : List Symbol} (h : g.Yields symbols (.terminal t :: rest))
    (beyond : OrderedSet Terminal) : t ∈ s.ofBody g.blank beyond symbols := by
  induction h using Relation.ReflTransGen.head_induction_on with
  | refl => exact mem_ofBody_cons (OrderedSet.mem_single.2 rfl)
  | head hstep _ ih => exact hs.mem_ofBody_of_unfolds hg hstep ih

theorem Closed.blank_mem_of_unfolds (hs : s.Closed g) (hg : g.WellFormed)
    (h : g.Unfolds symbols symbols') (hblank : ∀ x ∈ symbols', g.blank ∈ s.firstOf x) :
    ∀ x ∈ symbols, g.blank ∈ s.firstOf x := by
  obtain ⟨before, behind, hr⟩ := h
  simp only [List.forall_mem_append] at hblank
  obtain ⟨hbefore, hmatched, hbehind⟩ := hblank
  rw [List.forall_mem_append, List.forall_mem_cons]
  exact ⟨hbefore, hs.blank_mem_head hg hr hmatched, hbehind⟩

/-- If a form vanishes, then all of its symbols have the blank in FIRST. -/
theorem Closed.blank_mem_of_yields_nil (hs : s.Closed g) (hg : g.WellFormed)
    (h : g.Yields symbols []) : ∀ x ∈ symbols, g.blank ∈ s.firstOf x := by
  induction h using Relation.ReflTransGen.head_induction_on with
  | refl => intro x hx; contradiction
  | head hstep _ ih => exact hs.blank_mem_of_unfolds hg hstep ih

/-! ## Neighbours in a form -/

/-- Of two symbols next to each other, FOLLOW of the first has all of FIRST of the second. -/
def Meets (s : FirstFollow) (x y : Symbol) : Prop :=
  ∀ n, x = .nonterminal n → ∀ t ∈ s.firstOf y, t ∈ s.follow.get n

/-- The symbols of a body meet. -/
theorem Closed.isChain_body (hs : s.Closed g) {r : Rule} (hr : r ∈ g.allRules) :
    r.body.IsChain s.Meets := by
  rw [List.isChain_iff_forall_rel_of_append_cons_cons]
  rintro x y before behind hbody n rfl t ht
  apply hs.follow r hr before.length n (by simp [hbody]) t
  have hnext : r.body[before.length + 1]? = some y := by simp [hbody]
  rw [hnext]
  exact ht

/-- The last symbol of a body meets what its head meets. -/
theorem Closed.meets_of_getLast? (hs : s.Closed g) {r : Rule} (hr : r ∈ g.allRules) {x y : Symbol}
    (hlast : r.body.getLast? = some x) (h : s.Meets (.nonterminal r.head) y) : s.Meets x y := by
  rintro n rfl t ht
  obtain ⟨before, hbody⟩ := List.getLast?_eq_some_iff.1 hlast
  apply hs.follow r hr before.length n (by simp [hbody]) t
  have hnext : r.body[before.length + 1]? = none := by simp [hbody]
  rw [hnext]
  exact h r.head rfl t ht

/-- What takes the place of a nonterminal, with the symbols behind it, is a row whose symbols meet,
and FIRST of the nonterminal has all of FIRST of the first of them. -/
theorem Closed.isChain_of_rule (hs : s.Closed g) (hg : g.WellFormed) {r : Rule}
    (hr : r ∈ g.allRules) {behind : List Symbol}
    (h : (Symbol.nonterminal r.head :: behind).IsChain s.Meets) :
    (r.matched ++ behind).IsChain s.Meets ∧
      ∀ y ∈ (r.matched ++ behind).head?, ∀ t ∈ s.firstOf y, t ∈ s.first.get r.head := by
  obtain ⟨hnext, hbehind⟩ := List.isChain_cons.1 h
  rcases hmatched : r.matched with _ | ⟨z, rest⟩
  · -- The nonterminal vanishes, and what it has met comes first.
    refine ⟨hbehind, fun y hy t ht => ?_⟩
    exact hs.mem_head_of_mem_follow hg hr (by simp [hmatched]) (hnext y hy r.head rfl t ht)
  · have hbody : r.body = z :: rest := by
      rw [← Rule.matched_eq_body (hmatched ▸ List.cons_ne_nil z rest), hmatched]
    rw [← hbody]
    constructor
    · refine List.isChain_append.2 ⟨hs.isChain_body hr, hbehind, fun x hx y hy => ?_⟩
      exact hs.meets_of_getLast? hr hx (hnext y hy)
    · intro y hy t ht
      obtain rfl : z = y := by simpa [hbody] using hy
      exact hs.first r hr t (hbody ▸ mem_ofBody_cons ht)

/-- In a form whose symbols meet they still do when a nonterminal has been replaced. -/
theorem Closed.isChain_of_unfolds (hs : s.Closed g) (hg : g.WellFormed)
    (h : g.Unfolds symbols symbols') (hchain : symbols.IsChain s.Meets) :
    symbols'.IsChain s.Meets := by
  obtain @⟨r, before, behind, hr⟩ := h
  obtain ⟨hbefore, hrest, hjoint⟩ := List.isChain_append.1 hchain
  obtain ⟨hrest', hfirst⟩ := hs.isChain_of_rule hg hr hrest
  refine List.isChain_append.2 ⟨hbefore, hrest', fun x hx y hy n hn t ht => ?_⟩
  exact hjoint x hx _ rfl n hn t (hfirst y hy t ht)

/-- In whatever a single symbol yields the symbols meet. -/
theorem Closed.isChain_of_yields (hs : s.Closed g) (hg : g.WellFormed) {x : Symbol}
    (h : g.Yields [x] symbols) : symbols.IsChain s.Meets := by
  induction h with
  | refl => exact List.isChain_singleton x
  | tail _ hstep ih => exact hs.isChain_of_unfolds hg hstep ih

/-! ## Nothing is missing -/

/-- FIRST of a nonterminal has every terminal at the beginning of a form that it yields, and the
blank if it yields the empty form; FOLLOW has every terminal that stands right behind it in a form
that the reserved nonterminal yields. -/
theorem mem_of_yields {declarations : List Declaration} (hg : Grammar.define declarations = .ok g)
    (n : Nonterminal) :
    (∀ t rest, g.Yields [.nonterminal n] (.terminal t :: rest) →
      t ∈ g.firstFollow.firstOf (.nonterminal n)) ∧
    (g.Yields [.nonterminal n] [] → g.firstFollow.hasBlank g (.nonterminal n) = true) ∧
    ∀ t before behind,
      g.Yields [.nonterminal .accept] (before ++ .nonterminal n :: .terminal t :: behind) →
      t ∈ g.firstFollow.followOf (.nonterminal n) := by
  have hg := Grammar.wellFormed_of_define hg
  have hs := hg.closed_firstFollow
  refine ⟨?_, ?_, ?_⟩
  · intro t rest h
    rcases mem_ofBody.1 (hs.mem_ofBody_of_yields hg h ∅) with ⟨i, y, hy, -, ht⟩ | ⟨-, ht⟩
    · obtain rfl : y = .nonterminal n := by simpa using List.mem_of_getElem? hy
      exact ht
    · exact absurd ht (OrderedSet.not_mem_empty t)
  · intro h
    exact decide_eq_true (hs.blank_mem_of_yields_nil hg h _ List.mem_cons_self)
  · intro t before behind h
    have hchain := hs.isChain_of_yields hg h
    rw [List.isChain_iff_forall_rel_of_append_cons_cons] at hchain
    exact hchain rfl n rfl t (OrderedSet.mem_single.2 rfl)

/-- `S := N A B x`, `A := B`, `B := Blank`, `N := B y | Blank`. -/
def vanishingNeighbours : List Declaration :=
  [.sentinel .blank "Blank", .sentinel .endMarker "$", .terminal "x", .terminal "y",
    .nonterminal "S", .nonterminal "N", .nonterminal "A", .nonterminal "B", .start ⟨1⟩,
    .rule (.nonterminal ⟨1⟩) [.nonterminal ⟨2⟩, .nonterminal ⟨3⟩, .nonterminal ⟨4⟩, .terminal ⟨2⟩],
    .rule (.nonterminal ⟨3⟩) [.nonterminal ⟨4⟩], .rule (.nonterminal ⟨4⟩) [.terminal ⟨0⟩],
    .rule (.nonterminal ⟨2⟩) [.nonterminal ⟨4⟩, .terminal ⟨3⟩],
    .rule (.nonterminal ⟨2⟩) [.terminal ⟨0⟩]]

/-- `N` yields `y` and the empty form, and `x` comes right behind `N` once `A` and `B` have
vanished. -/
theorem mem_of_yields_vanishingNeighbours : ∃ g, Grammar.define vanishingNeighbours = .ok g ∧
    g.Yields [.nonterminal ⟨2⟩] [.terminal ⟨3⟩] ∧
    g.Yields [.nonterminal ⟨2⟩] [] ∧
    g.Yields [.nonterminal .accept] [.nonterminal ⟨2⟩, .terminal ⟨2⟩] ∧
    ⟨3⟩ ∈ g.firstFollow.firstOf (.nonterminal ⟨2⟩) ∧
    g.firstFollow.hasBlank g (.nonterminal ⟨2⟩) = true ∧
    ⟨2⟩ ∈ g.firstFollow.followOf (.nonterminal ⟨2⟩) := by
  have hpasses : Grammar.passes vanishingNeighbours (fun g =>
      g.allRules = [⟨1, ⟨0⟩, [.nonterminal ⟨1⟩], false⟩,
        ⟨2, ⟨1⟩, [.nonterminal ⟨2⟩, .nonterminal ⟨3⟩, .nonterminal ⟨4⟩, .terminal ⟨2⟩], false⟩,
        ⟨3, ⟨3⟩, [.nonterminal ⟨4⟩], false⟩, ⟨4, ⟨4⟩, [.terminal ⟨0⟩], true⟩,
        ⟨5, ⟨2⟩, [.nonterminal ⟨4⟩, .terminal ⟨3⟩], false⟩,
        ⟨6, ⟨2⟩, [.terminal ⟨0⟩], true⟩]) = true := by decide +kernel
  obtain ⟨g, hg, hcheck⟩ := Grammar.exists_of_passes hpasses
  have hrules := of_decide_eq_true hcheck
  have unfolds : ∀ (r : Rule) (before behind : List Symbol), r ∈ g.allRules →
      g.Yields (before ++ .nonterminal r.head :: behind) (before ++ (r.matched ++ behind)) :=
    fun _ before behind hr => Relation.ReflTransGen.single (.rule before behind hr)
  have vanish : ∀ before behind,
      g.Yields (before ++ .nonterminal ⟨4⟩ :: behind) (before ++ behind) :=
    fun before behind => unfolds ⟨4, ⟨4⟩, [.terminal ⟨0⟩], true⟩ before behind (by simp [hrules])
  have hfirst : g.Yields [.nonterminal ⟨2⟩] [.terminal ⟨3⟩] :=
    (unfolds ⟨5, ⟨2⟩, [.nonterminal ⟨4⟩, .terminal ⟨3⟩], false⟩ [] [] (by simp [hrules])).trans
      (vanish [] [.terminal ⟨3⟩])
  have hnil : g.Yields [.nonterminal ⟨2⟩] [] :=
    unfolds ⟨6, ⟨2⟩, [.terminal ⟨0⟩], true⟩ [] [] (by simp [hrules])
  have hfollow : g.Yields [.nonterminal .accept] [.nonterminal ⟨2⟩, .terminal ⟨2⟩] := by
    have haccept := unfolds ⟨1, ⟨0⟩, [.nonterminal ⟨1⟩], false⟩ [] [] (by simp [hrules])
    have hs := unfolds
      ⟨2, ⟨1⟩, [.nonterminal ⟨2⟩, .nonterminal ⟨3⟩, .nonterminal ⟨4⟩, .terminal ⟨2⟩], false⟩ [] []
      (by simp [hrules])
    have ha := unfolds ⟨3, ⟨3⟩, [.nonterminal ⟨4⟩], false⟩ [.nonterminal ⟨2⟩]
      [.nonterminal ⟨4⟩, .terminal ⟨2⟩] (by simp [hrules])
    have hvanish := (vanish [.nonterminal ⟨2⟩] [.nonterminal ⟨4⟩, .terminal ⟨2⟩]).trans
      (vanish [.nonterminal ⟨2⟩] [.terminal ⟨2⟩])
    exact haccept.trans (hs.trans (ha.trans hvanish))
  obtain ⟨hmem, hblank, hmem'⟩ := mem_of_yields hg ⟨2⟩
  exact ⟨g, hg, hfirst, hnil, hfollow, hmem ⟨3⟩ [] hfirst, hblank hnil, hmem' ⟨2⟩ [] [] hfollow⟩

end FirstFollow

end ShiftReduce
