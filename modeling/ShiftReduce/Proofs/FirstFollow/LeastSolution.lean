import Mathlib.Order.Bounds.Basic
import Mathlib.Data.Set.Basic
import ShiftReduce.Proofs.FirstFollow.Limit

/-!
# The least solution of the FIRST and FOLLOW equations

The equations are about two families of sets of terminals, FIRST and FOLLOW, and feed each into
the other: FIRST of the head of a production takes in FIRST of its symbols as long as all of
those before have the blank, and FOLLOW of the head if all of them have it; FOLLOW of a
nonterminal in the body takes in FIRST of the next symbol, or FOLLOW of the head at the end of
the body (`Solves`).

Of all families that solve them those of `Grammar.firstFollow` are the least
(`isLeast_families`).  They solve the equations because they are `Closed`, and they are
the least because no visit to a production adds what a solution lacks (`Within.round`).  The order
of the visits does not matter, nor does it matter that a body is given up at a symbol that gets the
blank only later: what has been added by then is in every solution all the same.
-/

namespace ShiftReduce

/-- A set of terminals for each nonterminal. -/
abbrev TerminalFamily := Nonterminal → Set Terminal

/-- The set of a symbol; that of a terminal is the terminal itself. -/
def TerminalFamily.of (first : TerminalFamily) : Symbol → Set Terminal
  | .terminal t => {t}
  | .nonterminal n => first n

namespace FirstFollow

variable {g : Grammar} {s : FirstFollow} {first follow : TerminalFamily}

/-- Two families solve the equations of FIRST and FOLLOW. -/
structure Solves (g : Grammar) (first follow : TerminalFamily) : Prop where
  symbol : ∀ r ∈ g.allRules, ∀ (i : Nat) (y : Symbol), r.body[i]? = some y →
    (∀ x ∈ r.body.take i, g.blank ∈ first.of x) → first.of y ⊆ first r.head
  beyond : ∀ r ∈ g.allRules, (∀ x ∈ r.body, g.blank ∈ first.of x) → follow r.head ⊆ first r.head
  next : ∀ r ∈ g.allRules, ∀ (i : Nat) (n : Nonterminal) (x : Symbol),
    r.body[i]? = some (.nonterminal n) → r.body[i + 1]? = some x → first.of x ⊆ follow n
  last : ∀ r ∈ g.allRules, ∀ (i : Nat) (n : Nonterminal),
    r.body[i]? = some (.nonterminal n) → r.body[i + 1]? = none → follow r.head ⊆ follow n

/-- The FIRST sets as a family. -/
def firstFamily (s : FirstFollow) : TerminalFamily := fun n => {t | t ∈ s.firstOf (.nonterminal n)}

/-- The FOLLOW sets as a family. -/
def followFamily (s : FirstFollow) : TerminalFamily :=
  fun n => {t | t ∈ s.followOf (.nonterminal n)}

theorem mem_of_firstFamily {t : Terminal} {x : Symbol} :
    t ∈ s.firstFamily.of x ↔ t ∈ s.firstOf x := by
  cases x with
  | terminal u => exact OrderedSet.mem_single.symm
  | nonterminal n => exact Iff.rfl

/-! ## Closed sets solve the equations -/

theorem Closed.solves (hs : s.Closed g) : Solves g s.firstFamily s.followFamily where
  symbol := by
    intro r hr i y hy hbefore t ht
    rw [mem_of_firstFamily] at ht
    exact hs.first r hr t
      (mem_ofBody.2 (.inl ⟨i, y, hy, fun x hx => mem_of_firstFamily.1 (hbefore x hx), ht⟩))
  beyond := by
    intro r hr hall t ht
    exact hs.first r hr t (mem_ofBody.2 (.inr ⟨fun x hx => mem_of_firstFamily.1 (hall x hx), ht⟩))
  next := by
    intro r hr i n x hn hx t ht
    apply hs.follow r hr i n hn t
    rw [hx]
    exact mem_of_firstFamily.1 ht
  last := by
    intro r hr i n hn hlast t ht
    apply hs.follow r hr i n hn t
    rw [hlast]
    exact ht

/-! ## Every solution has what a visit adds -/

/-- The sets hold nothing that two families lack. -/
structure Within (s : FirstFollow) (first follow : TerminalFamily) : Prop where
  first : ∀ n, ∀ t ∈ s.first.get n, t ∈ first n
  follow : ∀ n, ∀ t ∈ s.follow.get n, t ∈ follow n

theorem within_initial (g : Grammar) (first follow : TerminalFamily) :
    (initial g).Within first follow := by
  constructor <;> intro n t ht <;> simp [initial] at ht

theorem Within.firstOf (h : s.Within first follow) {x : Symbol} {t : Terminal}
    (ht : t ∈ s.firstOf x) : t ∈ first.of x := by
  cases x with
  | terminal u => exact OrderedSet.mem_single.1 ht
  | nonterminal n => exact h.first n t ht

/-- A visit for the sake of FIRST.  The blanks that let it go on are in every solution too. -/
theorem Within.visitFirst (h : s.Within first follow) (hsolves : Solves g first follow)
    {r : Rule} (hr : r ∈ g.allRules) : (s.visitFirst g r).Within first follow where
  first := by
    intro n t ht
    rcases SetFamily.mem_get_add ht with hold | ⟨rfl, hnew⟩
    · exact h.first n t hold
    · rcases mem_ofBody.1 hnew with ⟨i, y, hy, hbefore, ht⟩ | ⟨hall, ht⟩
      · exact hsolves.symbol r hr i y hy (fun x hx => h.firstOf (hbefore x hx)) (h.firstOf ht)
      · exact hsolves.beyond r hr (fun x hx => h.firstOf (hall x hx)) (h.follow r.head t ht)
  follow := h.follow

/-- A visit for the sake of FOLLOW. -/
theorem Within.visitFollow (h : s.Within first follow) (hsolves : Solves g first follow)
    {r : Rule} (hr : r ∈ g.allRules) : (s.visitFollow r).Within first follow := by
  apply List.foldlRecOn (motive := fun s : FirstFollow => s.Within first follow) _ _ h
  intro s h o ho
  refine ⟨h.first, fun n t ht => ?_⟩
  rcases SetFamily.mem_get_add ht with hold | ⟨rfl, hnew⟩
  · exact h.follow n t hold
  · obtain ⟨i, hi, hnext⟩ := mem_occurrences.1 (show (o.1, o.2) ∈ occurrences r.body from ho)
    rcases ho : o.2 with _ | x
    · rw [ho] at hnew hnext
      exact hsolves.last r hr i o.1 hi hnext (h.follow r.head t hnew)
    · rw [ho] at hnew hnext
      exact hsolves.next r hr i o.1 x hi hnext (h.firstOf hnew)

theorem Within.round (h : s.Within first follow) (hsolves : Solves g first follow) :
    (round g (byHead g) s).Within first follow := by
  have hfirst : ((byHead g).foldl (FirstFollow.visitFirst g) s).Within first follow :=
    List.foldlRecOn (motive := fun s : FirstFollow => s.Within first follow) _ _ h
      fun _ h _ hr => h.visitFirst hsolves (mem_byHead.1 hr).1
  exact List.foldlRecOn (motive := fun s : FirstFollow => s.Within first follow) _ _ hfirst
    fun _ h _ hr => h.visitFollow hsolves hr

/-- Every solution has what the sets of the grammar have. -/
theorem Solves.within (hsolves : Solves g first follow) : g.firstFollow.Within first follow :=
  firstFollow_invariant (P := fun s => s.Within first follow) (within_initial g first follow)
    fun _ h => h.round hsolves

/-- So have closed sets. -/
theorem Closed.below (hs : s.Closed g) : g.firstFollow.Below s :=
  ⟨hs.solves.within.first, hs.solves.within.follow⟩

/-! ## The least solution -/

/-- The FIRST and FOLLOW sets of a grammar are the least families that solve the equations. -/
theorem isLeast_families {declarations : List Declaration}
    (hg : Grammar.define declarations = .ok g) :
    IsLeast {families : TerminalFamily × TerminalFamily | Solves g families.1 families.2}
      (g.firstFollow.firstFamily, g.firstFollow.followFamily) := by
  have hg := Grammar.wellFormed_of_define hg
  refine ⟨hg.closed_firstFollow.solves, ?_⟩
  rintro ⟨first, follow⟩ hsolves
  have hwithin := Solves.within hsolves
  exact ⟨hwithin.first, hwithin.follow⟩

/-- `S := A x`, `A := B c`, `B := C`, `C := Blank | d`.  The production of `A` is visited when FIRST
of `B` has nothing yet, and the blank gets there in a later round. -/
def lateBlank : List Declaration :=
  [.sentinel .blank "Blank", .sentinel .endMarker "$", .terminal "x", .terminal "c",
    .terminal "d", .nonterminal "S", .nonterminal "A", .nonterminal "B", .nonterminal "C",
    .start ⟨1⟩,
    .rule (.nonterminal ⟨1⟩) [.nonterminal ⟨2⟩, .terminal ⟨2⟩],
    .rule (.nonterminal ⟨2⟩) [.nonterminal ⟨3⟩, .terminal ⟨3⟩],
    .rule (.nonterminal ⟨3⟩) [.nonterminal ⟨4⟩], .rule (.nonterminal ⟨4⟩) [.terminal ⟨0⟩],
    .rule (.nonterminal ⟨4⟩) [.terminal ⟨4⟩]]

/-- In the least solution `A` has the blank in FIRST, although it derives no empty string, and it
has `c`, but not the `x` of its FOLLOW. -/
theorem isLeast_families_lateBlank : ∃ g, Grammar.define lateBlank = .ok g ∧
    IsLeast {families : TerminalFamily × TerminalFamily | Solves g families.1 families.2}
      (g.firstFollow.firstFamily, g.firstFollow.followFamily) ∧
    (g.firstFollow.firstOf (.nonterminal ⟨2⟩)).toList = [⟨0⟩, ⟨4⟩, ⟨3⟩] ∧
    (g.firstFollow.followOf (.nonterminal ⟨2⟩)).toList = [⟨2⟩] := by
  have hpasses : Grammar.passes lateBlank (fun g =>
      (g.firstFollow.firstOf (.nonterminal ⟨2⟩)).toList = [⟨0⟩, ⟨4⟩, ⟨3⟩] ∧
        (g.firstFollow.followOf (.nonterminal ⟨2⟩)).toList = [⟨2⟩]) = true := by decide +kernel
  obtain ⟨g, hg, hcheck⟩ := Grammar.exists_of_passes hpasses
  exact ⟨g, hg, isLeast_families hg, of_decide_eq_true hcheck⟩

end FirstFollow

end ShiftReduce
