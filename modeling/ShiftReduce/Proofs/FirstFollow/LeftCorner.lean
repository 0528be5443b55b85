import ShiftReduce.Proofs.FirstFollow.Limit

/-!
# What the FIRST sets of a grammar without blank bodies hold

Where no body is blank, nothing vanishes, and the FIRST sets are those of the textbook: a
terminal is in FIRST of a nonterminal only if a chain of productions leads from the nonterminal
to the terminal at the left corner (`Begins`).  In a grammar with blank bodies this fails, since
FOLLOW sets are part of some FIRST sets.

The chain is what an automaton needs in order to have a transition over the terminal in every
state where the nonterminal comes next.
-/

namespace ShiftReduce

namespace Grammar

/-- A terminal stands at the left corner of what some productions make of a nonterminal. -/
inductive Begins (g : Grammar) : Nonterminal → Terminal → Prop
  | terminal {r : Rule} {t : Terminal} {rest : List Symbol} : r ∈ g.allRules →
      r.body = .terminal t :: rest → Begins g r.head t
  | nonterminal {r : Rule} {n : Nonterminal} {t : Terminal} {rest : List Symbol} :
      r ∈ g.allRules → r.body = .nonterminal n :: rest → Begins g n t → Begins g r.head t

/-- The blank is at no left corner if it is no body. -/
theorem Begins.ne_blank {g : Grammar} (hg : g.WellFormed) (hfree : g.EpsilonFree)
    {n : Nonterminal} {t : Terminal} (h : g.Begins n t) : t ≠ g.blank := by
  induction h with
  | terminal hr hbody =>
      rintro rfl
      exact hfree.ne_blank_of_mem hg hr (hbody ▸ List.mem_cons_self) rfl
  | nonterminal _ _ _ ih => exact ih

end Grammar

namespace FirstFollow

/-- FIRST sets hold terminals of left corners only. -/
def LeftCornered (g : Grammar) (s : FirstFollow) : Prop :=
  ∀ n t, t ∈ s.first.get n → g.Begins n t

/-- A visit to a production adds what begins its body. -/
theorem LeftCornered.visitFirst {g : Grammar} (hg : g.WellFormed) (hfree : g.EpsilonFree)
    {s : FirstFollow} (hs : s.LeftCornered g) {r : Rule} (hr : r ∈ g.allRules) :
    (s.visitFirst g r).LeftCornered g := by
  intro n t ht
  rcases SetFamily.mem_get_add ht with hold | ⟨rfl, hadded⟩
  · exact hs n t hold
  obtain ⟨x, rest, hbody⟩ := List.exists_cons_of_ne_nil (hg.ne_nil_of_mem hr)
  have hblank : g.blank ∉ s.firstOf x := by
    cases x with
    | terminal u =>
        intro hu
        obtain rfl := OrderedSet.mem_single.1 hu
        exact hfree.ne_blank_of_mem hg hr (hbody ▸ List.mem_cons_self) rfl
    | nonterminal m =>
        intro hm
        exact (hs m g.blank hm).ne_blank hg hfree rfl
  rw [hbody, ofBody, if_neg hblank] at hadded
  cases x with
  | terminal u =>
      obtain rfl := OrderedSet.mem_single.1 hadded
      exact .terminal hr hbody
  | nonterminal m => exact .nonterminal hr hbody (hs m t hadded)

/-- Visits for the sake of FOLLOW leave FIRST alone. -/
theorem first_visitFollow (s : FirstFollow) (r : Rule) : (s.visitFollow r).first = s.first :=
  List.foldlRecOn (motive := fun s' : FirstFollow => s'.first = s.first) (occurrences r.body) _ rfl
    fun _ h _ _ => h

theorem LeftCornered.round {g : Grammar} (hg : g.WellFormed) (hfree : g.EpsilonFree)
    {s : FirstFollow} (hs : s.LeftCornered g) : (round g (byHead g) s).LeftCornered g := by
  have hfirst : ((byHead g).foldl (FirstFollow.visitFirst g) s).LeftCornered g :=
    List.foldlRecOn _ _ hs fun s' hs' r hr => hs'.visitFirst hg hfree (mem_byHead.1 hr).1
  apply List.foldlRecOn _ _ hfirst
  intro s' hs' r _ n t ht
  rw [first_visitFollow] at ht
  exact hs' n t ht

/-- FIRST of a nonterminal holds what stands at its left corners. -/
theorem begins_of_mem_first {g : Grammar} (hg : g.WellFormed) (hfree : g.EpsilonFree)
    {n : Nonterminal} {t : Terminal} (h : t ∈ g.firstFollow.first.get n) : g.Begins n t := by
  have hstart : (initial g).LeftCornered g := by
    intro n t ht
    simp [initial] at ht
  exact firstFollow_invariant hstart (fun s hs => hs.round hg hfree) n t h

end FirstFollow

end ShiftReduce
