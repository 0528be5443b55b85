import ShiftReduce.Proofs.Automaton.Numbering
import ShiftReduce.Proofs.Automaton.Path

/-!
# Every state can be reached

The first transition into a state comes from a state that has been there before it
(`Exploration.Numbered`).  So every state but the first has a transition into it from a state with a
smaller number (`StateGraph.Entered`), and the symbols over which the start state leads to it are
found by going back from one state to the other (`Automaton.exists_walk`).

With `Merging.firstFound` a state does not change after it has been made (`StateGraph.Founded`).
So with either kind of merging all lookaheads of the state that it was made from have arrived in it
(`Automaton.exists_origin`).

No two states have the same cores, since a kernel whose cores are known makes no state
(`StateGraph.eq_of_kernel`).

`Automaton.walk` follows transitions over a row of symbols.
-/

namespace ShiftReduce

/-! ## What states are made from -/

namespace StateGraph

variable {g : Grammar} {sets : FirstFollow}

/-- Every state but the first has the items that it was made with: a transition leads into it from a
state before it, and its item set is that of the kernel which the state before reaches by it. -/
def Founded (g : Grammar) (sets : FirstFollow) (c : StateGraph) : Prop :=
  ∀ q < c.states.size, q = 0 ∨ ∃ p < q, ∃ x, (x, q) ∈ (c.look p).transitions ∧
    (c.look q).items = .ofKernels g sets ((c.look p).items.advance g x)

/-- Every state but the first has a transition into it from a state before it. -/
def Entered (c : StateGraph) : Prop :=
  ∀ q < c.states.size, q = 0 ∨ ∃ p < q, ∃ x, (x, q) ∈ (c.look p).transitions

theorem Founded.entered {c : StateGraph} (h : c.Founded g sets) : c.Entered :=
  fun q hq => (h q hq).imp_right fun ⟨p, hp, x, hedge, _⟩ => ⟨p, hp, x, hedge⟩

theorem Entered.of_alike {c c' : StateGraph} (h : c.Entered) (halike : c.Alike c') :
    c'.Entered := by
  intro q hq
  refine (h q (halike.size ▸ hq)).imp_right fun ⟨p, hp, x, hedge⟩ => ⟨p, hp, x, ?_⟩
  rwa [State.transitions_eq_of_skeleton_eq (halike.look p)]

end StateGraph

namespace Exploration

variable {g : Grammar} {sets : FirstFollow}

theorem Numbered.founded {e : Exploration} (h : Numbered g sets e) : e.graph.Founded g sets := by
  intro q hq
  by_cases hzero : q = 0
  · exact .inl hzero
  · obtain ⟨p, i, x, hfound⟩ := h.found q hq hzero
    exact .inr ⟨p, hfound.lt, x, List.mem_of_getElem? hfound.edge, hfound.items⟩

theorem founded_full (g : Grammar) (sets : FirstFollow) :
    (full g sets .firstFound).graph.Founded g sets :=
  (numbered_full g sets).founded

end Exploration

/-! ## The graphs of a grammar -/

namespace StateGraph

variable {g : Grammar}

/-- Both graphs of a grammar have the skeletons that the exploration has come to. -/
theorem alike_full_ofGrammar (hg : g.WellFormed) (merging : Merging) :
    (Exploration.full g g.firstFollow .firstFound).graph.Alike
      (ofGrammar g g.firstFollow merging) := by
  cases merging with
  | firstFound => exact .refl _
  | lalr => exact (alike_ofGrammar hg).1

theorem entered_ofGrammar (hg : g.WellFormed) (merging : Merging) :
    (ofGrammar g g.firstFollow merging).Entered :=
  (Exploration.founded_full g g.firstFollow).entered.of_alike (alike_full_ofGrammar hg merging)

/-- No state lists a pending nonterminal twice. -/
theorem nodup_pendings_ofGrammar (hg : g.WellFormed) (merging : Merging) (q : Nat) :
    (((ofGrammar g g.firstFollow merging).look q).items.pendings.map (·.symbol)).Nodup :=
  ((alike_ofGrammar hg).2.of_alike (alike_full_ofGrammar hg merging)).nodup q

/-- No two states have the same cores. -/
theorem eq_of_kernel (hg : g.WellFormed) (merging : Merging) {p q : Nat}
    (hp : p < (ofGrammar g g.firstFollow merging).states.size)
    (hq : q < (ofGrammar g g.firstFollow merging).states.size)
    (h : ∀ d, d ∈ ((ofGrammar g g.firstFollow merging).look p).kernel ↔
      d ∈ ((ofGrammar g g.firstFollow merging).look q).kernel) : p = q := by
  obtain ⟨hsound, -⟩ := Exploration.sound_full .firstFound hg hg.declared_firstFollow
  have halike := alike_full_ofGrammar hg merging
  have hsame : ∀ d, d ∈ ((Exploration.full g g.firstFollow .firstFound).graph.look p).kernel ↔
      d ∈ ((Exploration.full g g.firstFollow .firstFound).graph.look q).kernel := by
    intro d
    rw [← State.kernel_eq_of_skeleton_eq (halike.look p), h,
      State.kernel_eq_of_skeleton_eq (halike.look q)]
  -- The index knows both states by the same cores.
  have hcores := (Item.cores_eq_iff hg (hsound.shaped.rule_mem p) (hsound.shaped.rule_mem q)).2 hsame
  have hindex := hsound.indexed.complete p (halike.size ▸ hp)
  rw [hcores, hsound.indexed.complete q (halike.size ▸ hq)] at hindex
  exact (Option.some.inj hindex).symm

end StateGraph

/-! ## Following transitions -/

namespace Automaton

/-- The state that transitions over some symbols lead to. -/
def walk (a : Automaton) : Nat → List Symbol → Option Nat
  | p, [] => some p
  | p, x :: symbols => ((a.look p).transition? x).bind fun q => a.walk q symbols

variable {a : Automaton}

theorem walk_append (p : Nat) (symbols symbols' : List Symbol) :
    a.walk p (symbols ++ symbols') = (a.walk p symbols).bind fun q => a.walk q symbols' := by
  induction symbols generalizing p with
  | nil => rfl
  | cons x symbols ih =>
      rw [List.cons_append, walk, walk]
      cases (a.look p).transition? x with
      | none => rfl
      | some q => exact ih q

/-- A walk goes on over a transition. -/
theorem walk_concat {p q : Nat} {symbols : List Symbol} (h : a.walk p symbols = some q)
    (x : Symbol) : a.walk p (symbols ++ [x]) = (a.look q).transition? x := by
  rw [walk_append, h, Option.bind_some, walk]
  exact Option.bind_fun_some _

theorem exists_walk_of_append {p q : Nat} {symbols symbols' : List Symbol}
    (h : a.walk p (symbols ++ symbols') = some q) :
    ∃ p', a.walk p symbols = some p' ∧ a.walk p' symbols' = some q := by
  rw [walk_append] at h
  exact Option.bind_eq_some_iff.1 h

/-- A walk stacks up the states that it comes through. -/
theorem spells_of_walk {p q : Nat} {symbols : List Symbol} (h : a.walk p symbols = some q)
    (states : List Nat) : ∃ below, Spells a (p :: states) symbols (q :: below) := by
  induction symbols generalizing p states with
  | nil =>
      obtain rfl := Option.some.inj h
      exact ⟨states, .nil⟩
  | cons x symbols ih =>
      obtain ⟨p', hx, hrest⟩ := Option.bind_eq_some_iff.1 h
      obtain ⟨below, hspells⟩ := ih hrest (p :: states)
      exact ⟨below, .cons hx hspells⟩

variable {g : Grammar} {merging : Merging}

/-- In an automaton every state but the first is entered from a state before it. -/
theorem exists_entry (hg : g.WellFormed) (h : build g merging = .ok a) {q : Nat}
    (hq : q < a.states.length) :
    q = 0 ∨ ∃ p < q, ∃ x, (a.look p).transition? x = some q := by
  have hconsistent := consistent_of_build hg h
  rw [build_eq] at h
  refine (StateGraph.entered_ofGrammar hg merging q (length_of_settle h ▸ hq)).imp_right ?_
  rintro ⟨p, hp, x, hedge⟩
  rw [← (look_of_settle h p).2.1] at hedge
  exact ⟨p, hp, x, hconsistent.transition?_eq_some_iff.2 hedge⟩

/-- Into every state but the first there is a transition from a state before it over which all
lookaheads have arrived. -/
theorem exists_origin (hg : g.WellFormed) (h : build g merging = .ok a) {q : Nat}
    (hq : q < a.states.length) :
    q = 0 ∨ ∃ p < q, ∃ x, (a.look p).transition? x = some q ∧
      ∀ d t, (a.look p).Expects g d t → d.next? = some x → (a.look q).Expects g d.advance t := by
  cases merging with
  | lalr =>
      refine (exists_entry hg h hq).imp_right fun ⟨p, hp, x, hx⟩ => ⟨p, hp, x, hx, ?_⟩
      exact fun d t hd hnext => (saturated_of_build hg h).expects_advance hx hd hnext
  | firstFound =>
      have hconsistent := consistent_of_build hg h
      rw [build_eq] at h
      have hlook := look_of_settle h
      refine (Exploration.founded_full g g.firstFollow q (length_of_settle h ▸ hq)).imp_right ?_
      rintro ⟨p, hp, x, hedge, hmade⟩
      refine ⟨p, hp, x, hconsistent.transition?_eq_some_iff.2 ((hlook p).2.1 ▸ hedge), ?_⟩
      intro d t hd hnext
      have hitems : (a.look q).items =
          .ofKernels g g.firstFollow ((a.look p).items.advance g x) := by
        rw [(hlook q).1, (hlook p).1]
        exact hmade
      rw [State.Expects, ItemSet.expects_items, hitems]
      exact .inl (Item.expects_across.2 ⟨d, hd, hnext, rfl⟩)

/-- Every state can be reached from the start state. -/
theorem exists_walk (hg : g.WellFormed) (h : build g merging = .ok a) {q : Nat}
    (hq : q < a.states.length) : ∃ symbols, a.walk startState symbols = some q := by
  induction q using Nat.strong_induction_on with
  | _ q ih =>
      rcases exists_entry hg h hq with rfl | ⟨p, hp, x, hx⟩
      · exact ⟨[], rfl⟩
      · obtain ⟨symbols, hwalk⟩ := ih p hp (hp.trans hq)
        exact ⟨symbols ++ [x], (walk_concat hwalk x).trans hx⟩

/-- Every state stands on top of a path. -/
theorem exists_path (hg : g.WellFormed) (h : build g merging = .ok a) {q : Nat}
    (hq : q < a.states.length) : ∃ below spelled, Path a (q :: below) spelled := by
  obtain ⟨symbols, hwalk⟩ := exists_walk hg h hq
  obtain ⟨below, hspells⟩ := spells_of_walk hwalk []
  exact ⟨below, _, hspells.path .start⟩

end Automaton

end ShiftReduce
