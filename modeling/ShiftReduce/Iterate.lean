/-!
# Repeating a step until the work is done

The generator is made of loops that refine a state until nothing is left to do.  Each
of them has a test `done` and a step `next`, and is run by `runUntil` with a bound on
the number of steps.

* `runUntil_invariant`: what every step keeps holds of the result.
* `done_runUntil`: if every step lowers a measure and the bound is no less than the
  measure at the start, the work really is done in the end.
* `runUntil_related`: runs whose steps correspond have results that correspond.
* `runUntil_doneOrAt`: a run that is given up early ends in a state that the whole run comes
  through.
* `loop_runUntil`: a run that gets done within its bound is what the loop without a bound comes
  to (`Loop`).
-/

namespace ShiftReduce

universe u

variable {σ : Type u} {done : σ → Bool} {next : σ → σ}

/-- Takes steps until the work is done, but at most `fuel` of them. -/
def runUntil (done : σ → Bool) (next : σ → σ) : Nat → σ → σ
  | 0, s => s
  | fuel + 1, s => if done s then s else runUntil done next fuel (next s)

theorem runUntil_of_done {s : σ} (h : done s = true) (fuel : Nat) :
    runUntil done next fuel s = s := by
  cases fuel <;> simp [runUntil, h]

theorem runUntil_of_not_done {s : σ} (h : done s = false) (fuel : Nat) :
    runUntil done next (fuel + 1) s = runUntil done next fuel (next s) := by
  simp [runUntil, h]

/-- What every step keeps holds of the result. -/
theorem runUntil_invariant {P : σ → Prop} (keep : ∀ s, P s → done s = false → P (next s))
    (fuel : Nat) {s : σ} (hs : P s) : P (runUntil done next fuel s) := by
  induction fuel generalizing s with
  | zero => exact hs
  | succ fuel ih =>
    rcases h : done s
    · rw [runUntil_of_not_done h]
      exact ih (keep s hs h)
    · rwa [runUntil_of_done h]

/-- A bound no less than a measure that every step lowers is never reached. -/
theorem done_runUntil {P : σ → Prop} (measure : σ → Nat)
    (keep : ∀ s, P s → done s = false → P (next s))
    (lower : ∀ s, P s → done s = false → measure (next s) < measure s)
    {fuel : Nat} {s : σ} (hs : P s) (bound : measure s ≤ fuel) :
    done (runUntil done next fuel s) = true := by
  induction fuel generalizing s with
  | zero =>
    rcases h : done s
    · have := lower s hs h
      omega
    · exact h
  | succ fuel ih =>
    rcases h : done s
    · have := lower s hs h
      rw [runUntil_of_not_done h]
      exact ih (keep s hs h) (by omega)
    · rwa [runUntil_of_done h]

/-- A run may be cut in two. -/
theorem runUntil_add (m n : Nat) (s : σ) :
    runUntil done next (m + n) s = runUntil done next n (runUntil done next m s) := by
  induction m generalizing s with
  | zero => simp [runUntil]
  | succ m ih =>
    rcases h : done s
    · rw [Nat.add_right_comm, runUntil_of_not_done h, runUntil_of_not_done h, ih]
    · simp only [runUntil_of_done h]

/-- Two runs whose steps correspond have results that correspond. -/
theorem runUntil_related {τ : Type u} {done' : τ → Bool} {next' : τ → τ} {R : σ → τ → Prop}
    (same : ∀ s t, R s t → done s = done' t)
    (keep : ∀ s t, R s t → done s = false → R (next s) (next' t)) (fuel : Nat) {s : σ} {t : τ}
    (h : R s t) : R (runUntil done next fuel s) (runUntil done' next' fuel t) := by
  induction fuel generalizing s t with
  | zero => exact h
  | succ fuel ih =>
    have hsame := same s t h
    rcases hs : done s
    · rw [runUntil_of_not_done hs, runUntil_of_not_done (hsame.symm.trans hs)]
      exact ih (keep s t h hs)
    · rwa [runUntil_of_done hs, runUntil_of_done (hsame.symm.trans hs)]

/-! ### Giving up early -/

/-- Work that is done or given up at a mark. -/
def doneOrAt (mark done : σ → Bool) (s : σ) : Bool := mark s || done s

/-- A run that is given up at a mark either comes to no mark, and then is the whole run,
or ends at a mark on the way of the whole run. -/
theorem runUntil_doneOrAt {mark : σ → Bool} (fuel : Nat) (s : σ) :
    runUntil (doneOrAt mark done) next fuel s = runUntil done next fuel s ∨
    ∃ n ≤ fuel, runUntil (doneOrAt mark done) next fuel s = runUntil done next n s ∧
      mark (runUntil done next n s) = true := by
  induction fuel generalizing s with
  | zero => exact .inl rfl
  | succ fuel ih =>
    rcases hm : mark s
    · have h' : doneOrAt mark done s = done s := by simp [doneOrAt, hm]
      rcases h : done s
      · rw [runUntil_of_not_done h, runUntil_of_not_done (h'.trans h)]
        rcases ih (next s) with e | ⟨n, hn, e, hm'⟩
        · exact .inl e
        · exact .inr ⟨n + 1, by omega, by rw [runUntil_of_not_done h, e],
            by rw [runUntil_of_not_done h, hm']⟩
      · exact .inl (by rw [runUntil_of_done h, runUntil_of_done (h'.trans h)])
    · have h' : doneOrAt mark done s = true := by simp [doneOrAt, hm]
      exact .inr ⟨0, Nat.zero_le _, runUntil_of_done h' _, hm⟩

/-! ### Without a bound -/

/-- A loop that takes steps until the work is done, however many, comes from one state to another.
Steps are a relation: one that has a loop of its own is made only if that loop ends. -/
inductive Loop (done : σ → Bool) (step : σ → σ → Prop) : σ → σ → Prop
  | stop {s : σ} : done s = true → Loop done step s s
  | go {s s' last : σ} : done s = false → step s s' → Loop done step s' last →
      Loop done step s last

/-- A run that gets done within its bound is the whole loop, if each of its steps can be made. -/
theorem loop_runUntil {P : σ → Prop} {step : σ → σ → Prop}
    (keep : ∀ s, P s → done s = false → P (next s))
    (make : ∀ s, P s → done s = false → step s (next s)) {fuel : Nat} {s : σ} (hs : P s)
    (h : done (runUntil done next fuel s) = true) :
    Loop done step s (runUntil done next fuel s) := by
  induction fuel generalizing s with
  | zero => exact .stop h
  | succ fuel ih =>
    rcases hdone : done s
    · rw [runUntil_of_not_done hdone] at h ⊢
      exact .go hdone (make s hs hdone) (ih (keep s hs hdone) h)
    · rw [runUntil_of_done hdone]
      exact .stop hdone

/-- If steps have no loops of their own, then they can always be made. -/
theorem loop_of_done {fuel : Nat} {s : σ} (h : done (runUntil done next fuel s) = true) :
    Loop done (fun s s' => s' = next s) s (runUntil done next fuel s) := by
  refine loop_runUntil (P := fun _ => True) ?_ ?_ trivial h
  · exact fun _ _ _ => trivial
  · exact fun _ _ _ => rfl

/-- There is no more than one end to a loop whose steps are determined. -/
theorem Loop.unique {step : σ → σ → Prop} (determined : ∀ s a b, step s a → step s b → a = b)
    {s last last' : σ} (h : Loop done step s last) (h' : Loop done step s last') :
    last = last' := by
  induction h with
  | stop hdone =>
    cases h' with
    | stop => rfl
    | go hnot => exact absurd hdone (Bool.eq_false_iff.1 hnot)
  | go hnot hstep _ ih =>
    cases h' with
    | stop hdone => exact absurd hdone (Bool.eq_false_iff.1 hnot)
    | go _ hstep' hlater => exact ih (determined _ _ _ hstep hstep' ▸ hlater)

end ShiftReduce
