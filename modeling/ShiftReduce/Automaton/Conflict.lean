import ShiftReduce.Automaton.Basic
import ShiftReduce.Grammar.Text
import ShiftReduce.ItemSet.Expansion

/-!
# Conflicts

A production that may be reduced in a state demands each of its lookaheads there.  A
terminal can be granted to one production only, and to none if there is a transition
on it.  `State.settle` grants the demands one after another and stops at the first
that cannot be granted.
-/

namespace ShiftReduce

/-- Why a grammar has no automaton. -/
inductive BuildError where
  | ambiguousEpsilon (state : Nat) (clash : EpsilonClash)
  | shiftReduce (state : Nat) (terminal : Terminal) (target : Nat) (rule : Rule)
  | reduceReduce (state : Nat) (terminal : Terminal) (first second : Rule)
deriving DecidableEq

/-- The number of a state, in two digits or more. -/
def stateText (id : Nat) : String :=
  (if id < 10 then "0" else "") ++ toString id

/-- The wording of an error. -/
def BuildError.message (v : Vocabulary) : BuildError → String
  | ambiguousEpsilon state _ =>
    "state " ++ stateText state ++ " has more than one epsilon production in its kernel"
  | shiftReduce state terminal target rule =>
    "shift/reduce conflict in state " ++ stateText state ++
    " on `" ++ v.name (.terminal terminal) ++ "': shift(" ++ stateText target ++
    ") or reduce(" ++ rule.text v ++ ")"
  | reduceReduce state terminal first second =>
    "reduce/reduce conflict in state " ++ stateText state ++
    " on `" ++ v.name (.terminal terminal) ++ "': reduce(" ++ first.text v ++
    ") or reduce(" ++ second.text v ++ ")"

/-- The terminals that reductions demand, in the order of `ItemSet.reductions` and
then of the lookaheads.  The blank comes in no input, and no reduction demands it. -/
def ItemSet.demands (g : Grammar) (s : ItemSet) : List (Terminal × Rule) :=
  (s.reductions g).flatMap fun (rule, lookaheads) =>
    (lookaheads.toList.filter (· ≠ g.blank)).map fun t => (t, rule)

namespace State

/-- Grants demands one after another, on top of those granted before. -/
def grant (s : State) (id : Nat) (granted : List (Terminal × Rule)) :
    List (Terminal × Rule) → Except BuildError (List (Terminal × Rule))
  | [] => .ok granted
  | (t, rule) :: rest =>
    match granted.lookup t, s.transition? (.terminal t) with
    | some first, _ => .error (.reduceReduce id t first rule)
    | none, some target => .error (.shiftReduce id t target rule)
    | none, none => s.grant id (granted ++ [(t, rule)]) rest

/-- The state of a number with all demands granted. -/
def settle (g : Grammar) (id : Nat) (s : State) : Except BuildError State :=
  match ItemSet.clash? s.items.kernels with
  | some clash => .error (.ambiguousEpsilon id clash)
  | none => (s.grant id [] (s.items.demands g)).map fun granted => { s with reduces := granted }

/-- Settles the states from a number on. -/
def settleFrom (g : Grammar) : Nat → List State → Except BuildError (List State)
  | _, [] => .ok []
  | id, s :: rest => do
    let settled ← s.settle g id
    let later ← settleFrom g (id + 1) rest
    return settled :: later

/-- States from the first conflict on do not matter: two lists that agree as far as a
state in conflict have the same result. -/
theorem settleFrom_congr {g : Grammar} {n id : Nat} {states states' : List State} {s : State}
    (same : ∀ i ≤ n, states[i]? = states'[i]?) (mem : states[n]? = some s)
    (conflict : (s.settle g (id + n)).isOk = false) :
    settleFrom g id states = settleFrom g id states' := by
  induction n generalizing id states states' with
  | zero =>
    have mem' := (same 0 (Nat.le_refl 0)).symm.trans mem
    rcases states with _ | ⟨a, states⟩ <;> rcases states' with _ | ⟨b, states'⟩ <;> simp at mem mem'
    subst mem mem'
    rcases h : b.settle g id with e | settled
    · simp only [settleFrom, h]
      rfl
    · simp [h, Except.isOk, Except.toBool] at conflict
  | succ n ih =>
    rcases states with _ | ⟨a, states⟩
    · simp at mem
    · rcases states' with _ | ⟨b, states'⟩
      · simpa using same 0 (Nat.zero_le _)
      · have hab : a = b := by simpa using same 0 (Nat.zero_le _)
        have later : settleFrom g (id + 1) states = settleFrom g (id + 1) states' :=
          ih (fun i hi => by simpa using same (i + 1) (by omega)) (by simpa using mem)
            (by rwa [Nat.add_right_comm])
        rw [settleFrom, settleFrom, hab, later]

end State

end ShiftReduce
