import ShiftReduce.Grammar.Definition

/-!
# Defining a grammar in place

A `Registry` is the one store that all declarations of a definition work on: the draft, and the
numbers to be given out next.  A declaration is an `Action` on it, which makes its checks, takes
a number and enters what it declares, one after another.  Nothing is undone when an action
fails: what it has written by then stays in the registry, and the next declaration finds it
there.

The operations of `Draft` and those of this module are the same declarations twice: there a
failure is a result without a draft, so that it cannot leave anything behind, and here it may.

* `Registry.call`: one declaration, with its result and what it leaves.
* `Registry.callEach`: one after another, whether or not they succeed.
-/

namespace ShiftReduce

/-- A draft under definition, with the next number for each kind of things that are counted. -/
structure Registry where
  draft : Draft
  next : Counted → Nat

namespace Registry

/-- The registry before anything is declared.  The reserved nonterminal has the number zero. -/
def empty : Registry where
  draft := .empty
  next
    | .terminals => 0
    | .nonterminals => 1
    | .rules => Draft.firstRuleNumber

/-- A piece of work on the registry, which may fail on the way. -/
abbrev Action := ExceptT DefinitionError (StateM Registry)

/-- What a piece of work gives, and the registry that it leaves. -/
def perform {α : Type} (a : Action α) (r : Registry) : Except DefinitionError α × Registry :=
  a.run.run r

/-! ### Pieces of work -/

/-- Takes the next number. -/
def take (counted : Counted) : Action Nat := do
  let number := (← get).next counted
  if Draft.idLimit ≤ number then throw (.tooMany counted)
  else
    modify fun r => { r with next := fun c => if c = counted then number + 1 else r.next c }
    return number

/-- Changes the draft. -/
def enter (change : Draft → Draft) : Action Unit :=
  modify fun r => { r with draft := change r.draft }

/-! ### What pieces of work come to -/

section

variable {α β : Type} (r : Registry)

@[simp] theorem perform_pure (x : α) : perform (pure x) r = (.ok x, r) := rfl

@[simp] theorem perform_throw (e : DefinitionError) :
    perform (throw e : Action α) r = (.error e, r) := rfl

@[simp] theorem perform_ite (p : Prop) [Decidable p] (a b : Action α) :
    perform (if p then a else b) r = if p then perform a r else perform b r := by
  split <;> rfl

/-- What comes later finds what has been left. -/
theorem perform_bind (a : Action α) (f : α → Action β) :
    perform (a >>= f) r = match perform a r with
      | (.ok x, r') => perform (f x) r'
      | (.error e, r') => (.error e, r') := by
  simp only [perform, StateT.run, ExceptT.run, bind, ExceptT.bind, ExceptT.mk, StateT.bind,
    ExceptT.bindCont]
  cases a r with
  | mk result r' => cases result <;> rfl

@[simp] theorem perform_get_bind (f : Registry → Action α) :
    perform (get >>= f) r = perform (f r) r := rfl

@[simp] theorem perform_enter_bind (change : Draft → Draft) (f : Unit → Action α) :
    perform (enter change >>= f) r = perform (f ()) { r with draft := change r.draft } := rfl

@[simp] theorem perform_take_bind (counted : Counted) (f : Nat → Action α) :
    perform (take counted >>= f) r =
      if Draft.idLimit ≤ r.next counted then (.error (.tooMany counted), r)
      else perform (f (r.next counted))
        { r with next := fun c => if c = counted then r.next counted + 1 else r.next c } := by
  rw [perform_bind, take, perform_get_bind, perform_ite]
  by_cases h : Draft.idLimit ≤ r.next counted
  · simp only [if_pos h, perform_throw]
  · simp only [if_neg h]
    rfl

end

/-! ### Declarations -/

/-- Adds a terminal under a name that no other terminal has. -/
def addTerminal (entry : TerminalEntry) : Action Terminal := do
  let v := (← get).draft.vocabulary
  if entry.name.isEmpty then throw .emptyName
  else if v.terminals.any (·.name = entry.name) then throw (.duplicateTerminal entry.name)
  else
    let number ← take .terminals
    enter fun d => { d with vocabulary.terminals := d.vocabulary.terminals ++ [entry] }
    return ⟨number⟩

/-- Adds a nonterminal under a name that no other nonterminal has. -/
def addNonterminal (name : String) : Action Nonterminal := do
  let v := (← get).draft.vocabulary
  if name.isEmpty then throw .emptyName
  else if name ∈ v.nonterminals then throw (.duplicateNonterminal name)
  else
    let number ← take .nonterminals
    enter fun d => { d with vocabulary.nonterminals := d.vocabulary.nonterminals ++ [name] }
    return ⟨number⟩

/-- Adds a terminal that plays a part which none plays yet. -/
def addSentinel (part : Sentinel) (name : String) : Action Terminal := do
  if ((← get).draft.sentinel? part).isSome then throw (.sentinelRedefined part)
  else
    let t ← addTerminal ⟨name, some part⟩
    enter fun d => d.setSentinel t part
    return t

/-- Adds a production that is not there yet, under a declared head. -/
def addRule (head : Nonterminal) (body : List Symbol) : Action Nat := do
  let d := (← get).draft
  let headName := d.vocabulary.name (.nonterminal head)
  if body.isEmpty then throw (.emptyBody headName)
  else if body.any (¬ d.vocabulary.Declares ·) then throw (.undeclared (.body headName))
  else
    let rule := d.nextRule head body
    if d.rules.any fun r => r.head = rule.head ∧ r.body = rule.body then
      throw (.duplicateRule (rule.text d.vocabulary))
    else
      let number ← take .rules
      enter fun d => { d with rules := d.rules ++ [{ rule with number := number }] }
      return number

/-- The work of one declaration. -/
def declare : Declaration → Action Declared
  | .terminal name => return .symbol (.terminal (← addTerminal ⟨name, none⟩))
  | .nonterminal name => return .symbol (.nonterminal (← addNonterminal name))
  | .sentinel part name => return .symbol (.terminal (← addSentinel part name))
  | .start symbol => do
    if (← get).draft.vocabulary.Declares (.nonterminal symbol) then
      enter fun d => { d with startSymbol := some symbol }
      return .nothing
    else throw (.undeclared .start)
  | .rule (.terminal t) _ => do
    throw (.terminalHead ((← get).draft.vocabulary.name? (.terminal t)))
  | .rule (.nonterminal head) body => do
    if (← get).draft.vocabulary.Declares (.nonterminal head) then
      return .rule (← addRule head body)
    else throw (.undeclared .head)

/-- What one declaration gives, and the registry that it leaves. -/
def call (r : Registry) (declaration : Declaration) :
    Except DefinitionError Declared × Registry :=
  perform (declare declaration) r

/-- Declares one thing after another, whatever becomes of each of them. -/
def callEach (r : Registry) : List Declaration → List (Except DefinitionError Declared) × Registry
  | [] => ([], r)
  | declaration :: rest =>
    let (result, r') := r.call declaration
    let (results, last) := r'.callEach rest
    (result :: results, last)

theorem callEach_cons (r : Registry) (declaration : Declaration) (rest : List Declaration) :
    r.callEach (declaration :: rest) =
      ((r.call declaration).1 :: ((r.call declaration).2.callEach rest).1,
        ((r.call declaration).2.callEach rest).2) := rfl

end Registry

end ShiftReduce
