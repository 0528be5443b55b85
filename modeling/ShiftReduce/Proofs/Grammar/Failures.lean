import ShiftReduce.Grammar.Registry
import ShiftReduce.Proofs.Grammar.Representation

/-!
# A declaration that fails leaves no trace

A definition that is done in place, in a `Registry`, may do part of a declaration before it
fails.  Whatever it has done by then does not show: the registry is as it was
(`Registry.call_ofDraft`).  No number has been taken, no part is played and no name or
production is there that was not there before.

So a definition in place keeps its draft in order, and the numbers to come are those behind what
is there (`Registry.orderly_callEach`).  The declarations that fail may as well be left out of a
list (`Registry.callEach_succeeded`).  The others then all succeed, with the results that they
had, and they leave the same registry.

## Strategy

In the registry the numbers that come next are kept beside the draft.  They are always one more
than the last number in the draft, of each kind (`Registry.ofDraft`), so a registry is known by
its draft.  The operations in place come to what those on drafts come to, one lemma for each of
them.
-/

namespace ShiftReduce

/-- The number that the next thing of a kind gets. -/
def Draft.upcoming (d : Draft) : Counted → Nat
  | .terminals => d.vocabulary.terminals.length
  | .nonterminals => d.vocabulary.nonterminals.length
  | .rules => firstRuleNumber + d.rules.length

namespace Registry

/-- The registry of a draft: what comes next is numbered after what is there. -/
def ofDraft (d : Draft) : Registry := ⟨d, d.upcoming⟩

theorem draft_ofDraft (d : Draft) : (ofDraft d).draft = d := rfl

theorem next_ofDraft (d : Draft) (counted : Counted) :
    (ofDraft d).next counted = d.upcoming counted := rfl

theorem empty_eq_ofDraft : empty = ofDraft .empty := by
  rw [empty, ofDraft, Registry.mk.injEq]
  refine ⟨rfl, funext fun c => ?_⟩
  cases c <;> rfl

/-- What an operation on a draft comes to in the registry.  If it fails, all is as it was. -/
def outcome {α : Type} (d : Draft) :
    Except DefinitionError (α × Draft) → Except DefinitionError α × Registry
  | .ok (x, d') => (.ok x, ofDraft d')
  | .error e => (.error e, ofDraft d)

variable {d d' : Draft} {α β : Type}

theorem outcome_ok (x : α) : outcome d (.ok (x, d')) = (.ok x, ofDraft d') := rfl

theorem outcome_error (e : DefinitionError) :
    outcome d (.error e : Except DefinitionError (α × Draft)) = (.error e, ofDraft d) := rfl

theorem outcome_ite (p : Prop) [Decidable p] (a b : Except DefinitionError (α × Draft)) :
    outcome d (if p then a else b) = if p then outcome d a else outcome d b := by
  split <;> rfl

/-- The registry after a number has been taken and a thing of its kind has been entered. -/
theorem eq_ofDraft {counted : Counted} (hcounted : d'.upcoming counted = d.upcoming counted + 1)
    (hother : ∀ c ≠ counted, d'.upcoming c = d.upcoming c) :
    (⟨d', fun c => if c = counted then d.upcoming counted + 1 else d.upcoming c⟩ : Registry) =
      ofDraft d' := by
  rw [ofDraft, Registry.mk.injEq]
  refine ⟨rfl, funext fun c => ?_⟩
  split
  · rename_i h
    rw [h, hcounted]
  · rename_i h
    rw [hother c h]

theorem perform_addTerminal (d : Draft) (entry : TerminalEntry) :
    perform (addTerminal entry) (ofDraft d) = outcome d (d.addTerminal entry) := by
  rw [addTerminal, perform_get_bind]
  simp only [Draft.addTerminal, perform_ite, perform_throw, perform_take_bind, perform_enter_bind,
    perform_pure, outcome_ite, outcome_ok, outcome_error]
  simp only [draft_ofDraft, next_ofDraft]
  refine if_congr Iff.rfl rfl (if_congr Iff.rfl rfl (if_congr Iff.rfl rfl (Prod.ext rfl ?_)))
  apply eq_ofDraft (by simp [Draft.upcoming])
  rintro (_ | _ | _) hc
  · exact absurd rfl hc
  · rfl
  · rfl

theorem perform_addNonterminal (d : Draft) (name : String) :
    perform (addNonterminal name) (ofDraft d) = outcome d (d.addNonterminal name) := by
  rw [addNonterminal, perform_get_bind]
  simp only [Draft.addNonterminal, perform_ite, perform_throw, perform_take_bind,
    perform_enter_bind, perform_pure, outcome_ite, outcome_ok, outcome_error]
  simp only [draft_ofDraft, next_ofDraft]
  refine if_congr Iff.rfl rfl (if_congr Iff.rfl rfl (if_congr Iff.rfl rfl (Prod.ext rfl ?_)))
  apply eq_ofDraft (by simp [Draft.upcoming])
  rintro (_ | _ | _) hc
  · rfl
  · exact absurd rfl hc
  · rfl

/-- Of the three kinds of things only the terminals become more with a sentinel. -/
theorem perform_addSentinel (d : Draft) (part : Sentinel) (name : String) :
    perform (addSentinel part name) (ofDraft d) = outcome d (d.addSentinel part name) := by
  rw [addSentinel, perform_get_bind]
  simp only [Draft.addSentinel, perform_ite, perform_throw, outcome_ite, outcome_error]
  refine if_congr Iff.rfl rfl ?_
  rw [perform_bind, perform_addTerminal]
  cases d.addTerminal ⟨name, some part⟩ with
  | error e => rfl
  | ok added =>
      obtain ⟨t, d'⟩ := added
      cases part <;> rfl

theorem perform_addRule (d : Draft) (head : Nonterminal) (body : List Symbol) :
    perform (addRule head body) (ofDraft d) = outcome d (d.addRule head body) := by
  have hnumber : (d.nextRule head body).number = d.upcoming .rules :=
    d.nextRule_number head body
  rw [addRule, perform_get_bind]
  simp only [Draft.addRule, perform_ite, perform_throw, perform_take_bind, perform_enter_bind,
    perform_pure, outcome_ite, outcome_ok, outcome_error]
  simp only [draft_ofDraft, next_ofDraft, hnumber]
  refine if_congr Iff.rfl rfl (if_congr Iff.rfl rfl (if_congr Iff.rfl rfl
    (if_congr Iff.rfl rfl (Prod.ext rfl ?_))))
  have hrule : { d.nextRule head body with number := d.upcoming .rules } =
      d.nextRule head body := by
    rw [← hnumber]
  rw [← hrule]
  apply eq_ofDraft (by simp [Draft.upcoming, Nat.add_assoc])
  rintro (_ | _ | _) hc
  · rfl
  · rfl
  · exact absurd rfl hc

/-- What gives a result on drafts gives the same result in the registry. -/
theorem perform_map {a : Action α} {x : Except DefinitionError (α × Draft)}
    (h : perform a (ofDraft d) = outcome d x) (f : α → β) :
    perform (do return f (← a)) (ofDraft d) = outcome d (x.map fun (y, d') => (f y, d')) := by
  rw [perform_bind, h]
  cases x <;> rfl

/-- A declaration does in the registry what it does to the draft.  If it fails, whatever it has done
by then, the registry is as it was. -/
theorem call_ofDraft (d : Draft) (declaration : Declaration) :
    (ofDraft d).call declaration = outcome d (d.declare declaration) := by
  cases declaration with
  | terminal name => exact perform_map (perform_addTerminal d ⟨name, none⟩) _
  | nonterminal name => exact perform_map (perform_addNonterminal d name) _
  | sentinel part name => exact perform_map (perform_addSentinel d part name) _
  | start symbol =>
      simp only [call, declare, Draft.declare, perform_get_bind, perform_ite, perform_throw,
        perform_enter_bind, perform_pure, outcome_ite, outcome_error, outcome_ok]
      rfl
  | rule head body =>
      cases head with
      | terminal t => rfl
      | nonterminal head =>
          simp only [call, declare, Draft.declare, perform_get_bind, perform_ite, perform_throw,
            outcome_ite, outcome_error]
          exact if_congr Iff.rfl (perform_map (perform_addRule d head body) _) rfl

/-- So do declarations one after another, if failures are passed over. -/
theorem callEach_ofDraft (d : Draft) (declarations : List Declaration) :
    (ofDraft d).callEach declarations =
      ((d.declareEach true declarations).1, ofDraft (d.declareEach true declarations).2) := by
  induction declarations generalizing d with
  | nil => rfl
  | cons declaration rest ih =>
      rw [callEach_cons, call_ofDraft]
      rcases d.declareEach_cons declaration rest with ⟨declared, d', h, heq⟩ | ⟨e, h, heq⟩
      · rw [h, heq, outcome_ok, ih]
      · rw [h, heq, outcome_error, ih]

/-- Whatever has been declared in place, with or without success: there is a result for each
declaration, the draft is in order and consists of what the results say, and the numbers to come
are those behind what is there. -/
theorem orderly_callEach (declarations : List Declaration) :
    let results := (empty.callEach declarations).1
    let last := (empty.callEach declarations).2
    results.length = declarations.length ∧ last.draft.Orderly ∧
    Draft.empty.Added (declarations.zip results) last.draft ∧ last.next = last.draft.upcoming := by
  rw [empty_eq_ofDraft, callEach_ofDraft]
  obtain ⟨hlength, horderly, hadded⟩ := Draft.orderly_empty.declareEach
  exact ⟨hlength, horderly, hadded, rfl⟩

end Registry

/-! ## Declarations that are left out -/

/-- The declarations whose results are successes. -/
def succeeded (declarations : List Declaration)
    (results : List (Except DefinitionError Declared)) : List Declaration :=
  ((declarations.zip results).filter (·.2.isOk)).map (·.1)

theorem succeeded_ok (declaration : Declaration) (declared : Declared)
    (declarations : List Declaration) (results : List (Except DefinitionError Declared)) :
    succeeded (declaration :: declarations) (.ok declared :: results) =
      declaration :: succeeded declarations results := rfl

theorem succeeded_error (declaration : Declaration) (e : DefinitionError)
    (declarations : List Declaration) (results : List (Except DefinitionError Declared)) :
    succeeded (declaration :: declarations) (.error e :: results) =
      succeeded declarations results := rfl

namespace Draft

/-- The declarations that succeed do so with the same results and to the same end without those that
fail. -/
theorem declareEach_succeeded (d : Draft) (declarations : List Declaration) :
    d.declareEach true (succeeded declarations (d.declareEach true declarations).1) =
      ((d.declareEach true declarations).1.filter (·.isOk),
        (d.declareEach true declarations).2) := by
  induction declarations generalizing d with
  | nil => rfl
  | cons declaration rest ih =>
      rcases d.declareEach_cons declaration rest with ⟨declared, d', h, heq⟩ | ⟨e, -, heq⟩
      · rw [heq, succeeded_ok]
        simp only [declareEach, h, ih d']
        rfl
      · rw [heq, succeeded_error, ih d]
        rfl

/-- A definition that may not fail gets through them. -/
theorem foldlM_succeeded (d : Draft) (declarations : List Declaration) :
    (succeeded declarations (d.declareEach true declarations).1).foldlM
      (fun d declaration => (d.declare declaration).map (·.2)) d =
        .ok (d.declareEach true declarations).2 := by
  induction declarations generalizing d with
  | nil => rfl
  | cons declaration rest ih =>
      rcases d.declareEach_cons declaration rest with ⟨declared, d', h, heq⟩ | ⟨e, -, heq⟩
      · rw [heq, succeeded_ok, List.foldlM_cons, h]
        exact ih d'
      · rw [heq, succeeded_error]
        exact ih d

end Draft

/-- Declarations that fail may be left out.  A definition in place gives the same results for the
others, and leaves the same registry: the same draft, with its sentinels, and the same numbers to
come.  These are the results of `Draft.declareEach`, and a definition that stops at the first
failure has the same grammar, or the same part of it missing. -/
theorem Registry.callEach_succeeded (declarations : List Declaration) :
    let results := (Registry.empty.callEach declarations).1
    let last := (Registry.empty.callEach declarations).2
    let kept := succeeded declarations results
    Registry.empty.callEach kept = (results.filter (·.isOk), last) ∧
    Draft.empty.declareEach true declarations = (results, last.draft) ∧
    Draft.empty.declareEach true kept = (results.filter (·.isOk), last.draft) ∧
    Grammar.define kept = last.draft.finish := by
  rw [empty_eq_ofDraft]
  simp only [callEach_ofDraft, Draft.declareEach_succeeded, draft_ofDraft, true_and]
  rw [Grammar.define, Draft.foldlM_succeeded]
  rfl

end ShiftReduce
