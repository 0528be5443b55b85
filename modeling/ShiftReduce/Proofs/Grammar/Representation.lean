import Mathlib.Data.List.Nodup
import ShiftReduce.Proofs.Grammar.WellFormed

/-!
# Drafts are in order at any time

Whatever is declared, in whatever order, and whichever of the declarations fail: the draft they
leave is in order (`Draft.Orderly`).  Besides what a grammar needs of it (`Draft.WellFormed`) the
names are not empty and tell the symbols of a kind apart, and the sentinels are known both from the
draft and from their entries.

The results that the declarations give agree with the draft (`Draft.Added`): what has been declared
with success, and nothing else, is in the draft, numbered in the order of declaration.  Each
production has the body that was declared, without the blanks that contribute nothing to it.  What
counts as a blank is known from the declarations before it.
-/

namespace ShiftReduce

/-! ## Names and parts -/

namespace Vocabulary

/-- No name is empty, no two symbols of a kind have the same name, and the reserved nonterminal
comes first. -/
structure Named (v : Vocabulary) : Prop where
  reserved : v.nonterminals.head? = some "$start"
  terminal_ne : ∀ entry ∈ v.terminals, entry.name ≠ ""
  nonterminal_ne : ∀ name ∈ v.nonterminals, name ≠ ""
  terminal_nodup : (v.terminals.map (·.name)).Nodup
  nonterminal_nodup : v.nonterminals.Nodup

/-- A terminal has been declared for a part. -/
def Plays (v : Vocabulary) (part : Sentinel) (t : Terminal) : Prop :=
  ∃ entry, v.entry? t = some entry ∧ entry.sentinel = some part

variable {v : Vocabulary}

theorem named_initial : initial.Named where
  reserved := rfl
  terminal_ne := by simp [initial]
  nonterminal_ne := by simp [initial]
  terminal_nodup := List.nodup_nil
  nonterminal_nodup := by simp [initial]

theorem Named.addTerminal (hv : v.Named) {entry : TerminalEntry} (hne : entry.name ≠ "")
    (hnew : ∀ other ∈ v.terminals, other.name ≠ entry.name) :
    { v with terminals := v.terminals ++ [entry] }.Named := by
  refine { hv with terminal_ne := ?_, terminal_nodup := ?_ }
  · intro other hother
    rcases List.mem_append.1 hother with hold | hlast
    · exact hv.terminal_ne other hold
    · rwa [List.mem_singleton.1 hlast]
  · rw [List.map_append, List.nodup_append]
    refine ⟨hv.terminal_nodup, List.nodup_singleton _, ?_⟩
    intro name hname name' hname'
    obtain ⟨other, hother, rfl⟩ := List.mem_map.1 hname
    rw [List.map_singleton, List.mem_singleton] at hname'
    rw [hname']
    exact hnew other hother

theorem Named.addNonterminal (hv : v.Named) {name : String} (hne : name ≠ "")
    (hnew : name ∉ v.nonterminals) :
    { v with nonterminals := v.nonterminals ++ [name] }.Named := by
  refine { hv with reserved := ?_, nonterminal_ne := ?_, nonterminal_nodup := ?_ }
  · rw [List.head?_append, hv.reserved, Option.some_or]
  · intro other hother
    rcases List.mem_append.1 hother with hold | hlast
    · exact hv.nonterminal_ne other hold
    · rwa [List.mem_singleton.1 hlast]
  · show (v.nonterminals ++ [name]).Nodup
    rw [← List.concat_eq_append]
    exact hv.nonterminal_nodup.concat hnew

/-- A new terminal may play a part, and the others go on playing theirs. -/
theorem plays_addTerminal (v : Vocabulary) (entry : TerminalEntry) (part : Sentinel)
    (t : Terminal) : Plays { v with terminals := v.terminals ++ [entry] } part t ↔
      v.Plays part t ∨ (t = ⟨v.terminals.length⟩ ∧ entry.sentinel = some part) := by
  obtain ⟨i⟩ := t
  simp only [Plays, entry?, Terminal.mk.injEq]
  rcases Nat.lt_trichotomy i v.terminals.length with hlt | rfl | hgt
  · rw [List.getElem?_append_left hlt]
    exact ⟨.inl, fun h => h.resolve_right fun hlast => absurd hlast.1 (Nat.ne_of_lt hlt)⟩
  · simp
  · have hle : (v.terminals ++ [entry]).length ≤ i := by simpa using Nat.succ_le_of_lt hgt
    rw [List.getElem?_eq_none hle, List.getElem?_eq_none (Nat.le_of_lt hgt)]
    simp [Nat.ne_of_gt hgt]

end Vocabulary

/-! ## The draft after any declarations -/

namespace Draft

/-- What every draft is like, also one that is not finished yet. -/
structure Orderly (d : Draft) : Prop extends WellFormed d where
  named : d.vocabulary.Named
  /-- Just the terminals that play a part in the draft have been declared for it. -/
  plays_iff : ∀ part t, d.sentinel? part = some t ↔ d.vocabulary.Plays part t

theorem orderly_empty : empty.Orderly where
  toWellFormed := wellFormed_empty
  named := Vocabulary.named_initial
  plays_iff part t := by
    cases part <;> simp [empty, sentinel?, Vocabulary.Plays, Vocabulary.entry?, Vocabulary.initial]

variable {d d' : Draft}

theorem Orderly.named_addTerminal (hd : d.Orderly) {entry : TerminalEntry} {t : Terminal}
    (h : d.addTerminal entry = .ok (t, d')) : d'.vocabulary.Named := by
  obtain ⟨-, rfl⟩ := addTerminal_eq_ok h
  unfold addTerminal at h
  split at h
  · contradiction
  · rename_i hne
    split at h
    · contradiction
    · rename_i hnew
      refine hd.named.addTerminal (by simpa [String.isEmpty_iff] using hne) ?_
      intro other hother hname
      exact hnew (List.any_eq_true.2 ⟨other, hother, by simpa using hname⟩)

theorem Orderly.addTerminal (hd : d.Orderly) {name : String} {t : Terminal}
    (h : d.addTerminal ⟨name, none⟩ = .ok (t, d')) : d'.Orderly where
  toWellFormed := hd.toWellFormed.addTerminal h
  named := hd.named_addTerminal h
  plays_iff part t := by
    obtain ⟨-, rfl⟩ := addTerminal_eq_ok h
    rw [Vocabulary.plays_addTerminal, ← hd.plays_iff]
    cases part <;> simp [sentinel?]

theorem Orderly.addNonterminal (hd : d.Orderly) {name : String} {n : Nonterminal}
    (h : d.addNonterminal name = .ok (n, d')) : d'.Orderly where
  toWellFormed := hd.toWellFormed.addNonterminal h
  named := by
    obtain ⟨-, rfl⟩ := addNonterminal_eq_ok h
    unfold Draft.addNonterminal at h
    split at h
    · contradiction
    · rename_i hne
      split at h
      · contradiction
      · rename_i hnew
        exact hd.named.addNonterminal (by simpa [String.isEmpty_iff] using hne) hnew
  plays_iff part t := by
    obtain ⟨-, rfl⟩ := addNonterminal_eq_ok h
    exact hd.plays_iff part t

/-- A part that nobody has played is played by the new terminal alone. -/
theorem Orderly.addSentinel (hd : d.Orderly) {part : Sentinel} {name : String} {t : Terminal}
    (h : d.addSentinel part name = .ok (t, d')) : d'.Orderly where
  toWellFormed := hd.toWellFormed.addSentinel h
  named := by
    obtain ⟨-, d₁, hadd, rfl⟩ := addSentinel_eq_ok h
    have hnamed := hd.named_addTerminal hadd
    cases part <;> exact hnamed
  plays_iff part' t' := by
    obtain ⟨hnone, d₁, hadd, rfl⟩ := addSentinel_eq_ok h
    obtain ⟨rfl, rfl⟩ := addTerminal_eq_ok hadd
    have hplays := Vocabulary.plays_addTerminal d.vocabulary ⟨name, some part⟩ part' t'
    rw [← hd.plays_iff] at hplays
    cases part with
    | endMarker =>
        have hnone : d.endMarker = none := hnone
        cases part' <;> simpa [setSentinel, sentinel?, hnone, eq_comm] using hplays.symm
    | blank =>
        have hnone : d.blank = none := hnone
        cases part' <;> simpa [setSentinel, sentinel?, hnone, eq_comm] using hplays.symm

/-- What one declaration keeps, if it succeeds. -/
theorem Orderly.declare (hd : d.Orderly) {declaration : Declaration} {declared : Declared}
    (h : d.declare declaration = .ok (declared, d')) : d'.Orderly := by
  cases declaration with
  | terminal name =>
      obtain ⟨⟨t, d₁⟩, hadd, he⟩ := map_eq_ok h
      cases he
      exact hd.addTerminal hadd
  | nonterminal name =>
      obtain ⟨⟨n, d₁⟩, hadd, he⟩ := map_eq_ok h
      cases he
      exact hd.addNonterminal hadd
  | sentinel part name =>
      obtain ⟨⟨t, d₁⟩, hadd, he⟩ := map_eq_ok h
      cases he
      exact hd.addSentinel hadd
  | start symbol =>
      have hwell := hd.toWellFormed.declare h
      simp only [Draft.declare] at h
      split at h
      · cases h
        exact ⟨hwell, hd.named, hd.plays_iff⟩
      · contradiction
  | rule head body =>
      have hwell := hd.toWellFormed.declare h
      cases head with
      | terminal t => contradiction
      | nonterminal head =>
          simp only [Draft.declare] at h
          split at h
          · obtain ⟨⟨number, d₁⟩, hadd, he⟩ := map_eq_ok h
            cases he
            obtain ⟨-, -, -, -, rfl⟩ := addRule_eq_ok hadd
            exact ⟨hwell, hd.named, hd.plays_iff⟩
          · contradiction

/-! ## What the results say -/

/-- A declaration with its result. -/
abbrev Call := Declaration × Except DefinitionError Declared

/-- The terminal that a call has declared, with its number. -/
@[simp] def Call.terminal? : Call → Option (TerminalEntry × Nat)
  | (.terminal name, .ok (.symbol (.terminal t))) => some (⟨name, none⟩, t.index)
  | (.sentinel part name, .ok (.symbol (.terminal t))) => some (⟨name, some part⟩, t.index)
  | _ => none

/-- The nonterminal that a call has declared, with its number. -/
@[simp] def Call.nonterminal? : Call → Option (String × Nat)
  | (.nonterminal name, .ok (.symbol (.nonterminal n))) => some (name, n.index)
  | _ => none

/-- The terminal that plays a part after a call, if this one or none has played it before. -/
@[simp] def Call.sentinel (part : Sentinel) (before : Option Terminal) : Call → Option Terminal
  | (.sentinel played _, .ok (.symbol (.terminal t))) => if played = part then some t else before
  | _ => before

/-- The start symbol after a call, if this was the start symbol before. -/
@[simp] def Call.startSymbol (before : Option Nonterminal) : Call → Option Nonterminal
  | (.start symbol, .ok .nothing) => some symbol
  | _ => before

/-- The production that a call has declared.  If there was a blank by then, a body of blanks alone
has become a single blank, and from any other body the blanks have been left out. -/
@[simp] def Call.rule? (blank : Option Terminal) : Call → Option Rule
  | (.rule (.nonterminal head) body, .ok (.rule number)) =>
    match blank with
    | none => some ⟨number, head, body, false⟩
    | some b =>
      if ∀ x ∈ body, x = .terminal b then some ⟨number, head, [.terminal b], true⟩
      else some ⟨number, head, body.filter (· ≠ .terminal b), false⟩
  | _ => none

/-- The productions that calls have declared one after another, if this was the blank before. -/
def entered (blank : Option Terminal) : List Call → List Rule
  | [] => []
  | call :: rest => (Call.rule? blank call).toList ++ entered (Call.sentinel .blank blank call) rest

theorem entered_append (calls calls' : List Call) (blank : Option Terminal) :
    entered blank (calls ++ calls') =
      entered blank calls ++ entered (calls.foldl (Call.sentinel .blank) blank) calls' := by
  induction calls generalizing blank with
  | nil => rfl
  | cons call rest ih => rw [List.cons_append, entered, ih, entered, List.foldl_cons,
      List.append_assoc]

@[simp] theorem entered_singleton (blank : Option Terminal) (call : Call) :
    entered blank [call] = (Call.rule? blank call).toList :=
  List.append_nil _

/-- The second draft has what is in the first one, and then what the calls have declared, in their
order and under the numbers that they gave. -/
structure Added (d : Draft) (calls : List Call) (d' : Draft) : Prop where
  terminals : d'.vocabulary.terminals.zipIdx =
    d.vocabulary.terminals.zipIdx ++ calls.filterMap Call.terminal?
  nonterminals : d'.vocabulary.nonterminals.zipIdx =
    d.vocabulary.nonterminals.zipIdx ++ calls.filterMap Call.nonterminal?
  rules : d'.rules = d.rules ++ entered d.blank calls
  endMarker : d'.endMarker = calls.foldl (Call.sentinel .endMarker) d.endMarker
  blank : d'.blank = calls.foldl (Call.sentinel .blank) d.blank
  startSymbol : d'.startSymbol = calls.foldl Call.startSymbol d.startSymbol

theorem added_nil (d : Draft) : d.Added [] d := by
  constructor <;> simp [entered]

/-- A call that fails adds nothing. -/
theorem added_error (d : Draft) (declaration : Declaration) (e : DefinitionError) :
    d.Added [(declaration, .error e)] d := by
  constructor <;> simp

theorem Added.trans {d'' : Draft} {calls calls' : List Call} (h : d.Added calls d')
    (h' : d'.Added calls' d'') : d.Added (calls ++ calls') d'' where
  terminals := by rw [h'.terminals, h.terminals, List.filterMap_append, List.append_assoc]
  nonterminals := by rw [h'.nonterminals, h.nonterminals, List.filterMap_append, List.append_assoc]
  rules := by rw [h'.rules, h.rules, h.blank, entered_append, List.append_assoc]
  endMarker := by rw [h'.endMarker, h.endMarker, List.foldl_append]
  blank := by rw [h'.blank, h.blank, List.foldl_append]
  startSymbol := by rw [h'.startSymbol, h.startSymbol, List.foldl_append]

/-- The next production is the one that a call declares which gets the next number. -/
theorem rule?_nextRule (d : Draft) (head : Nonterminal) (body : List Symbol) :
    Call.rule? d.blank (.rule (.nonterminal head) body, .ok (.rule (d.nextRule head body).number)) =
      some (d.nextRule head body) := by
  unfold nextRule
  cases d.blank with
  | none => rfl
  | some b =>
      by_cases hall : ∀ x ∈ body, x = .terminal b
      · simp only [Call.rule?, if_pos hall, dropBlanks_of_forall hall, decide_true]
      · have hne : body.filter (· ≠ .terminal b) ≠ [.terminal b] := by
          intro heq
          have hmem : Symbol.terminal b ∈ body.filter (· ≠ .terminal b) :=
            heq ▸ List.mem_singleton.2 rfl
          simp at hmem
        simp only [Call.rule?, if_neg hall, dropBlanks_of_not_forall hall, decide_eq_false hne]

/-- A call that succeeds adds what it has declared. -/
theorem added_declare {declaration : Declaration} {declared : Declared}
    (h : d.declare declaration = .ok (declared, d')) :
    d.Added [(declaration, .ok declared)] d' := by
  cases declaration with
  | terminal name =>
      obtain ⟨⟨t, d₁⟩, hadd, he⟩ := map_eq_ok h
      cases he
      obtain ⟨rfl, rfl⟩ := addTerminal_eq_ok hadd
      constructor <;> simp [List.zipIdx_append]
  | nonterminal name =>
      obtain ⟨⟨n, d₁⟩, hadd, he⟩ := map_eq_ok h
      cases he
      obtain ⟨rfl, rfl⟩ := addNonterminal_eq_ok hadd
      constructor <;> simp [List.zipIdx_append]
  | sentinel part name =>
      obtain ⟨⟨t, d₁⟩, hadd, he⟩ := map_eq_ok h
      cases he
      obtain ⟨-, d₂, hfresh, rfl⟩ := addSentinel_eq_ok hadd
      obtain ⟨rfl, rfl⟩ := addTerminal_eq_ok hfresh
      cases part with
      | endMarker => constructor <;> simp [setSentinel, List.zipIdx_append]
      | blank => constructor <;> simp [setSentinel, List.zipIdx_append]
  | start symbol =>
      simp only [Draft.declare] at h
      split at h
      · cases h
        constructor <;> simp
      · contradiction
  | rule head body =>
      cases head with
      | terminal t => contradiction
      | nonterminal head =>
          simp only [Draft.declare] at h
          split at h
          · obtain ⟨⟨number, d₁⟩, hadd, he⟩ := map_eq_ok h
            cases he
            obtain ⟨-, -, -, rfl, rfl⟩ := addRule_eq_ok hadd
            constructor
            case rules => rw [entered_singleton, rule?_nextRule, Option.toList_some]
            all_goals simp
          · contradiction

/-! ## Any list of declarations -/

/-- A declaration that succeeds comes before the rest, and one that fails is passed over. -/
theorem declareEach_cons (d : Draft) (declaration : Declaration) (rest : List Declaration) :
    (∃ declared d', d.declare declaration = .ok (declared, d') ∧
      d.declareEach true (declaration :: rest) =
        (.ok declared :: (d'.declareEach true rest).1, (d'.declareEach true rest).2)) ∨
    ∃ e, d.declare declaration = .error e ∧ d.declareEach true (declaration :: rest) =
      (.error e :: (d.declareEach true rest).1, (d.declareEach true rest).2) := by
  cases h : d.declare declaration with
  | error e => exact .inr ⟨e, rfl, by simp [declareEach, h]⟩
  | ok result =>
      obtain ⟨declared, d'⟩ := result
      exact .inl ⟨declared, d', rfl, by simp [declareEach, h]⟩

/-- What a list of declarations keeps when it passes over failures, and what it adds. -/
theorem Orderly.declareEach {declarations : List Declaration} :
    ∀ {d : Draft}, d.Orderly →
      (d.declareEach true declarations).1.length = declarations.length ∧
      (d.declareEach true declarations).2.Orderly ∧
      d.Added (declarations.zip (d.declareEach true declarations).1)
        (d.declareEach true declarations).2 := by
  induction declarations with
  | nil => exact fun {d} hd => ⟨rfl, hd, added_nil d⟩
  | cons declaration rest ih =>
      intro d hd
      rcases d.declareEach_cons declaration rest with ⟨declared, d', hdeclare, heq⟩ | ⟨e, -, heq⟩
      · obtain ⟨hlength, horderly, hadded⟩ := ih (hd.declare hdeclare)
        rw [heq]
        exact ⟨congrArg Nat.succ hlength, horderly, (added_declare hdeclare).trans hadded⟩
      · obtain ⟨hlength, horderly, hadded⟩ := ih hd
        rw [heq]
        exact ⟨congrArg Nat.succ hlength, horderly, (d.added_error declaration e).trans hadded⟩

/-- Whatever has been declared, with or without success: there is a result for each declaration, the
draft is in order, and it consists of what the results say.  The declarations so far may be any
beginning of a longer list. -/
theorem orderly_declareEach (declarations : List Declaration) :
    (empty.declareEach true declarations).1.length = declarations.length ∧
    (empty.declareEach true declarations).2.Orderly ∧
    empty.Added (declarations.zip (empty.declareEach true declarations).1)
      (empty.declareEach true declarations).2 :=
  orderly_empty.declareEach

end Draft

end ShiftReduce
