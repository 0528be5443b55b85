import ShiftReduce.Grammar.Text

/-!
# Defining a grammar

A grammar is defined by a list of declarations, each of which extends a `Draft`.
A declaration that fails leaves the draft as it was, so a definition may go on
after a failure.

* `Draft.declare`: one declaration.
* `Draft.declareEach`: one after another, with what each of them gave.
* `Grammar.define`: a whole definition; the first failure is its result.
-/

namespace ShiftReduce

/-- One step of a definition. -/
inductive Declaration where
  | terminal (name : String)
  | nonterminal (name : String)
  | sentinel (part : Sentinel) (name : String)
  | start (symbol : Nonterminal)
  | rule (head : Symbol) (body : List Symbol)

/-- What a declaration gives. -/
inductive Declared where
  | symbol (s : Symbol)
  | rule (number : Nat)
  | nothing

/-! ### Failures -/

/-- Where an undeclared symbol was used. -/
inductive Place where
  | head
  | start
  /-- In the body of a production whose head has this name. -/
  | body (name : String)
deriving DecidableEq

/-- How messages name the place of an undeclared symbol. -/
def Place.text : Place → String
  | .head => "<unknown>"
  | .start => "<start>"
  | .body name => name

/-- What there can be too many of. -/
inductive Counted where
  | terminals
  | nonterminals
  | rules
deriving DecidableEq

/-- The words that messages use for what there are too many of. -/
def Counted.text : Counted → String
  | .terminals => "terminal symbols"
  | .nonterminals => "nonterminal symbols"
  | .rules => "production rules"

/-- Why a definition failed. -/
inductive DefinitionError where
  | emptyName
  | duplicateTerminal (name : String)
  | duplicateNonterminal (name : String)
  | sentinelRedefined (part : Sentinel)
  | emptyBody (head : String)
  /-- A terminal as the head of a production; the name is missing if the terminal
  is not declared either. -/
  | terminalHead (name : Option String)
  | undeclared (place : Place)
  | duplicateRule (text : String)
  | missingStart
  | missingSentinel (part : Sentinel)
  | tooMany (counted : Counted)
deriving DecidableEq

namespace DefinitionError

/-- The name of a terminal that heads a production, as far as it is known. -/
def headText (name : Option String) : String := name.getD "<unknown>"

/-- The wording of a failure. -/
def message : DefinitionError → String
  | emptyName => "the symbol name must not be empty"
  | duplicateTerminal name => "the terminal `" ++ name ++ "' has already been declared"
  | duplicateNonterminal name => "the nonterminal `" ++ name ++ "' has already been declared"
  | sentinelRedefined part => "the " ++ part.text ++ " symbol has already been declared"
  | emptyBody head => "the production headed by `" ++ head ++ "' has an empty body"
  | terminalHead name =>
    "the head of a production must be a nonterminal, but `" ++ headText name ++ "' is not"
  | undeclared place =>
    "undeclared symbol used in a production headed by `" ++ place.text ++ "'"
  | duplicateRule text => "duplicate production rule: " ++ text
  | missingStart => "the start symbol is not specified"
  | missingSentinel part => "the " ++ part.text ++ " symbol is not specified"
  | tooMany counted => "too many " ++ counted.text ++ " in one grammar"

end DefinitionError

/-! ### Drafts -/

/-- A grammar in the making. -/
structure Draft where
  vocabulary : Vocabulary := .initial
  rules : List Rule := []
  startSymbol : Option Nonterminal := none
  endMarker : Option Terminal := none
  blank : Option Terminal := none

namespace Draft

/-- The draft before anything is declared. -/
def empty : Draft := {}

/-- No identifier reaches this number. -/
def idLimit : Nat := 65535

/-- The number of the first declared rule: zero is the number of none and one
that of the accepting production. -/
def firstRuleNumber : Nat := 2

variable (d : Draft)

/-- The terminal that plays a part, if it is declared. -/
def sentinel? : Sentinel → Option Terminal
  | .endMarker => d.endMarker
  | .blank => d.blank

/-- Lets a terminal play a part. -/
def setSentinel (t : Terminal) : Sentinel → Draft
  | .endMarker => { d with endMarker := some t }
  | .blank => { d with blank := some t }

/-- Adds a terminal under a name that no other terminal has. -/
def addTerminal (entry : TerminalEntry) : Except DefinitionError (Terminal × Draft) :=
  if entry.name.isEmpty then .error .emptyName
  else if d.vocabulary.terminals.any (·.name = entry.name) then
    .error (.duplicateTerminal entry.name)
  else if idLimit ≤ d.vocabulary.terminals.length then .error (.tooMany .terminals)
  else .ok (⟨d.vocabulary.terminals.length⟩,
    { d with vocabulary.terminals := d.vocabulary.terminals ++ [entry] })

/-- Adds a nonterminal under a name that no other nonterminal has, the reserved
one included. -/
def addNonterminal (name : String) : Except DefinitionError (Nonterminal × Draft) :=
  if name.isEmpty then .error .emptyName
  else if name ∈ d.vocabulary.nonterminals then .error (.duplicateNonterminal name)
  else if idLimit ≤ d.vocabulary.nonterminals.length then .error (.tooMany .nonterminals)
  else .ok (⟨d.vocabulary.nonterminals.length⟩,
    { d with vocabulary.nonterminals := d.vocabulary.nonterminals ++ [name] })

/-- Adds a terminal that plays a part which none plays yet. -/
def addSentinel (part : Sentinel) (name : String) : Except DefinitionError (Terminal × Draft) :=
  if (d.sentinel? part).isSome then .error (.sentinelRedefined part)
  else (d.addTerminal ⟨name, some part⟩).map fun (t, d') => (t, d'.setSentinel t part)

/-- A body without the blanks that contribute nothing to it.  A body of nothing
but blanks keeps one. -/
def dropBlanks (blank : Terminal) (body : List Symbol) : List Symbol :=
  let kept := body.filter (· ≠ .terminal blank)
  if kept.isEmpty then [.terminal blank] else kept

/-- The production of a declared head and a body of declared symbols, under the
next free number. -/
def nextRule (head : Nonterminal) (body : List Symbol) : Rule :=
  let number := firstRuleNumber + d.rules.length
  match d.blank with
  | none => ⟨number, head, body, false⟩
  | some blank =>
    let body := dropBlanks blank body
    ⟨number, head, body, body = [.terminal blank]⟩

/-- Adds a production that is not there yet, under a declared head. -/
def addRule (head : Nonterminal) (body : List Symbol) : Except DefinitionError (Nat × Draft) :=
  let headName := d.vocabulary.name (.nonterminal head)
  if body.isEmpty then .error (.emptyBody headName)
  else if body.any (¬ d.vocabulary.Declares ·) then .error (.undeclared (.body headName))
  else
    let rule := d.nextRule head body
    if d.rules.any fun r => r.head = rule.head ∧ r.body = rule.body then
      .error (.duplicateRule (rule.text d.vocabulary))
    else if idLimit ≤ rule.number then .error (.tooMany .rules)
    else .ok (rule.number, { d with rules := d.rules ++ [rule] })

/-- One declaration: what it gives, and the draft with it. -/
def declare : Declaration → Except DefinitionError (Declared × Draft)
  | .terminal name =>
    (d.addTerminal ⟨name, none⟩).map fun (t, d') => (.symbol (.terminal t), d')
  | .nonterminal name =>
    (d.addNonterminal name).map fun (n, d') => (.symbol (.nonterminal n), d')
  | .sentinel part name =>
    (d.addSentinel part name).map fun (t, d') => (.symbol (.terminal t), d')
  | .start symbol =>
    if d.vocabulary.Declares (.nonterminal symbol) then
      .ok (.nothing, { d with startSymbol := some symbol })
    else .error (.undeclared .start)
  | .rule (.terminal t) _ => .error (.terminalHead (d.vocabulary.name? (.terminal t)))
  | .rule (.nonterminal head) body =>
    if d.vocabulary.Declares (.nonterminal head) then
      (d.addRule head body).map fun (number, d') => (.rule number, d')
    else .error (.undeclared .head)

/-- The grammar of a draft, once it has a start symbol and both sentinels. -/
def finish : Except DefinitionError Grammar :=
  match d.startSymbol, d.endMarker, d.blank with
  | none, _, _ => .error .missingStart
  | some _, none, _ => .error (.missingSentinel .endMarker)
  | some _, some _, none => .error (.missingSentinel .blank)
  | some startSymbol, some endMarker, some blank =>
    .ok ⟨d.vocabulary, d.rules, startSymbol, endMarker, blank⟩

/-- Declares one thing after another, and tells what each declaration gave.  A
failure ends the list, unless the definition is lenient and passes over it. -/
def declareEach (lenient : Bool) (d : Draft) :
    List Declaration → List (Except DefinitionError Declared) × Draft
  | [] => ([], d)
  | declaration :: rest =>
    match d.declare declaration with
    | .ok (declared, d') =>
      let (later, last) := declareEach lenient d' rest
      (.ok declared :: later, last)
    | .error e =>
      if lenient then
        let (later, last) := declareEach lenient d rest
        (.error e :: later, last)
      else ([.error e], d)

end Draft

/-- The grammar of a list of declarations. -/
def Grammar.define (declarations : List Declaration) : Except DefinitionError Grammar := do
  let d ← declarations.foldlM (fun d declaration => (d.declare declaration).map (·.2)) Draft.empty
  d.finish

end ShiftReduce
