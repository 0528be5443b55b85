import ShiftReduce.Grammar.Basic

/-!
# The text of a grammar

A rule is written `E := E + T`, and a grammar as three lists, one item on a line:
its terminals, its nonterminals and its rules.
-/

namespace ShiftReduce

namespace Vocabulary

/-- The names of a row of symbols, each after a space. -/
def spaced (v : Vocabulary) (symbols : List Symbol) : String :=
  String.join (symbols.map fun s => " " ++ v.name s)

end Vocabulary

/-- A rule, as in `E := E + T`. -/
def Rule.text (v : Vocabulary) (r : Rule) : String :=
  v.name (.nonterminal r.head) ++ " :=" ++ v.spaced r.body

/-- A terminal, with the part that it plays, if any. -/
def TerminalEntry.text (entry : TerminalEntry) : String :=
  match entry.sentinel with
  | none => entry.name
  | some sentinel => entry.name ++ " (" ++ sentinel.text ++ ")"

namespace Grammar

/-- Each item on a line of its own. -/
private def asLines (items : List String) : String := String.join (items.map (· ++ "\n"))

/-- A nonterminal, marked if it is the start symbol. -/
def nonterminalText (g : Grammar) (n : Nonterminal) : String :=
  g.vocabulary.name (.nonterminal n) ++ if n = g.startSymbol then " (start)" else ""

/-- The whole grammar.  Neither the reserved nonterminal nor the accepting
production is shown. -/
def text (g : Grammar) : String :=
  "## terminals:\n" ++ asLines (g.vocabulary.terminals.map TerminalEntry.text) ++
  "\n## nonterminals:\n" ++ asLines (g.vocabulary.nonterminalList.tail.map g.nonterminalText) ++
  "\n## rules:\n" ++ asLines (g.rules.map (Rule.text g.vocabulary))

end Grammar

end ShiftReduce
