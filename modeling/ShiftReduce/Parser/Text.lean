import ShiftReduce.Parser.Basic
import ShiftReduce.Text.Quoted
import ShiftReduce.Text.Rope

/-!
# The dump of a parser

A parser is shown on one line, with its table and its stacks, the bottom of each stack
first.  Records are written with the names of their fields, and texts are quoted.
-/

namespace ShiftReduce

namespace Text

namespace Rope

/-- Ropes in brackets. -/
def bracketed (ropes : List Rope) : Rope :=
  text "[" ++ intercalate ", " ropes ++ text "]"

/-- A record, by its name and its fields. -/
def record (name : String) (fields : List (String × Rope)) : Rope :=
  text name ++ text " \x7b " ++
  intercalate ", " (fields.map fun (key, value) => text key ++ text ": " ++ value) ++
  text " \x7d"

/-- A number. -/
def number {α : Type} [ToString α] (n : α) : Rope := text (ToString.toString n)

/-- A text between quotes. -/
def quoted (s : String) : Rope := text (quote s)

/-- A text between quotes, which may be missing. -/
def orNone : Option String → Rope
  | none => text "None"
  | some s => text "Some(" ++ quoted s ++ text ")"

end Rope

end Text

open Text (Rope)

/-- The fields of a table. -/
def ParseTable.dump (t : ParseTable) : Rope :=
  .record "ParseTableDef" [("num_terminals", .number t.terminalCount),
    ("reduce_result", .bracketed (t.heads.toList.map .number)),
    ("reduce_length", .bracketed (t.lengths.toList.map .number)),
    ("action_table",
      .bracketed (t.actions.toList.map fun row => .bracketed (row.toList.map .number))),
    ("debug_names", .bracketed (t.names.toList.map .quoted)),
    ("accept_token", .number t.acceptSymbol), ("end_token", .number t.endSymbol)]

/-- A symbol that comes next. -/
def Lookahead.dump (l : Lookahead) : Rope :=
  .record "Lookahead" [("symbol", .number l.symbol), ("text", .orNone l.text)]

mutual

/-- A tree, with the names of its symbols. -/
def Tree.dump (name : Nat → String) : Tree → Rope
  | .leaf symbol text =>
    .record "SyntaxNode" [("symbol", .number symbol), ("name", .quoted (name symbol)),
      ("text", .orNone (some text)), ("children", .bracketed [])]
  | .node symbol children =>
    .record "SyntaxNode" [("symbol", .number symbol), ("name", .quoted (name symbol)),
      ("text", .orNone none), ("children", .bracketed (Tree.dumpAll name children))]

/-- Some trees, one after another. -/
def Tree.dumpAll (name : Nat → String) : List Tree → List Rope
  | [] => []
  | tree :: rest => tree.dump name :: Tree.dumpAll name rest

end

/-- A parser with its table and its stacks. -/
def Parser.dump (p : Parser) : Rope :=
  let c := p.configuration
  .record "Parser" [("definition", p.table.dump),
    ("state_stack", .bracketed (c.states.reverse.map .number)),
    ("pending", .bracketed (c.pending.reverse.map Lookahead.dump)),
    ("node_stack", .bracketed (c.nodes.reverse.map (Tree.dump p.table.name)))]

/-- The dump of a parser. -/
def Parser.text (p : Parser) : String := p.dump.toString

end ShiftReduce
