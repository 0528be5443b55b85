import ShiftReduce.Parser.Basic
import ShiftReduce.Text.Alphanumeric
import ShiftReduce.Text.Blank

/-!
# Reading words as tokens

A text is split into words, and each word is looked up among the terminals of a parse
table by its name.  A word that is not a name may still be a number or an identifier,
if there is a terminal `num` or `id`.
-/

namespace ShiftReduce

/-- The terminal of a name; the first one, if there are several. -/
def ParseTable.terminalNamed? (t : ParseTable) (name : String) : Option Nat :=
  ((t.names.extract 1 (t.terminalCount + 1)).findIdx? (· = name)).map (· + 1)

namespace Lexer

/-- A word that is no token. -/
structure UnknownWord where
  word : String
deriving DecidableEq

/-- The wording of a failure. -/
def UnknownWord.message (e : UnknownWord) : String := "unknown token `" ++ e.word ++ "'"

/-- Whether a word consists of the digits 0 to 9; those of other scripts do not count. -/
def isNumber (word : List Char) : Bool := word.all Char.isDigit

/-- Whether a word consists of letters, digits and underscores. -/
def isIdentifier (word : List Char) : Bool :=
  word.all fun c => Text.isAlphanumeric c || c == '_'

/-- The terminal that a word stands for. -/
def symbol? (t : ParseTable) (word : List Char) : Option Nat :=
  (t.terminalNamed? (String.ofList word))
    <|> (if isNumber word then t.terminalNamed? "num" else none)
    <|> (if isIdentifier word then t.terminalNamed? "id" else none)

/-- The token of a word. -/
def token (t : ParseTable) (word : List Char) : Except UnknownWord Token :=
  match symbol? t word with
  | some symbol => .ok ⟨symbol, String.ofList word⟩
  | none => .error ⟨String.ofList word⟩

end Lexer

/-- The tokens of a text, one for each word.  A word that is no token does not keep
the words after it from being read. -/
def ParseTable.lex (t : ParseTable) (text : String) : List (Except Lexer.UnknownWord Token) :=
  (Text.words text.toList).map (Lexer.token t)

/-- The tokens of a text as the input of a parser. -/
def ParseTable.read (t : ParseTable) (text : String) : Input :=
  (t.lex text).map fun token => token.mapError Lexer.UnknownWord.message

end ShiftReduce
