import ShiftReduce.Text.Unprintable

/-!
# Quoted text

A text is quoted by writing it between double quotes.  The quote and the backslash are
written after a backslash, the common controls as a backslash and a letter, and any
other character that does not show by itself as its code point in hexadecimal digits.
-/

namespace ShiftReduce.Text

/-- A character by its code point, as in `\u{301}`. -/
def escapeCodePoint (c : Char) : String :=
  "\\u\x7b" ++ String.ofList (Nat.toDigits 16 c.toNat) ++ "\x7d"

/-- How a character is written between quotes. -/
def escape (c : Char) : String :=
  match c with
  | '\x00' => "\\0"
  | '\t' => "\\t"
  | '\r' => "\\r"
  | '\n' => "\\n"
  | '"' => "\\\""
  | '\\' => "\\\\"
  | _ => if isPrintable c then c.toString else escapeCodePoint c

/-- A text between quotes. -/
def quote (text : String) : String :=
  "\"" ++ String.join (text.toList.map escape) ++ "\""

end ShiftReduce.Text
