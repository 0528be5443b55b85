import ShiftReduce.Text.Range

/-!
# Words between blanks

A blank is a character with the Unicode property White_Space.  A text is split into
words at its blanks: a word is a longest stretch without a blank, and never empty.
-/

namespace ShiftReduce.Text

/-- The characters with the property White_Space. -/
def blankRanges : List (Nat × Nat) :=
  [(0x9, 0xd), (0x20, 0x20), (0x85, 0x85), (0xa0, 0xa0), (0x1680, 0x1680), (0x2000, 0x200a),
   (0x2028, 0x2029), (0x202f, 0x202f), (0x205f, 0x205f), (0x3000, 0x3000)]

/-- Whether a character separates words. -/
def isBlank (c : Char) : Bool := inRanges blankRanges c

/-- A word is kept unless it is empty. -/
def keepWord (word : List Char) (rest : List (List Char)) : List (List Char) :=
  if word.isEmpty then rest else word :: rest

/-- Puts a character before a text, of which is known the stretch without a blank at its
start, which may be empty, and the words after it. -/
def prepend (c : Char) : List Char × List (List Char) → List Char × List (List Char)
  | (first, rest) => if isBlank c then ([], keepWord first rest) else (c :: first, rest)

/-- The words of a text. -/
def words (text : List Char) : List (List Char) :=
  let (first, rest) := text.foldr prepend ([], [])
  keepWord first rest

end ShiftReduce.Text
