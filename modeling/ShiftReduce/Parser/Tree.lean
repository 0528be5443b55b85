import ShiftReduce.Text.Rope

/-!
# Syntax trees

A leaf is a token of the input.  A node is a nonterminal with the trees of the body of
one of its productions, of which there may be none.
-/

namespace ShiftReduce

/-- A syntax tree.  Symbols are numbers of a parse table. -/
inductive Tree where
  | leaf (symbol : Nat) (text : String)
  | node (symbol : Nat) (children : List Tree)

namespace Tree

open Text (Rope)

/-- The symbol at the root. -/
def symbol : Tree → Nat
  | leaf symbol _ => symbol
  | node symbol _ => symbol

mutual

/-- The leaves from left to right, each with its symbol and its text. -/
def leaves : Tree → List (Nat × String)
  | leaf symbol text => [(symbol, text)]
  | node _ children => leavesOfAll children

/-- The leaves of some trees, those of one tree after those of another. -/
def leavesOfAll : List Tree → List (Nat × String)
  | [] => []
  | tree :: rest => tree.leaves ++ leavesOfAll rest

end

/-! ### The names of the nodes -/

mutual

/-- The names of the symbols of a tree. -/
def names (name : Nat → String) : Tree → Rope
  | leaf symbol _ => .text (name symbol)
  | node symbol children =>
    .text (name symbol) ++ .text "(" ++ namesOfAll name children ++ .text ")"

/-- The names of some trees with spaces between them. -/
def namesOfAll (name : Nat → String) : List Tree → Rope
  | [] => .text ""
  | [tree] => tree.names name
  | tree :: rest => tree.names name ++ .text " " ++ namesOfAll name rest

end

/-- A tree as the names of its symbols, those of children in brackets, as in
`S(L(id) = R(L(id)))`. -/
def text (name : Nat → String) (tree : Tree) : String := (tree.names name).toString

/-! ### Outlines -/

/-- A line of an outline. -/
structure OutlineEntry where
  depth : Nat
  symbol : Nat
  /-- The text of a leaf. -/
  text : Option String

mutual

/-- Every node of a tree at its depth, each before its children, and further lines
after them. -/
def outlineBefore (depth : Nat) (after : List OutlineEntry) : Tree → List OutlineEntry
  | leaf symbol text => ⟨depth, symbol, some text⟩ :: after
  | node symbol children =>
    ⟨depth, symbol, none⟩ :: outlineOfAllBefore (depth + 1) after children

/-- The nodes of some trees, one after another, and further lines after them. -/
def outlineOfAllBefore (depth : Nat) (after : List OutlineEntry) : List Tree → List OutlineEntry
  | [] => after
  | tree :: rest => tree.outlineBefore depth (outlineOfAllBefore depth after rest)

end

/-- Every node of a tree at its depth, each before its children. -/
def outline (tree : Tree) : List OutlineEntry := tree.outlineBefore 0 []

end Tree

end ShiftReduce
