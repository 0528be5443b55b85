import ShiftReduce.Vocabulary

/-!
# Grammars

A `Grammar` is a vocabulary with its production rules, its start symbol and its
two sentinels.  The accepting production `$start := S` is not among `rules`: it
belongs to every grammar, has the number one, and comes first in `allRules`.

A production that derives the empty string has the blank symbol as its whole
body, so no body is empty.
-/

namespace ShiftReduce

/-- A production rule.  Its number is the one that tables use. -/
structure Rule where
  number : Nat
  head : Nonterminal
  body : List Symbol
  /-- Whether the body is the blank symbol alone. -/
  isEpsilon : Bool
deriving DecidableEq

namespace Rule

/-- The number of input symbols that the production matches, and so of the nodes
that a reduction by it takes. -/
def arity (r : Rule) : Nat := if r.isEpsilon then 0 else r.body.length

end Rule

/-- A grammar ready for use. -/
structure Grammar where
  vocabulary : Vocabulary
  /-- The declared rules, in the order of declaration. -/
  rules : List Rule
  startSymbol : Nonterminal
  endMarker : Terminal
  blank : Terminal

namespace Grammar

variable (g : Grammar)

/-- The accepting production. -/
def acceptRule : Rule := ⟨1, .accept, [.nonterminal g.startSymbol], false⟩

/-- All productions, the accepting one first. -/
def allRules : List Rule := g.acceptRule :: g.rules

/-- The production of a number. -/
def rule? (number : Nat) : Option Rule := g.allRules.find? (·.number = number)

/-- The productions of a nonterminal, in the order of declaration. -/
def productionsOf (n : Nonterminal) : List Rule := g.allRules.filter (·.head = n)

theorem mem_productionsOf {n : Nonterminal} {r : Rule} :
    r ∈ g.productionsOf n ↔ r ∈ g.allRules ∧ r.head = n := by
  simp [productionsOf]

end Grammar

end ShiftReduce
