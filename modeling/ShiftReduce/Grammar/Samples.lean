import ShiftReduce.Grammar.Definition

/-!
# Sample grammars

Small grammars that between them show most of what a generator has to cope with.
Each is a list of declarations, so that the order of its symbols is part of it:
the blank is terminal 0 and the end marker terminal 1, and further terminals and
the nonterminals follow as they are listed.
-/

namespace ShiftReduce.Samples

private def t (k : Nat) : Symbol := .terminal ⟨k⟩

private def n (k : Nat) : Symbol := .nonterminal ⟨k⟩

/-- The declarations of a sample.  The first nonterminal is the start symbol; the
others have the numbers 2, 3 and so on. -/
private def sample (terminals nonterminals : List String) (rules : List (Nat × List Symbol)) :
    List Declaration :=
  [.sentinel .blank "Blank", .sentinel .endMarker "$"] ++
  terminals.map .terminal ++ nonterminals.map .nonterminal ++ [.start ⟨1⟩] ++
  rules.map fun (head, body) => .rule (n head) body

/-- Assignments through pointers: `S := L = R | R`, `L := * R | id`, `R := L`. -/
def pointer : List Declaration :=
  sample ["*", "id", "="] ["S", "L", "R"]
    [(1, [n 2, t 4, n 3]), (1, [n 3]), (2, [t 2, n 3]), (2, [t 3]), (3, [n 2])]

/-- Sums and products of numbers, with brackets. -/
def arithmetic : List Declaration :=
  sample ["(", ")", "+", "-", "*", "/", "num"] ["E", "T", "F"]
    [(1, [n 1, t 4, n 2]), (1, [n 1, t 5, n 2]), (1, [n 2]),
     (2, [n 2, t 6, n 3]), (2, [n 2, t 7, n 3]), (2, [n 3]),
     (3, [t 8]), (3, [t 2, n 1, t 3])]

/-- A part that may be left out: `DECL := let id TYPE_ANNOT = num`,
`TYPE_ANNOT := : id | Blank`. -/
def optional : List Declaration :=
  sample ["let", "id", ":", "=", "num"] ["DECL", "TYPE_ANNOT"]
    [(1, [t 2, t 3, n 2, t 5, t 6]), (2, [t 4, t 3]), (2, [t 0])]

/-- A sum without a side to associate to: `E := E + E | id`. -/
def ambiguous : List Declaration :=
  sample ["+", "id"] ["E"] [(1, [n 1, t 2, n 1]), (1, [t 3])]

/-- Two ways to read `x`: `S := A | B`, `A := x`, `B := x`. -/
def reduceReduce : List Declaration :=
  sample ["x"] ["S", "A", "B"] [(1, [n 2]), (1, [n 3]), (2, [t 2]), (3, [t 2])]

/-- A state that is reached a second time with another lookahead: `S := a E c | b E d`,
`E := e`. -/
def lateLookahead : List Declaration :=
  sample ["a", "b", "c", "d", "e"] ["S", "E"]
    [(1, [t 2, n 2, t 4]), (1, [t 3, n 2, t 5]), (2, [t 6])]

/-- Parameters and results of a function, a grammar that needs lookaheads of its own
for each state. -/
def paramSpec : List Declaration :=
  sample [",", ":", "id"] ["DEF", "PARAM_SPEC", "RETURN_SPEC", "TYPE", "NAME", "NAME_LIST"]
    [(1, [n 2, n 3, t 2]), (2, [n 4]), (2, [n 6, t 3, n 4]), (3, [n 4]), (3, [n 5, t 3, n 4]),
     (4, [t 4]), (5, [t 4]), (6, [n 5]), (6, [n 5, t 2, n 6])]

/-- All samples, under their names. -/
def all : List (String × List Declaration) :=
  [("pointer", pointer), ("arithmetic", arithmetic), ("optional", optional),
   ("ambiguous", ambiguous), ("reduce_reduce", reduceReduce),
   ("late_lookahead", lateLookahead), ("param_spec", paramSpec)]

/-- The sample of a name. -/
def find? (name : String) : Option (List Declaration) :=
  (all.find? (·.1 = name)).map (·.2)

end ShiftReduce.Samples
