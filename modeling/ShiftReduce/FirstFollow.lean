import ShiftReduce.Grammar.Basic
import ShiftReduce.Iterate
import ShiftReduce.OrderedSet

/-!
# FIRST and FOLLOW sets

Two sets of terminals for each nonterminal, computed together.  They are not the
sets of the textbook:

* when some production of `N` may derive the empty string, FOLLOW of `N` is part
  of FIRST of `N`, and the blank symbol stays in it as the mark of such an `N`;
* FOLLOW of `N` takes from the symbol right after `N` its FIRST set and nothing
  else, since what lies beyond a symbol that may vanish is already in that set.

The sets start out empty and grow by rounds, each of which visits every production,
until a round adds nothing.
-/

namespace ShiftReduce

/-! ### Families of sets -/

/-- Sets of terminals, one for each nonterminal. -/
structure SetFamily where
  sets : Array (OrderedSet Terminal)
deriving DecidableEq

namespace SetFamily

/-- Empty sets for this many nonterminals. -/
def empty (size : Nat) : SetFamily := ⟨Array.replicate size ∅⟩

/-- The set of a nonterminal. -/
def get (f : SetFamily) (n : Nonterminal) : OrderedSet Terminal := f.sets.getD n.index ∅

/-- Adds terminals to the set of a nonterminal. -/
def add (f : SetFamily) (n : Nonterminal) (added : OrderedSet Terminal) : SetFamily :=
  ⟨f.sets.modify n.index (· ∪ added)⟩

@[simp] theorem get_empty (size : Nat) (n : Nonterminal) : (empty size).get n = ∅ := by
  by_cases h : n.index < size <;> simp [empty, get, Array.getD, h]

@[simp] theorem size_add (f : SetFamily) (n : Nonterminal) (added : OrderedSet Terminal) :
    (f.add n added).sets.size = f.sets.size := by
  simp [add]

theorem get_add_self {f : SetFamily} {n : Nonterminal} (h : n.index < f.sets.size)
    (added : OrderedSet Terminal) : (f.add n added).get n = f.get n ∪ added := by
  simp [add, get, Array.getD, h, Array.getElem_modify]

theorem get_add_of_ne (f : SetFamily) {m n : Nonterminal} (h : m ≠ n)
    (added : OrderedSet Terminal) : (f.add n added).get m = f.get m := by
  have h' : ¬ n.index = m.index := fun e => h (by cases m; cases n; simp_all)
  simp only [add, get, Array.getD_eq_getD_getElem?, Array.getElem?_modify, if_neg h']

end SetFamily

/-- FIRST and FOLLOW of the nonterminals of a grammar. -/
structure FirstFollow where
  first : SetFamily
  follow : SetFamily
deriving DecidableEq

namespace FirstFollow

/-- FIRST of a symbol; that of a terminal is the terminal itself. -/
def firstOf (s : FirstFollow) : Symbol → OrderedSet Terminal
  | .terminal t => .single t
  | .nonterminal n => s.first.get n

/-- FOLLOW of a symbol; that of a terminal is empty. -/
def followOf (s : FirstFollow) : Symbol → OrderedSet Terminal
  | .terminal _ => ∅
  | .nonterminal n => s.follow.get n

/-- Whether FIRST of a symbol holds the blank.  Every symbol that derives the empty
string has it, and some others have it through the FOLLOW sets folded into FIRST. -/
def hasBlank (s : FirstFollow) (g : Grammar) (x : Symbol) : Bool := decide (g.blank ∈ s.firstOf x)

/-! ### One round -/

/-- What a body lends to FIRST of its head: FIRST of its symbols as far as all of
them before may vanish, and `beyond` if all of them may. -/
def ofBody (s : FirstFollow) (blank : Terminal) (beyond : OrderedSet Terminal) :
    List Symbol → OrderedSet Terminal
  | [] => beyond
  | x :: rest =>
    if blank ∈ s.firstOf x then s.firstOf x ∪ s.ofBody blank beyond rest else s.firstOf x

/-- The nonterminals of a body, each with the symbol right after it. -/
def occurrences : List Symbol → List (Nonterminal × Option Symbol)
  | [] => []
  | .terminal _ :: rest => occurrences rest
  | .nonterminal n :: rest => (n, rest.head?) :: occurrences rest

/-- Lets FIRST of the head take in what a production lends to it. -/
def visitFirst (g : Grammar) (s : FirstFollow) (r : Rule) : FirstFollow :=
  { s with first := s.first.add r.head (s.ofBody g.blank (s.follow.get r.head) r.body) }

/-- Lets FOLLOW of one occurrence in a body take in what comes after it, which is
FOLLOW of the head at the end of the body. -/
def visitOccurrence (head : Nonterminal) (s : FirstFollow) (o : Nonterminal × Option Symbol) :
    FirstFollow :=
  let after := match o.2 with
    | some x => s.firstOf x
    | none => s.follow.get head
  { s with follow := s.follow.add o.1 after }

/-- Lets FOLLOW of the nonterminals of a body take in what comes after them. -/
def visitFollow (s : FirstFollow) (r : Rule) : FirstFollow :=
  (occurrences r.body).foldl (visitOccurrence r.head) s

/-- The productions, those of one nonterminal after those of another. -/
def byHead (g : Grammar) : List Rule :=
  g.vocabulary.nonterminalList.flatMap g.productionsOf

/-- One visit to every production, for FIRST in the order of the list and then for
FOLLOW in the order of declaration. -/
def round (g : Grammar) (ordered : List Rule) (s : FirstFollow) : FirstFollow :=
  g.allRules.foldl visitFollow (ordered.foldl (visitFirst g) s)

/-! ### The limit -/

/-- Sets that grow by rounds. -/
structure Rounds where
  sets : FirstFollow
  /-- Whether the last round added nothing. -/
  stable : Bool

/-- A further round. -/
def Rounds.next (g : Grammar) (ordered : List Rule) (r : Rounds) : Rounds :=
  let sets := round g ordered r.sets
  ⟨sets, sets = r.sets⟩

/-- The sets before the first round. -/
def initial (g : Grammar) : FirstFollow :=
  let size := g.vocabulary.nonterminals.length
  ⟨.empty size, .empty size⟩

/-- More rounds than can add something: each of them adds a terminal to a set. -/
def bound (g : Grammar) : Nat :=
  2 * g.vocabulary.nonterminals.length * g.vocabulary.terminals.length + 1

end FirstFollow

/-- The FIRST and FOLLOW sets of a grammar. -/
def Grammar.firstFollow (g : Grammar) : FirstFollow :=
  let next := FirstFollow.Rounds.next g (FirstFollow.byHead g)
  (runUntil (·.stable) next (FirstFollow.bound g) ⟨FirstFollow.initial g, false⟩).sets

end ShiftReduce
