/-!
# Ropes

A rope is a text in pieces.  Ropes are joined without a look at the pieces, and the text
is put together in one go in the end, so that even a deeply nested dump takes no more
time than its length asks for.

The view is `Rope.toString`; `Rope.toString_append` says that joining ropes joins their
texts.
-/

namespace ShiftReduce.Text

/-- A text in pieces. -/
inductive Rope where
  | text (s : String)
  | append (first second : Rope)

namespace Rope

instance : Append Rope := ⟨append⟩

/-- The text of a rope, written behind another text. -/
def writeOnto : Rope → String → String
  | text s, written => written ++ s
  | append first second, written => second.writeOnto (first.writeOnto written)

/-- The text of a rope. -/
def toString (r : Rope) : String := r.writeOnto ""

/-- The ropes of a list, one behind another. -/
def join (ropes : List Rope) : Rope := ropes.foldr append (text "")

/-- The ropes of a list, with a text between any two neighbours. -/
def intercalate (separator : String) (ropes : List Rope) : Rope :=
  join (ropes.intersperse (text separator))

/-! ### The view after each operation -/

theorem writeOnto_eq (r : Rope) (written : String) :
    r.writeOnto written = written ++ r.toString := by
  induction r generalizing written with
  | text s => simp [toString, writeOnto]
  | append first second ihf ihs =>
    simp only [toString, writeOnto] at *
    rw [ihs, ihf, ihs (first.writeOnto ""), String.append_assoc]

@[simp] theorem toString_text (s : String) : (text s).toString = s := by
  simp [toString, writeOnto]

@[simp] theorem toString_append (r s : Rope) :
    (r ++ s).toString = r.toString ++ s.toString := writeOnto_eq s _

theorem toString_join_cons (r : Rope) (ropes : List Rope) :
    (join (r :: ropes)).toString = r.toString ++ (join ropes).toString := toString_append _ _

@[simp] theorem toString_intercalate (separator : String) (ropes : List Rope) :
    (intercalate separator ropes).toString = separator.intercalate (ropes.map toString) := by
  unfold intercalate
  induction ropes with
  | nil => rfl
  | cons r ropes ih =>
    rcases ropes with _ | ⟨s, ropes⟩
    · exact (toString_join_cons r []).trans (by simp [join])
    · rw [List.intersperse_cons_cons, toString_join_cons, toString_join_cons, ih]
      simp [String.append_assoc]

end Rope

end ShiftReduce.Text
