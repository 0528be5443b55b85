import ShiftReduce.Lexer
import ShiftReduce.Proofs.Grammar.Numbering
import ShiftReduce.Proofs.Grammar.Representation
import ShiftReduce.Table.Export

/-!
# Reading names

A text of names with spaces between them is read as the terminals of these names
(`Automaton.read_names`), if there is no blank in a name.  A name is looked up among the terminals
only, so it does not matter if a nonterminal has the same name, and before a word is taken for a
number or an identifier.
-/

namespace ShiftReduce

/-! ## Words -/

namespace Text

/-- Characters without a blank among them, one at least. -/
def IsWord (word : List Char) : Prop := word ≠ [] ∧ ∀ c ∈ word, isBlank c = false

theorem foldr_prepend {word : List Char} (h : ∀ c ∈ word, isBlank c = false) (first : List Char)
    (rest : List (List Char)) : word.foldr prepend (first, rest) = (word ++ first, rest) := by
  induction word with
  | nil => rfl
  | cons c word ih =>
      obtain ⟨hc, hword⟩ := List.forall_mem_cons.1 h
      rw [List.foldr_cons, ih hword, prepend, hc]
      rfl

/-- A word before a blank is split off. -/
theorem words_append {word : List Char} (h : IsWord word) {blank : Char}
    (hblank : isBlank blank = true) (text : List Char) :
    words (word ++ blank :: text) = word :: words text := by
  have hsplit : (blank :: text).foldr prepend ([], []) = ([], words text) := by
    rw [List.foldr_cons, prepend, if_pos hblank]
    rfl
  rw [words, List.foldr_append, hsplit, foldr_prepend h.2, List.append_nil]
  exact if_neg (by simpa using h.1)

theorem words_of_isWord {word : List Char} (h : IsWord word) : words word = [word] := by
  rw [words, foldr_prepend h.2, List.append_nil]
  exact if_neg (by simpa using h.1)

/-- Words with spaces between them are the words of the text. -/
theorem words_intercalate {ws : List (List Char)} (h : ∀ word ∈ ws, IsWord word) :
    words ([' '].intercalate ws) = ws := by
  induction ws with
  | nil => rfl
  | cons word ws ih =>
      obtain ⟨hword, hws⟩ := List.forall_mem_cons.1 h
      cases ws with
      | nil => rw [List.intercalate_singleton, words_of_isWord hword]
      | cons next ws =>
          rw [List.intercalate_cons_cons, List.append_assoc, List.singleton_append,
            words_append hword rfl, ih hws]

end Text

/-! ## Names -/

namespace Vocabulary

variable {v : Vocabulary}

/-- The terminals come first among the names of the symbols. -/
theorem take_map_name (v : Vocabulary) :
    (v.symbols.map v.name).take v.terminals.length = v.terminals.map (·.name) := by
  have hlength : (v.terminalList.map Symbol.terminal).length = v.terminals.length := by
    simp [terminalList]
  rw [symbols, List.map_append, List.take_left' (by simpa using hlength)]
  apply List.ext_getElem
  · simp [terminalList]
  · intro i hi hi'
    have hlt : i < v.terminals.length := by simpa using hi'
    simp [terminalList, name, name?, entry?, hlt]

/-- A declared terminal has the name that it was declared with. -/
theorem exists_name_eq {t : Terminal} (ht : t.index < v.terminals.length) :
    ∃ entry ∈ v.terminals, v.name (.terminal t) = entry.name :=
  ⟨_, List.getElem_mem ht, by simp [name, name?, entry?, ht]⟩

end Vocabulary

/-- In a finished grammar the names of the terminals are different, and not empty. -/
theorem Grammar.named_of_define {declarations : List Declaration} {g : Grammar}
    (h : define declarations = .ok g) : g.vocabulary.Named := by
  obtain ⟨d, hd, hfinish⟩ :=
    exists_finish_of_define Draft.orderly_empty (fun hd hdeclare => hd.declare hdeclare) h
  unfold Draft.finish at hfinish
  split at hfinish
  · contradiction
  · contradiction
  · contradiction
  · obtain rfl := Except.ok.inj hfinish
    exact hd.named

namespace Automaton

variable {g : Grammar} {a : Automaton}

/-- The table has the names of the symbols. -/
theorem name_table (a : Automaton) {x : Symbol} (hx : x ∈ g.vocabulary.symbols) :
    (a.table g).name (g.vocabulary.number x) = g.vocabulary.name x := by
  obtain ⟨i, hi⟩ := List.mem_iff_getElem?.1 hx
  have hnumber := (Vocabulary.getElem?_symbols_iff.1 hi).2
  simp [ParseTable.name, table, hnumber, hi]

/-- A terminal is found by its name. -/
theorem terminalNamed?_table (hnamed : g.vocabulary.Named) (a : Automaton) {t : Terminal}
    (ht : t.index < g.vocabulary.terminals.length) :
    (a.table g).terminalNamed? (g.vocabulary.name (.terminal t)) =
      some (g.vocabulary.number (.terminal t)) := by
  have hnames : (a.table g).names.extract 1 ((a.table g).terminalCount + 1) =
      (g.vocabulary.terminals.map (·.name)).toArray := by
    rw [← Vocabulary.take_map_name]
    simp [table, List.extract_eq_take_drop]
  have hname : (g.vocabulary.terminals.map (·.name))[t.index]? =
      some (g.vocabulary.name (.terminal t)) := by
    simp [Vocabulary.name, Vocabulary.name?, Vocabulary.entry?, ht]
  obtain ⟨hlt, hget⟩ := List.getElem?_eq_some_iff.1 hname
  have hfind : (g.vocabulary.terminals.map (·.name)).findIdx?
      (· = g.vocabulary.name (.terminal t)) = some t.index := by
    refine List.findIdx?_eq_some_iff_getElem.2 ⟨hlt, by simpa using hget, fun j hj => ?_⟩
    -- No terminal before it has the same name.
    intro heq
    have hsame : (g.vocabulary.terminals.map (·.name))[j]? =
        (g.vocabulary.terminals.map (·.name))[t.index]? := by
      rw [hname, List.getElem?_eq_getElem (Nat.lt_trans hj hlt)]
      exact congrArg some (by simpa using heq)
    have hplace := (List.getElem?_inj (Nat.lt_trans hj hlt) hnamed.terminal_nodup).1 hsame
    exact absurd hplace (Nat.ne_of_lt hj)
  rw [ParseTable.terminalNamed?, hnames, List.findIdx?_toArray, hfind]
  rfl

/-- The token of a name is the terminal that has it. -/
theorem token_name (hnamed : g.vocabulary.Named) (a : Automaton) {t : Terminal}
    (ht : t.index < g.vocabulary.terminals.length) :
    Lexer.token (a.table g) (g.vocabulary.name (.terminal t)).toList =
      .ok ⟨g.vocabulary.number (.terminal t), g.vocabulary.name (.terminal t)⟩ := by
  have hsymbol : Lexer.symbol? (a.table g) (g.vocabulary.name (.terminal t)).toList =
      some (g.vocabulary.number (.terminal t)) := by
    rw [Lexer.symbol?, String.ofList_toList, terminalNamed?_table hnamed a ht]
    rfl
  rw [Lexer.token, hsymbol, String.ofList_toList]

/-- Names with spaces between them are read as the terminals that have them. -/
theorem read_names (hnamed : g.vocabulary.Named)
    (hblank : ∀ entry ∈ g.vocabulary.terminals, ∀ c ∈ entry.name.toList, Text.isBlank c = false)
    (a : Automaton) {word : List Terminal}
    (hword : ∀ t ∈ word, t.index < g.vocabulary.terminals.length) :
    (a.table g).read (" ".intercalate (word.map fun t => g.vocabulary.name (.terminal t))) =
      word.map fun t =>
        .ok ⟨g.vocabulary.number (.terminal t), g.vocabulary.name (.terminal t)⟩ := by
  have hwords : Text.words
      (" ".intercalate (word.map fun t => g.vocabulary.name (.terminal t))).toList =
        word.map fun t => (g.vocabulary.name (.terminal t)).toList := by
    rw [String.toList_intercalate, List.map_map]
    apply Text.words_intercalate
    intro chars hchars
    obtain ⟨t, ht, rfl⟩ := List.mem_map.1 hchars
    obtain ⟨entry, hentry, hname⟩ := Vocabulary.exists_name_eq (hword t ht)
    rw [Function.comp_apply, hname]
    exact ⟨mt String.toList_eq_nil_iff.1 (hnamed.terminal_ne entry hentry), hblank entry hentry⟩
  rw [ParseTable.read, ParseTable.lex, hwords, List.map_map, List.map_map]
  refine List.map_congr_left fun t ht => ?_
  rw [Function.comp_apply, Function.comp_apply, token_name hnamed a (hword t ht)]
  rfl

end Automaton

end ShiftReduce
