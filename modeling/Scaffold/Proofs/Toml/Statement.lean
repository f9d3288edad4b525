import Scaffold.Proofs.Toml.Quoting
import Scaffold.Toml.Statement

/-!
Lines of a document, and the statements that they are read as: the header of a table, and a key that
is given quoted text. The names are written without quotes.
-/

namespace Scaffold.Toml

variable {c mark : Char} {name value cs rest : List Char}

theorem skipSpaces_eq_self (hspace : ClearOf ' ' cs) (htab : ClearOf '\t' cs) :
    skipSpaces cs = cs := by
  cases cs with
  | nil => rfl
  | cons c cs =>
    have hc : isSpace c = false := by
      rw [isSpace, Bool.or_eq_false_iff, decide_eq_false_iff_not, decide_eq_false_iff_not]
      exact ⟨fun hc => hspace cs (hc ▸ rfl), fun hc => htab cs (hc ▸ rfl)⟩
    rw [skipSpaces, List.dropWhile_cons_of_neg (Bool.eq_false_iff.1 hc)]

/-- The characters that blanks, line ends and comments start with. -/
def layoutMarks : List Char := [' ', '\t', '#', '\n', '\r']

/-- Something stands at the start of the text that is no layout. -/
structure IsInked (cs : List Char) : Prop where
  ne_nil : cs ≠ []
  clearOf : ∀ mark ∈ layoutMarks, ClearOf mark cs

theorem IsInked.skipSpaces_eq (h : IsInked cs) : skipSpaces cs = cs :=
  skipSpaces_eq_self (h.clearOf ' ' (by decide)) (h.clearOf '\t' (by decide))

theorem IsInked.afterLine?_eq_none (h : IsInked cs) : afterLine? cs = none := by
  have hcomment : skipComment cs = cs := by
    rw [skipComment]
    exact h.clearOf '#' (by decide)
  rw [afterLine?, h.skipSpaces_eq, hcomment]
  split
  · exact absurd rfl h.ne_nil
  · exact afterNewline?_eq_none (h.clearOf '\n' (by decide)) (h.clearOf '\r' (by decide))

/-- A name that needs no quotes. -/
structure IsBareName (name : List Char) : Prop where
  ne_nil : name ≠ []
  bare : ∀ c ∈ name, isBare c = true

instance (name : List Char) : Decidable (IsBareName name) :=
  decidable_of_iff (name ≠ [] ∧ name.all isBare = true)
    ⟨fun h => ⟨h.1, List.all_eq_true.1 h.2⟩, fun h => ⟨h.ne_nil, List.all_eq_true.2 h.bare⟩⟩

theorem IsBareName.clearOf (h : IsBareName name) (hmark : isBare mark = false) (rest : List Char) :
    ClearOf mark (name ++ rest) := by
  obtain ⟨c, more, rfl⟩ := List.exists_cons_of_ne_nil h.ne_nil
  intro after hafter
  obtain ⟨rfl, -⟩ := List.cons.inj hafter
  cases hmark.symm.trans (h.bare c List.mem_cons_self)

theorem IsBareName.isInked (h : IsBareName name) (rest : List Char) : IsInked (name ++ rest) where
  ne_nil := List.append_ne_nil_of_left_ne_nil h.ne_nil rest
  clearOf mark hmark := by
    have hbare : layoutMarks.all (!isBare ·) = true := rfl
    apply h.clearOf
    simpa using List.all_eq_true.1 hbare mark hmark

theorem readName?_append (h : IsBareName name) (hc : isBare c = false) (rest : List Char) :
    readName? (name ++ c :: rest) = some (String.ofList name, c :: rest) := by
  have htake : (name ++ c :: rest).takeWhile isBare = name := by
    rw [List.takeWhile_append_of_pos h.bare,
      List.takeWhile_cons_of_neg (Bool.eq_false_iff.1 hc), List.append_nil]
  have hdrop : (name ++ c :: rest).dropWhile isBare = c :: rest := by
    rw [List.dropWhile_append_of_pos h.bare, List.dropWhile_cons_of_neg (Bool.eq_false_iff.1 hc)]
  rw [readName?, htake, hdrop]
  · cases name with
    | nil => exact absurd rfl h.ne_nil
    | cons first more => rfl
  · exact h.clearOf rfl _
  · exact h.clearOf rfl _

/-- A key that is one bare name ends where something else stands than a name, a dot or a blank. -/
theorem readKey?_append (h : IsBareName name) (hc : isBare c = false)
    (hspaces : skipSpaces (c :: rest) = cs) (hdot : ClearOf '.' cs) :
    readKey? (name ++ c :: rest) = some (⟨[], String.ofList name⟩, cs) := by
  have hnames : readNames? (name ++ c :: rest) = some (⟨[], String.ofList name⟩, cs) := by
    rw [readNames?, (h.isInked _).skipSpaces_eq, readName?_append h hc]
    simp only [Option.bind_eq_bind, Option.bind_some, hspaces]
    split
    · exact absurd rfl (hdot _)
    · rfl
  rw [readKey?, hnames]
  rfl

theorem exists_quote_eq (cs : List Char) :
    ∃ more, quote cs = '"' :: more ∨ quote cs = '\'' :: more := by
  rw [quote]
  cases QuoteForm.ofText cs with
  | basic => exact ⟨_, .inl rfl⟩
  | literal => exact ⟨_, .inr rfl⟩
  | basicLines => exact ⟨_, .inl rfl⟩
  | literalLines => exact ⟨_, .inr rfl⟩

theorem clearOf_quote (hdouble : mark ≠ '"') (hsingle : mark ≠ '\'') (cs rest : List Char) :
    ClearOf mark (quote cs ++ rest) := by
  intro after hafter
  obtain ⟨more, hquote | hquote⟩ := exists_quote_eq cs
  · rw [hquote] at hafter
    exact hdouble (List.cons.inj hafter).1.symm
  · rw [hquote] at hafter
    exact hsingle (List.cons.inj hafter).1.symm

theorem readValue?_quote (depth : Nat) (cs : List Char) (hdouble : ClearOf '"' rest)
    (hsingle : ClearOf '\'' rest) :
    readValue? depth (quote cs ++ rest) = some (.text (String.ofList cs), rest) := by
  have htext := readText?_quote cs hdouble hsingle
  obtain ⟨more, hquote | hquote⟩ := exists_quote_eq cs
  · rw [hquote, List.cons_append] at htext ⊢
    rw [readValue?, htext, Option.map_some]
  · rw [hquote, List.cons_append] at htext ⊢
    rw [readValue?, htext, Option.map_some]

theorem readStatement?_header (h : IsBareName name) (rest : List Char) :
    readStatement? ('[' :: (name ++ ']' :: rest)) =
      some (.table ⟨[], String.ofList name⟩, rest) := by
  have hkey : readKey? (name ++ ']' :: rest) = some (⟨[], String.ofList name⟩, ']' :: rest) :=
    readKey?_append h rfl rfl (clearOf_cons (by decide) _)
  rw [readStatement?, hkey]
  · rfl
  · exact h.clearOf rfl _

theorem readStatement?_entry (h : IsBareName name) (value rest : List Char) :
    readStatement? (name ++ ' ' :: '=' :: ' ' :: (quote value ++ '\n' :: rest)) =
      some (.entry ⟨[], String.ofList name⟩ (.text (String.ofList value)), '\n' :: rest) := by
  have hkey : readKey? (name ++ ' ' :: '=' :: ' ' :: (quote value ++ '\n' :: rest)) =
      some (⟨[], String.ofList name⟩, '=' :: ' ' :: (quote value ++ '\n' :: rest)) :=
    readKey?_append h rfl rfl (clearOf_cons (by decide) _)
  have hspaces : skipSpaces (' ' :: (quote value ++ '\n' :: rest)) =
      quote value ++ '\n' :: rest :=
    skipSpaces_eq_self (clearOf_quote (by decide) (by decide) _ _)
      (clearOf_quote (by decide) (by decide) _ _)
  have hvalue : readValue? (nestingLimit - 1) (quote value ++ '\n' :: rest) =
      some (.text (String.ofList value), '\n' :: rest) :=
    readValue?_quote _ value (clearOf_cons (by decide) rest) (clearOf_cons (by decide) rest)
  have hassignment : readAssignment? (readValue? (nestingLimit - 1))
      (name ++ ' ' :: '=' :: ' ' :: (quote value ++ '\n' :: rest)) =
        some (⟨[], String.ofList name⟩, .text (String.ofList value), '\n' :: rest) := by
    rw [readAssignment?, hkey]
    simp only [Option.bind_eq_bind, Option.bind_some, hspaces, hvalue]
    rfl
  rw [readStatement?, hassignment]
  · rfl
  · exact fun _ => h.clearOf rfl _ _
  · exact h.clearOf rfl _

/-- A statement is read from the start of its line. -/
theorem readStatements?_cons {statement : Statement} (h : IsInked cs)
    (hread : readStatement? cs = some (statement, '\n' :: rest))
    (hlength : rest.length < cs.length) :
    readStatements? cs = (readStatements? rest).map (statement :: ·) := by
  have hend : afterLine? ('\n' :: rest) = some rest := rfl
  rw [readStatements?, h.skipSpaces_eq]
  split
  · exact absurd rfl h.ne_nil
  · simp only [h.afterLine?_eq_none, hread, hend, Option.bind_eq_bind, Option.bind_some,
      if_pos hlength]
    cases readStatements? rest <;> rfl

theorem readStatements?_newline (cs : List Char) :
    readStatements? ('\n' :: cs) = readStatements? cs := by
  have hspaces : skipSpaces ('\n' :: cs) = '\n' :: cs := rfl
  have hend : afterLine? ('\n' :: cs) = some cs := rfl
  rw [readStatements?, hspaces]
  simp only [hend, if_pos (Nat.lt_succ_self cs.length), List.length_cons]

/-- The line that opens a table. -/
def headerLine (name : List Char) : List Char :=
  '[' :: (name ++ [']', '\n'])

/-- The line that gives quoted text to a key. -/
def entryLine (name value : List Char) : List Char :=
  name ++ [' ', '=', ' '] ++ quote value ++ ['\n']

theorem readStatements?_headerLine (h : IsBareName name) (rest : List Char) :
    readStatements? (headerLine name ++ rest) =
      (readStatements? rest).map (.table ⟨[], String.ofList name⟩ :: ·) := by
  have hline : headerLine name ++ rest = '[' :: (name ++ ']' :: '\n' :: rest) := by
    simp [headerLine]
  have hinked : IsInked ('[' :: (name ++ ']' :: '\n' :: rest)) := by
    refine ⟨List.cons_ne_nil _ _, fun mark hmark => clearOf_cons ?_ _⟩
    rintro rfl
    revert hmark
    decide
  rw [hline]
  refine readStatements?_cons hinked (readStatement?_header h _) ?_
  simp only [List.length_cons, List.length_append]
  omega

theorem readStatements?_entryLine (h : IsBareName name) (value rest : List Char) :
    readStatements? (entryLine name value ++ rest) =
      (readStatements? rest).map
        (.entry ⟨[], String.ofList name⟩ (.text (String.ofList value)) :: ·) := by
  have hline : entryLine name value ++ rest =
      name ++ ' ' :: '=' :: ' ' :: (quote value ++ '\n' :: rest) := by
    simp [entryLine]
  rw [hline]
  refine readStatements?_cons (h.isInked _) (readStatement?_entry h value rest) ?_
  simp only [List.length_cons, List.length_append]
  omega

end Scaffold.Toml
