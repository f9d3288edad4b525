import Scaffold.Proofs.Text.Run
import Scaffold.Swift.Model

/-!
Declarations as they are written, and what is read from them. A declaration is a keyword, a name and
a body of lines between braces; some of the lines are stored properties, with white space wherever
it may stand. Whatever the layout is, reading gives back the name and the properties.
-/

namespace Scaffold.Swift

open Text

/-- White space within a line. -/
def IsIndent (cs : List Char) : Prop := IsGap cs ∧ '\n' ∉ cs

instance : DecidablePred IsIndent :=
  fun cs => decidable_of_iff (cs.all isBlank = true ∧ '\n' ∉ cs) (and_congr_left' List.all_eq_true)

/-- A word of letters, digits and the like of any script. -/
def IsIdentifier (cs : List Char) : Prop := cs ≠ [] ∧ ∀ c ∈ cs, isWordChar c = true

/-- A type as it can stand in a line before an initial value or a comment. -/
structure IsType (cs : List Char) : Prop where
  ne_nil : cs ≠ []
  first : ∀ c ∈ cs.head?, isBlank c = false
  last : ∀ c ∈ cs.getLast?, isBlank c = false
  line : '\n' ∉ cs
  brace : '}' ∉ cs
  equals : '=' ∉ cs
  comment : ¬['/', '/'] <:+: cs

/-- What can stand behind a type and the white space after it: an initial value, a comment set off
by white space, or nothing. -/
structure IsValue (gap cs : List Char) : Prop where
  line : '\n' ∉ cs
  brace : '}' ∉ cs
  start : cs = [] ∨ cs.head? = some '=' ∨ gap ≠ [] ∧ ['/', '/'] <+: cs

/-- A line without a stored property. -/
structure IsOther (cs : List Char) : Prop where
  line : '\n' ∉ cs
  brace : '}' ∉ cs
  first : ∀ word ∈ (words cs).head?, word ≠ "let".toList ∧ word ≠ "var".toList

/-- A line with a stored property. -/
structure PropertyLine where
  indent : List Char
  keyword : List Char
  gap : List Char
  name : List Char
  beforeColon : List Char
  afterColon : List Char
  type : List Char
  afterType : List Char
  value : List Char
  isIndent : IsIndent indent
  isKeyword : keyword = "let".toList ∨ keyword = "var".toList
  isGap : IsIndent gap ∧ gap ≠ []
  isName : IsIdentifier name
  isBeforeColon : IsIndent beforeColon
  isAfterColon : IsIndent afterColon
  isType : IsType type
  isAfterType : IsIndent afterType
  isValue : IsValue afterType value

inductive Line where
  | property (line : PropertyLine)
  | other (cs : List Char) (h : IsOther cs)

/-- A keyword and a name before a colon, with white space wherever it may stand. The words may stand
on lines of their own. -/
structure Head where
  before : List Char
  keyword : List Char
  gap : List Char
  name : List Char
  beforeColon : List Char
  isBefore : IsGap before
  isKeyword : keyword = "let".toList ∨ keyword = "var".toList
  isGap : IsGap gap ∧ gap ≠ []
  isName : IsIdentifier name
  isBeforeColon : IsGap beforeColon

/-- A declaration, with the text before and after it. -/
structure Declaration where
  before : List Char
  keyword : List Char
  gap : List Char
  name : List Char
  middle : List Char
  lines : List Line
  rest : List Char
  isBefore : ¬"struct".toList <:+: before ∧ ¬"class".toList <:+: before
  isKeyword : keyword = "struct".toList ∨ keyword = "class".toList
  isGap : IsGap gap ∧ gap ≠ []
  isName : IsIdentifier name
  isMiddle : '{' ∉ middle ∧ ∀ c ∈ middle.head?, isWordChar c = false

def PropertyLine.text (l : PropertyLine) : List Char :=
  l.indent ++ l.keyword ++ l.gap ++ l.name ++ l.beforeColon ++ [':'] ++ l.afterColon ++ l.type ++
    l.afterType ++ l.value

def PropertyLine.property (l : PropertyLine) : StoredProperty :=
  ⟨String.ofList l.name, ⟨String.ofList l.type⟩⟩

def Head.text (h : Head) : List Char :=
  h.before ++ (h.keyword ++ (h.gap ++ (h.name ++ (h.beforeColon ++ [':']))))

/-- The line up to its colon. -/
def PropertyLine.head (l : PropertyLine) : Head :=
  ⟨l.indent, l.keyword, l.gap, l.name, l.beforeColon, l.isIndent.1, l.isKeyword,
    ⟨l.isGap.1.1, l.isGap.2⟩, l.isName, l.isBeforeColon.1⟩

namespace Line

def text : Line → List Char
  | property l => l.text
  | other cs _ => cs

def property? : Line → Option StoredProperty
  | property l => some l.property
  | other _ _ => none

/-- Lines, each with its end. -/
def textOf (lines : List Line) : List Char :=
  lines.flatMap fun l => l.text ++ ['\n']

end Line

namespace Declaration

def text (d : Declaration) : String :=
  String.ofList (d.before ++ d.keyword ++ d.gap ++ d.name ++ d.middle ++ ['{', '\n'] ++
    Line.textOf d.lines ++ ['}'] ++ d.rest)

/-- The name and the stored properties, in the order of the lines. -/
def model (d : Declaration) : Model :=
  ⟨String.ofList d.name, d.lines.filterMap Line.property?⟩

end Declaration

theorem IsIdentifier.head? {cs rest : List Char} (h : IsIdentifier cs) :
    ∀ c ∈ (cs ++ rest).head?, isBlank c = false := by
  refine head?_append_of_head? h.1 (fun c hc => ?_) rest
  exact isBlank_of_isWordChar (h.2 c (List.mem_of_mem_head? hc))

theorem IsIdentifier.not_mem {cs : List Char} {c : Char} (h : IsIdentifier cs)
    (hc : isWordChar c = false) : c ∉ cs := fun hmem =>
  Bool.false_ne_true (hc.symm.trans (h.2 c hmem))

/-- White space and a word are read up to the end of the word. -/
theorem spacedWord?_append {gap name rest : List Char} (hgap : IsGap gap ∧ gap ≠ [])
    (hname : IsIdentifier name) (hrest : ∀ c ∈ rest.head?, isWordChar c = false) :
    spacedWord? (gap ++ (name ++ rest)) = some (name, rest) := by
  have htake : (gap ++ (name ++ rest)).takeWhile isBlank = gap := takeWhile_run hgap.1 hname.head?
  have hdrop : (gap ++ (name ++ rest)).dropWhile isBlank = name ++ rest :=
    dropWhile_run hgap.1 hname.head?
  simp only [spacedWord?, htake, hdrop, takeWhile_run hname.2 hrest, dropWhile_run hname.2 hrest]
  simp [hgap.2, hname.1]

/-- A word that is read has white space before it. -/
theorem isBlank_of_spacedWord? {cs : List Char} {read : List Char × List Char}
    (h : spacedWord? cs = some read) : ∃ c ∈ cs.head?, isBlank c = true := by
  cases cs with
  | nil => simp [spacedWord?] at h
  | cons c cs =>
    cases hc : isBlank c with
    | true => exact ⟨c, rfl, hc⟩
    | false => simp [spacedWord?, hc] at h

theorem exists_gap_of_spacedWord? {cs word rest : List Char}
    (h : spacedWord? cs = some (word, rest)) :
    ∃ gap, cs = gap ++ (word ++ rest) ∧ (IsGap gap ∧ gap ≠ []) ∧ IsIdentifier word := by
  obtain ⟨gap, cs', hcs, hgap, -, htakeGap, hdropGap⟩ := exists_run isBlank cs
  obtain ⟨word', rest', hcs', hword, -, htakeWord, hdropWord⟩ := exists_run isWordChar cs'
  simp only [spacedWord?, htakeGap, hdropGap, htakeWord, hdropWord] at h
  split at h
  · next hgapNe =>
    split at h
    · cases h
    · next hwordNe =>
      cases h
      have hne : gap ≠ [] := by
        rintro rfl
        cases hgapNe
      exact ⟨gap, hcs' ▸ hcs, ⟨hgap, hne⟩, fun hnil => hwordNe (List.isEmpty_iff.2 hnil), hword⟩
  · cases h

/-- The word ends where no character of a word follows. -/
theorem head?_of_spacedWord? {cs word rest : List Char} (h : spacedWord? cs = some (word, rest)) :
    ∀ c ∈ rest.head?, isWordChar c = false := by
  rw [spacedWord?] at h
  split at h
  · simp only at h
    split at h
    · cases h
    · cases h
      intro c hc
      have hnot := List.head?_dropWhile_not isWordChar (cs.dropWhile isBlank)
      rwa [Option.mem_def.1 hc] at hnot
  · cases h

theorem isIdentifier_of_spacedWord? {cs word rest : List Char}
    (h : spacedWord? cs = some (word, rest)) : IsIdentifier word := by
  obtain ⟨gap, -, -, hword⟩ := exists_gap_of_spacedWord? h
  exact hword

theorem exists_keyword_of_afterKeyword? {first second : String} {cs rest : List Char}
    (h : afterKeyword? first second cs = some rest) :
    ∃ keyword, (keyword = first.toList ∨ keyword = second.toList) ∧ cs = keyword ++ rest := by
  rw [afterKeyword?, Option.or_eq_some_iff, after?_eq_some_iff, after?_eq_some_iff] at h
  rcases h with heq | ⟨-, heq⟩
  · exact ⟨_, .inl rfl, heq⟩
  · exact ⟨_, .inr rfl, heq⟩

/-- A keyword with a word behind it is followed by white space. -/
theorem exists_keyword_of_read {β : Type} {first second : String} {cs : List Char} {b : β}
    {read : List Char × List Char → Option β}
    (h : ((afterKeyword? first second cs).bind fun rest => (spacedWord? rest).bind read) = some b) :
    ∃ keyword after, (keyword = first.toList ∨ keyword = second.toList) ∧ cs = keyword ++ after ∧
      ∃ c ∈ after.head?, isBlank c = true := by
  obtain ⟨after, hafter, hread⟩ := Option.bind_eq_some_iff.1 h
  obtain ⟨_, hspaced, -⟩ := Option.bind_eq_some_iff.1 hread
  obtain ⟨keyword, hkeyword, heq⟩ := exists_keyword_of_afterKeyword? hafter
  exact ⟨keyword, after, hkeyword, heq, isBlank_of_spacedWord? hspaced⟩

theorem beforeValue_append {cs rest : List Char} (hequals : '=' ∉ cs)
    (hcomment : ¬['/', '/'] <:+: cs)
    (hseam : cs.getLast? = some '/' → rest.head? ≠ some '/') :
    beforeValue (cs ++ rest) = cs ++ beforeValue rest := by
  induction cs with
  | nil => rfl
  | cons c cs ih =>
    have hslash : c = '/' → (cs ++ rest).head? ≠ some '/' := by
      rintro rfl
      cases cs with
      | nil => exact hseam rfl
      | cons second cs =>
        intro hsecond
        cases hsecond
        exact hcomment ⟨[], cs, rfl⟩
    have hc : ¬(c = '=' ∨ (c = '/' ∧ (cs ++ rest).head? = some '/')) := by
      rintro (rfl | ⟨hfirst, hsecond⟩)
      · exact hequals List.mem_cons_self
      · exact hslash hfirst hsecond
    rw [List.cons_append, beforeValue, if_neg hc, List.cons_append, ih]
    · exact fun hmem => hequals (List.mem_cons_of_mem _ hmem)
    · exact fun hwithin => hcomment (hwithin.trans (List.suffix_cons c cs).isInfix)
    · intro hlast
      refine hseam ?_
      rw [List.getLast?_cons, hlast]
      rfl

/-- What stands behind a type is cut away. -/
theorem trim_beforeValue {gap type value : List Char} (htype : IsType type) (hgap : IsIndent gap)
    (hvalue : IsValue gap value) : trim (beforeValue (type ++ (gap ++ value))) = type := by
  have hstop : beforeValue value = [] := by
    rcases hvalue.start with rfl | hequals | ⟨-, hcomment⟩
    · rfl
    · obtain ⟨tail, rfl⟩ := List.head?_eq_some_iff.1 hequals
      exact if_pos (.inl rfl)
    · obtain ⟨tail, rfl⟩ := hcomment
      exact if_pos (.inr ⟨rfl, rfl⟩)
  have hbehind : beforeValue (gap ++ value) = gap ++ beforeValue value := by
    refine beforeValue_append (hgap.1.not_mem rfl) (fun hwithin => ?_) (fun hlast => ?_)
    · exact hgap.1.not_mem rfl (hwithin.subset List.mem_cons_self)
    · exact absurd (List.mem_of_getLast? hlast) (hgap.1.not_mem rfl)
  have hseam : type.getLast? = some '/' → (gap ++ value).head? ≠ some '/' := by
    intro _ hhead
    cases gap with
    | cons c gap =>
      cases hhead
      exact hgap.1.not_mem rfl List.mem_cons_self
    | nil =>
      rcases hvalue.start with rfl | hequals | ⟨hne, -⟩
      · cases hhead
      · cases hequals.symm.trans hhead
      · exact hne rfl
  rw [beforeValue_append htype.equals htype.comment hseam, hbehind, hstop, List.append_nil]
  have hfirst : (type ++ gap).dropWhile isBlank = type ++ gap :=
    dropWhile_of_head? (head?_append_of_head? htype.ne_nil htype.first gap)
  rw [trim, hfirst, trimEnd_append_gap hgap.1, trimEnd_of_getLast? htype.last]

/-- A name ends before a colon, with white space between them or not. -/
theorem head?_gap_colon {gap : List Char} (hgap : IsGap gap) (rest : List Char) :
    ∀ c ∈ (gap ++ ':' :: rest).head?, isWordChar c = false := by
  cases gap with
  | nil =>
    rintro c ⟨⟩
    decide +kernel
  | cons first gap =>
    rintro c ⟨⟩
    exact isWordChar_of_isBlank (hgap _ List.mem_cons_self)

/-- The type is read from the line of the colon, or from the next one that is not blank. -/
theorem typeAfterColon?_gap {gap line : List Char} (hgap : IsGap gap) (hne : line ≠ [])
    (hfirst : ∀ c ∈ line.head?, isBlank c = false) :
    typeAfterColon? (gap ++ line) =
      some (trim (beforeValue (line.takeWhile (· ≠ '\n'))), line.dropWhile (· ≠ '\n')) := by
  cases line with
  | nil => exact absurd rfl hne
  | cons c line =>
    have hc : c ≠ '\n' := by
      rintro rfl
      cases hfirst _ rfl
    rw [typeAfterColon?, dropWhile_run hgap hfirst, List.dropWhile_cons_of_pos (by simpa using hc)]

namespace Head

variable (h : Head)

theorem text_append (cs : List Char) : h.text ++ cs =
    h.before ++ (h.keyword ++ (h.gap ++ (h.name ++ (h.beforeColon ++ ':' :: cs)))) := by
  simp only [text, List.append_assoc, List.singleton_append]

theorem isIdentifier_keyword : IsIdentifier h.keyword := by
  rcases h.isKeyword with hkeyword | hkeyword <;> rw [hkeyword]
  · exact ⟨by decide, List.all_eq_true.1 (by decide +kernel)⟩
  · exact ⟨by decide, List.all_eq_true.1 (by decide +kernel)⟩

/-- There are only white space, words and one colon in a head. -/
theorem not_mem_text {c : Char} (hblank : isBlank c = false) (hword : isWordChar c = false)
    (hcolon : c ≠ ':') : c ∉ h.text := by
  simp [text, h.isBefore.not_mem hblank, h.isIdentifier_keyword.not_mem hword,
    h.isGap.1.not_mem hblank, h.isName.not_mem hword, h.isBeforeColon.not_mem hblank, hcolon]

/-- A property is read with the name of its head, up to the end of a line. -/
theorem storedProperty?_append {gap line : List Char} (hgap : IsGap gap) (hne : line ≠ [])
    (hfirst : ∀ c ∈ line.head?, isBlank c = false) :
    storedProperty? (h.text ++ (gap ++ line)) =
      some (⟨String.ofList h.name,
        ⟨String.ofList (trim (beforeValue (line.takeWhile (· ≠ '\n'))))⟩⟩,
        line.dropWhile (· ≠ '\n')) := by
  have hkeyword (cs : List Char) : afterKeyword? "let" "var" (h.keyword ++ cs) = some cs := by
    rcases h.isKeyword with hkeyword | hkeyword <;> rw [hkeyword] <;> rfl
  rw [h.text_append]
  simp only [storedProperty?, dropWhile_run h.isBefore h.isIdentifier_keyword.head?, hkeyword,
    Option.bind_eq_bind, Option.bind_some,
    spacedWord?_append h.isGap h.isName (head?_gap_colon h.isBeforeColon _)]
  rw [dropWhile_run h.isBeforeColon (by rintro _ ⟨⟩; rfl)]
  simp only [typeAfterColon?_gap hgap hne hfirst, Option.bind_some]
  rfl

end Head

theorem PropertyLine.text_eq (l : PropertyLine) :
    l.text = l.head.text ++ (l.afterColon ++ (l.type ++ (l.afterType ++ l.value))) := by
  simp only [text, head, Head.text, List.append_assoc]

/-- A property is read up to the end of its line. -/
theorem storedProperty?_text (l : PropertyLine) (rest : List Char) :
    storedProperty? (l.text ++ '\n' :: rest) = some (l.property, '\n' :: rest) := by
  have hline : '\n' ∉ l.type ++ (l.afterType ++ l.value) := by
    simp [l.isType.line, l.isAfterType.2, l.isValue.line]
  have hne : l.type ++ (l.afterType ++ l.value) ≠ [] :=
    List.append_ne_nil_of_left_ne_nil l.isType.ne_nil _
  have hfirst := head?_append_of_head? hne
    (head?_append_of_head? l.isType.ne_nil l.isType.first _) ('\n' :: rest)
  calc storedProperty? (l.text ++ '\n' :: rest)
    _ = storedProperty? (l.head.text ++
          (l.afterColon ++ (l.type ++ (l.afterType ++ l.value) ++ '\n' :: rest))) := by
      rw [l.text_eq]
      simp only [List.append_assoc]
    _ = some (⟨String.ofList l.name,
          ⟨String.ofList (trim (beforeValue (l.type ++ (l.afterType ++ l.value))))⟩⟩,
          '\n' :: rest) := by
      rw [l.head.storedProperty?_append l.isAfterColon.1
        (List.append_ne_nil_of_left_ne_nil hne _) hfirst, takeWhile_run (ne_of_not_mem hline)
        (by simp), dropWhile_run (ne_of_not_mem hline) (by simp)]
      rfl
    _ = some (l.property, '\n' :: rest) := by
      rw [trim_beforeValue l.isType l.isAfterType l.isValue]
      rfl

/-- The first word of a text from which a property is read is a keyword. -/
theorem keyword_of_storedProperty? {gap word behind : List Char} {read : StoredProperty × List Char}
    (hgap : IsGap gap) (hword : IsWord word) (hbehind : ∀ c ∈ behind.head?, isBlank c = true)
    (h : storedProperty? (gap ++ (word ++ behind)) = some read) :
    word = "let".toList ∨ word = "var".toList := by
  have hinked : ∀ c ∈ word, (!isBlank c) = true := by
    intro c hc
    rw [hword.2 c hc]
    rfl
  have hstop {cs : List Char} (hcs : ∀ c ∈ cs.head?, isBlank c = true) :
      ∀ c ∈ cs.head?, (!isBlank c) = false := by
    intro c hc
    rw [hcs c hc]
    rfl
  rw [storedProperty?, dropWhile_run hgap
    (head?_append_of_head? hword.1 (fun c hc => hword.2 c (List.mem_of_mem_head? hc)) _)] at h
  obtain ⟨keyword, after, hkeyword, heq, c, hc, hblank⟩ := exists_keyword_of_read h
  have hkeywordInked : keyword.all (!isBlank ·) = true := by
    rcases hkeyword with rfl | rfl <;> rfl
  have hafter : ∀ b ∈ after.head?, isBlank b = true := by
    intro b hb
    rwa [Option.mem_unique hb hc]
  have hsame : word = keyword := by
    calc word
      _ = (word ++ behind).takeWhile (!isBlank ·) := (takeWhile_run hinked (hstop hbehind)).symm
      _ = (keyword ++ after).takeWhile (!isBlank ·) := by rw [heq]
      _ = keyword := takeWhile_run (List.all_eq_true.1 hkeywordInked) (hstop hafter)
  rwa [hsame]

/-- No property is read from a line without one, though one of a later line may be if it is
blank. -/
theorem storedProperty?_other {cs : List Char} (h : IsOther cs) (rest : List Char) :
    IsGap cs ∨ storedProperty? (cs ++ '\n' :: rest) = none := by
  have hwords := hasWords_words cs
  have hfirst := h.first
  cases hwords' : words cs with
  | nil =>
    rw [hwords'] at hwords
    cases hwords with
    | gap hgap => exact .inl hgap
  | cons word ws =>
    rw [hwords'] at hwords hfirst
    cases hwords with
    | @word gap _ behind _ hgap hword hbehind _ =>
      right
      have hblank : ∀ c ∈ (behind ++ '\n' :: rest).head?, isBlank c = true := by
        cases behind with
        | nil =>
          rintro c ⟨⟩
          rfl
        | cons b behind => exact hbehind
      rw [Option.eq_none_iff_forall_ne_some]
      intro read hread
      rw [List.append_assoc, List.append_assoc] at hread
      have hne := hfirst word rfl
      exact (keyword_of_storedProperty? hgap hword hblank hread).elim hne.1 hne.2

/-! ### Bodies -/

theorem storedProperties_of_some {cs rest : List Char} {p : StoredProperty}
    (h : storedProperty? cs = some (p, rest)) :
    storedProperties cs = p :: storedProperties (nextLine rest) := by
  have hne : cs ≠ [] := by
    rintro rfl
    cases h
  rw [storedProperties, dif_neg hne]
  split
  · next h' =>
    cases h.symm.trans h'
    rfl
  · next h' => cases h.symm.trans h'

theorem storedProperties_of_none {cs : List Char} (h : storedProperty? cs = none) :
    storedProperties cs = storedProperties (nextLine cs) := by
  by_cases hne : cs = []
  · subst hne
    rfl
  · conv => lhs; rw [storedProperties, dif_neg hne]
    split
    · next h' => cases h.symm.trans h'
    · rfl

theorem nextLine_append {cs : List Char} (h : '\n' ∉ cs) (rest : List Char) :
    nextLine (cs ++ '\n' :: rest) = rest := by
  have hdrop : (cs ++ '\n' :: rest).dropWhile (· ≠ '\n') = '\n' :: rest :=
    dropWhile_run (ne_of_not_mem h) (by simp)
  rw [nextLine, hdrop, List.tail_cons]

/-- A blank line is read over, together with a line after it or by itself. -/
theorem storedProperties_gap {gap : List Char} (hgap : IsGap gap) (hline : '\n' ∉ gap)
    (rest : List Char) : storedProperties (gap ++ '\n' :: rest) = storedProperties rest := by
  have hread : storedProperty? (gap ++ '\n' :: rest) = storedProperty? rest := by
    have hblank : IsGap (gap ++ ['\n']) := by
      intro c hc
      rcases List.mem_append.1 hc with hc | hc
      · exact hgap c hc
      · rw [List.mem_singleton.1 hc]
        rfl
    rw [List.append_cons, storedProperty?, storedProperty?, List.dropWhile_append_of_pos hblank]
  cases h : storedProperty? rest with
  | none => rw [storedProperties_of_none (hread.trans h), nextLine_append hline]
  | some read => rw [storedProperties_of_some (hread.trans h), storedProperties_of_some h]

/-- Each line gives its property and nothing else. -/
theorem storedProperties_line (l : Line) (rest : List Char) :
    storedProperties (l.text ++ '\n' :: rest) = l.property?.toList ++ storedProperties rest := by
  cases l with
  | property l =>
    rw [Line.text, storedProperties_of_some (storedProperty?_text l rest)]
    have hnext : nextLine ('\n' :: rest) = rest := nextLine_append List.not_mem_nil rest
    rw [hnext]
    rfl
  | other cs h =>
    rw [Line.text]
    rcases storedProperty?_other h rest with hgap | hnone
    · exact storedProperties_gap hgap h.line rest
    · rw [storedProperties_of_none hnone, nextLine_append h.line]
      rfl

theorem storedProperties_textOf (lines : List Line) :
    storedProperties (Line.textOf lines) = lines.filterMap Line.property? := by
  induction lines with
  | nil =>
    rw [Line.textOf, List.flatMap_nil, storedProperties]
    rfl
  | cons l lines ih =>
    have htext : Line.textOf (l :: lines) = l.text ++ '\n' :: Line.textOf lines := by
      simp [Line.textOf]
    rw [htext, storedProperties_line, ih]
    cases l <;> rfl

theorem Line.brace_not_mem (l : Line) : '}' ∉ l.text := by
  cases l with
  | property l =>
    have hhead : '}' ∉ l.head.text := l.head.not_mem_text rfl (by decide +kernel) (by decide)
    rw [text, l.text_eq]
    simp [hhead, l.isAfterColon.1.not_mem (show isBlank '}' = false from rfl), l.isType.brace,
      l.isAfterType.1.not_mem (show isBlank '}' = false from rfl), l.isValue.brace]
  | other cs h => exact h.brace

/-- No keyword starts in one place and ends in another. -/
theorem declaration?_before {before keyword tail : List Char} (hne : before ≠ [])
    (hbefore : ¬"struct".toList <:+: before ∧ ¬"class".toList <:+: before)
    (hkeyword : keyword = "struct".toList ∨ keyword = "class".toList) :
    declaration? (before ++ (keyword ++ tail)) = none := by
  have hinked : keyword.all (!isBlank ·) = true := by
    rcases hkeyword with rfl | rfl <;> rfl
  have hwithin {k : List Char} (hk : k = "struct".toList ∨ k = "class".toList)
      (h : keyword <:+: k) : keyword = k := by
    rcases hkeyword with rfl | rfl <;> rcases hk with rfl | rfl <;> revert h <;> decide
  rw [Option.eq_none_iff_forall_ne_some]
  intro read hread
  obtain ⟨k, after, hk, heq, c, hc, hblank⟩ := exists_keyword_of_read hread
  have hnot : ¬k <:+: before := by
    rcases hk with rfl | rfl
    · exact hbefore.1
    · exact hbefore.2
  obtain ⟨start, hstart, heq⟩ := (List.append_eq_append_iff.1 heq).resolve_right
    fun ⟨_, hbefore, _⟩ => hnot ⟨[], _, hbefore.symm⟩
  have hlonger (stop : List Char) : start ≠ keyword ++ stop := by
    rintro rfl
    have hsame := hwithin hk ⟨before, stop, by rw [hstart, List.append_assoc]⟩
    have hlength := congrArg List.length hstart
    have hpos := List.length_pos_iff.2 hne
    rw [← hsame] at hlength
    simp only [List.length_append] at hlength
    omega
  rcases List.append_eq_append_iff.1 heq with ⟨stop, hstop, -⟩ | ⟨stop, hstop, hrest⟩
  · exact hlonger stop hstop
  -- The first keyword ends within the second one, so no white space follows it.
  cases stop with
  | nil => exact hlonger [] (by rw [hstop, List.append_nil, List.append_nil])
  | cons b stop =>
    rw [hrest] at hc
    cases hc
    have hmem : c ∈ keyword := hstop ▸ List.mem_append_right _ List.mem_cons_self
    have hc := List.all_eq_true.1 hinked c hmem
    rw [hblank] at hc
    cases hc

/-- Text in which no declaration starts is read over. -/
theorem firstDeclaration?_skip {before tail : List Char}
    (h : ∀ cs, cs ≠ [] → cs <:+ before → declaration? (cs ++ tail) = none) :
    firstDeclaration? (before ++ tail) = firstDeclaration? tail := by
  induction before with
  | nil => rfl
  | cons c before ih =>
    rw [List.cons_append, firstDeclaration?, ← List.cons_append,
      h _ (List.cons_ne_nil _ _) (List.suffix_refl _), Option.none_or]
    exact ih fun cs hne hsuffix => h cs hne (hsuffix.trans (List.suffix_cons c before))

theorem firstDeclaration?_append {before keyword tail : List Char}
    (hbefore : ¬"struct".toList <:+: before ∧ ¬"class".toList <:+: before)
    (hkeyword : keyword = "struct".toList ∨ keyword = "class".toList) :
    firstDeclaration? (before ++ (keyword ++ tail)) = firstDeclaration? (keyword ++ tail) := by
  refine firstDeclaration?_skip fun cs hne hsuffix => declaration?_before hne ?_ hkeyword
  exact ⟨fun hwithin => hbefore.1 (hwithin.trans hsuffix.isInfix),
    fun hwithin => hbefore.2 (hwithin.trans hsuffix.isInfix)⟩

/-- What stands between a name and a brace does not go on with the name, nor does the brace. -/
theorem head?_append_brace {middle : List Char} (h : ∀ c ∈ middle.head?, isWordChar c = false)
    (cs : List Char) : ∀ c ∈ (middle ++ '{' :: cs).head?, isWordChar c = false := by
  cases middle with
  | nil =>
    rintro c ⟨⟩
    decide +kernel
  | cons first middle => exact h

/-- Where a keyword, a name and a brace stand, a declaration is read up to its first closing
brace. -/
theorem declaration?_brace {keyword gap name middle : List Char}
    (hkeyword : keyword = "struct".toList ∨ keyword = "class".toList) (hgap : IsGap gap ∧ gap ≠ [])
    (hname : IsIdentifier name)
    (hmiddle : '{' ∉ middle ∧ ∀ c ∈ middle.head?, isWordChar c = false) (behind : List Char) :
    declaration? (keyword ++ (gap ++ (name ++ (middle ++ '{' :: behind)))) =
      some (name, behind.takeWhile (· ≠ '}')) := by
  have hafter (cs : List Char) : afterKeyword? "struct" "class" (keyword ++ cs) = some cs := by
    rcases hkeyword with rfl | rfl <;> rfl
  simp only [declaration?, hafter, Option.bind_eq_bind, Option.bind_some,
    spacedWord?_append hgap hname (head?_append_brace hmiddle.2 _)]
  rw [dropWhile_run (ne_of_not_mem hmiddle.1) (by simp)]

theorem declaration?_append {keyword gap name middle body : List Char}
    (hkeyword : keyword = "struct".toList ∨ keyword = "class".toList) (hgap : IsGap gap ∧ gap ≠ [])
    (hname : IsIdentifier name)
    (hmiddle : '{' ∉ middle ∧ ∀ c ∈ middle.head?, isWordChar c = false) (hbody : '}' ∉ body)
    (rest : List Char) :
    declaration? (keyword ++ (gap ++ (name ++ (middle ++ '{' :: (body ++ '}' :: rest))))) =
      some (name, body) := by
  have hend : ∀ c ∈ ('}' :: rest).head?, decide (c ≠ '}') = false := by simp
  rw [declaration?_brace hkeyword hgap hname hmiddle, takeWhile_run (ne_of_not_mem hbody) hend]

theorem firstDeclaration?_of_some {cs : List Char} {read : List Char × List Char}
    (h : declaration? cs = some read) : firstDeclaration? cs = some read := by
  cases cs with
  | nil => cases h
  | cons c cs => rw [firstDeclaration?, h, Option.some_or]

/-- The name of what is read is a word. -/
theorem isIdentifier_of_declaration? {cs name body : List Char}
    (h : declaration? cs = some (name, body)) : IsIdentifier name := by
  simp only [declaration?, Option.bind_eq_bind, Option.bind_eq_some_iff] at h
  obtain ⟨_, -, ⟨word, rest⟩, hword, h⟩ := h
  simp only at h
  split at h
  · cases h
  · cases h
    exact isIdentifier_of_spacedWord? hword

theorem isIdentifier_of_firstDeclaration? {cs name body : List Char}
    (h : firstDeclaration? cs = some (name, body)) : IsIdentifier name := by
  induction cs with
  | nil => cases h
  | cons c cs ih =>
    rw [firstDeclaration?, Option.or_eq_some_iff] at h
    rcases h with h | ⟨-, h⟩
    · exact isIdentifier_of_declaration? h
    · exact ih h

theorem isIdentifier_of_parse? {text : String} {m : Model} (h : Model.parse? text = some m) :
    IsIdentifier m.name.toList := by
  rw [Model.parse?] at h
  obtain ⟨⟨name, body⟩, hread, h⟩ := Option.bind_eq_some_iff.1 h
  cases h
  rw [String.toList_ofList]
  exact isIdentifier_of_firstDeclaration? hread

/-- Reading a declaration that is written in any layout gives its name and its properties. -/
theorem Declaration.parse?_text (d : Declaration) : Model.parse? d.text = some d.model := by
  have hbody : '}' ∉ '\n' :: Line.textOf d.lines := by
    intro hmem
    rcases List.mem_cons.1 hmem with h | h
    · cases h
    · obtain ⟨l, -, hl⟩ := List.mem_flatMap.1 h
      rcases List.mem_append.1 hl with hl | hl
      · exact l.brace_not_mem hl
      · cases List.mem_singleton.1 hl
  have hdeclaration : declaration? _ = some (d.name, '\n' :: Line.textOf d.lines) :=
    declaration?_append d.isKeyword d.isGap d.isName d.isMiddle hbody d.rest
  have hproperties : storedProperties ('\n' :: Line.textOf d.lines) =
      d.lines.filterMap Line.property? := by
    calc storedProperties ('\n' :: Line.textOf d.lines)
      _ = storedProperties (Line.textOf d.lines) :=
        storedProperties_gap (List.forall_mem_nil _) List.not_mem_nil _
      _ = d.lines.filterMap Line.property? := storedProperties_textOf d.lines
  have htext : d.text.toList = d.before ++ (d.keyword ++ (d.gap ++ (d.name ++ (d.middle ++
      '{' :: ('\n' :: Line.textOf d.lines ++ '}' :: d.rest))))) := by
    simp [text]
  rw [Model.parse?, htext, firstDeclaration?_append d.isBefore d.isKeyword,
    firstDeclaration?_of_some hdeclaration]
  simp only [Option.bind_eq_bind, Option.bind_some, hproperties]
  rfl

def writtenEmail : PropertyLine where
  indent := "  ".toList
  keyword := "var".toList
  gap := " ".toList
  name := "email".toList
  beforeColon := []
  afterColon := " ".toList
  type := "String?".toList
  afterType := " ".toList
  value := "= nil // primary".toList
  isIndent := by decide
  isKeyword := by decide
  isGap := by decide
  isName := ⟨by decide, List.all_eq_true.1 (by decide +kernel)⟩
  isBeforeColon := by decide
  isAfterColon := by decide
  isType := ⟨by decide, by rintro _ ⟨⟩; rfl, by rintro _ ⟨⟩; rfl, by decide, by decide, by decide,
    by decide +kernel⟩
  isAfterType := by decide
  isValue := ⟨by decide, by decide, by decide⟩

/-- A class with one property, which has an initial value and a comment. -/
def writtenUser : Declaration where
  before := "final ".toList
  keyword := "class".toList
  gap := " ".toList
  name := "User".toList
  middle := ": Codable ".toList
  lines := [.other "letters: Int".toList ⟨by decide, by decide, by decide +kernel⟩,
    .property writtenEmail]
  rest := "\n".toList
  isBefore := by decide +kernel
  isKeyword := by decide
  isGap := ⟨List.forall_mem_singleton.2 rfl, by decide⟩
  isName := ⟨by decide, List.all_eq_true.1 (by decide +kernel)⟩
  isMiddle := ⟨by decide, by rintro _ ⟨⟩; decide +kernel⟩

theorem Declaration.parse?_text_of_writtenUser :
    writtenUser.text = "final class User: Codable \x7b\nletters: Int\n" ++
      "  var email: String? = nil // primary\n\x7d\n" ∧
    Model.parse? writtenUser.text = some ⟨"User", [⟨"email", ⟨"String?"⟩⟩]⟩ :=
  ⟨by decide +kernel, Declaration.parse?_text writtenUser⟩

end Scaffold.Swift
