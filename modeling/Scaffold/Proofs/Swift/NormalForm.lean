import Scaffold.Proofs.Swift.Naming
import Scaffold.Proofs.Swift.Pattern

/-!
The normal form of models. Whatever text a model is read from, its names are words and its types are
clean: each stands in one line, with no white space around it, and holds nothing that would end a
type. So a model can be written with one line for each property, and unless a type is empty the same
model is read from that.
-/

namespace Scaffold.Swift

open Text

/-- What a model holds as a type, which may be empty. -/
structure IsCleanType (cs : List Char) : Prop where
  first : ∀ c ∈ cs.head?, isBlank c = false
  last : ∀ c ∈ cs.getLast?, isBlank c = false
  line : '\n' ∉ cs
  brace : '}' ∉ cs
  equals : '=' ∉ cs
  comment : ¬['/', '/'] <:+: cs

theorem IsCleanType.isType {cs : List Char} (h : IsCleanType cs) (hne : cs ≠ []) : IsType cs :=
  ⟨hne, h.first, h.last, h.line, h.brace, h.equals, h.comment⟩

/-- The name is a word, and the type is clean. -/
structure StoredProperty.IsNormal (p : StoredProperty) : Prop where
  name : IsIdentifier p.name.toList
  type : IsCleanType p.type.text.toList

/-- The line of a property, with its end. -/
def StoredProperty.line (p : StoredProperty) : String :=
  "let " ++ p.name ++ ": " ++ p.type.text ++ "\n"

/-- The model as a declaration, with one line for each property. -/
def Model.written (m : Model) : String :=
  "struct " ++ m.name ++ " \x7b\n" ++ String.join (m.properties.map StoredProperty.line) ++ "\x7d"

theorem equals_not_mem_beforeValue (cs : List Char) : '=' ∉ beforeValue cs := by
  induction cs with
  | nil => exact List.not_mem_nil
  | cons c cs ih =>
    rw [beforeValue]
    split
    · exact List.not_mem_nil
    · next h =>
      rw [List.mem_cons, not_or]
      exact ⟨fun heq => h (.inl heq.symm), ih⟩

theorem comment_not_infix_beforeValue (cs : List Char) : ¬['/', '/'] <:+: beforeValue cs := by
  induction cs with
  | nil => decide
  | cons c cs ih =>
    rw [beforeValue]
    split
    · decide
    · next h =>
      rw [List.infix_cons_iff, not_or]
      refine ⟨fun hprefix => h (.inr ?_), ih⟩
      obtain ⟨rfl, hsecond⟩ := List.cons_prefix_cons.1 hprefix
      obtain ⟨rest, hrest⟩ := hsecond.trans (Pattern.isPrefix_beforeValue cs)
      exact ⟨rfl, hrest ▸ rfl⟩

/-- What is left of a line is clean. -/
theorem isCleanType_trim {cs : List Char} (hline : '\n' ∉ cs) (hbrace : '}' ∉ cs) :
    IsCleanType (trim (beforeValue cs)) := by
  obtain ⟨hfirst, hlast, left, right, -, -, heq⟩ := trimsTo_trim (beforeValue cs)
  have hpart : trim (beforeValue cs) <:+: beforeValue cs := ⟨left, right, heq.symm⟩
  have hsubset : trim (beforeValue cs) ⊆ cs := fun _ hmem =>
    (Pattern.isPrefix_beforeValue cs).subset (hpart.subset hmem)
  exact ⟨hfirst, hlast, fun hmem => hline (hsubset hmem), fun hmem => hbrace (hsubset hmem),
    fun hmem => equals_not_mem_beforeValue cs (hpart.subset hmem),
    fun hwithin => comment_not_infix_beforeValue cs (hwithin.trans hpart)⟩

theorem not_mem_takeWhile_ne (c : Char) (cs : List Char) : c ∉ cs.takeWhile (· ≠ c) := fun hmem => by
  simpa using List.all_eq_true.1 List.all_takeWhile c hmem

/-- A type is what is left of a line, or it is empty. -/
theorem of_typeAfterColon? {cs type rest : List Char} (hbrace : '}' ∉ cs)
    (h : typeAfterColon? cs = some (type, rest)) : IsCleanType type ∧ rest <:+ cs := by
  rw [typeAfterColon?] at h
  split at h
  · split at h
    · cases h
    · cases h
      exact ⟨@isCleanType_trim [] List.not_mem_nil List.not_mem_nil, List.nil_suffix⟩
  · next c behind heq =>
    cases h
    have hsuffix : c :: behind <:+ cs := heq ▸ List.dropWhile_suffix isBlank
    have hline : '}' ∉ (c :: behind).takeWhile (· ≠ '\n') := fun hmem =>
      hbrace (hsuffix.subset ((List.takeWhile_prefix _).subset hmem))
    exact ⟨isCleanType_trim (not_mem_takeWhile_ne _ _) hline,
      (List.dropWhile_suffix _).trans ((List.suffix_cons c behind).trans hsuffix)⟩

theorem of_storedProperty? {cs rest : List Char} {p : StoredProperty} (hbrace : '}' ∉ cs)
    (h : storedProperty? cs = some (p, rest)) : p.IsNormal ∧ rest <:+ cs := by
  simp only [storedProperty?, Option.bind_eq_bind, Option.bind_eq_some_iff] at h
  obtain ⟨after, hafter, ⟨name, behind⟩, hword, h⟩ := h
  obtain ⟨keyword, -, hkeyword⟩ := exists_keyword_of_afterKeyword? hafter
  obtain ⟨gap, hgap, -, hname⟩ := exists_gap_of_spacedWord? hword
  have hsuffix : behind <:+ cs := by
    refine List.IsSuffix.trans ⟨keyword ++ gap ++ name, ?_⟩ (List.dropWhile_suffix isBlank)
    rw [hkeyword, hgap, List.append_assoc, List.append_assoc]
  simp only at h
  split at h
  · next line heq =>
    have hline : line <:+ cs := by
      have htail : ':' :: line <:+ behind := heq ▸ List.dropWhile_suffix isBlank
      exact (List.suffix_cons _ _).trans (htail.trans hsuffix)
    obtain ⟨⟨type, rest'⟩, htype, h⟩ := Option.bind_eq_some_iff.1 h
    cases h
    obtain ⟨hclean, hrest⟩ := of_typeAfterColon? (fun hmem => hbrace (hline.subset hmem)) htype
    refine ⟨⟨?_, ?_⟩, hrest.trans hline⟩
    · rwa [String.toList_ofList]
    · rwa [String.toList_ofList]
  · cases h

theorem nextLine_suffix (cs : List Char) : nextLine cs <:+ cs :=
  (List.tail_suffix _).trans (List.dropWhile_suffix _)

/-- The properties of a body are normal, one after the other. -/
theorem isNormal_of_mem_storedProperties {cs : List Char} (hbrace : '}' ∉ cs) :
    ∀ p ∈ storedProperties cs, p.IsNormal := by
  fun_induction storedProperties cs with
  | case1 => exact nofun
  | case2 cs hne p rest hread ih =>
    obtain ⟨hp, hrest⟩ := of_storedProperty? hbrace hread
    have hnext := (nextLine_suffix rest).trans hrest
    rw [List.forall_mem_cons]
    exact ⟨hp, ih fun hmem => hbrace (hnext.subset hmem)⟩
  | case3 cs hne hread ih =>
    exact ih fun hmem => hbrace ((nextLine_suffix cs).subset hmem)

theorem isKeyword_let : "let".toList = "let".toList ∨ "let".toList = "var".toList := .inl rfl

theorem isIndent_nil : IsIndent [] := by decide

theorem isIndent_space : IsIndent [' '] := by decide

theorem isIndent_between : IsIndent [' '] ∧ [' '] ≠ [] :=
  ⟨isIndent_space, List.cons_ne_nil _ _⟩

theorem isValue_nil : IsValue [] [] := ⟨List.not_mem_nil, List.not_mem_nil, .inl rfl⟩

/-- A property that is normal and has a type can stand in a line. -/
def StoredProperty.IsNormal.writtenLine {p : StoredProperty} (h : p.IsNormal)
    (hne : p.type.text ≠ "") : PropertyLine where
  indent := []
  keyword := "let".toList
  gap := [' ']
  name := p.name.toList
  beforeColon := []
  afterColon := [' ']
  type := p.type.text.toList
  afterType := []
  value := []
  isIndent := isIndent_nil
  isKeyword := isKeyword_let
  isGap := isIndent_between
  isName := h.name
  isBeforeColon := isIndent_nil
  isAfterColon := isIndent_space
  isType := h.type.isType fun hnil => hne (String.toList_eq_nil_iff.1 hnil)
  isAfterType := isIndent_nil
  isValue := isValue_nil

theorem storedProperties_lines {ps : List StoredProperty}
    (h : ∀ p ∈ ps, p.IsNormal ∧ p.type.text ≠ "") :
    storedProperties (ps.flatMap fun p => p.line.toList) = ps := by
  induction ps with
  | nil =>
    rw [List.flatMap_nil, storedProperties]
    rfl
  | cons p ps ih =>
    rw [List.forall_mem_cons] at h
    obtain ⟨⟨hp, hne⟩, hps⟩ := h
    let l := hp.writtenLine hne
    have hline : p.line.toList = l.text ++ ['\n'] := by
      simp [StoredProperty.line, PropertyLine.text, l, StoredProperty.IsNormal.writtenLine]
    have hproperty : l.property = p := by
      simp [PropertyLine.property, l, StoredProperty.IsNormal.writtenLine]
    have hread (rest : List Char) : storedProperties (l.text ++ '\n' :: rest) =
        p :: storedProperties rest := by
      have hread := storedProperties_line (.property l) rest
      rwa [Line.property?, hproperty] at hread
    rw [List.flatMap_cons, hline, ← List.append_cons, hread, ih hps]

theorem not_mem_line {p : StoredProperty} (h : p.IsNormal) : '}' ∉ p.line.toList := by
  have hname := h.name.not_mem (show isWordChar '}' = false by decide +kernel)
  simp [StoredProperty.line, hname, h.type.brace]

theorem isKeyword_struct : "struct".toList = "struct".toList ∨ "struct".toList = "class".toList :=
  .inl rfl

theorem isGap_between : IsGap [' '] ∧ [' '] ≠ [] :=
  ⟨isIndent_space.1, List.cons_ne_nil _ _⟩

theorem isMiddle_space : '{' ∉ [' '] ∧ ∀ c ∈ [' '].head?, isWordChar c = false := by
  refine ⟨by decide, ?_⟩
  rintro _ ⟨⟩
  decide +kernel

/-- The declaration that a model is written as, with any text behind it. -/
def Model.mention (m : Model) (hname : IsIdentifier m.name.toList) (rest : String) : Mention where
  before := []
  keyword := "struct".toList
  gap := [' ']
  name := m.name.toList
  middle := [' ']
  behind := '\n' :: (m.properties.flatMap fun p => p.line.toList) ++ '}' :: rest.toList
  isKeyword := isKeyword_struct
  isGap := isGap_between
  isName := hname
  isMiddle := isMiddle_space

/-- A model with normal properties that have types is read from what it is written as. -/
theorem parse?_written {m : Model} (hname : IsIdentifier m.name.toList)
    (h : ∀ p ∈ m.properties, p.IsNormal ∧ p.type.text ≠ "") (rest : String) :
    Model.parse? (m.written ++ rest) = some m := by
  have htext : (m.mention hname rest).text = (m.written ++ rest).toList := by
    simp [Mention.text, Mention.tail, Model.mention, Model.written, List.flatMap_map]
  have hbrace : '}' ∉ '\n' :: m.properties.flatMap fun p => p.line.toList := by
    rw [List.mem_cons, not_or]
    refine ⟨by decide, fun hmem => ?_⟩
    obtain ⟨p, hp, hp'⟩ := List.mem_flatMap.1 hmem
    exact not_mem_line (h p hp).1 hp'
  have hbody : storedProperties ((m.mention hname rest).behind.takeWhile (· ≠ '}')) =
      m.properties := by
    calc storedProperties ((m.mention hname rest).behind.takeWhile (· ≠ '}'))
      _ = storedProperties ('\n' :: m.properties.flatMap fun p => p.line.toList) := by
        rw [Model.mention, takeWhile_run (ne_of_not_mem hbrace) (by rintro _ ⟨⟩; rfl)]
      _ = storedProperties (m.properties.flatMap fun p => p.line.toList) :=
        storedProperties_gap (List.forall_mem_nil _) List.not_mem_nil _
      _ = m.properties := storedProperties_lines h
  refine parse?_eq_some_iff.2 ⟨m.mention hname rest, htext, fun _ _ => Nat.zero_le _, ?_⟩
  rw [Mention.model, hbody, Model.mention, String.ofList_toList]

/-- A model that is read has a word for a name and normal properties, and so has each property that
templates are given. Unless a type is empty the model can be written, and read again from that with
any text behind it. -/
theorem parse?_normal {text : String} {m : Model} (h : Model.parse? text = some m) :
    IsIdentifier m.name.toList ∧ (∀ p ∈ m.properties, p.IsNormal) ∧
    m.sceneProperties.map (fun p => (p.name, p.type?)) =
      m.properties.map (fun p => (p.name, some p.type.text)) ∧
    (∀ p ∈ m.sceneProperties, IsIdentifier p.name.toList ∧
      ∃ type, p.type? = some type ∧ IsCleanType type.toList) ∧
    ((∀ p ∈ m.properties, p.type.text ≠ "") →
      ∀ rest, Model.parse? (m.written ++ rest) = some m) := by
  obtain ⟨mention, -, -, hm⟩ := parse?_eq_some_iff.1 h
  have hname := isIdentifier_of_parse? h
  have hnormal : ∀ p ∈ m.properties, p.IsNormal := by
    rw [hm]
    exact isNormal_of_mem_storedProperties (not_mem_takeWhile_ne _ _)
  refine ⟨hname, hnormal, ?_, ?_, fun hne rest => ?_⟩
  · rw [Model.sceneProperties, List.map_map]
    rfl
  · intro p hp
    obtain ⟨q, hq, rfl⟩ := List.mem_map.1 hp
    exact ⟨(hnormal q hq).name, _, rfl, (hnormal q hq).type⟩
  · exact parse?_written hname (fun p hp => ⟨hnormal p hp, hne p hp⟩) rest

/-- The body is not closed, its lines end in carriage returns, one comment holds an equals sign and
one initial value two slashes. -/
theorem parse?_normal_of_unclosed :
    let text := "class A \x7b\r\n let a: [Int] = [1] // a = b\r\n\r\n var b\r\n: C? = \"//\"\r\n"
    let m : Model := ⟨"A", [⟨"a", ⟨"[Int]"⟩⟩, ⟨"b", ⟨"C?"⟩⟩]⟩
    m.written = "struct A \x7b\nlet a: [Int]\nlet b: C?\n\x7d" ∧ Model.parse? text = some m ∧
      (∀ p ∈ m.properties, p.type.text ≠ "") ∧ Model.parse? (m.written ++ "\n") = some m := by
  intro text m
  have hread : Model.parse? text = some m := by decide +kernel
  have hne : ∀ p ∈ m.properties, p.type.text ≠ "" := by decide
  exact ⟨by decide, hread, hne, (parse?_normal hread).2.2.2.2 hne "\n"⟩

end Scaffold.Swift
