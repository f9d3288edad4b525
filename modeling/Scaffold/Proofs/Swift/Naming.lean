import Scaffold.Proofs.Swift.Declaration

/-!
Which name a model gets. A declaration is read at the first place where a keyword, white space and a
word stand and a brace follows anywhere behind them. Neither has the keyword to be a word of its own
there, nor need the word be the one before the brace, so that a comment in front of a declaration
can give the model its name.
-/

namespace Scaffold.Swift

open Text

/-- A keyword with a name in a text, and the next brace behind it. The keyword may be the end of a
longer word. -/
@[ext]
structure Mention where
  before : List Char
  keyword : List Char
  gap : List Char
  name : List Char
  middle : List Char
  behind : List Char
  isKeyword : keyword = "struct".toList ∨ keyword = "class".toList
  isGap : IsGap gap ∧ gap ≠ []
  isName : IsIdentifier name
  isMiddle : '{' ∉ middle ∧ ∀ c ∈ middle.head?, isWordChar c = false

namespace Mention

variable (m : Mention)

/-- The text from the keyword on. -/
def tail : List Char :=
  m.keyword ++ (m.gap ++ (m.name ++ (m.middle ++ '{' :: m.behind)))

def text : List Char :=
  m.before ++ m.tail

/-- The name, with the properties of the body that the brace opens. -/
def model : Model :=
  ⟨String.ofList m.name, storedProperties (m.behind.takeWhile (· ≠ '}'))⟩

/-- The keyword is a word of its own. -/
def IsWhole : Prop :=
  ∀ c ∈ m.before.getLast?, isWordChar c = false

/-- No keyword with a name and a brace stands further left in the text. -/
def IsFirst : Prop :=
  ∀ m' : Mention, m'.text = m.text → m.before.length ≤ m'.before.length

/-- The keyword is a word of its own, and no other such keyword with a name stands between it and
the brace. -/
def IsLast : Prop :=
  m.IsWhole ∧ ∀ m' : Mention, m'.text = m.text → m'.behind = m.behind → m'.IsWhole →
    m'.before.length ≤ m.before.length

end Mention

theorem declaration?_tail (m : Mention) :
    declaration? m.tail = some (m.name, m.behind.takeWhile (· ≠ '}')) :=
  declaration?_brace m.isKeyword m.isGap m.isName m.isMiddle m.behind

/-- A declaration that is read is a keyword with a name and a brace. -/
theorem exists_mention_of_declaration? {cs : List Char} {read : List Char × List Char}
    (h : declaration? cs = some read) (before : List Char) :
    ∃ m : Mention, m.before = before ∧ m.tail = cs ∧
      read = (m.name, m.behind.takeWhile (· ≠ '}')) := by
  simp only [declaration?, Option.bind_eq_bind, Option.bind_eq_some_iff] at h
  obtain ⟨after, hafter, ⟨name, rest⟩, hword, h⟩ := h
  obtain ⟨keyword, hkeyword, rfl⟩ := exists_keyword_of_afterKeyword? hafter
  obtain ⟨gap, rfl, hgap, hname⟩ := exists_gap_of_spacedWord? hword
  have hrest := head?_of_spacedWord? hword
  obtain ⟨middle, tail, rfl, hmiddle, hend, -, hdrop⟩ := exists_run (· ≠ '{') rest
  simp only [hdrop] at h
  cases tail with
  | nil => cases h
  | cons brace behind =>
    cases h
    have hbrace : brace = '{' := by simpa using hend brace rfl
    subst hbrace
    have hnot : '{' ∉ middle := fun hmem => by simpa using hmiddle _ hmem
    have hhead : ∀ c ∈ middle.head?, isWordChar c = false := by
      intro c hc
      exact hrest c (by rw [List.head?_append, Option.mem_def.1 hc]; rfl)
    exact ⟨⟨before, keyword, gap, name, middle, behind, hkeyword, hgap, hname, hnot, hhead⟩,
      rfl, rfl, rfl⟩

/-- In one place of a text stands one mention at most. -/
theorem Mention.eq_of_length_eq {m m' : Mention} (htext : m.text = m'.text)
    (hlength : m.before.length = m'.before.length) : m = m' := by
  obtain ⟨hbefore, htail⟩ := List.append_inj htext hlength
  have hkeyword : m.keyword = m'.keyword := by
    rw [tail, tail] at htail
    rcases m.isKeyword with h | h <;> rcases m'.isKeyword with h' | h' <;> rw [h, h'] at htail ⊢
    · cases htail
    · cases htail
  rw [tail, tail, hkeyword, List.append_cancel_left_eq] at htail
  obtain ⟨hgap, hrest⟩ := eq_of_runs m.isGap.1 m'.isGap.1 m.isName.head? m'.isName.head? htail
  obtain ⟨hname, hrest⟩ := eq_of_runs m.isName.2 m'.isName.2
    (head?_append_brace m.isMiddle.2 _) (head?_append_brace m'.isMiddle.2 _) hrest
  obtain ⟨hmiddle, hbehind⟩ := eq_of_runs (ne_of_not_mem m.isMiddle.1)
    (ne_of_not_mem m'.isMiddle.1) (by simp) (by simp) hrest
  exact Mention.ext hbefore hkeyword hgap hname hmiddle (List.cons.inj hbehind).2

/-- Reading goes through the places of a text from the left. -/
theorem firstDeclaration?_eq_none_iff {cs : List Char} :
    firstDeclaration? cs = none ↔ ∀ tail, tail <:+ cs → declaration? tail = none := by
  induction cs with
  | nil =>
    constructor
    · intro _ tail htail
      rw [List.suffix_nil.1 htail]
      rfl
    · exact fun _ => rfl
  | cons c cs ih =>
    rw [firstDeclaration?, Option.or_eq_none_iff, ih]
    constructor
    · rintro ⟨hfirst, hrest⟩ tail htail
      rcases List.suffix_cons_iff.1 htail with rfl | htail
      · exact hfirst
      · exact hrest tail htail
    · exact fun h => ⟨h _ (List.suffix_refl _), fun tail htail =>
        h tail (htail.trans (List.suffix_cons c cs))⟩

theorem exists_of_firstDeclaration? {cs : List Char} {read : List Char × List Char}
    (h : firstDeclaration? cs = some read) :
    ∃ before tail, cs = before ++ tail ∧ declaration? tail = some read ∧
      ∀ before' tail', cs = before' ++ tail' → before'.length < before.length →
        declaration? tail' = none := by
  induction cs with
  | nil => cases h
  | cons c cs ih =>
    rw [firstDeclaration?, Option.or_eq_some_iff] at h
    rcases h with h | ⟨hnone, h⟩
    · exact ⟨[], c :: cs, rfl, h, fun _ _ _ hlt => absurd hlt (Nat.not_lt_zero _)⟩
    · obtain ⟨before, tail, rfl, hread, hfirst⟩ := ih h
      refine ⟨c :: before, tail, rfl, hread, fun before' tail' heq hlt => ?_⟩
      cases before' with
      | nil => rw [← List.nil_append tail', ← heq, hnone]
      | cons c' before' =>
        exact hfirst before' tail' (List.cons.inj heq).2 (Nat.lt_of_succ_lt_succ hlt)

/-- A mention is read, or one before it. -/
theorem Mention.exists_firstDeclaration? {cs : List Char} {m : Mention} (h : m.text = cs) :
    ∃ read, firstDeclaration? cs = some read := by
  refine Option.ne_none_iff_exists'.1 fun hread => ?_
  have hnone := firstDeclaration?_eq_none_iff.1 hread m.tail ⟨m.before, h⟩
  rw [declaration?_tail] at hnone
  cases hnone

/-- What is read is the first mention of the text. -/
theorem parse?_eq_some_iff {text : String} {model : Model} : Model.parse? text = some model ↔
    ∃ m : Mention, m.text = text.toList ∧ m.IsFirst ∧ model = m.model := by
  have hfirst : ∀ {read}, firstDeclaration? text.toList = some read →
      ∃ m : Mention, m.text = text.toList ∧ m.IsFirst ∧
        read = (m.name, m.behind.takeWhile (· ≠ '}')) := by
    intro read hread
    obtain ⟨before, tail, htext, htail, hnone⟩ := exists_of_firstDeclaration? hread
    obtain ⟨m, rfl, rfl, rfl⟩ := exists_mention_of_declaration? htail before
    refine ⟨m, htext.symm, fun m' hm' => Nat.le_of_not_lt fun hlt => ?_, rfl⟩
    have hread' := hnone m'.before m'.tail (htext.trans hm'.symm) hlt
    rw [declaration?_tail] at hread'
    cases hread'
  constructor
  · intro h
    rw [Model.parse?] at h
    obtain ⟨read, hread, hmodel⟩ := Option.bind_eq_some_iff.1 h
    obtain ⟨m, htext, hm, rfl⟩ := hfirst hread
    cases hmodel
    exact ⟨m, htext, hm, rfl⟩
  · rintro ⟨m, htext, hm, rfl⟩
    obtain ⟨read, hread⟩ := Mention.exists_firstDeclaration? htext
    obtain ⟨m', htext', hm', rfl⟩ := hfirst hread
    have hsame : m'.text = m.text := htext'.trans htext.symm
    have hlength := Nat.le_antisymm (hm' m hsame.symm) (hm m' hsame)
    rw [Mention.eq_of_length_eq hsame hlength] at hread
    rw [Model.parse?, hread]
    rfl

theorem exists_parse?_iff {text : String} :
    (∃ model, Model.parse? text = some model) ↔ ∃ m : Mention, m.text = text.toList := by
  constructor
  · rintro ⟨model, h⟩
    obtain ⟨m, htext, -⟩ := parse?_eq_some_iff.1 h
    exact ⟨m, htext⟩
  · rintro ⟨m, htext⟩
    obtain ⟨read, hread⟩ := Mention.exists_firstDeclaration? htext
    rw [Model.parse?, hread]
    exact ⟨_, rfl⟩

/-- The first mention is the last one before its brace if it is the only one before it that begins
with a whole word. -/
theorem Mention.IsFirst.isLast_iff {m : Mention} (h : m.IsFirst) : m.IsLast ↔
    ∀ m' : Mention, m'.text = m.text → m'.behind = m.behind → (m'.IsWhole ↔ m' = m) := by
  constructor
  · rintro ⟨hwhole, hlast⟩ m' htext hbehind
    constructor
    · intro hwhole'
      exact Mention.eq_of_length_eq htext
        (Nat.le_antisymm (hlast m' htext hbehind hwhole') (h m' htext))
    · rintro rfl
      exact hwhole
  · intro honly
    refine ⟨(honly m rfl rfl).2 rfl, fun m' htext hbehind hwhole => ?_⟩
    obtain rfl := (honly m' htext hbehind).1 hwhole
    exact Nat.le_refl _

/-- A text is read if it holds a mention. The name is that of the first one and the properties are
those behind its brace. It is the last one before this brace, as a whole word, if and only if no
other whole word before the brace begins one. -/
theorem parse?_named_by_first (text : String) :
    ((∃ model, Model.parse? text = some model) ↔ ∃ m : Mention, m.text = text.toList) ∧
    ∀ model, Model.parse? text = some model →
      ∃ m : Mention, m.text = text.toList ∧ m.IsFirst ∧ model = m.model ∧
        (∀ m' : Mention, m'.text = text.toList → m'.IsFirst → m' = m) ∧
        (m.IsLast ↔ ∀ m' : Mention, m'.text = text.toList → m'.behind = m.behind →
          (m'.IsWhole ↔ m' = m)) := by
  refine ⟨exists_parse?_iff, fun model h => ?_⟩
  obtain ⟨m, htext, hfirst, hmodel⟩ := parse?_eq_some_iff.1 h
  refine ⟨m, htext, hfirst, hmodel, fun m' htext' hfirst' => ?_, ?_⟩
  · have hsame : m'.text = m.text := htext'.trans htext.symm
    exact Mention.eq_of_length_eq hsame
      (Nat.le_antisymm (hfirst' m hsame.symm) (hfirst m' hsame))
  · rw [← htext]
    exact hfirst.isLast_iff

/-- A structure behind a comment that mentions one. -/
def pointBehind (comment : String) : String :=
  comment ++ "struct Point \x7b\n    let x: Int\n\x7d\n"

/-- A comment without the keywords makes no difference. -/
theorem parse?_named_by_first_of_comment :
    ∃ m : Mention, m.text = (pointBehind "// no value\n").toList ∧ m.IsFirst ∧
      m.model = ⟨"Point", [⟨"x", ⟨"Int"⟩⟩]⟩ := by
  have hparse : Model.parse? (pointBehind "// no value\n") =
      some ⟨"Point", [⟨"x", ⟨"Int"⟩⟩]⟩ := by
    decide +kernel
  obtain ⟨m, htext, hfirst, hmodel, -⟩ := (parse?_named_by_first _).2 _ hparse
  exact ⟨m, htext, hfirst, hmodel.symm⟩

/-- The mention in a comment in front of a structure. -/
theorem exists_mention_in_comment :
    ∃ m : Mention, m.text = (pointBehind "// A struct is a value\n").toList ∧
      m.before = "// A ".toList ∧ m.behind = "\n    let x: Int\n\x7d\n".toList :=
  ⟨{ before := "// A ".toList
     keyword := "struct".toList
     gap := " ".toList
     name := "is".toList
     middle := " a value\nstruct Point ".toList
     behind := "\n    let x: Int\n\x7d\n".toList
     isKeyword := by decide
     isGap := ⟨List.forall_mem_singleton.2 rfl, by decide⟩
     isName := ⟨by decide, List.all_eq_true.1 (by decide +kernel)⟩
     isMiddle := ⟨by decide, by rintro _ ⟨⟩; decide +kernel⟩ }, by decide +kernel, rfl, rfl⟩

/-- The structure behind the comment. -/
theorem exists_mention_of_point :
    ∃ m : Mention, m.text = (pointBehind "// A struct is a value\n").toList ∧
      m.before = "// A struct is a value\n".toList ∧
      m.behind = "\n    let x: Int\n\x7d\n".toList :=
  ⟨{ before := "// A struct is a value\n".toList
     keyword := "struct".toList
     gap := " ".toList
     name := "Point".toList
     middle := " ".toList
     behind := "\n    let x: Int\n\x7d\n".toList
     isKeyword := by decide
     isGap := ⟨List.forall_mem_singleton.2 rfl, by decide⟩
     isName := ⟨by decide, List.all_eq_true.1 (by decide +kernel)⟩
     isMiddle := ⟨by decide, by rintro _ ⟨⟩; decide +kernel⟩ }, by decide +kernel, rfl, rfl⟩

/-- A keyword in a comment gives the model its name. -/
theorem parse?_not_named_by_last :
    ¬∀ (text : String) (model : Model), Model.parse? text = some model →
      ∃ m : Mention, m.text = text.toList ∧ model = m.model ∧ m.IsLast := by
  intro h
  let text := pointBehind "// A struct is a value\n"
  have hparse : Model.parse? text = some ⟨"is", [⟨"x", ⟨"Int"⟩⟩]⟩ := by
    decide +kernel
  obtain ⟨m, htext, hmodel, -, hlast⟩ := h _ _ hparse
  have hname : m.name = "is".toList := by
    rw [← String.toList_ofList (l := m.name)]
    exact congrArg (fun model => model.name.toList) hmodel.symm
  have hplaces : ∀ n < 60, (declaration? (text.toList.drop n)).map Prod.fst = some "is".toList →
      n = 5 := by
    decide +kernel
  have htail : m.tail = text.toList.drop m.before.length := by
    rw [← htext, Mention.text, List.drop_left]
  have hread := declaration?_tail m
  rw [htail, hname] at hread
  have hlength : m.before.length = 5 := by
    refine hplaces _ ?_ (by rw [hread]; rfl)
    have hlt := congrArg List.length htext
    have hall : text.toList.length < 60 := by decide +kernel
    rw [Mention.text, List.length_append] at hlt
    omega
  obtain ⟨comment, hcomment, hbefore, hbehind⟩ := exists_mention_in_comment
  obtain ⟨point, hpoint, hbefore', hbehind'⟩ := exists_mention_of_point
  have hsame : m = comment := by
    refine Mention.eq_of_length_eq (htext.trans hcomment.symm) (hlength.trans ?_)
    rw [hbefore]
    rfl
  have hwhole : point.IsWhole := by
    rw [Mention.IsWhole, hbefore']
    rintro c ⟨⟩
    decide +kernel
  have hle := hlast point (hpoint.trans htext.symm) (by rw [hsame, hbehind, hbehind']) hwhole
  rw [hbefore', hlength] at hle
  exact absurd hle (by decide)

end Scaffold.Swift
