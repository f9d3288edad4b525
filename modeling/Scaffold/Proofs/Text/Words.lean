import Scaffold.Text.Blank
import Scaffold.Text.Identifier

/-!
What trimming and splitting say about a text: trimming takes away blanks at the ends and nothing
else, the pieces between separators put together again are the text, and the words of a text are its
runs of characters that are not blank, with blanks around them.
-/

namespace Scaffold.Text

/-- Text that is white space only. It may be empty. -/
def IsGap (cs : List Char) : Prop := ∀ c ∈ cs, isBlank c = true

/-- A text that is not empty and holds no white space. -/
def IsWord (cs : List Char) : Prop := cs ≠ [] ∧ ∀ c ∈ cs, isBlank c = false

/-- A text whose words are these: runs without white space, each ended by white space or by the end
of the text. -/
inductive HasWords : List Char → List (List Char) → Prop where
  | gap {gap : List Char} : IsGap gap → HasWords gap []
  | word {gap word rest : List Char} {words : List (List Char)} : IsGap gap → IsWord word →
      (∀ c ∈ rest.head?, isBlank c = true) → HasWords rest words →
      HasWords (gap ++ word ++ rest) (word :: words)

/-- The ASCII letters and the underscore. -/
def IsNameStart (c : Char) : Prop := ('a' ≤ c ∧ c ≤ 'z') ∨ ('A' ≤ c ∧ c ≤ 'Z') ∨ c = '_'

/-- An ASCII identifier: a letter or an underscore, then letters, digits and underscores. -/
def IsName : List Char → Prop
  | [] => False
  | c :: cs => IsNameStart c ∧ ∀ d ∈ cs, IsNameStart d ∨ ('0' ≤ d ∧ d ≤ '9')

theorem isIdentifierStart_iff (c : Char) : isIdentifierStart c = true ↔ IsNameStart c := by
  have hupper : c.isUpper = true ↔ 'A' ≤ c ∧ c ≤ 'Z' := by
    change decide (c.val ≥ 'A'.val ∧ c.val ≤ 'Z'.val) = true ↔ _
    rw [decide_eq_true_eq]
    rfl
  have hlower : c.isLower = true ↔ 'a' ≤ c ∧ c ≤ 'z' := by
    change (decide (c.val ≥ 'a'.val) && decide (c.val ≤ 'z'.val)) = true ↔ _
    rw [Bool.and_eq_true, decide_eq_true_eq, decide_eq_true_eq]
    rfl
  change (c.isUpper || c.isLower || decide (c = '_')) = true ↔ _
  rw [Bool.or_eq_true, Bool.or_eq_true, hupper, hlower, decide_eq_true_eq, IsNameStart]
  constructor
  · rintro ((h | h) | h)
    · exact Or.inr (Or.inl h)
    · exact Or.inl h
    · exact Or.inr (Or.inr h)
  · rintro (h | h | h)
    · exact Or.inl (Or.inr h)
    · exact Or.inl (Or.inl h)
    · exact Or.inr h

theorem isIdentifierPart_iff (c : Char) :
    isIdentifierPart c = true ↔ IsNameStart c ∨ ('0' ≤ c ∧ c ≤ '9') := by
  rw [← isIdentifierStart_iff]
  simp only [isIdentifierPart, isIdentifierStart, Char.isAlphanum, Char.isDigit,
    Bool.or_eq_true, Bool.and_eq_true, decide_eq_true_eq, ge_iff_le]
  constructor
  · rintro ((h | h) | h)
    · exact Or.inl (Or.inl h)
    · exact Or.inr h
    · exact Or.inl (Or.inr h)
  · rintro ((h | h) | h)
    · exact Or.inl (Or.inl h)
    · exact Or.inr h
    · exact Or.inl (Or.inr h)

theorem isIdentifier_iff (cs : List Char) : isIdentifier cs = true ↔ IsName cs := by
  cases cs with
  | nil => simp [isIdentifier, IsName]
  | cons c cs =>
    simp only [isIdentifier, IsName, Bool.and_eq_true, List.all_eq_true, isIdentifierStart_iff,
      isIdentifierPart_iff]

theorem IsNameStart.toNat_bounds {c : Char} (h : IsNameStart c) :
    65 ≤ c.toNat ∧ c.toNat ≤ 122 := by
  rcases h with ⟨h1, h2⟩ | ⟨h1, h2⟩ | rfl
  · have h1 : 97 ≤ c.toNat := h1
    have h2 : c.toNat ≤ 122 := h2
    omega
  · have h1 : 65 ≤ c.toNat := h1
    have h2 : c.toNat ≤ 90 := h2
    omega
  · decide

theorem IsName.ne_nil {cs : List Char} (h : IsName cs) : cs ≠ [] := by
  rintro rfl
  exact h

/-- The characters of an identifier lie between the digits and the lower-case letters. -/
theorem IsName.toNat_bounds {cs : List Char} (h : IsName cs) :
    ∀ c ∈ cs, 48 ≤ c.toNat ∧ c.toNat ≤ 122 := by
  cases cs with
  | nil => exact h.elim
  | cons first cs =>
    intro c hc
    rcases List.mem_cons.1 hc with rfl | hc
    · have := h.1.toNat_bounds
      omega
    · rcases h.2 c hc with hstart | ⟨h1, h2⟩
      · have := hstart.toNat_bounds
        omega
      · have h1 : 48 ≤ c.toNat := h1
        have h2 : c.toNat ≤ 57 := h2
        omega

theorem IsName.isWord {cs : List Char} (h : IsName cs) : IsWord cs := by
  refine ⟨h.ne_nil, fun c hc => ?_⟩
  have hbounds := h.toNat_bounds c hc
  simp only [isBlank, Bool.or_eq_false_iff, Bool.and_eq_false_iff, decide_eq_false_iff_not]
  omega

theorem IsName.dot_not_mem {cs : List Char} (h : IsName cs) : '.' ∉ cs := by
  intro hmem
  have := h.toNat_bounds _ hmem
  revert this
  decide

theorem splitWhere_of_not_mem {p : Char → Bool} {cs : List Char} (h : ∀ c ∈ cs, p c = false) :
    splitWhere p cs = [cs] := by
  induction cs with
  | nil => rfl
  | cons c cs ih =>
    rw [splitWhere, h c List.mem_cons_self, ih fun d hd => h d (List.mem_cons_of_mem _ hd)]
    rfl

theorem splitWhere_append_cons {p : Char → Bool} {piece : List Char} {sep : Char} {rest : List Char}
    (h : ∀ c ∈ piece, p c = false) (hsep : p sep = true) :
    splitWhere p (piece ++ sep :: rest) = piece :: splitWhere p rest := by
  induction piece with
  | nil => rw [List.nil_append, splitWhere, hsep]; rfl
  | cons c piece ih =>
    rw [List.cons_append, splitWhere, h c List.mem_cons_self,
      ih fun d hd => h d (List.mem_cons_of_mem _ hd)]
    rfl

theorem not_of_mem_splitWhere {p : Char → Bool} {cs piece : List Char} (h : piece ∈ splitWhere p cs) :
    ∀ c ∈ piece, p c = false := by
  induction cs generalizing piece with
  | nil =>
    rw [List.mem_singleton.1 h]
    exact nofun
  | cons c cs ih =>
    rw [splitWhere] at h
    split at h
    · rcases List.mem_cons.1 h with rfl | h
      · exact nofun
      · exact ih h
    · next hc =>
      split at h
      · next heq => exact absurd heq (splitWhere_ne_nil p cs)
      · next first pieces heq =>
        rcases List.mem_cons.1 h with rfl | h
        · refine List.forall_mem_cons.2 ⟨Bool.not_eq_true _ ▸ hc, ih ?_⟩
          rw [heq]
          exact List.mem_cons_self
        · refine ih ?_
          rw [heq]
          exact List.mem_cons_of_mem _ h

theorem intercalate_splitWhere (sep : Char) (cs : List Char) :
    [sep].intercalate (splitWhere (· = sep) cs) = cs := by
  induction cs with
  | nil => rfl
  | cons c cs ih =>
    have hne := splitWhere_ne_nil (· = sep) cs
    rw [splitWhere]
    split
    · next hc =>
      rw [List.intercalate_cons_of_ne_nil hne, ih]
      simp only [decide_eq_true_eq] at hc
      rw [hc]
      rfl
    · split
      · next heq => exact absurd heq hne
      · next piece pieces heq =>
        rw [heq] at ih
        cases pieces with
        | nil => rw [List.intercalate_singleton] at ih ⊢; rw [ih]
        | cons second pieces =>
          rw [List.intercalate_cons_cons] at ih ⊢
          rw [← ih]
          rfl

theorem splitWhere_intercalate {sep : Char} {pieces : List (List Char)} (hne : pieces ≠ [])
    (h : ∀ piece ∈ pieces, sep ∉ piece) :
    splitWhere (· = sep) ([sep].intercalate pieces) = pieces := by
  induction pieces with
  | nil => exact absurd rfl hne
  | cons piece pieces ih =>
    have hpiece : ∀ c ∈ piece, decide (c = sep) = false := by
      intro c hc
      rw [decide_eq_false_iff_not]
      rintro rfl
      exact h piece List.mem_cons_self hc
    cases pieces with
    | nil => rw [List.intercalate_singleton, splitWhere_of_not_mem hpiece]
    | cons second pieces =>
      rw [List.intercalate_cons_cons, List.append_assoc, List.singleton_append,
        splitWhere_append_cons hpiece (by simp), ih (List.cons_ne_nil _ _)
          fun piece hpiece => h piece (List.mem_cons_of_mem _ hpiece)]

theorem mem_intercalate {sep c : Char} {pieces : List (List Char)}
    (h : c ∈ [sep].intercalate pieces) : c = sep ∨ ∃ piece ∈ pieces, c ∈ piece := by
  induction pieces with
  | nil => cases h
  | cons piece pieces ih =>
    cases pieces with
    | nil =>
      rw [List.intercalate_singleton] at h
      exact .inr ⟨piece, List.mem_cons_self, h⟩
    | cons second pieces =>
      rw [List.intercalate_cons_cons] at h
      simp only [List.mem_append, List.mem_singleton] at h
      rcases h with (h | h) | h
      · exact .inr ⟨piece, List.mem_cons_self, h⟩
      · exact .inl h
      · rcases ih h with hsep | ⟨piece', hpiece', hc⟩
        · exact .inl hsep
        · exact .inr ⟨piece', List.mem_cons_of_mem _ hpiece', hc⟩

theorem words_gap_append {gap : List Char} (h : IsGap gap) (rest : List Char) :
    words (gap ++ rest) = words rest := by
  induction gap with
  | nil => rfl
  | cons c gap ih =>
    rw [words, List.cons_append, splitWhere, h c List.mem_cons_self]
    exact ih fun d hd => h d (List.mem_cons_of_mem _ hd)

theorem words_of_gap {gap : List Char} (h : IsGap gap) : words gap = [] := by
  have := words_gap_append h []
  rwa [List.append_nil] at this

theorem words_word_append {word rest : List Char} (h : IsWord word)
    (hrest : ∀ c ∈ rest.head?, isBlank c = true) :
    words (word ++ rest) = word :: words rest := by
  have hfilter (pieces : List (List Char)) :
      (word :: pieces).filter (!·.isEmpty) = word :: pieces.filter (!·.isEmpty) :=
    List.filter_cons_of_pos (by simpa using h.1)
  cases rest with
  | nil => rw [List.append_nil, words, splitWhere_of_not_mem h.2, hfilter]; rfl
  | cons c rest =>
    have hc : isBlank c = true := hrest c rfl
    rw [words, splitWhere_append_cons h.2 hc, hfilter, words, splitWhere, hc]
    rfl

theorem HasWords.words_eq {cs : List Char} {ws : List (List Char)} (h : HasWords cs ws) :
    words cs = ws := by
  induction h with
  | gap hgap => exact words_of_gap hgap
  | word hgap hword hrest _ ih =>
    rw [List.append_assoc, words_gap_append hgap, words_word_append hword hrest, ih]

theorem hasWords_words (cs : List Char) : HasWords cs (words cs) := by
  induction hn : cs.length using Nat.strongRecOn generalizing cs with
  | _ n ih =>
    have hgap : IsGap (cs.takeWhile isBlank) := fun c hc => List.all_eq_true.1 List.all_takeWhile c hc
    have hsplit := List.takeWhile_append_dropWhile (p := isBlank) (l := cs)
    generalize hgapEq : cs.takeWhile isBlank = gap at hgap hsplit
    generalize htextEq : cs.dropWhile isBlank = text at hsplit
    cases text with
    | nil =>
      rw [List.append_nil] at hsplit
      subst hsplit
      rw [words_of_gap hgap]
      exact .gap hgap
    | cons c text =>
      have hc : isBlank c = false := by
        have hhead := List.head?_dropWhile_not isBlank cs
        rw [htextEq] at hhead
        simpa using hhead
      have hword : IsWord ((c :: text).takeWhile (!isBlank ·)) := by
        refine ⟨by simp [hc], fun d hd => ?_⟩
        simpa using List.all_eq_true.1 List.all_takeWhile d hd
      have hrest : ∀ d ∈ ((c :: text).dropWhile (!isBlank ·)).head?, isBlank d = true := by
        intro d hd
        have hhead := List.head?_dropWhile_not (!isBlank ·) (c :: text)
        rw [Option.mem_def.1 hd] at hhead
        simpa using hhead
      have htext := List.takeWhile_append_dropWhile (p := (!isBlank ·)) (l := c :: text)
      generalize (c :: text).takeWhile (!isBlank ·) = word at hword htext
      generalize (c :: text).dropWhile (!isBlank ·) = rest at hrest htext
      subst hsplit
      rw [← htext, words_gap_append hgap, words_word_append hword hrest, ← List.append_assoc]
      refine .word hgap hword hrest (ih rest.length ?_ rest rfl)
      have hpos := List.length_pos_iff.2 hword.1
      rw [← hn, ← htext]
      simp only [List.length_append]
      omega

/-- A text has exactly the words that splitting it gives. -/
theorem words_eq_iff {cs : List Char} {ws : List (List Char)} : words cs = ws ↔ HasWords cs ws :=
  ⟨fun h => h ▸ hasWords_words cs, HasWords.words_eq⟩

theorem trimEnd_append_gap {cs gap : List Char} (h : IsGap gap) :
    trimEnd (cs ++ gap) = trimEnd cs := by
  rw [trimEnd, List.reverse_append,
    List.dropWhile_append_of_pos fun c hc => h c (List.mem_reverse.1 hc), trimEnd]

theorem exists_eq_trimEnd_append (cs : List Char) : ∃ gap, IsGap gap ∧ cs = trimEnd cs ++ gap := by
  refine ⟨(cs.reverse.takeWhile isBlank).reverse, fun c hc => ?_, ?_⟩
  · exact List.all_eq_true.1 List.all_takeWhile c (List.mem_reverse.1 hc)
  · rw [trimEnd, ← List.reverse_append, List.takeWhile_append_dropWhile, List.reverse_reverse]

/-- Trimming takes away white space at both ends. -/
theorem exists_eq_append_trim (cs : List Char) :
    ∃ left right, IsGap left ∧ IsGap right ∧ cs = left ++ trim cs ++ right := by
  obtain ⟨right, hright, heq⟩ := exists_eq_trimEnd_append (cs.dropWhile isBlank)
  refine ⟨cs.takeWhile isBlank, right, fun c hc => List.all_eq_true.1 List.all_takeWhile c hc,
    hright, ?_⟩
  rw [trim, List.append_assoc, ← heq, List.takeWhile_append_dropWhile]

/-- What is left of a text with white space around it. -/
theorem trim_append {left right word : List Char} (hleft : IsGap left) (hright : IsGap right)
    (hword : IsWord word) : trim (left ++ word ++ right) = word := by
  have hstart : (word ++ right).dropWhile isBlank = word ++ right := by
    obtain ⟨hne, hblank⟩ := hword
    cases word with
    | nil => exact absurd rfl hne
    | cons c word =>
      rw [List.cons_append, List.dropWhile_cons_of_neg (by simp [hblank c List.mem_cons_self])]
  have hend : trimEnd word = word := by
    have hrev : word.reverse.dropWhile isBlank = word.reverse := by
      cases hw : word.reverse with
      | nil => rfl
      | cons c cs =>
        have hc := hword.2 c (by
          rw [← List.mem_reverse, hw]
          exact List.mem_cons_self)
        rw [List.dropWhile_cons_of_neg (by simp [hc])]
    rw [trimEnd, hrev, List.reverse_reverse]
  rw [trim, List.append_assoc, List.dropWhile_append_of_pos hleft, hstart,
    trimEnd_append_gap hright, hend]

end Scaffold.Text
