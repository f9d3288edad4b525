import Scaffold.Proofs.Text.Words
import Scaffold.Text.WordChar

/-!
Runs of characters of one class. A run is read whole if what stands behind it does not start with a
character of the class, and no character is both white space and part of a word.
-/

namespace Scaffold.Text

variable {p : Char → Bool} {run rest : List Char}

theorem takeWhile_run (hrun : ∀ c ∈ run, p c = true) (hrest : ∀ c ∈ rest.head?, p c = false) :
    (run ++ rest).takeWhile p = run := by
  rw [List.takeWhile_append_of_pos hrun]
  cases rest with
  | nil => exact List.append_nil _
  | cons c rest =>
    rw [List.takeWhile_cons_of_neg (Bool.eq_false_iff.1 (hrest c rfl)), List.append_nil]

theorem head?_append_of_head? (hne : run ≠ []) (h : ∀ c ∈ run.head?, p c = false)
    (rest : List Char) : ∀ c ∈ (run ++ rest).head?, p c = false := by
  cases run with
  | nil => exact absurd rfl hne
  | cons c run => exact h

theorem dropWhile_of_head? (h : ∀ c ∈ rest.head?, p c = false) : rest.dropWhile p = rest := by
  cases rest with
  | nil => rfl
  | cons c rest => exact List.dropWhile_cons_of_neg (Bool.eq_false_iff.1 (h c rfl))

theorem dropWhile_run (hrun : ∀ c ∈ run, p c = true) (hrest : ∀ c ∈ rest.head?, p c = false) :
    (run ++ rest).dropWhile p = rest := by
  rw [List.dropWhile_append_of_pos hrun, dropWhile_of_head? hrest]

/-- A text begins with its longest run of a class. -/
theorem exists_run (p : Char → Bool) (cs : List Char) :
    ∃ run rest, cs = run ++ rest ∧ (∀ c ∈ run, p c = true) ∧ (∀ c ∈ rest.head?, p c = false) ∧
      cs.takeWhile p = run ∧ cs.dropWhile p = rest := by
  refine ⟨cs.takeWhile p, cs.dropWhile p, List.takeWhile_append_dropWhile.symm,
    List.all_eq_true.1 List.all_takeWhile, fun c hc => ?_, rfl, rfl⟩
  have hhead := List.head?_dropWhile_not p cs
  rwa [Option.mem_def.1 hc] at hhead

/-- A text begins with one longest run of a class only. -/
theorem eq_of_runs {run' rest' : List Char} (hrun : ∀ c ∈ run, p c = true)
    (hrun' : ∀ c ∈ run', p c = true) (hrest : ∀ c ∈ rest.head?, p c = false)
    (hrest' : ∀ c ∈ rest'.head?, p c = false) (h : run ++ rest = run' ++ rest') :
    run = run' ∧ rest = rest' := by
  constructor
  · rw [← takeWhile_run hrun hrest, h, takeWhile_run hrun' hrest']
  · rw [← dropWhile_run hrun hrest, h, dropWhile_run hrun' hrest']

/-- A text without a character is a run of others. -/
theorem ne_of_not_mem {c : Char} {cs : List Char} (h : c ∉ cs) :
    ∀ d ∈ cs, decide (d ≠ c) = true := by
  intro d hd
  rw [decide_eq_true_iff]
  rintro rfl
  exact h hd

theorem dropWhile_ne_ne_nil_iff {c : Char} {cs : List Char} :
    cs.dropWhile (· ≠ c) ≠ [] ↔ c ∈ cs := by
  induction cs with
  | nil => simp
  | cons d cs ih =>
    by_cases hd : d = c
    · simp [hd]
    · rw [List.dropWhile_cons_of_pos (by simpa using hd), ih, List.mem_cons]
      exact ⟨.inr, fun h => h.resolve_left (Ne.symm hd)⟩

theorem trimEnd_of_getLast? {cs : List Char} (h : ∀ c ∈ cs.getLast?, isBlank c = false) :
    trimEnd cs = cs := by
  have hdrop : cs.reverse.dropWhile isBlank = cs.reverse := by
    refine dropWhile_of_head? fun c hc => h c ?_
    rwa [List.head?_reverse] at hc
  rw [trimEnd, hdrop, List.reverse_reverse]

theorem IsGap.not_mem {gap : List Char} {c : Char} (h : IsGap gap) (hc : isBlank c = false) :
    c ∉ gap := fun hmem =>
  Bool.false_ne_true (hc.symm.trans (h c hmem))

theorem dropWhile_of_gap {gap : List Char} (h : IsGap gap) : gap.dropWhile isBlank = [] := by
  have hdrop : (gap ++ []).dropWhile isBlank = [] := List.dropWhile_append_of_pos h
  rwa [List.append_nil] at hdrop

theorem trim_of_gap {gap : List Char} (h : IsGap gap) : trim gap = [] := by
  rw [trim, dropWhile_of_gap h]
  rfl

/-- This is what is left of a text without the white space at its ends. -/
structure TrimsTo (cs text : List Char) : Prop where
  first : ∀ c ∈ text.head?, isBlank c = false
  last : ∀ c ∈ text.getLast?, isBlank c = false
  around : ∃ left right, IsGap left ∧ IsGap right ∧ cs = left ++ text ++ right

theorem trimsTo_trim (cs : List Char) : TrimsTo cs (trim cs) := by
  obtain ⟨gap, _, hgap⟩ := exists_eq_trimEnd_append (cs.dropWhile isBlank)
  refine ⟨fun c hc => ?_, fun c hc => ?_, exists_eq_append_trim cs⟩
  · have hhead : (cs.dropWhile isBlank).head? = some c := by
      rw [hgap, List.head?_append]
      exact congrArg (·.or gap.head?) hc
    have hnot := List.head?_dropWhile_not isBlank cs
    rw [hhead] at hnot
    simpa using hnot
  · have hnot := List.head?_dropWhile_not isBlank (cs.dropWhile isBlank).reverse
    rw [trim, trimEnd, List.getLast?_reverse, Option.mem_def] at hc
    rw [hc] at hnot
    simpa using hnot

theorem trim_eq_iff {cs text : List Char} : trim cs = text ↔ TrimsTo cs text := by
  constructor
  · rintro rfl
    exact trimsTo_trim cs
  · rintro ⟨hfirst, hlast, left, right, hleft, hright, rfl⟩
    by_cases hnil : text = []
    · subst hnil
      rw [List.append_nil]
      exact trim_of_gap (List.forall_mem_append.2 ⟨hleft, hright⟩)
    · rw [trim, List.append_assoc, dropWhile_run hleft (head?_append_of_head? hnil hfirst right),
        trimEnd_append_gap hright, trimEnd_of_getLast? hlast]

theorem trim_eq_nil_iff {cs : List Char} : trim cs = [] ↔ IsGap cs := by
  constructor
  · intro h
    obtain ⟨-, -, left, right, hleft, hright, rfl⟩ := trim_eq_iff.1 h
    rw [List.append_nil]
    exact List.forall_mem_append.2 ⟨hleft, hright⟩
  · exact trim_of_gap

/-- The code points of white space. -/
def blankCodes : List Nat :=
  [9, 10, 11, 12, 13, 0x20, 0x85, 0xA0, 0x1680, 0x2000, 0x2001, 0x2002, 0x2003, 0x2004, 0x2005,
    0x2006, 0x2007, 0x2008, 0x2009, 0x200A, 0x2028, 0x2029, 0x202F, 0x205F, 0x3000]

theorem mem_blankCodes {c : Char} (h : isBlank c = true) : c.toNat ∈ blankCodes := by
  simp only [isBlank, Bool.or_eq_true, Bool.and_eq_true, decide_eq_true_eq] at h
  simp only [blankCodes, List.mem_cons, List.not_mem_nil, or_false]
  omega

theorem isWordChar_of_isBlank {c : Char} (h : isBlank c = true) : isWordChar c = false := by
  have hcodes : ∀ n ∈ blankCodes,
      (wordRanges.any fun range => range.1 ≤ n && n ≤ range.2) = false := by
    decide +kernel
  exact hcodes _ (mem_blankCodes h)

theorem isBlank_of_isWordChar {c : Char} (h : isWordChar c = true) : isBlank c = false := by
  rw [Bool.eq_false_iff]
  intro hblank
  exact Bool.false_ne_true ((isWordChar_of_isBlank hblank).symm.trans h)

end Scaffold.Text
