import Mathlib
import Scaffold.Error
import Scaffold.Proofs.Text.Run
import Scaffold.Text.CamelCase

/-!
The camel-case form of a name. Only capitals of the leading run are lowered and the first of them
always is, so the form of an identifier is an identifier and the form of a form is the same. How
many are lowered depends on the length of the run and not on what stands behind it. So the last
capital of an acronym stays also where no word begins with it, in front of a digit or an underscore.
-/

namespace Scaffold.Text

variable {run rest name : List Char} {last : Char}

theorem loweredCapitals_le (name : List Char) :
    loweredCapitals name ≤ (name.takeWhile Char.isUpper).length := by
  simp only [loweredCapitals]
  split <;> omega

theorem loweredCapitals_pos (h : name.takeWhile Char.isUpper ≠ []) : 0 < loweredCapitals name := by
  have hpos := List.length_pos_iff.2 h
  simp only [loweredCapitals]
  split <;> omega

theorem loweredCapitals_run (hrun : ∀ c ∈ run, c.isUpper = true)
    (hrest : ∀ c ∈ rest.head?, c.isUpper = false) :
    loweredCapitals (run ++ rest) =
      if run.length ≤ 1 ∨ rest = [] then run.length else run.length - 1 := by
  simp only [loweredCapitals, takeWhile_run hrun hrest, List.length_append]
  congr 1
  simp

/-- A lone capital is lowered, and so is a name that is nothing but capitals. -/
theorem camelCase_run (hrun : ∀ c ∈ run, c.isUpper = true)
    (hrest : ∀ c ∈ rest.head?, c.isUpper = false) (h : run.length ≤ 1 ∨ rest = []) :
    camelCase (run ++ rest) = run.map Char.toLower ++ rest := by
  simp only [camelCase, loweredCapitals_run hrun hrest, if_pos h, List.take_left, List.drop_left]

/-- Of several capitals in front of something else the last one stays. -/
theorem camelCase_run_concat (hrun : ∀ c ∈ run ++ [last], c.isUpper = true)
    (hrest : ∀ c ∈ rest.head?, c.isUpper = false) (hne : run ≠ []) (hne' : rest ≠ []) :
    camelCase (run ++ [last] ++ rest) = run.map Char.toLower ++ last :: rest := by
  have hlowered : loweredCapitals (run ++ [last] ++ rest) = run.length := by
    rw [loweredCapitals_run hrun hrest, if_neg (by simp [hne, hne']), List.length_append,
      List.length_singleton, Nat.add_sub_cancel]
  rw [camelCase]
  simp only [hlowered]
  rw [List.append_assoc, List.take_left, List.drop_left, List.singleton_append]

/-- The form of a name in which a leading acronym is lowered as a whole. The last one of several
capitals stays if a word begins with it, that is if a lower-case letter follows. -/
def wordCase (isLower : Char → Bool) (name : List Char) : List Char :=
  let run := name.takeWhile Char.isUpper
  let rest := name.dropWhile Char.isUpper
  if 2 ≤ run.length ∧ rest.head?.any isLower = true then
    run.dropLast.map Char.toLower ++ run.getLast?.toList ++ rest
  else run.map Char.toLower ++ rest

theorem wordCase_run {isLower : Char → Bool} (hrun : ∀ c ∈ run, c.isUpper = true)
    (hrest : ∀ c ∈ rest.head?, c.isUpper = false) :
    wordCase isLower (run ++ rest) =
      if 2 ≤ run.length ∧ rest.head?.any isLower = true then
        run.dropLast.map Char.toLower ++ run.getLast?.toList ++ rest
      else run.map Char.toLower ++ rest := by
  simp only [wordCase, takeWhile_run hrun hrest, dropWhile_run hrun hrest]

theorem toLower_ne_of_isUpper {c : Char} (h : c.isUpper = true) : c.toLower ≠ c := by
  intro heq
  rw [← heq, Char.isUpper_toLower_eq_false] at h
  cases h

theorem camelCase_eq_wordCase_of_short {isLower : Char → Bool} (hrun : ∀ c ∈ run, c.isUpper = true)
    (hrest : ∀ c ∈ rest.head?, c.isUpper = false) (h : run.length ≤ 1 ∨ rest = []) :
    camelCase (run ++ rest) = wordCase isLower (run ++ rest) := by
  rw [camelCase_run hrun hrest h, wordCase_run hrun hrest, if_neg]
  rintro ⟨hlong, hlower⟩
  rcases h with hshort | rfl
  · omega
  · cases hlower

/-- Where the last capital stays, a lower-case letter has to follow it. -/
theorem camelCase_eq_wordCase_iff_of_concat {isLower : Char → Bool} {c : Char}
    (hrun : ∀ c ∈ run ++ [last], c.isUpper = true) (hc : c.isUpper = false) (hne : run ≠ []) :
    camelCase (run ++ [last] ++ c :: rest) = wordCase isLower (run ++ [last] ++ c :: rest) ↔
      isLower c = true := by
  have hhead : ∀ d ∈ (c :: rest).head?, d.isUpper = false := by
    rintro d ⟨⟩
    exact hc
  rw [camelCase_run_concat hrun hhead hne (List.cons_ne_nil c rest), wordCase_run hrun hhead]
  cases hlower : isLower c with
  | true =>
    have hlong : 2 ≤ (run ++ [last]).length := by
      have hpos := List.length_pos_iff.2 hne
      rw [List.length_append, List.length_singleton]
      omega
    rw [if_pos ⟨hlong, hlower⟩]
    simp
  | false =>
    have hlast : last ≠ last.toLower := (toLower_ne_of_isUpper (hrun last (by simp))).symm
    rw [if_neg fun h => Bool.false_ne_true (hlower.symm.trans h.2)]
    simp [hlast]

/-- How the capitals at the start of a name are lowered: all of them if there is only one or nothing
behind them, and otherwise all but the last one. This lowers an acronym as a whole unless there are
several capitals and what stands behind them is no lower-case letter. -/
theorem camelCase_by_run (isLower : Char → Bool) (name : List Char) :
    let run := name.takeWhile Char.isUpper
    let rest := name.dropWhile Char.isUpper
    (run.length ≤ 1 ∨ rest = [] → camelCase name = run.map Char.toLower ++ rest) ∧
    (2 ≤ run.length → rest ≠ [] →
      camelCase name = run.dropLast.map Char.toLower ++ run.getLast?.toList ++ rest) ∧
    (camelCase name = wordCase isLower name ↔
      ¬(2 ≤ run.length ∧ ∃ c, rest.head? = some c ∧ isLower c = false)) := by
  intro run rest
  obtain ⟨capitals, behind, rfl, hcapitals, hbehind, hrun, hrest⟩ := exists_run Char.isUpper name
  rw [show run = capitals from hrun, show rest = behind from hrest]
  refine ⟨camelCase_run hcapitals hbehind, ?_⟩
  by_cases hshort : capitals.length ≤ 1 ∨ behind = []
  · have hlong : ¬(2 ≤ capitals.length ∧ behind ≠ []) := by
      rintro ⟨hlong, hne⟩
      rcases hshort with hshort | hnil
      · omega
      · exact hne hnil
    refine ⟨fun h hne => absurd ⟨h, hne⟩ hlong,
      iff_of_true (camelCase_eq_wordCase_of_short hcapitals hbehind hshort) ?_⟩
    rintro ⟨h, c, hc, -⟩
    refine hlong ⟨h, ?_⟩
    rintro rfl
    cases hc
  · obtain ⟨hlong, hne⟩ := not_or.1 hshort
    obtain ⟨c, cs, rfl⟩ := List.exists_cons_of_ne_nil hne
    rcases List.eq_nil_or_concat' capitals with rfl | ⟨first, last, rfl⟩
    · exact absurd (Nat.zero_le 1) hlong
    have hfirst : first ≠ [] := by
      rintro rfl
      exact hlong (Nat.le_refl 1)
    refine ⟨fun _ _ => ?_, ?_⟩
    · simpa using camelCase_run_concat hcapitals hbehind hfirst hne
    · rw [camelCase_eq_wordCase_iff_of_concat hcapitals (hbehind c rfl) hfirst]
      have hpos : 1 ≤ first.length := List.length_pos_iff.2 hfirst
      simp [hpos]

/-- An acronym in front of a digit is not lowered as a whole. -/
theorem camelCase_before_digit :
    camelCase "ID2".toList = "iD2".toList ∧
    wordCase Char.isLower "ID2".toList = "id2".toList ∧
    ¬∀ name, name.takeWhile Char.isUpper ≠ [] → camelCase name = wordCase Char.isLower name := by
  refine ⟨by decide, by decide, fun h => ?_⟩
  have hsame := h "ID2".toList (by decide)
  revert hsame
  decide

theorem isIdentifierStart_toLower (c : Char) :
    isIdentifierStart c.toLower = isIdentifierStart c := by
  by_cases h : c.isUpper = true
  · simp [isIdentifierStart, Char.isAlpha, h]
  · rw [Char.toLower_eq_of_not_isUpper h]

theorem isIdentifierPart_toLower (c : Char) : isIdentifierPart c.toLower = isIdentifierPart c := by
  by_cases h : c.isUpper = true
  · have halpha : c.toLower.isAlpha = true := by
      rw [Char.isAlpha_toLower_eq_isAlpha, Char.isAlpha, h, Bool.true_or]
    have halpha' : c.isAlpha = true := by rw [Char.isAlpha, h, Bool.true_or]
    simp [isIdentifierPart, Char.isAlphanum, halpha, halpha']
  · rw [Char.toLower_eq_of_not_isUpper h]

theorem isIdentifier_camelCase (name : List Char) :
    isIdentifier (camelCase name) = isIdentifier name := by
  rw [camelCase]
  generalize loweredCapitals name = n
  cases n with
  | zero => simp
  | succ n =>
    cases name with
    | nil => rfl
    | cons c cs =>
      have hpart : isIdentifierPart ∘ Char.toLower = isIdentifierPart :=
        funext isIdentifierPart_toLower
      simp only [List.take_succ_cons, List.map_cons, List.drop_succ_cons, List.cons_append,
        isIdentifier, isIdentifierStart_toLower, List.all_append, List.all_map, hpart]
      rw [← List.all_append, List.take_append_drop]

theorem camelCase_of_head? (h : ∀ c ∈ name.head?, c.isUpper = false) : camelCase name = name := by
  have hrun : ∀ c ∈ ([] : List Char), c.isUpper = true := nofun
  exact camelCase_run hrun h (.inl (Nat.zero_le 1))

theorem isUpper_of_head?_camelCase (name : List Char) :
    ∀ c ∈ (camelCase name).head?, c.isUpper = false := by
  intro c hc
  cases name with
  | nil => cases hc
  | cons first rest =>
    cases hfirst : first.isUpper with
    | true =>
      have hpos : loweredCapitals (first :: rest) ≠ 0 :=
        (loweredCapitals_pos (by simp [hfirst])).ne'
      obtain ⟨n, hn⟩ := Nat.exists_eq_succ_of_ne_zero hpos
      rw [camelCase] at hc
      simp only [hn, List.take_succ_cons, List.map_cons, List.cons_append, List.head?_cons,
        Option.mem_def, Option.some.injEq] at hc
      rw [← hc, Char.isUpper_toLower_eq_false]
    | false =>
      rw [camelCase_of_head? (by simpa using hfirst)] at hc
      cases hc
      exact hfirst

/-- A character changes only if it is one of the capitals that are lowered. -/
theorem getElem?_camelCase (name : List Char) (i : Nat) :
    (camelCase name)[i]? = name[i]? ∨
      i < (name.takeWhile Char.isUpper).length ∧
        ∃ c, name[i]? = some c ∧ c.isUpper = true ∧ (camelCase name)[i]? = some c.toLower := by
  rcases Nat.lt_or_ge i (loweredCapitals name) with hlt | hge
  · have hi := Nat.lt_of_lt_of_le hlt (loweredCapitals_le name)
    obtain ⟨run, rest, rfl, hrun, -, htake, -⟩ := exists_run Char.isUpper name
    rw [htake] at hi ⊢
    have hchar : (run ++ rest)[i]? = some run[i] := by
      rw [List.getElem?_append_left hi, List.getElem?_eq_getElem hi]
    refine .inr ⟨hi, run[i], hchar, hrun _ (List.getElem_mem hi), ?_⟩
    rw [camelCase, List.getElem?_append_left, List.getElem?_map, List.getElem?_take_of_lt hlt,
      hchar, Option.map_some]
    simp
    omega
  · left
    have hlength : ((name.take (loweredCapitals name)).map Char.toLower).length =
        loweredCapitals name := by
      have hle := (loweredCapitals_le name).trans (List.takeWhile_sublist _).length_le
      rw [List.length_map, List.length_take, Nat.min_eq_left hle]
    rw [camelCase, List.getElem?_append_right (hlength.trans_le hge), hlength, List.getElem?_drop,
      Nat.add_sub_cancel' hge]

/-- The camel-case form differs from the name only in that capitals of the leading run are lowered.
It does not start with a capital, it is its own camel-case form, and it can be used as a name if and
only if the name itself can. -/
theorem camelCase_lowers_only (name : List Char) :
    (camelCase name).length = name.length ∧
    (∀ i : Nat, (camelCase name)[i]? = name[i]? ∨
      i < (name.takeWhile Char.isUpper).length ∧
        ∃ c, name[i]? = some c ∧ c.isUpper = true ∧ (camelCase name)[i]? = some c.toLower) ∧
    (∀ c, (camelCase name).head? = some c → c.isUpper = false) ∧
    camelCase (camelCase name) = camelCase name ∧
    (checkName (String.ofList (camelCase name)) = .ok () ↔
      checkName (String.ofList name) = .ok ()) := by
  refine ⟨?_, getElem?_camelCase name, isUpper_of_head?_camelCase name,
    camelCase_of_head? (isUpper_of_head?_camelCase name), ?_⟩
  · rw [camelCase, List.length_append, List.length_map, ← List.length_append, List.take_append_drop]
  · rw [checkName_eq_ok_iff, checkName_eq_ok_iff, String.toList_ofList, String.toList_ofList,
      isIdentifier_camelCase]

end Scaffold.Text
