import Scaffold.Toml.Quoting

/-!
Quoted text is read back as it was. A form holds a text if it can be written in it; the form that is
chosen holds the text, and every form that does is undone by the reader, as long as no further quote
follows.
-/

namespace Scaffold.Toml

variable {c mark : Char} {cs rest : List Char}

theorem longestRun_le_cons (mark c : Char) (cs : List Char) :
    longestRun mark cs ≤ longestRun mark (c :: cs) := by
  rw [longestRun]
  split
  · exact Nat.le_max_right _ _
  · exact Nat.le_refl _

theorem three_le_longestRun (mark : Char) (cs : List Char) :
    3 ≤ longestRun mark (mark :: mark :: mark :: cs) := by
  rw [longestRun, if_pos rfl]
  refine Nat.le_trans ?_ (Nat.le_max_left _ _)
  simp only [List.takeWhile_cons, decide_true, if_true, List.length_cons]
  omega

theorem longestRun_eq_zero_iff : longestRun mark cs = 0 ↔ mark ∉ cs := by
  induction cs with
  | nil => simp [longestRun]
  | cons c cs ih =>
    rw [longestRun]
    by_cases hc : c = mark
    · rw [if_pos hc]
      simp only [hc, List.mem_cons_self, not_true, iff_false]
      omega
    · rw [if_neg hc, ih, List.mem_cons, not_or]
      exact ⟨fun hcs => ⟨Ne.symm hc, hcs⟩, And.right⟩

/-- The text does not start with the mark. -/
def ClearOf (mark : Char) (cs : List Char) : Prop :=
  ∀ rest, cs ≠ mark :: rest

theorem clearOf_cons (h : c ≠ mark) (cs : List Char) : ClearOf mark (c :: cs) := by
  intro rest heq
  exact h (List.cons.inj heq).1

/-- Up to two quotes right before the closing ones belong to the text. -/
theorem closing?_replicate (hrest : ClearOf mark rest) {n : Nat} (hn : n ≤ 2) :
    closing? mark (List.replicate (n + 3) mark ++ rest) =
      some (List.replicate n mark, rest) := by
  have hrun : (List.replicate (n + 3) mark ++ rest).takeWhile (· = mark) =
      List.replicate (n + 3) mark := by
    rw [List.takeWhile_append_of_pos (by simp)]
    cases rest with
    | nil => simp
    | cons c rest =>
      have hc : c ≠ mark := fun hc => hrest rest (hc ▸ rfl)
      rw [List.takeWhile_cons_of_neg (by simpa using hc), List.append_nil]
  rw [closing?, hrun, List.length_replicate, Nat.add_sub_cancel, if_pos hn,
    List.drop_left' (List.length_replicate ..)]

theorem hexValue?_upperHexDigit {n : Nat} (hn : n < 16) :
    hexValue? (upperHexDigit n) = some n := by
  revert n
  decide

theorem toNat_lt_of_isControl (hc : isControl c = true) : c.toNat < 128 := by
  simp only [isControl, Bool.or_eq_true, Bool.and_eq_true, decide_eq_true_eq] at hc
  omega

theorem codePoint?_of_isControl (hc : isControl c = true) :
    codePoint? ['0', '0', upperHexDigit (c.toNat / 16), upperHexDigit (c.toNat % 16)] =
      some c := by
  have hsmall := toNat_lt_of_isControl hc
  have hhigh := hexValue?_upperHexDigit (show c.toNat / 16 < 16 by omega)
  have hlow := hexValue?_upperHexDigit (show c.toNat % 16 < 16 by omega)
  have hzero : hexValue? '0' = some 0 := rfl
  have hsum : 16 * (c.toNat / 16) + c.toNat % 16 = c.toNat := Nat.div_add_mod _ _
  have hvalid : c.toNat.isValidChar := c.valid
  simp only [codePoint?, List.mapM_cons, List.mapM_nil, hzero, hhigh, hlow, Option.pure_def,
    Option.bind_eq_bind, Option.bind_some, List.foldl_cons, List.foldl_nil, Nat.mul_zero,
    Nat.zero_add, hsum, if_pos hvalid, Char.ofNat_toNat]

/-- A character of basic text is written as it is, or as an escape that is read as it. -/
theorem escaped_eq (c : Char) :
    (escaped c = [c] ∧ c ≠ '"' ∧ c ≠ '\\' ∧ isControl c = false) ∨
      ∃ code, escaped c = '\\' :: code ∧ ∀ rest, escape? (code ++ rest) = some (c, rest) := by
  unfold escaped
  split
  case h_8 =>
    split
    · next hcontrol =>
      refine .inr ⟨_, rfl, fun rest => ?_⟩
      simp only [List.cons_append, List.nil_append, escape?, List.take, List.drop, List.length_cons,
        codePoint?_of_isControl hcontrol, Option.map_some]
      rw [if_neg (by omega)]
    · next hquote hslash hcontrol =>
      exact .inl ⟨rfl, hquote, hslash, by simpa using hcontrol⟩
  all_goals exact .inr ⟨_, rfl, fun _ => rfl⟩

/-- No line is continued behind a backslash that starts an escape. -/
theorem continuation?_eq_none {result : Char × List Char} (h : escape? cs = some result) :
    continuation? cs = none := by
  unfold escape? at h
  split at h
  case h_10 => cases h
  all_goals rfl

/-- No quote and no control character stands as it is in basic text. -/
theorem clearOf_escaped (c : Char) (h : mark = '"' ∨ isControl mark = true) (rest : List Char) :
    ClearOf mark (escaped c ++ rest) := by
  intro after heq
  rcases escaped_eq c with ⟨hplain, hquote, -, hcontrol⟩ | ⟨code, hcode, -⟩
  · rw [hplain] at heq
    obtain ⟨rfl, -⟩ := List.cons.inj heq
    rcases h with hc | hc
    · exact hquote hc
    · cases hcontrol.symm.trans hc
  · rw [hcode] at heq
    obtain ⟨rfl, -⟩ := List.cons.inj heq
    rcases h with hc | hc <;> cases hc

theorem readBasic_escaped (c : Char) (rest : List Char) :
    readBasic (escaped c ++ rest) =
      (readBasic rest).map fun (text, after) => (c :: text, after) := by
  rcases escaped_eq c with ⟨hplain, hquote, hslash, hcontrol⟩ | ⟨code, hcode, hread⟩
  · rw [hplain, List.singleton_append, readBasic, hcontrol, if_neg Bool.false_ne_true]
    · exact hquote
    · exact hslash
  · rw [hcode, List.cons_append, readBasic, hread]

theorem readBasic_flatMap (cs rest : List Char) :
    readBasic (cs.flatMap escaped ++ '"' :: rest) = some (cs, rest) := by
  induction cs with
  | nil => rw [List.flatMap_nil, List.nil_append, readBasic]
  | cons c cs ih =>
    rw [List.flatMap_cons, List.append_assoc, readBasic_escaped, ih, Option.map_some]

theorem readLiteral_append (hcontrol : ∀ c ∈ cs, isControl c = false) (hquote : '\'' ∉ cs)
    (rest : List Char) : readLiteral (cs ++ '\'' :: rest) = some (cs, rest) := by
  induction cs with
  | nil => rfl
  | cons c cs ih =>
    rw [List.forall_mem_cons] at hcontrol
    rw [List.mem_cons, not_or] at hquote
    rw [List.cons_append, readLiteral, hcontrol.1, if_neg Bool.false_ne_true,
      ih hcontrol.2 hquote.2, Option.map_some]
    exact Ne.symm hquote.1

/-- A character that starts no escape and no closing quotes is part of the text. -/
theorem readBasicLines_cons (hcontrol : isControl c = true → c = '\n') (hslash : c ≠ '\\')
    (hquote : ∀ after, c = '"' → rest ≠ '"' :: '"' :: after) :
    readBasicLines (c :: rest) =
      (readBasicLines rest).map fun (text, after) => (c :: text, after) := by
  have hreturn : c ≠ '\r' := by
    rintro rfl
    cases hcontrol rfl
  rw [readBasicLines]
  · rw [if_neg]
    simpa using hcontrol
  · exact hquote
  · exact fun _ hc => absurd hc hreturn
  · exact hslash

theorem readBasicLines_escaped (c : Char) (rest : List Char) :
    readBasicLines (escaped c ++ rest) =
      (readBasicLines rest).map fun (text, after) => (c :: text, after) := by
  rcases escaped_eq c with ⟨hplain, hquote, hslash, hcontrol⟩ | ⟨code, hcode, hread⟩
  · rw [hplain, List.singleton_append]
    refine readBasicLines_cons ?_ hslash fun _ hc => absurd hc hquote
    rw [hcontrol]
    exact nofun
  · rw [hcode, List.cons_append, readBasicLines, continuation?_eq_none (hread rest), hread]

theorem readBasicLines_closing (hrest : ClearOf '"' rest) {n : Nat} (hn : n ≤ 2) :
    readBasicLines (List.replicate n '"' ++ (List.replicate 3 '"' ++ rest)) =
      some (List.replicate n '"', rest) := by
  have hclosing := closing?_replicate hrest hn
  rw [← List.append_assoc, List.replicate_append_replicate]
  simp only [List.replicate_succ, List.cons_append] at hclosing ⊢
  rw [readBasicLines, hclosing]

theorem escapedLines_cons (hline : c ≠ '\n') (hquote : c ≠ '"') (quotes : Nat)
    (cs : List Char) : escapedLines quotes (c :: cs) = escaped c ++ escapedLines 0 cs := by
  rw [escapedLines]
  · exact hline
  · exact hquote

theorem escapedLines_replicate {quotes n : Nat} (h : quotes + n ≤ 2) :
    escapedLines quotes (List.replicate n '"') = List.replicate n '"' := by
  induction n generalizing quotes with
  | zero => rfl
  | succ n ih =>
    rw [List.replicate_succ, escapedLines, if_pos (by omega), ih (by omega)]

/-- A text starts with a quote that stays only if it starts with a quote, and fewer than two stay
right before. -/
theorem eq_quote_of_escapedLines {quotes : Nat} {after : List Char}
    (h : escapedLines quotes (c :: cs) ++ rest = '"' :: after) :
    c = '"' ∧ quotes < 2 ∧ escapedLines (quotes + 1) cs ++ rest = after := by
  by_cases hline : c = '\n'
  · rw [hline, escapedLines] at h
    cases h
  by_cases hquote : c = '"'
  · rw [hquote, escapedLines] at h
    split at h
    · next hquotes => exact ⟨hquote, hquotes, (List.cons.inj h).2⟩
    · cases h
  · rw [escapedLines_cons hline hquote, List.append_assoc] at h
    exact absurd h (clearOf_escaped c (.inl rfl) _ _)

/-- If two quotes follow one that stays, the text ends with those of them that belong to it. -/
theorem exists_replicate_of_escapedLines {quotes : Nat} {after : List Char} (hpos : 1 ≤ quotes)
    (hquotes : quotes ≤ 2)
    (h : escapedLines quotes cs ++ (List.replicate 3 '"' ++ rest) = '"' :: '"' :: after) :
    ∃ n, quotes + n ≤ 2 ∧ cs = List.replicate n '"' := by
  cases cs with
  | nil => exact ⟨0, hquotes, rfl⟩
  | cons c cs =>
    obtain ⟨rfl, hfirst, hnext⟩ := eq_quote_of_escapedLines h
    cases cs with
    | nil => exact ⟨1, hfirst, rfl⟩
    | cons c cs =>
      obtain ⟨-, hsecond, -⟩ := eq_quote_of_escapedLines hnext
      omega

theorem readBasicLines_escapedLines (hrest : ClearOf '"' rest) (quotes : Nat) (cs : List Char) :
    readBasicLines (escapedLines quotes cs ++ (List.replicate 3 '"' ++ rest)) =
      some (cs, rest) := by
  induction cs generalizing quotes with
  | nil => exact readBasicLines_closing hrest (Nat.zero_le 2)
  | cons c cs ih =>
    by_cases hline : c = '\n'
    · subst hline
      rw [escapedLines, List.cons_append,
        readBasicLines_cons (fun _ => rfl) (by decide) nofun, ih, Option.map_some]
    by_cases hquote : c = '"'
    · subst hquote
      rw [escapedLines]
      split
      · next hfew =>
        -- A reader that does not know how many quotes came before sees three in a row here only
        -- if nothing but quotes is left of the text.
        by_cases hopen : ∃ after,
            escapedLines (quotes + 1) cs ++ (List.replicate 3 '"' ++ rest) = '"' :: '"' :: after
        · obtain ⟨after, hopen⟩ := hopen
          obtain ⟨n, hn, rfl⟩ := exists_replicate_of_escapedLines (by omega) (by omega) hopen
          rw [escapedLines_replicate hn, ← List.replicate_succ]
          exact readBasicLines_closing hrest (by omega)
        · rw [List.cons_append, readBasicLines_cons (by decide) (by decide), ih, Option.map_some]
          exact fun after _ hafter => hopen ⟨after, hafter⟩
      · have hescaped := readBasicLines_escaped '"'
          (escapedLines 0 cs ++ (List.replicate 3 '"' ++ rest))
        rw [ih, Option.map_some] at hescaped
        exact hescaped
    · rw [escapedLines_cons hline hquote, List.append_assoc, readBasicLines_escaped, ih,
        Option.map_some]

theorem readLiteralLines_cons (hcontrol : isControl c = true → c = '\n')
    (hquote : ∀ after, c = '\'' → rest ≠ '\'' :: '\'' :: after) :
    readLiteralLines (c :: rest) =
      (readLiteralLines rest).map fun (text, after) => (c :: text, after) := by
  have hreturn : c ≠ '\r' := by
    rintro rfl
    cases hcontrol rfl
  rw [readLiteralLines]
  · rw [if_neg]
    simpa using hcontrol
  · exact hquote
  · exact fun _ hc => absurd hc hreturn

theorem readLiteralLines_closing (hrest : ClearOf '\'' rest) {n : Nat} (hn : n ≤ 2) :
    readLiteralLines (List.replicate n '\'' ++ (List.replicate 3 '\'' ++ rest)) =
      some (List.replicate n '\'', rest) := by
  have hclosing := closing?_replicate hrest hn
  rw [← List.append_assoc, List.replicate_append_replicate]
  simp only [List.replicate_succ, List.cons_append] at hclosing ⊢
  rw [readLiteralLines, hclosing]

theorem readLiteralLines_append (hcontrol : ∀ c ∈ cs, isControl c = true → c = '\n')
    (hrun : longestRun '\'' cs ≤ 2) (hrest : ClearOf '\'' rest) :
    readLiteralLines (cs ++ (List.replicate 3 '\'' ++ rest)) = some (cs, rest) := by
  induction cs with
  | nil => exact readLiteralLines_closing hrest (Nat.zero_le 2)
  | cons c cs ih =>
    rw [List.forall_mem_cons] at hcontrol
    have ih := ih hcontrol.2 (Nat.le_trans (longestRun_le_cons _ _ _) hrun)
    by_cases hopen : c = '\'' ∧
        ∃ after, cs ++ (List.replicate 3 '\'' ++ rest) = '\'' :: '\'' :: after
    · obtain ⟨rfl, after, hopen⟩ := hopen
      match cs, hopen with
      | [], _ => exact readLiteralLines_closing hrest (show 1 ≤ 2 by decide)
      | [second], hopen =>
        obtain ⟨rfl, -⟩ := List.cons.inj hopen
        exact readLiteralLines_closing hrest (Nat.le_refl 2)
      | second :: third :: cs, hopen =>
        obtain ⟨rfl, hnext⟩ := List.cons.inj hopen
        obtain ⟨rfl, -⟩ := List.cons.inj hnext
        exact absurd (three_le_longestRun '\'' cs) (by omega)
    · rw [List.cons_append, readLiteralLines_cons hcontrol.1, ih, Option.map_some]
      exact fun after hc hafter => hopen ⟨hc, after, hafter⟩

/-- The text can be written in the form. Literal text has no way to write what ends it, and control
characters have to be escaped. -/
def QuoteForm.Holds (cs : List Char) : QuoteForm → Prop
  | .basic => True
  | .literal => (∀ c ∈ cs, isControl c = false) ∧ '\'' ∉ cs
  | .basicLines => True
  | .literalLines => (∀ c ∈ cs, isControl c = true → c = '\n') ∧ longestRun '\'' cs ≤ 2

theorem QuoteForm.holds_ofText (cs : List Char) : (ofText cs).Holds cs := by
  unfold ofText
  extract_lets codes lines escapes double single
  have hcodes (h : codes = false) : ∀ c ∈ cs, isControl c = true → c = '\n' := by
    simpa [codes] using h
  split
  · trivial
  split
  · next h =>
    simp only [Bool.and_eq_true, Bool.not_eq_true', decide_eq_true_eq] at h
    obtain ⟨⟨hcontrol, hsingle⟩, hlines⟩ := h
    refine ⟨fun c hc => Bool.eq_false_iff.2 fun hc' => ?_, longestRun_eq_zero_iff.1 hsingle⟩
    rw [hcodes hcontrol c hc hc'] at hc
    exact absurd (List.contains_iff_mem.2 hc) (Bool.eq_false_iff.1 hlines)
  split
  · trivial
  split
  · next h =>
    simp only [Bool.and_eq_true, Bool.not_eq_true', decide_eq_true_eq] at h
    exact ⟨hcodes h.1, h.2⟩
  split <;> trivial

/-- A line end is put in front of text of several lines, and dropped again. -/
theorem dropFirstNewline_append (h : '\n' ∉ cs → afterNewline? rest = none) :
    dropFirstNewline (QuoteForm.write.firstNewline cs ++ rest) = rest := by
  unfold QuoteForm.write.firstNewline
  by_cases hline : '\n' ∈ cs
  · rw [if_pos (List.contains_iff_mem.2 hline)]
    rfl
  · rw [if_neg (mt List.contains_iff_mem.1 hline), List.nil_append, dropFirstNewline, h hline]
    rfl

theorem afterNewline?_eq_none (hline : ClearOf '\n' cs) (hreturn : ClearOf '\r' cs) :
    afterNewline? cs = none := by
  unfold afterNewline?
  split
  · exact absurd rfl (hline _)
  · exact absurd rfl (hreturn _)
  · rfl

theorem readText?_basic (hrest : ClearOf '"' rest) :
    readText? (QuoteForm.basic.write cs ++ rest) = some (cs, rest) := by
  have hopen : ∀ after, cs.flatMap escaped ++ '"' :: rest ≠ '"' :: '"' :: after := by
    intro after hafter
    cases cs with
    | nil => exact hrest after (List.cons.inj hafter).2
    | cons c cs =>
      rw [List.flatMap_cons, List.append_assoc] at hafter
      exact clearOf_escaped c (.inl rfl) _ _ hafter
  have hwrite : QuoteForm.basic.write cs ++ rest = '"' :: (cs.flatMap escaped ++ '"' :: rest) := by
    simp [QuoteForm.write]
  rw [hwrite, readText?, readBasic_flatMap]
  exact hopen

theorem readText?_literal (h : QuoteForm.literal.Holds cs) (hrest : ClearOf '\'' rest) :
    readText? (QuoteForm.literal.write cs ++ rest) = some (cs, rest) := by
  obtain ⟨hcontrol, hquote⟩ := h
  have hopen : ∀ after, cs ++ '\'' :: rest ≠ '\'' :: '\'' :: after := by
    intro after hafter
    cases cs with
    | nil => exact hrest after (List.cons.inj hafter).2
    | cons c cs =>
      obtain ⟨rfl, -⟩ := List.cons.inj hafter
      exact hquote List.mem_cons_self
  have hwrite : QuoteForm.literal.write cs ++ rest = '\'' :: (cs ++ '\'' :: rest) := by
    simp [QuoteForm.write]
  rw [hwrite, readText?, readLiteral_append hcontrol hquote]
  exact hopen

theorem readText?_basicLines (hrest : ClearOf '"' rest) :
    readText? (QuoteForm.basicLines.write cs ++ rest) = some (cs, rest) := by
  have hfirst : '\n' ∉ cs →
      afterNewline? (escapedLines 0 cs ++ (List.replicate 3 '"' ++ rest)) = none := by
    intro hline
    cases cs with
    | nil => rfl
    | cons c cs =>
      rw [List.mem_cons, not_or] at hline
      by_cases hc : c = '"'
      · rw [hc, escapedLines]
        rfl
      · rw [escapedLines_cons (Ne.symm hline.1) hc, List.append_assoc]
        exact afterNewline?_eq_none (clearOf_escaped c (.inr rfl) _)
          (clearOf_escaped c (.inr rfl) _)
  have hwrite : QuoteForm.basicLines.write cs ++ rest =
      '"' :: '"' :: '"' :: (QuoteForm.write.firstNewline cs ++
        (escapedLines 0 cs ++ (List.replicate 3 '"' ++ rest))) := by
    simp [QuoteForm.write]
  rw [hwrite, readText?, dropFirstNewline_append hfirst, readBasicLines_escapedLines hrest]

theorem readText?_literalLines (h : QuoteForm.literalLines.Holds cs)
    (hrest : ClearOf '\'' rest) :
    readText? (QuoteForm.literalLines.write cs ++ rest) = some (cs, rest) := by
  obtain ⟨hcontrol, hrun⟩ := h
  have hfirst : '\n' ∉ cs → afterNewline? (cs ++ (List.replicate 3 '\'' ++ rest)) = none := by
    intro hline
    cases cs with
    | nil => rfl
    | cons c cs =>
      have hplain : ∀ code, isControl code = true →
          ClearOf code (c :: cs ++ (List.replicate 3 '\'' ++ rest)) := by
        intro code hcode after hafter
        obtain ⟨rfl, -⟩ := List.cons.inj hafter
        rw [hcontrol c List.mem_cons_self hcode] at hline
        exact hline List.mem_cons_self
      exact afterNewline?_eq_none (hplain '\n' rfl) (hplain '\r' rfl)
  have hwrite : QuoteForm.literalLines.write cs ++ rest =
      '\'' :: '\'' :: '\'' :: (QuoteForm.write.firstNewline cs ++
        (cs ++ (List.replicate 3 '\'' ++ rest))) := by
    simp [QuoteForm.write]
  rw [hwrite, readText?, dropFirstNewline_append hfirst,
    readLiteralLines_append hcontrol hrun hrest]

/-- Every form that holds a text is read as that text. -/
theorem readText?_write {form : QuoteForm} (h : form.Holds cs) (hdouble : ClearOf '"' rest)
    (hsingle : ClearOf '\'' rest) : readText? (form.write cs ++ rest) = some (cs, rest) := by
  cases form with
  | basic => exact readText?_basic hdouble
  | literal => exact readText?_literal h hsingle
  | basicLines => exact readText?_basicLines hdouble
  | literalLines => exact readText?_literalLines h hsingle

/-- Text in quotes is read back as it was. -/
theorem readText?_quote (cs : List Char) (hdouble : ClearOf '"' rest)
    (hsingle : ClearOf '\'' rest) : readText? (quote cs ++ rest) = some (cs, rest) :=
  readText?_write (QuoteForm.holds_ofText cs) hdouble hsingle

end Scaffold.Toml
