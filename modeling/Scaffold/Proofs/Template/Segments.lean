import Scaffold.Proofs.Template.Position
import Scaffold.Template.Tag

/-!
The segments of a template, read off its characters: each tag opens at the leftmost opening
delimiter and closes at the first closing delimiter of its kind. The scanner, which goes through the
bytes, finds the same segments and never cuts a character apart.
-/

namespace Scaffold.Template

open Text

/-- The kind of tag that a brace and this character open. -/
def Delimiter.ofSecondChar? : Char → Option Delimiter
  | '{' => some .expression
  | '%' => some .directive
  | _ => none

/-- The character that closes a tag of this kind when a closing brace follows it. -/
def Delimiter.closerChar : Delimiter → Char
  | .expression => '}'
  | .directive => '%'

/-- The kind of tag that opens here, and the text after the two opening characters. -/
def opening? : List Char → Option (Delimiter × List Char)
  | '{' :: second :: rest => (Delimiter.ofSecondChar? second).map (·, rest)
  | _ => none

/-- Cuts text at its leftmost opening delimiter: the text before it, its kind, and what follows. -/
def splitOpening : List Char → Option (List Char × Delimiter × List Char)
  | [] => none
  | c :: cs =>
    match opening? (c :: cs) with
    | some (delimiter, rest) => some ([], delimiter, rest)
    | none => (splitOpening cs).map fun (before, rest) => (c :: before, rest)

/-- Cuts text at its first closing delimiter of the given kind: the content of the tag, and what
follows the delimiter. -/
def Delimiter.splitClosing (d : Delimiter) : List Char → Option (List Char × List Char)
  | [] => none
  | c :: cs =>
    if c = d.closerChar ∧ cs.head? = some '}' then some ([], cs.tail)
    else (d.splitClosing cs).map fun (content, rest) => (c :: content, rest)

theorem Delimiter.ofSecondChar?_eq_some_iff {c : Char} {d : Delimiter} :
    Delimiter.ofSecondChar? c = some d ↔ ['{', c] = d.opening.toList := by
  constructor
  · intro h
    unfold ofSecondChar? at h
    split at h <;> cases h <;> rfl
  · intro h
    cases d <;> simp_all [ofSecondChar?, Delimiter.opening]

theorem opening?_eq_some_iff {cs rest : List Char} {d : Delimiter} :
    opening? cs = some (d, rest) ↔ cs = d.opening.toList ++ rest := by
  constructor
  · intro h
    unfold opening? at h
    split at h
    · obtain ⟨d', hd, he⟩ := Option.map_eq_some_iff.1 h
      cases he
      rw [← Delimiter.ofSecondChar?_eq_some_iff.1 hd]
      rfl
    · cases h
  · rintro rfl
    cases d <;> rfl

theorem splitOpening_eq {cs before rest : List Char} {d : Delimiter}
    (h : splitOpening cs = some (before, d, rest)) : cs = before ++ d.opening.toList ++ rest := by
  induction cs generalizing before with
  | nil => cases h
  | cons c cs ih =>
    rw [splitOpening] at h
    split at h
    · next heq =>
      cases h
      exact opening?_eq_some_iff.1 heq
    · obtain ⟨⟨before', rest'⟩, hs, he⟩ := Option.map_eq_some_iff.1 h
      cases he
      rw [ih hs]
      rfl

theorem Delimiter.splitClosing_eq {d : Delimiter} {cs content rest : List Char}
    (h : d.splitClosing cs = some (content, rest)) : cs = content ++ d.closing.toList ++ rest := by
  induction cs generalizing content with
  | nil => cases h
  | cons c cs ih =>
    rw [splitClosing] at h
    split at h
    · next hc =>
      cases h
      obtain ⟨cs', rfl⟩ := List.head?_eq_some_iff.1 hc.2
      rw [hc.1]
      cases d <;> rfl
    · obtain ⟨⟨content', rest'⟩, hs, he⟩ := Option.map_eq_some_iff.1 h
      cases he
      rw [ih hs]
      rfl

theorem Delimiter.length_opening (d : Delimiter) : d.opening.toList.length = 2 := by
  cases d <;> rfl

theorem Delimiter.length_closing (d : Delimiter) : d.closing.toList.length = 2 := by
  cases d <;> rfl

@[simp] theorem newlines_append (cs cs' : List Char) :
    newlines (cs ++ cs') = newlines cs + newlines cs' :=
  List.count_append

@[simp] theorem newlines_opening (d : Delimiter) : newlines d.opening.toList = 0 := by
  cases d <;> rfl

@[simp] theorem newlines_closing (d : Delimiter) : newlines d.closing.toList = 0 := by
  cases d <;> rfl

/-- Literal text as a segment, and no segment for no text. -/
def Segment.ofText : List Char → List Segment
  | [] => []
  | text => [.literal text]

/-- The segments of the characters of a text that starts at the given line. -/
def cut (line : Nat) (cs : List Char) : List Segment :=
  match _hOpen : splitOpening cs with
  | none => Segment.ofText cs
  | some (before, delimiter, rest) =>
    let tagLine := line + newlines before
    Segment.ofText before ++
      match _hClose : delimiter.splitClosing rest with
      | none => [.unclosed delimiter tagLine]
      | some (content, after) =>
        .tag delimiter content tagLine :: cut (tagLine + newlines content) after
termination_by cs.length
decreasing_by
  have hOpen := congrArg List.length (splitOpening_eq _hOpen)
  have hClose := congrArg List.length (Delimiter.splitClosing_eq _hClose)
  simp only [List.length_append, Delimiter.length_opening, Delimiter.length_closing] at hOpen hClose
  omega

theorem cut_of_splitOpening_none {line : Nat} {cs : List Char} (h : splitOpening cs = none) :
    cut line cs = Segment.ofText cs := by
  rw [cut]
  split
  · rfl
  · next heq => rw [h] at heq; cases heq

theorem cut_of_splitClosing_none {line : Nat} {cs before rest : List Char} {d : Delimiter}
    (hOpen : splitOpening cs = some (before, d, rest)) (hClose : d.splitClosing rest = none) :
    cut line cs = Segment.ofText before ++ [.unclosed d (line + newlines before)] := by
  rw [cut]
  split
  · next heq => rw [hOpen] at heq; cases heq
  · next heq =>
    rw [hOpen] at heq
    cases heq
    split
    · rfl
    · next heq => rw [hClose] at heq; cases heq

theorem cut_of_split {line : Nat} {cs before rest content after : List Char} {d : Delimiter}
    (hOpen : splitOpening cs = some (before, d, rest))
    (hClose : d.splitClosing rest = some (content, after)) :
    cut line cs = Segment.ofText before ++ .tag d content (line + newlines before) ::
      cut (line + newlines before + newlines content) after := by
  rw [cut]
  split
  · next heq => rw [hOpen] at heq; cases heq
  · next heq =>
    rw [hOpen] at heq
    cases heq
    split
    · next heq => rw [hClose] at heq; cases heq
    · next heq =>
      rw [hClose] at heq
      cases heq
      rfl

/-- Induction along the tags of a text: it has none, or one that is never closed, or one with
shorter text behind it. -/
theorem cut_induction {motive : List Char → Prop}
    (text : ∀ cs, splitOpening cs = none → motive cs)
    (unclosed : ∀ cs before d rest, splitOpening cs = some (before, d, rest) →
      d.splitClosing rest = none → motive cs)
    (tag : ∀ cs before d rest content after, splitOpening cs = some (before, d, rest) →
      d.splitClosing rest = some (content, after) → motive after → motive cs)
    (cs : List Char) : motive cs := by
  induction hn : cs.length using Nat.strongRecOn generalizing cs with
  | _ n ih =>
    cases hopen : splitOpening cs with
    | none => exact text cs hopen
    | some split =>
      obtain ⟨before, d, rest⟩ := split
      cases hclose : d.splitClosing rest with
      | none => exact unclosed cs before d rest hopen hclose
      | some split =>
        obtain ⟨content, after⟩ := split
        have hshorter : after.length < n := by
          have h1 := congrArg List.length (splitOpening_eq hopen)
          have h2 := congrArg List.length (Delimiter.splitClosing_eq hclose)
          simp only [List.length_append, d.length_opening, d.length_closing] at h1 h2
          omega
        exact tag cs before d rest content after hopen hclose (ih _ hshorter after rfl)

/-! ### Steps of the scanner -/

section Scan

variable {source : ByteArray} {before after : List Char} {c : Char} {position line : Nat}

theorem newlines_cons (c : Char) (cs : List Char) :
    newlines (c :: cs) = newlines [c] + newlines cs := by
  simp only [newlines, List.count_cons, List.count_nil]
  omega

theorem newlines_singleton_of_ne (h : c ≠ '\n') : newlines [c] = 0 := by
  simp [newlines, h]

theorem lineAfter_eq (h : Between source before (c :: after) position)
    (hlt : position < source.size) : lineAfter line source[position] = line + newlines [c] := by
  by_cases hc : c = '\n'
  · have hbyte := (h.getElem_eq_ascii_iff hlt (a := '\n') (by decide)).2 hc
    rw [lineAfter, if_pos hbyte, hc]
    rfl
  · have hbyte := mt (h.getElem_eq_ascii_iff hlt (a := '\n') (by decide)).1 hc
    rw [lineAfter, if_neg hbyte, newlines_singleton_of_ne hc, Nat.add_zero]

/-- A state that passes every byte but one passes every character but one. -/
theorem scan_skip {state : ScanState} {stop : Char} (hstop : stop.toNat < 128)
    (hpass : ∀ p l (hp : p < source.size), source[p] ≠ stop.toUInt8 →
      scan source p l state = scan source (p + 1) (lineAfter l source[p]) state)
    (h : Between source before (c :: after) position) (hc : c ≠ stop) :
    scan source position line state =
      scan source (position + (String.utf8EncodeChar c).length) (line + newlines [c]) state := by
  rcases Nat.lt_or_ge c.toNat 128 with hascii | hwide
  · rw [utf8EncodeChar_ascii hascii, List.length_singleton,
      hpass position line h.lt_size (mt (h.getElem_eq_ascii_iff h.lt_size hstop).1 hc),
      lineAfter_eq h]
  · have hbytes : ∀ n ≤ (String.utf8EncodeChar c).length,
        scan source position line state = scan source (position + n) line state := by
      intro n hn
      induction n with
      | zero => rfl
      | succ n ih =>
        have hlt : position + n < source.size := by
          have := h.add_length_le_size
          omega
        have hbyte := h.getElem_wide hwide (i := n) hn hlt
        have hne : ∀ a : Char, a.toNat < 128 → source[position + n] ≠ a.toUInt8 := by
          intro a ha heq
          rw [heq, Char.toUInt8, UInt32.toNat_toUInt8] at hbyte
          have : a.toNat = a.val.toNat := rfl
          omega
        rw [ih (by omega), hpass _ _ hlt (hne stop hstop), lineAfter, if_neg (hne '\n' (by decide))]
        rfl
    have hline : c ≠ '\n' := by
      rintro rfl
      exact absurd hwide (by decide)
    rw [hbytes _ (Nat.le_refl _), newlines_singleton_of_ne hline, Nat.add_zero]

theorem scan_text_pass {start : Nat} (hlt : position < source.size)
    (h : source[position] ≠ '{'.toUInt8) :
    scan source position line (.text start) =
      scan source (position + 1) (lineAfter line source[position]) (.text start) := by
  rw [scan, dif_pos hlt]
  exact if_neg h

theorem scan_inTag_pass {d : Delimiter} {content tagLine : Nat} (hlt : position < source.size)
    (h : source[position] ≠ d.closer) :
    scan source position line (.inTag d content tagLine) =
      scan source (position + 1) (lineAfter line source[position]) (.inTag d content tagLine) := by
  rw [scan, dif_pos hlt]
  exact if_neg h

theorem scan_finish {state : ScanState} (h : Between source before [] position) :
    scan source position line state = state.finish source.size := by
  rw [scan, dif_neg (by rw [h.size_eq]; omega)]

theorem scan_text_brace {start : Nat} (h : Between source before ('{' :: after) position) :
    scan source position line (.text start) =
      scan source (position + 1) line (.seenOpen start position) := by
  rw [scan, dif_pos h.lt_size]
  exact if_pos (h.getElem_ascii (by decide) h.lt_size)

theorem ofSecond?_eq (h : Between source before (c :: after) position)
    (hlt : position < source.size) :
    Delimiter.ofSecond? source[position] = Delimiter.ofSecondChar? c := by
  have hbrace := h.getElem_eq_ascii_iff hlt (a := '{') (by decide)
  have hpercent := h.getElem_eq_ascii_iff hlt (a := '%') (by decide)
  simp only [Delimiter.ofSecond?, hbrace, hpercent]
  by_cases h1 : c = '{'
  · subst h1
    rfl
  · by_cases h2 : c = '%'
    · subst h2
      rfl
    · rw [if_neg h1, if_neg h2]
      unfold Delimiter.ofSecondChar?
      split <;> first | rfl | contradiction

theorem scan_seenOpen {start brace : Nat} (h : Between source before (c :: after) position) :
    scan source position line (.seenOpen start brace) =
      match Delimiter.ofSecondChar? c with
      | some d =>
        Token.ofText start brace ++
          scan source (position + 1) line (.inTag d (position + 1) line)
      | none => scan source position line (.text start) := by
  rw [scan, dif_pos h.lt_size]
  cases hsecond : Delimiter.ofSecondChar? c <;> simp only [ofSecond?_eq h h.lt_size, hsecond]

theorem Delimiter.closer_eq (d : Delimiter) : d.closer = d.closerChar.toUInt8 := by
  cases d <;> rfl

theorem Delimiter.closerChar_toNat_lt (d : Delimiter) : d.closerChar.toNat < 128 := by
  cases d <;> decide

theorem scan_inTag_closer {d : Delimiter} {content tagLine : Nat}
    (h : Between source before (d.closerChar :: after) position) :
    scan source position line (.inTag d content tagLine) =
      scan source (position + 1) line (.seenClose d content position tagLine) := by
  rw [scan, dif_pos h.lt_size]
  refine if_pos ?_
  rw [h.getElem_ascii d.closerChar_toNat_lt h.lt_size, d.closer_eq]

theorem scan_seenClose_brace {d : Delimiter} {content close tagLine : Nat}
    (h : Between source before ('}' :: after) position) :
    scan source position line (.seenClose d content close tagLine) =
      .tag d ⟨content, close⟩ tagLine ::
        scan source (position + 1) line (.text (position + 1)) := by
  rw [scan, dif_pos h.lt_size]
  exact if_pos (h.getElem_ascii (by decide) h.lt_size)

theorem scan_seenClose_of_ne {d : Delimiter} {content close tagLine : Nat}
    (h : Between source before (c :: after) position) (hc : c ≠ '}') :
    scan source position line (.seenClose d content close tagLine) =
      scan source position line (.inTag d content tagLine) := by
  rw [scan, dif_pos h.lt_size]
  exact if_neg (mt (h.getElem_eq_ascii_iff h.lt_size (by decide)).1 hc)

theorem Delimiter.utf8Encode_opening_size (d : Delimiter) : d.opening.toList.utf8Encode.size = 2 := by
  cases d <;> rfl

theorem Delimiter.utf8Encode_closing_size (d : Delimiter) : d.closing.toList.utf8Encode.size = 2 := by
  cases d <;> rfl

theorem size_utf8Encode_cons (c : Char) (cs : List Char) :
    (c :: cs).utf8Encode.size = (String.utf8EncodeChar c).length + cs.utf8Encode.size := by
  rw [List.utf8Encode_cons, ByteArray.size_append, List.utf8Encode_singleton, List.size_toByteArray]

/-- A lone brace is text. -/
theorem scan_text_lone_brace {start : Nat} {cs : List Char}
    (h : Between source before ('{' :: cs) position) (hopen : opening? ('{' :: cs) = none) :
    scan source position line (.text start) = scan source (position + 1) line (.text start) := by
  rw [scan_text_brace h]
  have hnext := h.next_ascii (by decide)
  cases cs with
  | nil => rw [scan_finish hnext, scan_finish hnext]; rfl
  | cons second rest =>
    have hsecond : Delimiter.ofSecondChar? second = none := by
      simpa [opening?] using hopen
    rw [scan_seenOpen hnext, hsecond]

/-- Text without an opening delimiter is one literal. -/
theorem scan_text_of_splitOpening_none {start : Nat} {cs : List Char}
    (h : Between source before cs position) (hopen : splitOpening cs = none) :
    scan source position line (.text start) = Token.ofText start source.size := by
  induction cs generalizing before position line with
  | nil => exact scan_finish h
  | cons c cs ih =>
    rw [splitOpening] at hopen
    split at hopen
    · cases hopen
    · next hhere =>
      have hrest := Option.map_eq_none_iff.1 hopen
      by_cases hc : c = '{'
      · subst hc
        rw [scan_text_lone_brace h hhere]
        exact ih (h.next_ascii (by decide)) hrest
      · rw [scan_skip (show '{'.toNat < 128 by decide)
          (fun p l hp hne => scan_text_pass hp hne) h hc]
        exact ih h.next hrest

/-- The scanner leaves text at the leftmost opening delimiter. -/
theorem scan_text_of_splitOpening {start : Nat} {cs text rest : List Char} {d : Delimiter}
    (h : Between source before cs position) (hopen : splitOpening cs = some (text, d, rest)) :
    scan source position line (.text start) =
      Token.ofText start (position + text.utf8Encode.size) ++
        scan source (position + text.utf8Encode.size + 2) (line + newlines text)
          (.inTag d (position + text.utf8Encode.size + 2) (line + newlines text)) := by
  induction cs generalizing before position line text with
  | nil => cases hopen
  | cons c cs ih =>
    rw [splitOpening] at hopen
    split at hopen
    · next hhere =>
      cases hopen
      have heq := opening?_eq_some_iff.1 hhere
      obtain ⟨second, hsecond⟩ : ∃ second, ['{', second] = d.opening.toList := by
        cases d
        · exact ⟨'{', rfl⟩
        · exact ⟨'%', rfl⟩
      rw [← hsecond] at heq
      cases heq
      rw [scan_text_brace h, scan_seenOpen (h.next_ascii (by decide)),
        Delimiter.ofSecondChar?_eq_some_iff.2 hsecond]
      rfl
    · next hhere =>
      obtain ⟨⟨text', rest'⟩, hs, he⟩ := Option.map_eq_some_iff.1 hopen
      cases he
      by_cases hc : c = '{'
      · subst hc
        rw [scan_text_lone_brace h hhere, ih (h.next_ascii (by decide)) hs,
          size_utf8Encode_cons, newlines_cons '{' text', newlines_singleton_of_ne (by decide),
          utf8EncodeChar_ascii (by decide)]
        simp only [List.length_singleton, Nat.zero_add, Nat.add_assoc]
      · rw [scan_skip (show '{'.toNat < 128 by decide)
          (fun p l hp hne => scan_text_pass hp hne) h hc,
          ih h.next hs, size_utf8Encode_cons, newlines_cons c text']
        simp only [Nat.add_assoc]

/-- The first half of a closing delimiter alone is content. -/
theorem scan_inTag_lone_closer {d : Delimiter} {content tagLine : Nat} {cs : List Char}
    (h : Between source before (d.closerChar :: cs) position) (hcs : cs.head? ≠ some '}') :
    scan source position line (.inTag d content tagLine) =
      scan source (position + 1) line (.inTag d content tagLine) := by
  rw [scan_inTag_closer h]
  have hnext := h.next_ascii d.closerChar_toNat_lt
  cases cs with
  | nil => rw [scan_finish hnext, scan_finish hnext]; rfl
  | cons c rest =>
    have hc : c ≠ '}' := by
      rintro rfl
      exact hcs rfl
    exact scan_seenClose_of_ne hnext hc

theorem newlines_singleton_closer (d : Delimiter) : newlines [d.closerChar] = 0 := by
  cases d <;> rfl

/-- A tag without a closing delimiter takes the rest of the text. -/
theorem scan_inTag_of_splitClosing_none {d : Delimiter} {content tagLine : Nat} {cs : List Char}
    (h : Between source before cs position) (hclose : d.splitClosing cs = none) :
    scan source position line (.inTag d content tagLine) = [.unclosed d tagLine] := by
  induction cs generalizing before position line with
  | nil => exact scan_finish h
  | cons c cs ih =>
    rw [Delimiter.splitClosing] at hclose
    split at hclose
    · cases hclose
    · next hhere =>
      have hrest := Option.map_eq_none_iff.1 hclose
      by_cases hc : c = d.closerChar
      · subst hc
        rw [scan_inTag_lone_closer h (fun hcs => hhere ⟨rfl, hcs⟩)]
        exact ih (h.next_ascii d.closerChar_toNat_lt) hrest
      · rw [scan_skip d.closerChar_toNat_lt (fun p l hp hne =>
          scan_inTag_pass hp (by rwa [d.closer_eq])) h hc]
        exact ih h.next hrest

/-- The scanner leaves a tag at its first closing delimiter. -/
theorem scan_inTag_of_splitClosing {d : Delimiter} {start tagLine : Nat}
    {cs content rest : List Char} (h : Between source before cs position)
    (hclose : d.splitClosing cs = some (content, rest)) :
    scan source position line (.inTag d start tagLine) =
      .tag d ⟨start, position + content.utf8Encode.size⟩ tagLine ::
        scan source (position + content.utf8Encode.size + 2) (line + newlines content)
          (.text (position + content.utf8Encode.size + 2)) := by
  induction cs generalizing before position line content with
  | nil => cases hclose
  | cons c cs ih =>
    rw [Delimiter.splitClosing] at hclose
    split at hclose
    · next hhere =>
      cases hclose
      obtain ⟨rfl, hhead⟩ := hhere
      obtain ⟨cs', rfl⟩ := List.head?_eq_some_iff.1 hhead
      rw [scan_inTag_closer h, scan_seenClose_brace (h.next_ascii d.closerChar_toNat_lt)]
      rfl
    · next hhere =>
      obtain ⟨⟨content', rest'⟩, hs, he⟩ := Option.map_eq_some_iff.1 hclose
      cases he
      by_cases hc : c = d.closerChar
      · subst hc
        rw [scan_inTag_lone_closer h (fun hcs => hhere ⟨rfl, hcs⟩),
          ih (h.next_ascii d.closerChar_toNat_lt) hs, size_utf8Encode_cons,
          newlines_cons d.closerChar content', newlines_singleton_closer,
          utf8EncodeChar_ascii d.closerChar_toNat_lt]
        simp only [List.length_singleton, Nat.zero_add, Nat.add_assoc]
      · rw [scan_skip d.closerChar_toNat_lt (fun p l hp hne =>
            scan_inTag_pass hp (by rwa [d.closer_eq])) h hc,
          ih h.next hs, size_utf8Encode_cons, newlines_cons c content']
        simp only [Nat.add_assoc]

end Scan

theorem segment?_ofText {source : ByteArray} {before text after : List Char} {position : Nat}
    (h : Between source before (text ++ after) position) :
    (Token.ofText position (position + text.utf8Encode.size)).map (Token.segment? source) =
      (Segment.ofText text).map some := by
  cases text with
  | nil => simp [Token.ofText, Segment.ofText]
  | cons c text =>
    have hpos : 0 < (c :: text).utf8Encode.size := by
      have := c.utf8Size_pos
      rw [size_utf8Encode_cons, String.length_utf8EncodeChar]
      omega
    rw [Token.ofText, if_pos (by omega)]
    simp [Token.segment?, h.text?_span, Segment.ofText]

/-- The scanner finds the segments that the characters of the text have. -/
theorem scan_segment? {source : ByteArray} {before cs : List Char} {position line : Nat}
    (h : Between source before cs position) :
    (scan source position line (.text position)).map (Token.segment? source) =
      (cut line cs).map some := by
  induction cs using cut_induction generalizing before position line with
  | text cs hopen =>
    rw [scan_text_of_splitOpening_none h hopen, cut_of_splitOpening_none hopen, h.size_eq_add]
    have htext : Between source before (cs ++ []) position := by rwa [List.append_nil]
    exact segment?_ofText htext
  | unclosed cs text d rest hopen hclose =>
    have hcs := splitOpening_eq hopen
    rw [List.append_assoc] at hcs
    subst hcs
    have htag := (h.append text).append d.opening.toList
    rw [d.utf8Encode_opening_size] at htag
    rw [scan_text_of_splitOpening h hopen, List.map_append, segment?_ofText h,
      scan_inTag_of_splitClosing_none htag hclose, cut_of_splitClosing_none hopen hclose,
      List.map_append]
    rfl
  | tag cs text d rest content after hopen hclose ih =>
    have hcs := splitOpening_eq hopen
    have hrest := Delimiter.splitClosing_eq hclose
    rw [List.append_assoc] at hcs hrest
    subst hcs hrest
    have htag := (h.append text).append d.opening.toList
    rw [d.utf8Encode_opening_size] at htag
    have hafter := (htag.append content).append d.closing.toList
    rw [d.utf8Encode_closing_size] at hafter
    rw [scan_text_of_splitOpening h hopen, List.map_append, segment?_ofText h,
      scan_inTag_of_splitClosing htag hclose, cut_of_split hopen hclose, List.map_append,
      List.map_cons, List.map_cons, ih hafter]
    simp only [Token.segment?, htag.text?_span, Option.map_some, String.toList_ofList]

theorem tokens_segment? (text : String) :
    (tokens text).map (Token.segment? text.toUTF8) = (cut 1 text.toList).map some :=
  scan_segment? (Between.start text)

theorem segments_eq_cut (text : String) : segments text = cut 1 text.toList := by
  have h := congrArg (List.filterMap id) (tokens_segment? text)
  rwa [List.filterMap_map, List.filterMap_map, Function.id_comp, Function.id_comp,
    List.filterMap_some] at h

/-- The scanner never cuts a character apart. -/
theorem isSome_segment? {text : String} {token : Token} (h : token ∈ tokens text) :
    (token.segment? text.toUTF8).isSome := by
  have hmem := List.mem_map_of_mem (f := Token.segment? text.toUTF8) h
  rw [tokens_segment?] at hmem
  obtain ⟨segment, _, heq⟩ := List.mem_map.1 hmem
  rw [← heq]
  rfl

end Scaffold.Template
