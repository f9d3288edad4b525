import Scaffold.Proofs.Text.Encoding
import Scaffold.Template.Scanner

/-!
Byte positions between the characters of a text. The bytes of a character outside ASCII are all
above the ASCII range, so no delimiter is ever found inside a character, and a stretch of bytes
between two such positions is the text of the characters between them.
-/

namespace Scaffold.Template

open Text

/-- The position of a text between the characters before and after it. -/
structure Between (source : ByteArray) (before after : List Char) (position : Nat) : Prop where
  source_eq : source = (before ++ after).utf8Encode
  position_eq : position = before.utf8Encode.size

namespace Between

variable {source : ByteArray} {before after : List Char} {c : Char} {position : Nat}

theorem start (text : String) : Between text.toUTF8 [] text.toList 0 where
  source_eq := String.utf8Encode_toList.symm
  position_eq := by simp

theorem append (stretch : List Char) (h : Between source before (stretch ++ after) position) :
    Between source (before ++ stretch) after (position + stretch.utf8Encode.size) where
  source_eq := by rw [h.source_eq, List.append_assoc]
  position_eq := by rw [h.position_eq, List.utf8Encode_append, ByteArray.size_append]

theorem next (h : Between source before (c :: after) position) :
    Between source (before ++ [c]) after (position + (String.utf8EncodeChar c).length) := by
  have := append [c] h
  rwa [List.utf8Encode_singleton, List.size_toByteArray] at this

theorem next_ascii (hc : c.toNat < 128) (h : Between source before (c :: after) position) :
    Between source (before ++ [c]) after (position + 1) := by
  have := h.next
  rwa [utf8EncodeChar_ascii hc] at this

theorem size_eq (h : Between source before [] position) : source.size = position := by
  rw [h.source_eq, h.position_eq, List.append_nil]

theorem size_eq_add (h : Between source before after position) :
    source.size = position + after.utf8Encode.size := by
  rw [h.source_eq, h.position_eq, List.utf8Encode_append, ByteArray.size_append]

theorem add_length_le_size (h : Between source before (c :: after) position) :
    position + (String.utf8EncodeChar c).length ≤ source.size := by
  have := h.next.size_eq_add
  omega

theorem lt_size (h : Between source before (c :: after) position) : position < source.size := by
  have hle := h.add_length_le_size
  have hpos := c.utf8Size_pos
  rw [String.length_utf8EncodeChar] at hle
  omega

theorem getElem_add (h : Between source before (c :: after) position) {i : Nat}
    (hi : i < (String.utf8EncodeChar c).length) (hlt : position + i < source.size) :
    source[position + i] = (String.utf8EncodeChar c)[i] := by
  obtain ⟨hsource, hposition⟩ := h
  subst hsource hposition
  have hsplit : (before ++ c :: after).utf8Encode =
      before.utf8Encode ++ ((String.utf8EncodeChar c).toByteArray ++ after.utf8Encode) := by
    rw [List.utf8Encode_append, List.utf8Encode_cons, List.utf8Encode_singleton]
  have hsize : i < (String.utf8EncodeChar c).toByteArray.size := by
    rwa [List.size_toByteArray]
  simp only [hsplit]
  rw [ByteArray.getElem_append_right (by omega), ByteArray.getElem_append_left (by omega)]
  simp

theorem getElem_ascii (h : Between source before (c :: after) position) (hc : c.toNat < 128)
    (hlt : position < source.size) : source[position] = c.toUInt8 := by
  have hget := h.getElem_add (i := 0) (by simp [utf8EncodeChar_ascii hc]) hlt
  simpa [utf8EncodeChar_ascii hc] using hget

theorem getElem_wide (h : Between source before (c :: after) position) (hc : 128 ≤ c.toNat)
    {i : Nat} (hi : i < (String.utf8EncodeChar c).length) (hlt : position + i < source.size) :
    128 ≤ source[position + i].toNat := by
  rw [h.getElem_add hi hlt]
  exact utf8EncodeChar_wide hc _ (List.getElem_mem _)

/-- No byte at which a character begins is taken for another ASCII character. -/
theorem getElem_eq_ascii_iff (h : Between source before (c :: after) position)
    (hlt : position < source.size) {a : Char} (ha : a.toNat < 128) :
    source[position] = a.toUInt8 ↔ c = a := by
  rcases Nat.lt_or_ge c.toNat 128 with hc | hc
  · rw [h.getElem_ascii hc hlt]
    constructor
    · intro heq
      have hnat := congrArg UInt8.toNat heq
      simp only [Char.toUInt8, UInt32.toNat_toUInt8] at hnat
      apply Char.ext
      apply UInt32.toNat_inj.1
      have h1 : c.toNat = c.val.toNat := rfl
      have h2 : a.toNat = a.val.toNat := rfl
      omega
    · rintro rfl
      rfl
  · have hwide := h.getElem_wide hc (i := 0) (by
      rw [String.length_utf8EncodeChar]
      exact c.utf8Size_pos) hlt
    constructor
    · intro heq
      simp only [Nat.add_zero, heq, Char.toUInt8, UInt32.toNat_toUInt8] at hwide
      have h2 : a.toNat = a.val.toNat := rfl
      omega
    · rintro rfl
      omega

/-- A text may be cut between any two of its characters. -/
theorem isBoundary (h : Between source before after position) :
    isBoundary source position = true := by
  cases after with
  | nil => simp [Template.isBoundary, h.size_eq]
  | cons c after =>
    have hpos : 0 < (String.utf8EncodeChar c).length := by
      rw [String.length_utf8EncodeChar]
      exact c.utf8Size_pos
    have hbyte := h.getElem_add hpos h.lt_size
    rw [Template.isBoundary, dif_pos h.lt_size, decide_eq_true_iff]
    exact hbyte ▸ UInt8.isUTF8FirstByte_getElem_zero_utf8EncodeChar

/-- The bytes between two positions are the text of the characters between them. -/
theorem text?_span {stretch : List Char} (h : Between source before (stretch ++ after) position) :
    Span.text? source ⟨position, position + stretch.utf8Encode.size⟩ =
      some (String.ofList stretch) := by
  have hcut : position ≤ position + stretch.utf8Encode.size ∧
      Template.isBoundary source position ∧
      Template.isBoundary source (position + stretch.utf8Encode.size) :=
    ⟨Nat.le_add_right .., h.isBoundary, (h.append stretch).isBoundary⟩
  rw [Span.text?, if_pos hcut]
  obtain ⟨hsource, hposition⟩ := h
  subst hsource hposition
  have hextract : (before ++ (stretch ++ after)).utf8Encode.extract before.utf8Encode.size
      (before.utf8Encode.size + stretch.utf8Encode.size) = stretch.utf8Encode := by
    rw [List.utf8Encode_append, List.utf8Encode_append, ByteArray.extract_append, Nat.sub_self,
      Nat.add_sub_cancel_left, ByteArray.extract_append_eq_left rfl,
      ByteArray.extract_eq_empty_iff.2 (by omega), ByteArray.empty_append]
  have hvalid : stretch.utf8Encode.IsValidUTF8 := ByteArray.isValidUTF8_utf8Encode
  rw [hextract, String.fromUTF8?, dif_pos hvalid, Option.some.injEq,
    ← String.toByteArray_inj, String.toByteArray_ofList]
  rfl

end Between

end Scaffold.Template
