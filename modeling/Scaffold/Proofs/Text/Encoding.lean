import Mathlib.Data.List.Basic
import Scaffold.Text.Encoding

/-!
Reading the bytes of a text gives the text back, so that bytes are those of one text at most. Bytes
that are those of no text read as a text with a replacement character in it.
-/

namespace Scaffold.Text

variable {bs : List UInt8} {s t : String} {b : UInt8}

theorem utf8EncodeChar_ascii {c : Char} (h : c.toNat < 128) :
    String.utf8EncodeChar c = [c.toUInt8] := by
  have hle : c.val.toNat ≤ 0x7f := by
    have : c.toNat = c.val.toNat := rfl
    omega
  rw [String.utf8EncodeChar, if_pos hle]
  rfl

theorem utf8EncodeChar_wide {c : Char} (h : 128 ≤ c.toNat) :
    ∀ byte ∈ String.utf8EncodeChar c, 128 ≤ byte.toNat := by
  have hgt : ¬ c.val.toNat ≤ 0x7f := by
    have : c.toNat = c.val.toNat := rfl
    omega
  intro byte hbyte
  rw [String.utf8EncodeChar, if_neg hgt] at hbyte
  split at hbyte
  · simp only [List.mem_cons, List.not_mem_nil, or_false] at hbyte
    rcases hbyte with rfl | rfl <;> rw [UInt8.toNat_ofNat'] <;> omega
  · split at hbyte
    · simp only [List.mem_cons, List.not_mem_nil, or_false] at hbyte
      rcases hbyte with rfl | rfl | rfl <;> rw [UInt8.toNat_ofNat'] <;> omega
    · simp only [List.mem_cons, List.not_mem_nil, or_false] at hbyte
      rcases hbyte with rfl | rfl | rfl | rfl <;> rw [UInt8.toNat_ofNat'] <;> omega

theorem toByteArray_eq (bs : List UInt8) : ByteArray.mk bs.toArray = bs.toByteArray :=
  ByteArray.ext (List.data_toByteArray).symm

theorem firstChar?_encode_append (c : Char) (bs : List UInt8) :
    firstChar? (String.utf8EncodeChar c ++ bs) = some c := by
  rw [firstChar?, toByteArray_eq, List.toByteArray_append]
  exact ByteArray.utf8DecodeChar?_utf8EncodeChar_append

theorem exists_of_firstChar?_eq_some {c : Char} (h : firstChar? bs = some c) :
    ∃ rest, bs = String.utf8EncodeChar c ++ rest := by
  rw [firstChar?, toByteArray_eq] at h
  obtain ⟨rest, hrest⟩ := ByteArray.exists_of_utf8DecodeChar?_eq_some h
  refine ⟨rest.data.toList, ?_⟩
  have hbytes := congrArg (·.data.toList) hrest
  simpa [List.data_toByteArray] using hbytes

/-- The rest of what has been read is passed over. -/
theorem decodeFrom_append (passed bs : List UInt8) :
    decodeFrom passed.length (passed ++ bs) = decodeFrom 0 bs := by
  induction passed with
  | nil => rfl
  | cons b passed ih => rw [List.length_cons, List.cons_append, decodeFrom, ih]

theorem decodeFrom_encode_append (c : Char) (bs : List UInt8) :
    decodeFrom 0 (String.utf8EncodeChar c ++ bs) = c :: decodeFrom 0 bs := by
  obtain ⟨b, passed, hpassed⟩ := List.exists_cons_of_ne_nil (String.utf8EncodeChar_ne_nil (c := c))
  have hfirst := firstChar?_encode_append c bs
  have hlength := String.length_utf8EncodeChar c
  rw [hpassed, List.length_cons] at hlength
  rw [hpassed, List.cons_append] at hfirst ⊢
  rw [decodeFrom, hfirst]
  refine congrArg (c :: ·) ?_
  rw [← hlength, Nat.add_sub_cancel, decodeFrom_append]

theorem decodeFrom_flatMap_encode (cs : List Char) :
    decodeFrom 0 (cs.flatMap String.utf8EncodeChar) = cs := by
  induction cs with
  | nil => rfl
  | cons c cs ih => rw [List.flatMap_cons, decodeFrom_encode_append, ih]

/-- The bytes of a text read as the text. -/
theorem decode_bytes (s : String) : decode (bytes s) = s := by
  rw [decode, bytes, decodeFrom_flatMap_encode, String.ofList_toList]

theorem bytes_injective : Function.Injective bytes :=
  Function.LeftInverse.injective decode_bytes

theorem decode?_eq_some_iff : decode? bs = some s ↔ bs = bytes s := by
  rw [decode?]
  constructor
  · intro h
    split at h
    · next hbytes =>
      cases h
      exact hbytes.symm
    · cases h
  · rintro rfl
    rw [decode_bytes, if_pos rfl]

/-- A character of ASCII is in a text where its byte is in the bytes. -/
theorem mem_bytes_iff {c : Char} (hc : c.toNat < 128) : c.toUInt8 ∈ bytes s ↔ c ∈ s.toList := by
  rw [bytes, List.mem_flatMap]
  constructor
  · rintro ⟨d, hd, hbyte⟩
    by_cases hascii : d.toNat < 128
    · rw [utf8EncodeChar_ascii hascii, List.mem_singleton] at hbyte
      have hbytes : String.utf8EncodeChar c = String.utf8EncodeChar d := by
        rw [utf8EncodeChar_ascii hc, utf8EncodeChar_ascii hascii, hbyte]
      have hsame := firstChar?_encode_append c []
      rw [hbytes, firstChar?_encode_append d []] at hsame
      exact Option.some.inj hsame ▸ hd
    · have hwide := utf8EncodeChar_wide (Nat.not_lt.1 hascii) _ hbyte
      have hsmall : c.toUInt8.toNat < 128 := by
        rw [Char.toUInt8, UInt32.toUInt8, UInt8.toNat_ofNat']
        exact Nat.lt_of_le_of_lt (Nat.mod_le _ _) hc
      omega
  · intro hmem
    refine ⟨c, hmem, ?_⟩
    rw [utf8EncodeChar_ascii hc]
    exact List.mem_singleton_self _

/-- What bytes read as begins with a character of ASCII where the bytes begin with its byte. -/
theorem head?_decode_eq_iff {c : Char} (hc : c.toNat < 128) :
    (decode bs).toList.head? = some c ↔ bs.head? = some c.toUInt8 := by
  rw [decode, String.toList_ofList]
  constructor
  · intro h
    cases bs with
    | nil => cases h
    | cons b bs =>
      rw [decodeFrom] at h
      split at h
      · next d hfirst =>
        obtain ⟨rest, hrest⟩ := exists_of_firstChar?_eq_some hfirst
        rw [List.head?_cons, Option.some.injEq] at h
        rw [hrest, h, utf8EncodeChar_ascii hc]
        rfl
      · rw [List.head?_cons, Option.some.injEq] at h
        rw [← h] at hc
        exact absurd hc (by decide)
  · intro h
    obtain ⟨rest, rfl⟩ := List.head?_eq_some_iff.1 h
    have hread := decodeFrom_encode_append c rest
    rw [utf8EncodeChar_ascii hc, List.singleton_append] at hread
    rw [hread, List.head?_cons]

theorem head?_bytes_eq_iff {c : Char} (hc : c.toNat < 128) :
    (bytes s).head? = some c.toUInt8 ↔ s.toList.head? = some c := by
  rw [← head?_decode_eq_iff hc, decode_bytes]

theorem bytes_append (s t : String) : bytes (s ++ t) = bytes s ++ bytes t := by
  rw [bytes, String.toList_append, List.flatMap_append]
  rfl

theorem bytes_eq_nil_iff : bytes s = [] ↔ s = "" := by
  constructor
  · intro h
    exact bytes_injective h
  · rintro rfl
    rfl

/-- Bytes that read as a text without a replacement character are those of the text. -/
theorem flatMap_encode_decodeFrom (bs : List UInt8) (h : '\uFFFD' ∉ decodeFrom 0 bs) :
    (decodeFrom 0 bs).flatMap String.utf8EncodeChar = bs := by
  match bs with
  | [] => rfl
  | b :: bs =>
    cases hfirst : firstChar? (b :: bs) with
    | none =>
      rw [decodeFrom, hfirst] at h
      exact absurd List.mem_cons_self h
    | some c =>
      obtain ⟨rest, hrest⟩ := exists_of_firstChar?_eq_some hfirst
      rw [hrest, decodeFrom_encode_append] at h ⊢
      have hshorter : rest.length < (b :: bs).length := by
        rw [hrest, List.length_append, String.length_utf8EncodeChar]
        have := c.utf8Size_pos
        omega
      rw [List.flatMap_cons,
        flatMap_encode_decodeFrom rest fun hmem => h (List.mem_cons_of_mem _ hmem)]
termination_by bs.length
decreasing_by exact hshorter

theorem bytes_decode (h : '\uFFFD' ∉ (decode bs).toList) : bytes (decode bs) = bs := by
  rw [decode, String.toList_ofList] at h
  rw [decode, bytes, String.toList_ofList, flatMap_encode_decodeFrom bs h]

end Scaffold.Text
