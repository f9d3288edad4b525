import Mathlib.Data.String.Basic
import Mathlib.Tactic.SplitIfs
import Scaffold.Text.Encoding

/-!
The order of texts by their bytes. Texts are compared by their characters, and to compare the bytes
of their encoding comes to the same: of two characters the smaller one has the smaller bytes, and
these differ before either ends.
-/

namespace Scaffold.Text

section Characters

variable {m n : Nat}

theorem ofNat_cons_lt (h : m < n) (hn : n < 256) (cs ds : List UInt8) :
    UInt8.ofNat m :: cs < UInt8.ofNat n :: ds := by
  apply List.cons_lt_cons_iff.2
  left
  rw [UInt8.lt_iff_toNat_lt, UInt8.toNat_ofNat', UInt8.toNat_ofNat']
  omega

/-- The last byte of a character holds its last six bits. It decides where the other bits are the
same. -/
theorem append_last_lt (front front' : List UInt8) (h : m < n)
    (hfront : m / 64 < n / 64 → ∀ cs ds, front ++ cs < front' ++ ds)
    (hsame : m / 64 = n / 64 → front = front') (cs ds : List UInt8) :
    front ++ UInt8.ofNat (m % 64 + 128) :: cs < front' ++ UInt8.ofNat (n % 64 + 128) :: ds := by
  by_cases heq : m / 64 = n / 64
  · rw [hsame heq]
    exact List.append_left_lt (ofNat_cons_lt (by omega) (by omega) cs ds)
  · exact hfront (by omega) _ _

/-- The bytes of the smaller character are smaller, whatever follows them. -/
theorem utf8EncodeChar_append_lt {c d : Char} (h : c < d) (cs ds : List UInt8) :
    String.utf8EncodeChar c ++ cs < String.utf8EncodeChar d ++ ds := by
  have hd : d.val.toNat < 0x110000 := by
    rcases d.valid with hlow | ⟨-, hhigh⟩
    · exact Nat.lt_trans hlow (by decide)
    · exact hhigh
  have hdiv (k : Nat) : k / 4096 = k / 64 / 64 ∧ k / 262144 = k / 64 / 64 / 64 := by omega
  simp only [String.utf8EncodeChar, hdiv]
  generalize hm : c.val.toNat = m
  generalize hn : d.val.toNat = n at hd
  have hmn : m < n := hm ▸ hn ▸ h
  by_cases hn1 : n ≤ 127
  · rw [if_pos hn1, if_pos (by omega : m ≤ 127)]
    exact ofNat_cons_lt hmn (by omega) cs ds
  by_cases hm1 : m ≤ 127
  · rw [if_pos hm1, if_neg hn1]
    split_ifs <;> exact ofNat_cons_lt (by omega) (by omega) _ _
  rw [if_neg hm1, if_neg hn1]
  by_cases hn2 : n ≤ 2047
  · rw [if_pos hn2, if_pos (by omega : m ≤ 2047)]
    exact append_last_lt [_] [_] hmn (fun h => ofNat_cons_lt (by omega) (by omega))
      (fun h => by rw [h]) cs ds
  by_cases hm2 : m ≤ 2047
  · rw [if_pos hm2, if_neg hn2]
    split_ifs <;> exact ofNat_cons_lt (by omega) (by omega) _ _
  rw [if_neg hm2, if_neg hn2]
  by_cases hn3 : n ≤ 65535
  · rw [if_pos hn3, if_pos (by omega : m ≤ 65535)]
    refine append_last_lt [_, _] [_, _] hmn (fun h => ?_) (fun h => by rw [h]) cs ds
    exact append_last_lt [_] [_] h (fun h => ofNat_cons_lt (by omega) (by omega))
      (fun h => by rw [h])
  by_cases hm3 : m ≤ 65535
  · rw [if_pos hm3, if_neg hn3]
    exact ofNat_cons_lt (by omega) (by omega) _ _
  rw [if_neg hm3, if_neg hn3]
  refine append_last_lt [_, _, _] [_, _, _] hmn (fun h => ?_) (fun h => by rw [h]) cs ds
  refine append_last_lt [_, _] [_, _] h (fun h => ?_) (fun h => by rw [h])
  exact append_last_lt [_] [_] h (fun h => ofNat_cons_lt (by omega) (by omega))
    (fun h => by rw [h])

end Characters

theorem flatMap_utf8EncodeChar_lt {cs ds : List Char} (h : cs < ds) :
    cs.flatMap String.utf8EncodeChar < ds.flatMap String.utf8EncodeChar := by
  induction h with
  | @nil d ds =>
    rw [List.flatMap_nil, List.flatMap_cons]
    cases hd : String.utf8EncodeChar d with
    | nil => exact absurd hd String.utf8EncodeChar_ne_nil
    | cons byte bytes => exact List.nil_lt_cons _ _
  | cons _ ih =>
    rw [List.flatMap_cons, List.flatMap_cons]
    exact List.append_left_lt ih
  | rel hlt =>
    rw [List.flatMap_cons, List.flatMap_cons]
    exact utf8EncodeChar_append_lt hlt _ _

/-- The smaller text has the smaller bytes. -/
theorem bytes_lt_bytes {s t : String} (h : s < t) : bytes s < bytes t := by
  exact flatMap_utf8EncodeChar_lt (String.lt_iff_toList_lt.1 h)

end Scaffold.Text
