import Scaffold.Disk.Entry

/-!
Names for temporary directories: six letters or digits behind `.tmp`. Which ones is left open, but a
name that stands there already is not taken as long as there are others.
-/

namespace Scaffold

namespace TemporaryName

def letters : Nat := 62

/-- The letters and digits in the order of their bytes. -/
def letter (n : Nat) : UInt8 :=
  UInt8.ofNat (if n < 10 then 48 + n else if n < 36 then 55 + n else 61 + n)

/-- The letters of a number, the last one first. -/
def spelling : Nat → Nat → List UInt8
  | 0, _ => []
  | count + 1, n => letter (n % letters) :: spelling count (n / letters)

/-- How many numbers have a spelling of their own. -/
def spellings : Nat → Nat
  | 0 => 1
  | count + 1 => letters * spellings count

theorem toNat_letter {n : Nat} (h : n < letters) :
    (letter n).toNat = if n < 10 then 48 + n else if n < 36 then 55 + n else 61 + n := by
  rw [letter, UInt8.toNat_ofNat']
  rw [letters] at h
  split
  · omega
  split <;> omega

theorem letter_injective {m n : Nat} (hm : m < letters) (hn : n < letters)
    (h : letter m = letter n) : m = n := by
  have heq := congrArg UInt8.toNat h
  rw [toNat_letter hm, toNat_letter hn] at heq
  rw [letters] at hm hn
  grind

theorem length_spelling (count n : Nat) : (spelling count n).length = count := by
  induction count generalizing n with
  | zero => rfl
  | succ count ih => rw [spelling, List.length_cons, ih]

theorem spelling_injective {count m n : Nat} (hm : m < spellings count) (hn : n < spellings count)
    (h : spelling count m = spelling count n) : m = n := by
  induction count generalizing m n with
  | zero =>
    rw [spellings] at hm hn
    omega
  | succ count ih =>
    have hpos : 0 < letters := by decide
    obtain ⟨hlast, hrest⟩ := List.cons.inj h
    have hmod := letter_injective (Nat.mod_lt m hpos) (Nat.mod_lt n hpos) hlast
    have hdiv := ih (Nat.div_lt_of_lt_mul hm) (Nat.div_lt_of_lt_mul hn) hrest
    rw [← Nat.div_add_mod m letters, ← Nat.div_add_mod n letters, hmod, hdiv]

theorem bounds_of_mem_spelling {count n : Nat} {b : UInt8} (h : b ∈ spelling count n) :
    48 ≤ b.toNat ∧ b.toNat < 123 := by
  induction count generalizing n with
  | zero => cases h
  | succ count ih =>
    rcases List.mem_cons.1 h with rfl | h
    · have hlt : n % letters < letters := Nat.mod_lt n (by decide)
      rw [toNat_letter hlt]
      rw [letters] at hlt ⊢
      grind
    · exact ih h

/-- How many letters stand behind `.tmp`. -/
def length : Nat := 6

def front : List UInt8 := Text.bytes ".tmp"

/-- The piece with these letters. -/
def piece (n : Nat) : Piece where
  bytes := front ++ spelling length n
  slash_not_mem h := by
    rcases List.mem_append.1 h with h | h
    · exact absurd h (by decide)
    · exact absurd (bounds_of_mem_spelling h).1 (by decide)

theorem isName_piece (n : Nat) : (piece n).isName = true := by
  have hsize : (piece n).bytes.length = 10 := by
    rw [piece, List.length_append, length_spelling]
    rfl
  have hne {other : Piece} (hother : other.bytes.length ≠ 10) : piece n ≠ other := by
    rintro rfl
    exact hother hsize
  refine Piece.isName_iff.2 ⟨hne (by decide), hne (by decide), hne (by decide), fun h => ?_, ?_⟩
  · rcases List.mem_append.1 h with h | h
    · exact absurd h (by decide)
    · exact absurd (bounds_of_mem_spelling h).1 (by decide)
  · rw [hsize]
    decide

/-- The name with these letters. -/
def name (n : Nat) : Name :=
  ⟨piece n, isName_piece n⟩

theorem name_injective {m n : Nat} (hm : m < spellings length) (hn : n < spellings length)
    (h : name m = name n) : m = n :=
  spelling_injective hm hn (List.append_cancel_left (congrArg (·.bytes) h))

/-- The first name in the order of numbers that is not taken. -/
def firstUnused (taken : List Name) : Name :=
  (((List.range (taken.length + 1)).map name).find? (· ∉ taken)).getD (name 0)

theorem firstUnused_not_mem {taken : List Name} (h : taken.length < spellings length) :
    firstUnused taken ∉ taken := by
  rw [firstUnused]
  cases hfind : ((List.range (taken.length + 1)).map name).find? (· ∉ taken) with
  | some unused =>
    have hunused := List.find?_some hfind
    exact of_decide_eq_true hunused
  | none =>
    have hnodup : ((List.range (taken.length + 1)).map name).Nodup := by
      refine List.pairwise_map.2 (List.nodup_range.imp_of_mem fun hm hn hne heq => hne ?_)
      have hsmall {i : Nat} (hi : i ∈ List.range (taken.length + 1)) : i < spellings length :=
        Nat.lt_of_lt_of_le (List.mem_range.1 hi) h
      exact name_injective (hsmall hm) (hsmall hn) heq
    have hsubset : (List.range (taken.length + 1)).map name ⊆ taken := fun unused hmem => by
      simpa using List.find?_eq_none.1 hfind unused hmem
    have hlength := hnodup.length_le_of_subset hsubset
    rw [List.length_map, List.length_range] at hlength
    omega

theorem exists_firstUnused_eq (taken : List Name) : ∃ n, firstUnused taken = name n := by
  rw [firstUnused]
  cases hfind : ((List.range (taken.length + 1)).map name).find? (· ∉ taken) with
  | none => exact ⟨0, rfl⟩
  | some unused =>
    obtain ⟨n, -, hn⟩ := List.mem_map.1 (List.mem_of_find?_eq_some hfind)
    exact ⟨n, hn.symm⟩

end TemporaryName

/-- How names for temporary directories are chosen where some names are taken. -/
class TemporaryNames where
  choose : List Name → Name
  startsWith (taken : List Name) : TemporaryName.front <+: (choose taken).bytes
  unused (taken : List Name) :
    taken.length < TemporaryName.spellings TemporaryName.length → choose taken ∉ taken

instance TemporaryNames.firstUnused : TemporaryNames where
  choose := TemporaryName.firstUnused
  startsWith taken := by
    obtain ⟨n, hn⟩ := TemporaryName.exists_firstUnused_eq taken
    rw [hn]
    exact List.prefix_append _ _
  unused _ := TemporaryName.firstUnused_not_mem

end Scaffold
