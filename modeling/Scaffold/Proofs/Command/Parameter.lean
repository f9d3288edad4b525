import Scaffold.Command.Arguments
import Scaffold.Proofs.Result

/-!
Options by their kind. What is collected for an option is a list of values with room for any number
of them or for one: what its values are read as comes behind what has been collected before.
-/

namespace Scaffold.Command

variable {σ α : Type}

/-- The values can be read, and what they are read as is added to what there was before. -/
def Takes (read : String → Except Misuse α) (before : List α) (values : List String)
    (after : List α) : Prop :=
  ∃ new, values.mapM read = .ok new ∧ after = before ++ new

section

variable {read : String → Except Misuse α} {before after : List α} {before? after? : Option α}
  {value : String} {values : List String}

theorem takes_nil : Takes read before [] after ↔ after = before := by
  simp [Takes, pure, Except.pure]

theorem takes_cons : Takes read before (value :: values) after ↔
    ∃ a, read value = .ok a ∧ Takes read (before ++ [a]) values after := by
  simp only [Takes, mapM_eq_ok_iff, List.forall₂_cons_left_iff]
  constructor
  · rintro ⟨_, ⟨a, new, ha, hnew, rfl⟩, rfl⟩
    exact ⟨a, ha, new, hnew, by simp⟩
  · rintro ⟨a, ha, new, hnew, rfl⟩
    exact ⟨a :: new, ⟨a, new, ha, hnew, rfl⟩, by simp⟩

/-- Where there is room for one value only, there is none before it and none after it. -/
theorem takes_once_cons : Takes read before?.toList (value :: values) after?.toList ↔
    before? = none ∧ ∃ a, read value = .ok a ∧ Takes read (some a).toList values after?.toList := by
  rw [takes_cons]
  cases before? with
  | none => simp
  | some b =>
    refine iff_of_false ?_ (by simp)
    rintro ⟨a, -, new, -, hafter⟩
    have hlength := congrArg List.length hafter
    have hle : after?.toList.length ≤ 1 := by cases after? <;> simp
    simp only [Option.toList_some, List.length_append, List.length_singleton] at hlength
    omega

theorem takes_once_nil : Takes read before?.toList [] after?.toList ↔ after? = before? := by
  rw [takes_nil]
  cases before? <;> cases after? <;> simp

theorem takes_toList_iff : Takes read [] values after?.toList ↔ values = [] ∧ after? = none ∨
    ∃ value a, values = [value] ∧ read value = .ok a ∧ after? = some a := by
  simp only [Takes, List.nil_append, exists_eq_right', mapM_eq_ok_iff]
  cases after? with
  | none => simp
  | some a => simp [List.forall₂_cons_right_iff, and_comm]

end

namespace Parameter

variable {s s' : σ} {name text : String} {letter? : Option Char}

@[simp] theorem flag_name {isSet : σ → Bool} {set : σ → σ} :
    (flag name letter? isSet set).name = name :=
  rfl

@[simp] theorem once_name {read : String → Except Misuse α} {current? : σ → Option α}
    {set : α → σ → σ} : (once name letter? read current? set).name = name :=
  rfl

@[simp] theorem many_name {read : String → Except Misuse α} {add : α → σ → σ} :
    (many name letter? read add).name = name :=
  rfl

theorem flag_give_eq_ok_iff {isSet : σ → Bool} {set : σ → σ} :
    (flag name letter? isSet set).give text s = .ok s' ↔ isSet s = false ∧ s' = set s := by
  simp only [flag]
  split
  · next h => simp [h]
  · next h => simp [h, eq_comm]

theorem once_give_eq_ok_iff {read : String → Except Misuse α} {current? : σ → Option α}
    {set : α → σ → σ} : (once name letter? read current? set).give text s = .ok s' ↔
      current? s = none ∧ ∃ a, read text = .ok a ∧ s' = set a s := by
  simp only [once]
  cases current? s with
  | some a => simp
  | none => cases read text <;> simp [eq_comm]

theorem many_give_eq_ok_iff {read : String → Except Misuse α} {add : α → σ → σ} :
    (many name letter? read add).give text s = .ok s' ↔
      ∃ a, read text = .ok a ∧ s' = add a s := by
  simp only [many]
  cases read text <;> simp [eq_comm]

theorem halting_give_eq_ok_iff {letter : Char} {halt : Halt} :
    (halting name letter halt : Parameter σ).give text s = .ok s' ↔ False :=
  iff_of_false nofun id

end Parameter

end Scaffold.Command
