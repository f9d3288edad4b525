/-!
Lists of pairs read as finite maps from keys. Inserting keeps the place of a key that is there
already and puts a new one at the end, so the order is that of first insertion.
-/

namespace Scaffold.Assoc

variable {κ α : Type} [DecidableEq κ]

/-- The value of the first pair with the given key. -/
def find? (key : κ) : List (κ × α) → Option α
  | [] => none
  | (k, a) :: es => if k = key then some a else find? key es

def insert (key : κ) (value : α) : List (κ × α) → List (κ × α)
  | [] => [(key, value)]
  | (k, a) :: es => if k = key then (key, value) :: es else (k, a) :: insert key value es

def erase (key : κ) (es : List (κ × α)) : List (κ × α) :=
  es.filter (·.1 ≠ key)

def keys (es : List (κ × α)) : List κ :=
  es.map (·.1)

@[simp] theorem find?_nil (key : κ) : find? key ([] : List (κ × α)) = none := rfl

theorem find?_cons (key : κ) (e : κ × α) (es : List (κ × α)) :
    find? key (e :: es) = if e.1 = key then some e.2 else find? key es := rfl

theorem find?_eq_none_iff {key : κ} {es : List (κ × α)} :
    find? key es = none ↔ key ∉ keys es := by
  induction es with
  | nil => simp [keys]
  | cons e es ih =>
    rw [keys] at ih
    rw [find?_cons, keys, List.map_cons, List.mem_cons, not_or, ← ih]
    split
    · next h => simp [h]
    · next h => simp [Ne.symm h]

theorem find?_append (key : κ) (es es' : List (κ × α)) :
    find? key (es ++ es') = (find? key es).or (find? key es') := by
  induction es with
  | nil => rfl
  | cons e es ih =>
    rw [List.cons_append, find?_cons, find?_cons, ih]
    split <;> rfl

theorem find?_insert (key key' : κ) (value : α) (es : List (κ × α)) :
    find? key' (insert key value es) = if key = key' then some value else find? key' es := by
  induction es with
  | nil => simp [insert, find?]
  | cons e es ih =>
    obtain ⟨k, a⟩ := e
    by_cases h : k = key
    · subst h
      simp only [insert, if_true, find?]
      split <;> rfl
    · by_cases h' : k = key' <;> simp_all [insert, find?]
      intro hk
      exact absurd hk.symm h

@[simp] theorem find?_insert_self (key : κ) (value : α) (es : List (κ × α)) :
    find? key (insert key value es) = some value := by
  simp [find?_insert]

theorem find?_erase (key key' : κ) (es : List (κ × α)) :
    find? key' (erase key es) = if key = key' then none else find? key' es := by
  induction es with
  | nil => simp [erase]
  | cons e es ih =>
    obtain ⟨k, a⟩ := e
    simp only [erase, List.filter_cons] at ih ⊢
    by_cases h : k = key
    · subst h
      simp only [ne_eq, not_true, decide_false, Bool.false_eq_true, if_false, ih, find?]
      split <;> rfl
    · simp only [ne_eq, h, not_false_iff, decide_true, if_true, find?, ih]
      by_cases h' : key = key'
      · subst h'
        simp [h]
      · simp [h']

end Scaffold.Assoc
