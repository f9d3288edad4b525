import Mathlib.Data.List.Forall2

/-!
Results that may be errors: when a step after a step succeeds, what all steps keep, and when a run
over a list succeeds.
-/

namespace Scaffold

variable {α β ε ε' : Type}

theorem bind_eq_ok_iff {x : Except ε α} {f : α → Except ε β} {b : β} :
    x >>= f = .ok b ↔ ∃ a, x = .ok a ∧ f a = .ok b := by
  cases x with
  | error e => exact iff_of_false nofun nofun
  | ok a =>
    constructor
    · exact fun h => ⟨a, rfl, h⟩
    · rintro ⟨_, hsame, h⟩
      cases hsame
      exact h

theorem mapError_eq_ok_iff {x : Except ε α} {f : ε → ε'} {a : α} :
    x.mapError f = .ok a ↔ x = .ok a := by
  cases x with
  | error e => exact iff_of_false nofun nofun
  | ok _ => rw [Except.mapError, Except.ok.injEq, Except.ok.injEq]

theorem map_eq_ok_iff {x : Except ε α} {f : α → β} {b : β} :
    x.map f = .ok b ↔ ∃ a, x = .ok a ∧ f a = b := by
  cases x with
  | error e => exact iff_of_false nofun nofun
  | ok a => simp [Except.map]

theorem exists_mapM_eq_ok {f : α → Except ε β} {as : List α} (h : ∀ a ∈ as, ∃ b, f a = .ok b) :
    ∃ bs, as.mapM f = .ok bs := by
  induction as with
  | nil => exact ⟨[], rfl⟩
  | cons a as ih =>
    obtain ⟨b, hb⟩ := h a List.mem_cons_self
    obtain ⟨bs, hbs⟩ := ih fun a ha => h a (List.mem_cons_of_mem _ ha)
    refine ⟨b :: bs, ?_⟩
    rw [List.mapM_cons, hb, hbs]
    rfl

/-- What a result satisfies, and what an error does instead. -/
def Satisfies (good : α → Prop) (bad : ε → Prop) : Except ε α → Prop
  | .ok a => good a
  | .error e => bad e

theorem Satisfies.bind {good : α → Prop} {good' : β → Prop} {bad : ε → Prop} {x : Except ε α}
    {f : α → Except ε β} (h : Satisfies good bad x)
    (hnext : ∀ a, good a → Satisfies good' bad (f a)) : Satisfies good' bad (x >>= f) := by
  cases x with
  | error e => exact h
  | ok a => exact hnext a h

theorem satisfies_of_error {bad : ε → Prop} {x : Except ε α} (h : ∀ e, x = .error e → bad e) :
    Satisfies (fun _ => True) bad x := by
  cases x with
  | error e => exact h e rfl
  | ok a => trivial

/-- The results for a list are those for its elements, in order. -/
theorem mapM_eq_ok_iff {f : α → Except ε β} {as : List α} {bs : List β} :
    as.mapM f = .ok bs ↔ List.Forall₂ (fun a b => f a = .ok b) as bs := by
  induction as generalizing bs with
  | nil =>
    rw [List.forall₂_nil_left_iff]
    exact ⟨fun h => (Except.ok.inj h).symm, fun h => congrArg Except.ok h.symm⟩
  | cons a as ih =>
    rw [List.mapM_cons, List.forall₂_cons_left_iff, bind_eq_ok_iff]
    constructor
    · rintro ⟨first, hfirst, h⟩
      obtain ⟨rest, hrest, hbs⟩ := bind_eq_ok_iff.1 h
      exact ⟨first, rest, hfirst, ih.1 hrest, (Except.ok.inj hbs).symm⟩
    · rintro ⟨first, rest, hfirst, hrest, rfl⟩
      exact ⟨first, hfirst, bind_eq_ok_iff.2 ⟨rest, ih.2 hrest, rfl⟩⟩

theorem exists_of_mem_right {R : α → β → Prop} {as : List α} {bs : List β}
    (h : List.Forall₂ R as bs) {b : β} (hb : b ∈ bs) : ∃ a ∈ as, R a b := by
  induction h with
  | nil => cases hb
  | cons hfirst _ ih =>
    rcases List.mem_cons.1 hb with rfl | hb
    · exact ⟨_, List.mem_cons_self, hfirst⟩
    · obtain ⟨a, ha, hab⟩ := ih hb
      exact ⟨a, List.mem_cons_of_mem _ ha, hab⟩

theorem mem_of_mapM_eq_ok {f : α → Except ε β} {as : List α} {bs : List β} (h : as.mapM f = .ok bs)
    {b : β} (hb : b ∈ bs) : ∃ a ∈ as, f a = .ok b :=
  exists_of_mem_right (mapM_eq_ok_iff.1 h) hb

/-- The first element that fails decides. -/
theorem mapM_append_cons_of_error {f : α → Except ε β} {before after : List α} {a : α} {e : ε}
    (hbefore : ∀ a ∈ before, ∃ b, f a = .ok b) (h : f a = .error e) :
    (before ++ a :: after).mapM f = .error e := by
  induction before with
  | nil =>
    rw [List.nil_append, List.mapM_cons, h]
    rfl
  | cons first before ih =>
    obtain ⟨b, hb⟩ := hbefore first List.mem_cons_self
    rw [List.cons_append, List.mapM_cons, hb, ih fun a ha => hbefore a (List.mem_cons_of_mem _ ha)]
    rfl

/-- A run over a list fails with the error of the first element that fails. -/
theorem mapM_eq_error_iff {f : α → Except ε β} {as : List α} {e : ε} :
    as.mapM f = .error e ↔ ∃ before a after, as = before ++ a :: after ∧
      (∀ a ∈ before, ∃ b, f a = .ok b) ∧ f a = .error e := by
  constructor
  · intro h
    induction as with
    | nil => cases h
    | cons a as ih =>
      rw [List.mapM_cons] at h
      cases hfirst : f a with
      | error e' =>
        rw [hfirst] at h
        cases h
        exact ⟨[], a, as, rfl, nofun, hfirst⟩
      | ok b =>
        rw [hfirst] at h
        cases hrest : as.mapM f with
        | ok bs =>
          rw [hrest] at h
          cases h
        | error e' =>
          rw [hrest] at h
          cases h
          obtain ⟨before, a', after, rfl, hbefore, hfails⟩ := ih hrest
          exact ⟨a :: before, a', after, rfl, List.forall_mem_cons.2 ⟨⟨b, hfirst⟩, hbefore⟩, hfails⟩
  · rintro ⟨before, a, after, rfl, hbefore, hfails⟩
    exact mapM_append_cons_of_error hbefore hfails

end Scaffold
