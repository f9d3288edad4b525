import Scaffold.Template.Expansion

/-!
How the parts of a tree make up its expansion: the texts of the parts are joined in their order, and
the first part that fails decides. Of the loops around a part only what each name is bound to
matters.
-/

namespace Scaffold.Template

/-- The texts of two results, one after the other, or the error of the first that fails. -/
def joined (r s : Except Error String) : Except Error String := do
  let first ← r
  let rest ← s
  return first ++ rest

section Joined

variable {r s : Except Error String} {text : String} {e : Error}

@[simp] theorem joined_error (e : Error) (s : Except Error String) :
    joined (.error e) s = .error e := rfl

@[simp] theorem joined_ok_error (text : String) (e : Error) :
    joined (.ok text) (.error e) = .error e := rfl

@[simp] theorem joined_ok_ok (text text' : String) :
    joined (.ok text) (.ok text') = .ok (text ++ text') := rfl

@[simp] theorem joined_empty_left (r : Except Error String) : joined (.ok "") r = r := by
  cases r <;> simp

@[simp] theorem joined_empty_right (r : Except Error String) : joined r (.ok "") = r := by
  cases r <;> simp

theorem joined_assoc (r s t : Except Error String) :
    joined (joined r s) t = joined r (joined s t) := by
  cases r <;> cases s <;> cases t <;> simp [String.append_assoc]

theorem joined_eq_ok_iff :
    joined r s = .ok text ↔ ∃ first rest, r = .ok first ∧ s = .ok rest ∧ text = first ++ rest := by
  cases r <;> cases s <;> simp [eq_comm]

theorem joinResults_cons (r : Except Error String) (rs : List (Except Error String)) :
    joinResults (r :: rs) = joined r (joinResults rs) := rfl

theorem joinResults_append (rs ss : List (Except Error String)) :
    joinResults (rs ++ ss) = joined (joinResults rs) (joinResults ss) := by
  induction rs with
  | nil => exact (joined_empty_left _).symm
  | cons r rs ih => rw [List.cons_append, joinResults_cons, ih, joinResults_cons, joined_assoc]

theorem joinResults_flatMap {α β : Type} (items : List α) (f : α → List β)
    (g : β → Except Error String) : joinResults ((items.flatMap f).map g) =
      joinResults (items.map fun item => joinResults ((f item).map g)) := by
  induction items with
  | nil => rfl
  | cons item items ih =>
    rw [List.flatMap_cons, List.map_append, joinResults_append, ih, List.map_cons, joinResults_cons]

/-- Joining fails at the first result that is an error. -/
theorem joinResults_eq_error_iff {rs : List (Except Error String)} {e : Error} :
    joinResults rs = .error e ↔ ∃ before after, rs = before ++ .error e :: after ∧
      ∀ r ∈ before, ∃ text, r = .ok text := by
  induction rs with
  | nil => simp [joinResults]
  | cons r rs ih =>
    rw [joinResults_cons]
    cases r with
    | error e' =>
      constructor
      · intro h
        cases h
        exact ⟨[], rs, rfl, by simp⟩
      · rintro ⟨before, after, heq, hbefore⟩
        cases before with
        | nil =>
          cases heq
          rfl
        | cons r before =>
          obtain ⟨text, htext⟩ := hbefore r List.mem_cons_self
          rw [htext] at heq
          cases heq
    | ok first =>
      have hjoined : joined (.ok first) (joinResults rs) = .error e ↔ joinResults rs = .error e := by
        cases joinResults rs <;> simp
      rw [hjoined, ih]
      constructor
      · rintro ⟨before, after, rfl, hbefore⟩
        exact ⟨.ok first :: before, after, rfl, List.forall_mem_cons.2 ⟨⟨first, rfl⟩, hbefore⟩⟩
      · rintro ⟨before, after, heq, hbefore⟩
        cases before with
        | nil => cases heq
        | cons r before =>
          cases heq
          exact ⟨before, after, rfl, (List.forall_mem_cons.1 hbefore).2⟩

end Joined

section Nodes

variable {c : Context} {bindings bindings' : List Binding}

@[simp] theorem expandNodes_nil : expandNodes c bindings [] = .ok "" := rfl

theorem expandNodes_cons (node : Node) (nodes : List Node) :
    expandNodes c bindings (node :: nodes) =
      joined (node.expand c bindings) (expandNodes c bindings nodes) := by
  rw [expandNodes, joined]

@[simp] theorem expandNodes_singleton (node : Node) :
    expandNodes c bindings [node] = node.expand c bindings := by
  rw [expandNodes_cons, expandNodes_nil, joined_empty_right]

theorem expandNodes_append (nodes nodes' : List Node) :
    expandNodes c bindings (nodes ++ nodes') =
      joined (expandNodes c bindings nodes) (expandNodes c bindings nodes') := by
  induction nodes with
  | nil => simp
  | cons node nodes ih => rw [List.cons_append, expandNodes_cons, ih, expandNodes_cons, joined_assoc]

theorem expandNodes_flatMap {α : Type} (items : List α) (f : α → List Node) :
    expandNodes c bindings (items.flatMap f) =
      joinResults (items.map fun item => expandNodes c bindings (f item)) := by
  induction items with
  | nil => rfl
  | cons item items ih =>
    rw [List.flatMap_cons, expandNodes_append, ih, List.map_cons, joinResults_cons]

/-- A loop through a collection is its body once for each of the items. -/
theorem expand_loop {var collection : String} {body : List Node} {line : Nat}
    {items : List Property} (hitems : c.collection? collection = some items) :
    (Node.loop var collection body line).expand c bindings =
      joinResults (items.map fun item => expandNodes c (⟨var, item⟩ :: bindings) body) := by
  rw [Node.expand, hitems]

theorem expand_loop_of_none {var collection : String} {body : List Node} {line : Nat}
    (hitems : c.collection? collection = none) :
    (Node.loop var collection body line).expand c bindings = .error (.unbound collection line) := by
  rw [Node.expand, hitems]

/-- The binding of a name: the innermost one. -/
def binding? (bindings : List Binding) (name : String) : Option Binding :=
  bindings.find? (·.var = name)

theorem binding?_cons (b : Binding) (bindings : List Binding) (name : String) :
    binding? (b :: bindings) name = if b.var = name then some b else binding? bindings name := by
  rw [binding?, List.find?_cons, binding?]
  split <;> simp_all

theorem resolve?_congr {reference : Reference}
    (h : binding? bindings reference.head = binding? bindings' reference.head) :
    c.resolve? bindings reference = c.resolve? bindings' reference := by
  unfold binding? at h
  rw [Context.resolve?, h, Context.resolve?]

/-- Bindings that agree on every name still do under one more loop. -/
theorem binding?_cons_congr (b : Binding) (h : ∀ name, binding? bindings name = binding? bindings' name)
    (name : String) : binding? (b :: bindings) name = binding? (b :: bindings') name := by
  rw [binding?_cons, binding?_cons, h]

end Nodes

mutual

/-- A node expands to the same under bindings that agree on every name. -/
theorem expand_congr {c : Context} {bindings bindings' : List Binding} (node : Node)
    (h : ∀ name, binding? bindings name = binding? bindings' name) :
    node.expand c bindings = node.expand c bindings' := by
  match node with
  | .literal text => rfl
  | .placeholder reference line => rw [Node.expand, resolve?_congr (h _), Node.expand]
  | .loop var collection body line =>
    cases hitems : c.collection? collection with
    | none => rw [expand_loop_of_none hitems, expand_loop_of_none hitems]
    | some items =>
      rw [expand_loop hitems, expand_loop hitems]
      congr 2
      funext item
      exact expandNodes_congr body (binding?_cons_congr ⟨var, item⟩ h)

theorem expandNodes_congr {c : Context} {bindings bindings' : List Binding} (nodes : List Node)
    (h : ∀ name, binding? bindings name = binding? bindings' name) :
    expandNodes c bindings nodes = expandNodes c bindings' nodes := by
  match nodes with
  | [] => rfl
  | node :: nodes =>
    rw [expandNodes_cons, expand_congr node h, expandNodes_congr nodes h, expandNodes_cons]

end

end Scaffold.Template
