import Scaffold.Proofs.Template.Expansion
import Scaffold.Proofs.Template.Occurrence

/-!
Unrolling of loops. A loop may be replaced by copies of its body, one for each item of its
collection, in which the fields of the loop variable are written out as literal text. Wherever the
loop stands, a template that expands still expands, and to the same text.
-/

namespace Scaffold.Template

mutual

/-- A node in which a loop variable stands for a property: a placeholder of a field that the
property has becomes the value, as literal text. A loop over the same variable hides it. -/
def Node.instantiate (var : String) (item : Property) : Node → Node
  | .literal text => .literal text
  | .placeholder reference line =>
    match reference.fields with
    | [field] =>
      if reference.head = var then
        match item.field? field with
        | some value => .literal value
        | none => .placeholder reference line
      else .placeholder reference line
    | _ => .placeholder reference line
  | .loop var' collection body line =>
    .loop var' collection (if var' = var then body else instantiateNodes var item body) line

def instantiateNodes (var : String) (item : Property) : List Node → List Node
  | [] => []
  | node :: nodes => node.instantiate var item :: instantiateNodes var item nodes

end

/-- The copies of a body for some items, one after the other. -/
def unroll (var : String) (items : List Property) (body : List Node) : List Node :=
  items.flatMap fun item => instantiateNodes var item body

/-- What stands around a place in a tree: the nodes before and after it in the same list, and the
loops around that list. -/
inductive Surroundings where
  | here (before after : List Node)
  | inLoop (before : List Node) (var collection : String) (line : Nat) (inner : Surroundings)
      (after : List Node)

/-- The tree with these nodes at the place. -/
def Surroundings.fill : Surroundings → List Node → List Node
  | .here before after, nodes => before ++ nodes ++ after
  | .inLoop before var collection line inner after, nodes =>
    before ++ .loop var collection (inner.fill nodes) line :: after

/-- Where the first result is a text, the second is the same text. -/
def Keeps (r s : Except Error String) : Prop :=
  ∀ text, r = .ok text → s = .ok text

namespace Keeps

variable {r r' s s' : Except Error String}

theorem refl (r : Except Error String) : Keeps r r :=
  fun _ h => h

theorem of_eq (h : r = s) : Keeps r s :=
  fun _ hr => h ▸ hr

theorem joined (hr : Keeps r r') (hs : Keeps s s') : Keeps (joined r s) (joined r' s') := by
  intro text h
  obtain ⟨first, rest, hfirst, hrest, rfl⟩ := joined_eq_ok_iff.1 h
  exact joined_eq_ok_iff.2 ⟨first, rest, hr _ hfirst, hs _ hrest, rfl⟩

theorem joinResults {α : Type} {f g : α → Except Error String} (h : ∀ a, Keeps (f a) (g a))
    (items : List α) : Keeps (joinResults (items.map f)) (joinResults (items.map g)) := by
  induction items with
  | nil => exact refl _
  | cons item items ih => exact joined (h item) ih

end Keeps

section Unroll

variable {c : Context} {bindings bindings' : List Binding} {var : String} {item : Property}

/-- A name that is bound to a property, and nothing else that is bound differently. -/
structure BindsOver (bindings bindings' : List Binding) (var : String) (item : Property) : Prop where
  self : binding? bindings var = some ⟨var, item⟩
  other : ∀ name, name ≠ var → binding? bindings name = binding? bindings' name

theorem bindsOver_cons (bindings : List Binding) (var : String) (item : Property) :
    BindsOver (⟨var, item⟩ :: bindings) bindings var item where
  self := by simp [binding?_cons]
  other name hname := by simp [binding?_cons, hname.symm]

/-- A loop over another variable leaves the bound name as it is. -/
theorem BindsOver.under_other (h : BindsOver bindings bindings' var item) {b : Binding}
    (hb : b.var ≠ var) : BindsOver (b :: bindings) (b :: bindings') var item where
  self := by rw [binding?_cons, if_neg hb, h.self]
  other name hname := by rw [binding?_cons, h.other name hname, binding?_cons]

/-- A loop over the same variable hides the bound name. -/
theorem BindsOver.under_same (h : BindsOver bindings bindings' var item) {b : Binding}
    (hb : b.var = var) (name : String) :
    binding? (b :: bindings) name = binding? (b :: bindings') name := by
  rw [binding?_cons, binding?_cons]
  by_cases hname : b.var = name
  · rw [if_pos hname, if_pos hname]
  · rw [if_neg hname, if_neg hname]
    apply h.other
    rintro rfl
    exact hname hb

theorem BindsOver.resolve?_self (h : BindsOver bindings bindings' var item) {reference : Reference}
    (hhead : reference.head = var) : c.resolve? bindings reference =
      match reference.fields with
      | [field] => item.field? field
      | _ => none := by
  have hfind : bindings.find? (·.var = reference.head) = some ⟨var, item⟩ := by
    rw [hhead]
    exact h.self
  rw [Context.resolve?, hfind]
  rcases reference.fields with _ | ⟨field, _ | ⟨field', fields⟩⟩ <;> rfl

theorem BindsOver.keeps_placeholder (h : BindsOver bindings bindings' var item)
    (reference : Reference) (line : Nat) :
    Keeps ((Node.placeholder reference line).expand c bindings)
      (((Node.placeholder reference line).instantiate var item).expand c bindings') := by
  intro text htext
  by_cases hhead : reference.head = var
  · rw [Node.expand, h.resolve?_self hhead] at htext
    rw [Node.instantiate]
    split at htext
    · next value hvalue =>
      cases htext
      split at hvalue
      · next field hfield => simp only [if_pos hhead, hvalue, Node.expand]
      · cases hvalue
    · cases htext
  · have hkept : (Node.placeholder reference line).instantiate var item =
        .placeholder reference line := by
      rw [Node.instantiate]
      split <;> simp [hhead]
    rw [Node.expand] at htext
    rw [hkept, Node.expand, ← resolve?_congr (h.other _ hhead)]
    exact htext

end Unroll

mutual

/-- An instance of a node needs no binding of its loop variable any more. -/
theorem keeps_instantiate {c : Context} {bindings bindings' : List Binding} {var : String}
    {item : Property} (h : BindsOver bindings bindings' var item) (node : Node) :
    Keeps (node.expand c bindings) ((node.instantiate var item).expand c bindings') := by
  match node with
  | .literal text => exact .refl _
  | .placeholder reference line => exact h.keeps_placeholder reference line
  | .loop var' collection body line =>
    rw [Node.instantiate]
    cases hitems : c.collection? collection with
    | none => rw [expand_loop_of_none hitems, expand_loop_of_none hitems]; exact .refl _
    | some items =>
      rw [expand_loop hitems, expand_loop hitems]
      refine Keeps.joinResults (fun item' => ?_) items
      by_cases hvar : var' = var
      · rw [if_pos hvar]
        exact .of_eq (expandNodes_congr body (h.under_same hvar))
      · rw [if_neg hvar]
        exact keeps_instantiateNodes (h.under_other hvar) body

theorem keeps_instantiateNodes {c : Context} {bindings bindings' : List Binding} {var : String}
    {item : Property} (h : BindsOver bindings bindings' var item) (nodes : List Node) :
    Keeps (expandNodes c bindings nodes)
      (expandNodes c bindings' (instantiateNodes var item nodes)) := by
  match nodes with
  | [] => exact .refl _
  | node :: nodes =>
    rw [instantiateNodes, expandNodes_cons, expandNodes_cons]
    exact (keeps_instantiate h node).joined (keeps_instantiateNodes h nodes)

end

/-- The copies of the body give what the loop gives. -/
theorem keeps_unroll {c : Context} {collection : String} {items : List Property}
    (hitems : c.collection? collection = some items) (var : String) (body : List Node) (line : Nat)
    (bindings : List Binding) :
    Keeps (expandNodes c bindings [.loop var collection body line])
      (expandNodes c bindings (unroll var items body)) := by
  rw [expandNodes_singleton, expand_loop hitems, unroll, expandNodes_flatMap]
  exact Keeps.joinResults
    (fun item => keeps_instantiateNodes (bindsOver_cons bindings var item) body) items

/-- What is done at one place of a tree is done to the whole. -/
theorem Surroundings.keeps_fill {c : Context} {nodes nodes' : List Node}
    (h : ∀ bindings, Keeps (expandNodes c bindings nodes) (expandNodes c bindings nodes'))
    (around : Surroundings) (bindings : List Binding) :
    Keeps (expandNodes c bindings (around.fill nodes))
      (expandNodes c bindings (around.fill nodes')) := by
  induction around generalizing bindings with
  | here before after =>
    simp only [fill, expandNodes_append]
    exact ((Keeps.refl _).joined (h bindings)).joined (.refl _)
  | inLoop before var collection line inner after ih =>
    have hloop : Keeps ((Node.loop var collection (inner.fill nodes) line).expand c bindings)
        ((Node.loop var collection (inner.fill nodes') line).expand c bindings) := by
      cases hitems : c.collection? collection with
      | none => rw [expand_loop_of_none hitems, expand_loop_of_none hitems]; exact .refl _
      | some items =>
        rw [expand_loop hitems, expand_loop hitems]
        exact Keeps.joinResults (fun item => ih _) items
    simp only [fill, expandNodes_append, expandNodes_cons]
    exact (Keeps.refl _).joined (hloop.joined (.refl _))

/-- A loop that stands anywhere in a template may be unrolled: where the template expands, it still
does, and to the same text. -/
theorem expand_unroll {c : Context} {collection : String} {items : List Property}
    (hitems : c.collection? collection = some items) (around : Surroundings) (var : String)
    (body : List Node) (line : Nat) {text : String}
    (htext : (Template.mk (around.fill [.loop var collection body line])).expand c = .ok text) :
    (Template.mk (around.fill (unroll var items body))).expand c = .ok text :=
  around.keeps_fill (keeps_unroll hitems var body line) [] text htext

/-- The inner loop hides the variable of the outer one, so its body is the same in each copy. -/
theorem expand_unroll_of_nested :
    let c : Context := ⟨"Main", [⟨"a", none⟩, ⟨"id", none⟩], []⟩
    let inner : Node := .loop "p" "display_properties" [.placeholder ⟨"p", ["name"]⟩ 2] 2
    c.collection? "properties" = some c.properties ∧
    (Template.mk [.loop "q" "properties"
      [.loop "p" "properties" [.placeholder ⟨"p", ["name"]⟩ 1, inner] 1] 1]).expand c =
        .ok "aaidaaaida" ∧
    (Template.mk [.loop "q" "properties"
      [.literal "a", inner, .literal "id", inner] 1]).expand c = .ok "aaidaaaida" := by
  intro c inner
  have hitems : c.collection? "properties" = some c.properties := rfl
  have htext : (Template.mk [.loop "q" "properties"
      [.loop "p" "properties" [.placeholder ⟨"p", ["name"]⟩ 1, inner] 1] 1]).expand c =
        .ok "aaidaaaida" := by rfl
  exact ⟨hitems, htext, expand_unroll hitems
    (.inLoop [] "q" "properties" 1 (.here [] []) []) "p" [.placeholder ⟨"p", ["name"]⟩ 1, inner] 1
    htext⟩

end Scaffold.Template
