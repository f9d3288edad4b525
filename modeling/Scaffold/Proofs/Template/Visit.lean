import Scaffold.Proofs.Template.Resolution

/-!
Expansion visit by visit. A visit adds a text of its own or fails, and the expansion of a tree is
what its visits add, one after the other. It comes to the same visits in all contexts with the same
properties, and of the global names only those matter that are asked for by a placeholder where no
loop hides them.
-/

namespace Scaffold.Template

variable {c c' : Context} {bindings : List Binding} {nodes : List Node}

/-- What a visit adds to the text. A loop adds nothing itself, as what is in its body is visited on
its own. -/
def Visit.result (c : Context) : Visit → Except Error String
  | ⟨_, .literal text⟩ => .ok text
  | ⟨bindings, .placeholder reference line⟩ =>
    match c.resolve? bindings reference with
    | some value => .ok value
    | none => .error (.unbound reference.text line)
  | ⟨_, .loop _ collection _ line⟩ =>
    match c.collection? collection with
    | some _ => .ok ""
    | none => .error (.unbound collection line)

theorem Visit.result_placeholder (c : Context) (bindings : List Binding) (reference : Reference)
    (line : Nat) : (Visit.mk bindings (.placeholder reference line)).result c =
      match c.resolve? bindings reference with
      | some value => .ok value
      | none => .error (.unbound reference.text line) := rfl

theorem Visit.result_loop (c : Context) (bindings : List Binding) (var collection : String)
    (body : List Node) (line : Nat) :
    (Visit.mk bindings (.loop var collection body line)).result c =
      match c.collection? collection with
      | some _ => .ok ""
      | none => .error (.unbound collection line) := rfl

/-- The results of some visits, one after the other, or the first error among them. -/
def resultOf (c : Context) (visits : List Visit) : Except Error String :=
  joinResults (visits.map (Visit.result c))

theorem resultOf_append (c : Context) (us vs : List Visit) :
    resultOf c (us ++ vs) = joined (resultOf c us) (resultOf c vs) := by
  rw [resultOf, List.map_append, joinResults_append, resultOf, resultOf]

theorem resultOf_singleton (c : Context) (visit : Visit) : resultOf c [visit] = visit.result c :=
  joined_empty_right _

mutual

/-- The expansion of a node is what its visits add. -/
theorem expand_eq_resultOf (c : Context) (bindings : List Binding) (node : Node) :
    node.expand c bindings = resultOf c (node.visits c bindings) := by
  match node with
  | .literal text => exact (resultOf_singleton c ⟨bindings, .literal text⟩).symm
  | .placeholder reference line =>
    exact (resultOf_singleton c ⟨bindings, .placeholder reference line⟩).symm
  | .loop var collection body line =>
    rw [Node.visits, ← List.singleton_append, resultOf_append, resultOf_singleton,
      Visit.result_loop]
    cases hitems : c.collection? collection with
    | none => rw [expand_loop_of_none hitems, joined_error]
    | some items =>
      calc (Node.loop var collection body line).expand c bindings
          = joinResults (items.map fun item => expandNodes c (⟨var, item⟩ :: bindings) body) :=
            expand_loop hitems
        _ = joinResults (items.map fun item =>
              resultOf c (visitsOf c (⟨var, item⟩ :: bindings) body)) := by
            congr 2
            funext item
            exact expandNodes_eq_resultOf c (⟨var, item⟩ :: bindings) body
        _ = resultOf c (items.flatMap fun item => visitsOf c (⟨var, item⟩ :: bindings) body) :=
            (joinResults_flatMap _ _ _).symm
        _ = _ := by rw [Context.elements_of_eq_some hitems, joined_empty_left]

theorem expandNodes_eq_resultOf (c : Context) (bindings : List Binding) (nodes : List Node) :
    expandNodes c bindings nodes = resultOf c (visitsOf c bindings nodes) := by
  match nodes with
  | [] => rfl
  | node :: nodes =>
    rw [expandNodes_cons, visitsOf, resultOf_append, expand_eq_resultOf c bindings node,
      expandNodes_eq_resultOf c bindings nodes]

end

theorem expand_template_eq_resultOf (c : Context) (t : Template) :
    t.expand c = resultOf c (visitsOf c [] t.nodes) :=
  expandNodes_eq_resultOf c [] t.nodes

theorem visitsOf_append (c : Context) (bindings : List Binding) (nodes nodes' : List Node) :
    visitsOf c bindings (nodes ++ nodes') =
      visitsOf c bindings nodes ++ visitsOf c bindings nodes' := by
  induction nodes with
  | nil => rfl
  | cons node nodes ih => rw [List.cons_append, visitsOf, ih, visitsOf, List.append_assoc]

/-- After these visits, each of which adds a text, the visit fails with this error. -/
structure FailsAt (c : Context) (visits before : List Visit) (visit : Visit) (e : Error) :
    Prop where
  reaches : before ++ [visit] <+: visits
  texts : ∀ u ∈ before, ∃ text, u.result c = .ok text
  fails : visit.result c = .error e

theorem resultOf_eq_error_iff {visits : List Visit} {e : Error} :
    resultOf c visits = .error e ↔ ∃ before visit, FailsAt c visits before visit e := by
  rw [resultOf, joinResults_eq_error_iff]
  constructor
  · rintro ⟨before, after, heq, hbefore⟩
    obtain ⟨before, rest, rfl, rfl, hrest⟩ := List.map_eq_append_iff.1 heq
    obtain ⟨visit, after, rfl, hvisit, -⟩ := List.map_eq_cons_iff.1 hrest
    refine ⟨before, visit, ⟨after, by simp⟩, fun u hu => ?_, hvisit⟩
    exact hbefore _ (List.mem_map_of_mem hu)
  · rintro ⟨before, visit, ⟨after, rfl⟩, htexts, hfails⟩
    refine ⟨before.map (Visit.result c), after.map (Visit.result c), by simp [hfails], ?_⟩
    exact List.forall_mem_map.2 htexts

theorem Context.collection?_congr (h : c'.properties = c.properties) (collection : String) :
    c'.collection? collection = c.collection? collection := by
  unfold Context.collection?
  rw [h]

mutual

/-- Which visits there are depends on the properties alone. -/
theorem visits_congr (h : c'.properties = c.properties) (bindings : List Binding) (node : Node) :
    node.visits c' bindings = node.visits c bindings := by
  match node with
  | .literal text => rfl
  | .placeholder reference line => rfl
  | .loop var collection body line =>
    rw [Node.visits, Node.visits, Context.elements, Context.collection?_congr h, Context.elements]
    congr 2
    funext item
    exact visitsOf_congr h (⟨var, item⟩ :: bindings) body

theorem visitsOf_congr (h : c'.properties = c.properties) (bindings : List Binding)
    (nodes : List Node) : visitsOf c' bindings nodes = visitsOf c bindings nodes := by
  match nodes with
  | [] => rfl
  | node :: nodes =>
    rw [visitsOf, visits_congr h bindings node, visitsOf_congr h bindings nodes, visitsOf]

end

/-- The template asks for a global name: a placeholder is this name by itself, and no loop around it
has a variable of that name. -/
def Asks (t : Template) (name : String) : Prop :=
  ∃ loops line, Under [] t.nodes loops (.placeholder ⟨name, []⟩ line) ∧ name ∉ Assoc.keys loops

/-- Only a name by itself that no loop variable hides is looked up among the global names. -/
theorem Context.resolve?_congr_scalar {reference : Reference} (h : reference.fields = [] →
    binding? bindings reference.head = none →
      c'.scalar? reference.head = c.scalar? reference.head) :
    c'.resolve? bindings reference = c.resolve? bindings reference := by
  rw [resolve?, resolve?]
  cases hfind : bindings.find? (·.var = reference.head) with
  | some b => rcases reference.fields with _ | ⟨field, _ | ⟨field', fields⟩⟩ <;> rfl
  | none =>
    cases hfields : reference.fields with
    | cons field fields => rfl
    | nil => exact h hfields hfind

/-- A visit adds the same in contexts that agree on the global name that it asks for, if any. -/
theorem Visit.result_congr (hproperties : c'.properties = c.properties) (visit : Visit)
    (hscalar : ∀ name line, visit.node = .placeholder ⟨name, []⟩ line →
      name ∉ Assoc.keys (scopeOf visit.bindings) → c'.scalar? name = c.scalar? name) :
    visit.result c' = visit.result c := by
  obtain ⟨bindings, node⟩ := visit
  cases node with
  | literal text => rfl
  | loop var collection body line =>
    rw [result_loop, Context.collection?_congr hproperties, result_loop]
  | placeholder reference line =>
    have hvalue : c'.resolve? bindings reference = c.resolve? bindings reference := by
      refine Context.resolve?_congr_scalar fun hfields hfree => ?_
      have hkeys : reference.head ∉ Assoc.keys (scopeOf bindings) := by
        rw [← Assoc.find?_eq_none_iff, find?_scopeOf, hfree, Option.map_none]
      exact hscalar reference.head line (by rw [← hfields]) hkeys
    rw [result_placeholder, hvalue, result_placeholder]

/-- A template expands to the same in two contexts with the same properties if these agree on the
global names that it asks for. -/
theorem expand_congr_of_asks {t : Template} (hproperties : c'.properties = c.properties)
    (hscalar : ∀ name, t.Asks name → c'.scalar? name = c.scalar? name) :
    t.expand c' = t.expand c := by
  rw [expand_template_eq_resultOf, expand_template_eq_resultOf, visitsOf_congr hproperties,
    resultOf, resultOf]
  congr 1
  refine List.map_congr_left fun visit hvisit => visit.result_congr hproperties ?_
  intro name line hnode hfree
  obtain ⟨loops, hunder, hturn⟩ := exists_under_of_mem_visitsOf .nil t.nodes hvisit
  rw [hnode] at hunder
  exact hscalar name ⟨loops, line, hunder, hturn.keys_eq ▸ hfree⟩

/-- Contexts that differ at most in the order of their variables, and in a variable that is called
`name`. -/
structure Context.Agrees (c c' : Context) : Prop where
  name_eq : c.name = c'.name
  properties_eq : c.properties = c'.properties
  find?_eq {key : String} : key ≠ "name" →
    Assoc.find? key c.bindings = Assoc.find? key c'.bindings

theorem Context.Agrees.scalar?_eq (h : c.Agrees c') (key : String) :
    c.scalar? key = c'.scalar? key := by
  rw [scalar?, scalar?, h.name_eq]
  split
  · rfl
  · next hkey => exact h.find?_eq hkey

theorem expand_of_agrees (h : c.Agrees c') (source : String) :
    Scaffold.expand source c = Scaffold.expand source c' := by
  rw [Scaffold.expand, Scaffold.expand]
  cases Template.parse source with
  | error e => rfl
  | ok t => exact expand_congr_of_asks h.properties_eq fun name _ => h.scalar?_eq name

/-- Of the global names only those matter that the template asks for. A variable that it does not
ask for, or that is called `name`, may be added or changed. -/
theorem expand_of_asked (t : Template) :
    (∀ c c' : Context, c'.properties = c.properties →
      (∀ name, t.Asks name → c'.scalar? name = c.scalar? name) → t.expand c' = t.expand c) ∧
    ∀ (c : Context) (key value : String), key = "name" ∨ ¬t.Asks key →
      t.expand (c.bind key value) = t.expand c := by
  refine ⟨fun c c' => expand_congr_of_asks, fun c key value hkey => ?_⟩
  have hproperties : (c.bind key value).properties = c.properties := rfl
  refine expand_congr_of_asks hproperties fun name hasks => ?_
  by_cases hname : name = "name"
  · rw [hname]
    rfl
  · have hne : key ≠ name := by
      rintro rfl
      rcases hkey with hkey | hkey
      · exact hname hkey
      · exact hkey hasks
    rw [Context.scalar?_bind hname, if_neg hne]

/-- A loop variable by itself is no name, and a global variable of that name does not help. -/
theorem expand_of_asked_hidden :
    let t : Template := ⟨[.placeholder ⟨"project", []⟩ 1,
      .loop "p" "properties" [.placeholder ⟨"p", []⟩ 2] 2]⟩
    let c : Context := ⟨"Main", [⟨"id", none⟩], [("project", "Demo")]⟩
    let c' : Context := ⟨"Other", [⟨"id", none⟩], [("p", "id"), ("project", "Demo")]⟩
    c'.properties = c.properties ∧ t.expand c = .error (.unbound "p" 2) ∧
      t.expand c' = t.expand c ∧ t.expand (c.bind "p" "id") = t.expand c := by
  intro t c c'
  have hasks : ∀ name, t.Asks name → name = "project" := by
    rintro name ⟨loops, line, hunder, hfree⟩
    cases hunder with
    | here hmem => exact (show name = "project" ∧ line = 1 by simpa [t] using hmem).1
    | inside hmem hbelow =>
      obtain ⟨rfl, -, rfl, -⟩ : _ = "p" ∧ _ ∧ _ ∧ _ := by simpa [t] using hmem
      cases hbelow with
      | here hmem =>
        obtain ⟨rfl, -⟩ : name = "p" ∧ line = 2 := by simpa using hmem
        exact absurd (List.mem_singleton_self _) hfree
      | inside hmem => simp at hmem
  refine ⟨rfl, rfl, (expand_of_asked t).1 c c' rfl fun name hname => ?_,
    (expand_of_asked t).2 c "p" "id" (.inr fun hp => absurd (hasks "p" hp) (by decide))⟩
  rw [hasks name hname]
  rfl

end Scaffold.Template
