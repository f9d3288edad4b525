import Scaffold.Proofs.Template.Occurrence
import Scaffold.Proofs.Template.Visit

/-!
Loops over what is displayed. A template none of whose loops goes through all properties does not
see the properties called `id`: it expands as if there were none, and then it makes no difference
whether a loop goes through what is displayed or through all that is left.
-/

namespace Scaffold.Template

/-- All loops in these nodes, which stand under the outer loops, go through such collections. -/
def EachLoop (P : String → Prop) (outer : List (String × String)) (nodes : List Node) : Prop :=
  ∀ loops var collection body line,
    Under outer nodes loops (.loop var collection body line) → P collection

section

variable {P Q : String → Prop} {outer : List (String × String)} {nodes nodes' body : List Node}
  {var collection : String} {line : Nat}

theorem EachLoop.imp (h : EachLoop P outer nodes) (hPQ : ∀ collection, P collection → Q collection) :
    EachLoop Q outer nodes :=
  fun _ _ _ _ _ hunder => hPQ _ (h _ _ _ _ _ hunder)

theorem EachLoop.mono (h : EachLoop P outer nodes) (hsubset : nodes' ⊆ nodes) :
    EachLoop P outer nodes' :=
  fun _ _ _ _ _ hunder => h _ _ _ _ _ (hunder.mono hsubset)

theorem eachLoop_placeholder (reference : Reference) (line : Nat) :
    EachLoop P outer [.placeholder reference line] := by
  intro loops var collection body line' hunder
  cases hunder with
  | here hmem => cases List.mem_singleton.1 hmem
  | inside hmem => cases List.mem_singleton.1 hmem

theorem eachLoop_loop_iff : EachLoop P outer [.loop var collection body line] ↔
    P collection ∧ EachLoop P ((var, collection) :: outer) body := by
  constructor
  · intro h
    have hmem : Node.loop var collection body line ∈ [Node.loop var collection body line] :=
      List.mem_singleton_self _
    exact ⟨h _ _ _ _ _ (.here hmem), fun _ _ _ _ _ hunder => h _ _ _ _ _ (.inside hmem hunder)⟩
  · rintro ⟨hP, hbody⟩ loops var' collection' body' line' hunder
    cases hunder with
    | here hmem =>
      cases List.mem_singleton.1 hmem
      exact hP
    | inside hmem hbelow =>
      cases List.mem_singleton.1 hmem
      exact hbody _ _ _ _ _ hbelow

theorem eachLoop_cons_iff {node : Node} :
    EachLoop P outer (node :: nodes) ↔ EachLoop P outer [node] ∧ EachLoop P outer nodes := by
  constructor
  · exact fun h => ⟨h.mono (by simp), h.mono (List.subset_cons_self _ _)⟩
  · rintro ⟨hnode, hnodes⟩ loops var collection body line hunder
    cases hunder with
    | here hmem =>
      rcases List.mem_cons.1 hmem with rfl | hmem
      · exact hnode _ _ _ _ _ (.here (List.mem_singleton_self _))
      · exact hnodes _ _ _ _ _ (.here hmem)
    | inside hmem hbelow =>
      rcases List.mem_cons.1 hmem with rfl | hmem
      · exact hnode _ _ _ _ _ (.inside (List.mem_singleton_self _) hbelow)
      · exact hnodes _ _ _ _ _ (.inside hmem hbelow)

end

mutual

/-- The node with the collections of its loops, at any depth, replaced. -/
def Node.mapCollections (f : String → String) : Node → Node
  | .literal text => .literal text
  | .placeholder reference line => .placeholder reference line
  | .loop var collection body line => .loop var (f collection) (mapCollectionsOf f body) line

def mapCollectionsOf (f : String → String) : List Node → List Node
  | [] => []
  | node :: nodes => node.mapCollections f :: mapCollectionsOf f nodes

end

/-- What the second context has under the new name of a collection is what the first one has under
the old name. A name of no collection is kept, as the error mentions it. -/
structure Serves (f : String → String) (c c' : Context) (collection : String) : Prop where
  items : c'.collection? (f collection) = c.collection? collection
  kept : c.collection? collection = none → f collection = collection

mutual

/-- A node expands to the same in two contexts with the same global names if each of its loops goes
through the same properties. -/
theorem expand_mapCollections {f : String → String} {c c' : Context}
    (hscalar : ∀ name, c'.scalar? name = c.scalar? name) (bindings : List Binding)
    (outer : List (String × String)) (node : Node) (hloops : EachLoop (Serves f c c') outer [node]) :
    (node.mapCollections f).expand c' bindings = node.expand c bindings := by
  match node with
  | .literal text => rfl
  | .placeholder reference line =>
    have hvalue : c'.resolve? bindings reference = c.resolve? bindings reference :=
      Context.resolve?_congr_scalar fun _ _ => hscalar reference.head
    rw [Node.mapCollections, Node.expand, hvalue, Node.expand]
  | .loop var collection body line =>
    obtain ⟨hserves, hbody⟩ := eachLoop_loop_iff.1 hloops
    rw [Node.mapCollections]
    cases hitems : c.collection? collection with
    | none =>
      rw [expand_loop_of_none hitems, expand_loop_of_none (hserves.items.trans hitems),
        hserves.kept hitems]
    | some items =>
      rw [expand_loop hitems, expand_loop (hserves.items.trans hitems)]
      congr 2
      funext item
      exact expandNodes_mapCollections hscalar (⟨var, item⟩ :: bindings) _ body hbody

theorem expandNodes_mapCollections {f : String → String} {c c' : Context}
    (hscalar : ∀ name, c'.scalar? name = c.scalar? name) (bindings : List Binding)
    (outer : List (String × String)) (nodes : List Node)
    (hloops : EachLoop (Serves f c c') outer nodes) :
    expandNodes c' bindings (mapCollectionsOf f nodes) = expandNodes c bindings nodes := by
  match nodes with
  | [] => rfl
  | node :: nodes =>
    obtain ⟨hnode, hnodes⟩ := eachLoop_cons_iff.1 hloops
    rw [mapCollectionsOf, expandNodes_cons, expandNodes_cons,
      expand_mapCollections hscalar bindings outer node hnode,
      expandNodes_mapCollections hscalar bindings outer nodes hnodes]

end

mutual

theorem Node.mapCollections_id (node : Node) : node.mapCollections id = node := by
  match node with
  | .literal text => rfl
  | .placeholder reference line => rfl
  | .loop var collection body line => rw [Node.mapCollections, mapCollectionsOf_id body, id]

theorem mapCollectionsOf_id (nodes : List Node) : mapCollectionsOf id nodes = nodes := by
  match nodes with
  | [] => rfl
  | node :: nodes => rw [mapCollectionsOf, node.mapCollections_id, mapCollectionsOf_id nodes]

end

/-- The context without the properties that are called `id`. -/
def Context.withoutId (c : Context) : Context :=
  { c with properties := c.properties.filter (·.name ≠ "id") }

/-- All properties in place of those that are displayed. -/
def allForDisplayed (collection : String) : String :=
  if collection = "display_properties" then "properties" else collection

/-- The template with its loops over what is displayed made loops over all properties. -/
def showingAll (t : Template) : Template :=
  ⟨mapCollectionsOf allForDisplayed t.nodes⟩

variable {c c' : Context} {collection : String}

theorem Context.collection?_eq_none (hall : collection ≠ "properties")
    (hdisplayed : collection ≠ "display_properties") : c.collection? collection = none := by
  unfold collection?
  split
  · exact absurd rfl hall
  · exact absurd rfl hdisplayed
  · rfl

/-- The properties that are displayed are those that are not called `id`. -/
theorem Context.collection?_displayed (c : Context) :
    c.collection? "display_properties" = some c.withoutId.properties := rfl

/-- What is displayed is the same in contexts that differ in properties called `id`. -/
theorem serves_id (hproperties : c'.withoutId.properties = c.withoutId.properties)
    (hcollection : collection ≠ "properties") : Serves id c c' collection := by
  refine ⟨?_, fun _ => rfl⟩
  by_cases hdisplayed : collection = "display_properties"
  · rw [id, hdisplayed, Context.collection?_displayed, hproperties, Context.collection?_displayed]
  · rw [id, Context.collection?_eq_none hcollection hdisplayed,
      Context.collection?_eq_none hcollection hdisplayed]

theorem serves_allForDisplayed (hcollection : collection ≠ "properties") :
    Serves allForDisplayed c c.withoutId collection := by
  by_cases hdisplayed : collection = "display_properties"
  · subst hdisplayed
    exact ⟨rfl, nofun⟩
  · have hkept : allForDisplayed collection = collection := if_neg hdisplayed
    refine ⟨?_, fun _ => hkept⟩
    rw [hkept, Context.collection?_eq_none hcollection hdisplayed,
      Context.collection?_eq_none hcollection hdisplayed]

theorem Context.withoutId_withoutId (c : Context) : c.withoutId.withoutId = c.withoutId := by
  simp [withoutId]

theorem Context.scalar?_congr (hname : c'.name = c.name) (hbindings : c'.bindings = c.bindings)
    (name : String) : c'.scalar? name = c.scalar? name := by
  rw [scalar?, scalar?, hname, hbindings]

/-- A template without a loop over all properties does not see the properties called `id`. It
expands to the same without them, and then also if its loops over what is displayed go through all
properties. So contexts that differ only in how many such properties there are, where they stand and
which types they have are the same to it. -/
theorem expand_withoutId {t : Template} (h : EachLoop (· ≠ "properties") [] t.nodes) :
    (∀ c : Context, t.expand c.withoutId = t.expand c ∧
      (showingAll t).expand c.withoutId = t.expand c) ∧
    ∀ c c' : Context, c'.name = c.name → c'.bindings = c.bindings →
      c'.withoutId.properties = c.withoutId.properties → t.expand c' = t.expand c := by
  have hsame : ∀ c c' : Context, c'.name = c.name → c'.bindings = c.bindings →
      c'.withoutId.properties = c.withoutId.properties → t.expand c' = t.expand c := by
    intro c c' hname hbindings hproperties
    have hexpand := expandNodes_mapCollections (Context.scalar?_congr hname hbindings) [] [] t.nodes
      (h.imp fun _ => serves_id hproperties)
    rwa [mapCollectionsOf_id] at hexpand
  refine ⟨fun c => ⟨hsame c c.withoutId rfl rfl (by rw [c.withoutId_withoutId]), ?_⟩, hsame⟩
  have hscalar : ∀ name, c.withoutId.scalar? name = c.scalar? name := fun _ => rfl
  exact expandNodes_mapCollections hscalar [] [] t.nodes (h.imp fun _ => serves_allForDisplayed)

/-- The type of the second `id` is missing, which a loop over all properties would stumble over. -/
theorem expand_withoutId_of_nested :
    let t : Template := ⟨[.loop "p" "display_properties"
      [.placeholder ⟨"p", ["type"]⟩ 1, .loop "q" "display_properties"
        [.placeholder ⟨"q", ["name"]⟩ 2, .placeholder ⟨"p", ["name"]⟩ 2] 2] 1]⟩
    let c : Context := ⟨"Main",
      [⟨"id", some "Int"⟩, ⟨"a", some "A"⟩, ⟨"id", none⟩, ⟨"identity", some "B"⟩], []⟩
    let c' : Context := ⟨"Main", [⟨"a", some "A"⟩, ⟨"identity", some "B"⟩, ⟨"id", none⟩], []⟩
    EachLoop (· ≠ "properties") [] t.nodes ∧ t.expand c = .ok "AaaidentityaBaidentityidentityidentity" ∧
      t.expand c.withoutId = t.expand c ∧ (showingAll t).expand c.withoutId = t.expand c ∧
      (showingAll t).expand c = .error (.unbound "p.type" 1) ∧ t.expand c' = t.expand c := by
  intro t c c'
  have hloops : EachLoop (· ≠ "properties") [] t.nodes := by
    refine eachLoop_loop_iff.2 ⟨by decide, eachLoop_cons_iff.2 ⟨eachLoop_placeholder _ _, ?_⟩⟩
    refine eachLoop_loop_iff.2 ⟨by decide, eachLoop_cons_iff.2 ⟨eachLoop_placeholder _ _, ?_⟩⟩
    exact eachLoop_placeholder _ _
  obtain ⟨hwithout, hsame⟩ := expand_withoutId hloops
  exact ⟨hloops, by rfl, (hwithout c).1, (hwithout c).2, by rfl, hsame c c' rfl rfl rfl⟩

end Scaffold.Template
