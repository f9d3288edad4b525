import Mathlib
import Scaffold.Proofs.Template.Expansion
import Scaffold.Proofs.Template.Occurrence

/-!
When a template expands. Whether a placeholder has a value can be told from the loops around it and
their collections, and so can whether it is reached at all. A template expands if and only if all
that is reached resolves; otherwise the first tag that does not, in the order in which expansion
comes to the tags, is the error.
-/

namespace Scaffold.Template

/-- The elements of a collection. A name of no collection has none. -/
def Context.elements (c : Context) (collection : String) : List Property :=
  (c.collection? collection).getD []

/-- Under loops whose variables stand for something, the innermost first, a reference is the name of
a global value that no loop variable hides, or a field of the innermost loop variable of its head.
The type is a field only of what is typed. -/
def Reference.Resolves {α : Type} (c : Context) (typed : α → Prop) (scope : List (String × α))
    (r : Reference) : Prop :=
  (r.fields = [] ∧ r.head ∉ Assoc.keys scope ∧
    (r.head = "name" ∨ r.head ∈ Assoc.keys c.bindings)) ∨
  ∃ field a, r.fields = [field] ∧ Assoc.find? r.head scope = some a ∧
    (field ∈ ["name", "outlet", "outlet_type", "reset"] ∨ field = "type" ∧ typed a)

def Node.Resolves {α : Type} (c : Context) (typed : α → Prop) (scope : List (String × α)) :
    Node → Prop
  | .literal _ => True
  | .placeholder reference _ => reference.Resolves c typed scope
  | .loop _ collection _ _ => collection = "properties" ∨ collection = "display_properties"

/-- Each of the loops goes through a collection that is not empty. -/
def Context.Enters (c : Context) (loops : List (String × String)) : Prop :=
  ∀ l ∈ loops, ∃ item items, c.collection? l.2 = some (item :: items)

/-- Every element of the collection has a type. -/
def Context.AllTyped (c : Context) (collection : String) : Prop :=
  ∀ p ∈ c.elements collection, p.type? ≠ none

/-- A node that expansion comes to, with what the loop variables stand for there. -/
structure Visit where
  bindings : List Binding
  node : Node

mutual

/-- All that the expansion of a node comes to, in order, as long as nothing fails. -/
def Node.visits (c : Context) (bindings : List Binding) : Node → List Visit
  | .literal text => [⟨bindings, .literal text⟩]
  | .placeholder reference line => [⟨bindings, .placeholder reference line⟩]
  | .loop var collection body line =>
    ⟨bindings, .loop var collection body line⟩ ::
      (c.elements collection).flatMap fun item => visitsOf c (⟨var, item⟩ :: bindings) body

def visitsOf (c : Context) (bindings : List Binding) : List Node → List Visit
  | [] => []
  | node :: nodes => node.visits c bindings ++ visitsOf c bindings nodes

end

/-- Loop variables with the properties that they stand for. -/
def scopeOf (bindings : List Binding) : List (String × Property) :=
  bindings.map fun b => (b.var, b.property)

def Visit.Resolves (c : Context) (v : Visit) : Prop :=
  v.node.Resolves c (fun p => p.type? ≠ none) (scopeOf v.bindings)

/-- The first of these visits that does not resolve is this error. -/
def FirstUnbound (c : Context) (visits : List Visit) (e : Error) : Prop :=
  ∃ before visit after, visits = before ++ visit :: after ∧ (∀ v ∈ before, v.Resolves c) ∧
    ¬visit.Resolves c ∧ visit.node.unbound? = some e

/-- What the visits say about a result: there is a text if all resolve, and else the first that does
not is the error. -/
def Decides (c : Context) (visits : List Visit) : Except Error String → Prop
  | .ok _ => ∀ v ∈ visits, v.Resolves c
  | .error e => FirstUnbound c visits e

theorem Property.field?_eq_none_iff {p : Property} {field : String} : p.field? field = none ↔
    ¬(field ∈ ["name", "outlet", "outlet_type", "reset"] ∨ field = "type" ∧ p.type? ≠ none) := by
  unfold Property.field?
  split <;> simp_all

theorem Context.scalar?_eq_none_iff {c : Context} {key : String} :
    c.scalar? key = none ↔ ¬(key = "name" ∨ key ∈ Assoc.keys c.bindings) := by
  rw [Context.scalar?, not_or, ← Assoc.find?_eq_none_iff]
  split <;> simp_all

theorem Context.scalar?_bind {c : Context} {key key' value : String} (hkey : key' ≠ "name") :
    (c.bind key value).scalar? key' = if key = key' then some value else c.scalar? key' := by
  rw [scalar?, scalar?, if_neg hkey, if_neg hkey, bind, Assoc.find?_insert]

theorem Context.collection?_eq_none_iff {c : Context} {collection : String} :
    c.collection? collection = none ↔
      ¬(collection = "properties" ∨ collection = "display_properties") := by
  unfold Context.collection?
  split <;> simp_all

theorem Context.elements_of_eq_some {c : Context} {collection : String} {items : List Property}
    (h : c.collection? collection = some items) : c.elements collection = items := by
  rw [Context.elements, h]
  rfl

theorem find?_scopeOf (bindings : List Binding) (name : String) :
    Assoc.find? name (scopeOf bindings) = (binding? bindings name).map (·.property) := by
  induction bindings with
  | nil => rfl
  | cons b bindings ih =>
    change (if b.var = name then some b.property else Assoc.find? name (scopeOf bindings)) = _
    rw [ih, binding?_cons]
    split <;> rfl

/-- A reference has a value if and only if it resolves. -/
theorem Context.resolve?_eq_none_iff {c : Context} {bindings : List Binding} {r : Reference} :
    c.resolve? bindings r = none ↔ ¬r.Resolves c (fun p => p.type? ≠ none) (scopeOf bindings) := by
  rw [Reference.Resolves, ← Assoc.find?_eq_none_iff, find?_scopeOf, Context.resolve?, binding?]
  generalize bindings.find? (·.var = r.head) = bound
  cases bound with
  | none =>
    rcases r.fields with _ | ⟨field, fields⟩
    · simp [Context.scalar?_eq_none_iff]
    · simp
  | some b =>
    rcases r.fields with _ | ⟨field, _ | ⟨field', fields⟩⟩
    · simp
    · simp [Property.field?_eq_none_iff]
    · simp

namespace Decides

variable {c : Context} {us vs : List Visit} {r s : Except Error String}

theorem nil : Decides c [] (.ok "") :=
  fun _ h => nomatch h

theorem joined (hr : Decides c us r) (hs : Decides c vs s) : Decides c (us ++ vs) (joined r s) := by
  cases r with
  | error e =>
    obtain ⟨before, visit, after, rfl, hbefore, hvisit, he⟩ := hr
    exact ⟨before, visit, after ++ vs, by simp, hbefore, hvisit, he⟩
  | ok first =>
    cases s with
    | error e =>
      obtain ⟨before, visit, after, rfl, hbefore, hvisit, he⟩ := hs
      refine ⟨us ++ before, visit, after, by simp, fun v hv => ?_, hvisit, he⟩
      rcases List.mem_append.1 hv with hv | hv
      · exact hr v hv
      · exact hbefore v hv
    | ok rest =>
      intro v hv
      rcases List.mem_append.1 hv with hv | hv
      · exact hr v hv
      · exact hs v hv

theorem joinResults {α : Type} {f : α → List Visit} {g : α → Except Error String}
    (h : ∀ a, Decides c (f a) (g a)) (items : List α) :
    Decides c (items.flatMap f) (joinResults (items.map g)) := by
  induction items with
  | nil => exact nil
  | cons item items ih => exact joined (h item) ih

end Decides

theorem decides_placeholder (c : Context) (bindings : List Binding) (reference : Reference)
    (line : Nat) : Decides c ((Node.placeholder reference line).visits c bindings)
      ((Node.placeholder reference line).expand c bindings) := by
  rw [Node.visits, Node.expand]
  cases hvalue : c.resolve? bindings reference with
  | none =>
    refine ⟨[], _, [], rfl, by simp, ?_, rfl⟩
    exact Context.resolve?_eq_none_iff.1 hvalue
  | some value =>
    intro v hv
    rw [List.mem_singleton.1 hv]
    by_contra hnot
    have hnone : c.resolve? bindings reference = none := Context.resolve?_eq_none_iff.2 hnot
    rw [hnone] at hvalue
    cases hvalue

mutual

theorem decides_visits (c : Context) (bindings : List Binding) (node : Node) :
    Decides c (node.visits c bindings) (node.expand c bindings) := by
  match node with
  | .literal text =>
    intro v hv
    rw [Node.visits] at hv
    rw [List.mem_singleton.1 hv]
    trivial
  | .placeholder reference line => exact decides_placeholder c bindings reference line
  | .loop var collection body line =>
    rw [Node.visits]
    cases hitems : c.collection? collection with
    | none =>
      rw [expand_loop_of_none hitems]
      exact ⟨[], _, _, rfl, by simp, Context.collection?_eq_none_iff.1 hitems, rfl⟩
    | some items =>
      have hself : Decides c [⟨bindings, .loop var collection body line⟩] (.ok "") := by
        intro v hv
        rw [List.mem_singleton.1 hv]
        by_contra hnot
        have hnone : c.collection? collection = none := Context.collection?_eq_none_iff.2 hnot
        rw [hnone] at hitems
        cases hitems
      have hbody := Decides.joinResults (c := c)
        (fun item => decides_visitsOf c (⟨var, item⟩ :: bindings) body) items
      rw [expand_loop hitems, Context.elements_of_eq_some hitems]
      have h := hself.joined hbody
      rwa [joined_empty_left] at h

theorem decides_visitsOf (c : Context) (bindings : List Binding) (nodes : List Node) :
    Decides c (visitsOf c bindings nodes) (expandNodes c bindings nodes) := by
  match nodes with
  | [] => exact .nil
  | node :: nodes =>
    rw [visitsOf, expandNodes_cons]
    exact (decides_visits c bindings node).joined (decides_visitsOf c bindings nodes)

end

/-- Expansion fails at a name that nothing binds, and in no other way. -/
theorem exists_unbound_of_expand {t : Template} {c : Context} {e : Error}
    (h : t.expand c = .error e) : ∃ name line, e = .unbound name line := by
  have hdecides : Decides c (visitsOf c [] t.nodes) (t.expand c) := decides_visitsOf c [] t.nodes
  rw [h] at hdecides
  obtain ⟨_, ⟨_, node⟩, _, _, _, _, hnode⟩ := hdecides
  cases node <;> cases hnode <;> exact ⟨_, _, rfl⟩

/-- One turn of some loops: each variable stands for an element of its collection. -/
def Context.IsTurn (c : Context) (loops : List (String × String)) (bindings : List Binding) : Prop :=
  List.Forall₂ (fun l b => b.var = l.1 ∧ b.property ∈ c.elements l.2) loops bindings

section Turns

variable {c : Context} {loops outer : List (String × String)} {bindings : List Binding}
  {nodes : List Node} {node : Node}

theorem Context.Enters.exists_mem (h : c.Enters loops) {l : String × String} (hl : l ∈ loops) :
    ∃ item, item ∈ c.elements l.2 := by
  obtain ⟨item, items, hitems⟩ := h l hl
  exact ⟨item, by rw [Context.elements_of_eq_some hitems]; exact List.mem_cons_self⟩

theorem Context.IsTurn.enters (h : c.IsTurn loops bindings) : c.Enters loops := by
  induction h with
  | nil => exact fun _ hl => nomatch hl
  | @cons l b _ _ hl _ ih =>
    intro l' hl'
    rcases List.mem_cons.1 hl' with rfl | hl'
    · have hmem := hl.2
      rw [Context.elements] at hmem
      cases hitems : c.collection? l'.2 with
      | none => simp [hitems] at hmem
      | some items =>
        rw [hitems, Option.getD_some] at hmem
        exact ⟨_, _, congrArg some (List.cons_head_tail (List.ne_nil_of_mem hmem)).symm⟩
    · exact ih l' hl'

/-- Loops that go through no empty collection have a turn, and one in which the innermost loop
variable of a name stands for any given element. -/
theorem Context.Enters.exists_isTurn (h : c.Enters loops) : ∃ bindings, c.IsTurn loops bindings := by
  induction loops with
  | nil => exact ⟨[], .nil⟩
  | cons l loops ih =>
    obtain ⟨item, hitem⟩ := h.exists_mem List.mem_cons_self
    obtain ⟨bindings, hturn⟩ := ih fun l' hl' => h l' (List.mem_cons_of_mem _ hl')
    exact ⟨⟨l.1, item⟩ :: bindings, .cons ⟨rfl, hitem⟩ hturn⟩

theorem Context.Enters.exists_isTurn_at (h : c.Enters loops) {name collection : String}
    (hname : Assoc.find? name loops = some collection) {item : Property}
    (hitem : item ∈ c.elements collection) :
    ∃ bindings, c.IsTurn loops bindings ∧ Assoc.find? name (scopeOf bindings) = some item := by
  induction loops with
  | nil => cases hname
  | cons l loops ih =>
    have htail : c.Enters loops := fun l' hl' => h l' (List.mem_cons_of_mem _ hl')
    rw [Assoc.find?_cons] at hname
    split at hname
    · next heq =>
      cases hname
      obtain ⟨bindings, hturn⟩ := htail.exists_isTurn
      refine ⟨⟨l.1, item⟩ :: bindings, .cons ⟨rfl, hitem⟩ hturn, ?_⟩
      simp [scopeOf, Assoc.find?_cons, heq]
    · next hne =>
      obtain ⟨first, hfirst⟩ := h.exists_mem List.mem_cons_self
      obtain ⟨bindings, hturn, hfind⟩ := ih htail hname
      refine ⟨⟨l.1, first⟩ :: bindings, .cons ⟨rfl, hfirst⟩ hturn, ?_⟩
      rw [scopeOf, List.map_cons, Assoc.find?_cons, if_neg hne]
      exact hfind

/-- In a turn the same names are bound as by the loops, each to an element of the innermost
collection that it goes through. -/
theorem Context.IsTurn.find? (h : c.IsTurn loops bindings) (name : String) :
    (Assoc.find? name loops = none ∧ Assoc.find? name (scopeOf bindings) = none) ∨
      ∃ collection item, Assoc.find? name loops = some collection ∧
        Assoc.find? name (scopeOf bindings) = some item ∧ item ∈ c.elements collection := by
  induction h with
  | nil => exact Or.inl ⟨rfl, rfl⟩
  | @cons l b _ _ hl _ ih =>
    rw [scopeOf, List.map_cons, Assoc.find?_cons, Assoc.find?_cons, hl.1]
    by_cases hname : l.1 = name
    · rw [if_pos hname, if_pos hname]
      exact Or.inr ⟨l.2, b.property, rfl, rfl, hl.2⟩
    · rw [if_neg hname, if_neg hname]
      exact ih

theorem Context.IsTurn.keys_eq (h : c.IsTurn loops bindings) :
    Assoc.keys (scopeOf bindings) = Assoc.keys loops := by
  induction h with
  | nil => rfl
  | cons hl _ ih => exact congrArg₂ _ hl.1 ih

/-- What resolves under the loops does in each of their turns. -/
theorem Context.IsTurn.resolves (hturn : c.IsTurn loops bindings)
    (h : node.Resolves c c.AllTyped loops) : Visit.Resolves c ⟨bindings, node⟩ := by
  cases node with
  | literal text => trivial
  | loop var collection body line => exact h
  | placeholder reference line =>
    rcases h with ⟨hfields, hhead, hglobal⟩ | ⟨field, collection, hfields, hfind, hfield⟩
    · exact Or.inl ⟨hfields, by rwa [hturn.keys_eq], hglobal⟩
    · rcases hturn.find? reference.head with ⟨hnone, -⟩ | ⟨collection', item, hloop, hitem, hmem⟩
      · cases hnone.symm.trans hfind
      · cases hfind.symm.trans hloop
        refine Or.inr ⟨field, item, hfields, hitem, ?_⟩
        exact hfield.imp_right fun ⟨htype, htyped⟩ => ⟨htype, htyped item hmem⟩

/-- What resolves in each turn does under the loops. -/
theorem Context.Enters.resolves (henters : c.Enters loops)
    (h : ∀ bindings, c.IsTurn loops bindings → Visit.Resolves c ⟨bindings, node⟩) :
    node.Resolves c c.AllTyped loops := by
  obtain ⟨bindings, hturn⟩ := henters.exists_isTurn
  cases node with
  | literal text => trivial
  | loop var collection body line => exact h bindings hturn
  | placeholder reference line =>
    rcases h bindings hturn with ⟨hfields, hhead, hglobal⟩ | ⟨field, item, hfields, hfind, hfield⟩
    · exact Or.inl ⟨hfields, by rwa [← hturn.keys_eq], hglobal⟩
    · rcases hturn.find? reference.head with ⟨-, hnone⟩ | ⟨collection, _, hloop, -, -⟩
      · cases hnone.symm.trans hfind
      · refine Or.inr ⟨field, collection, hfields, hloop, hfield.imp_right ?_⟩
        rintro ⟨rfl, -⟩
        refine ⟨rfl, fun p hp => ?_⟩
        obtain ⟨bindings', hturn', hfind'⟩ := henters.exists_isTurn_at hloop hp
        rcases h bindings' hturn' with ⟨hnil, -⟩ | ⟨field', p', hfields', hfind'', hfield'⟩
        · cases hfields.symm.trans hnil
        · cases hfields.symm.trans hfields'
          cases hfind'.symm.trans hfind''
          rcases hfield' with hfixed | ⟨-, htyped⟩
          · simp at hfixed
          · exact htyped

theorem mem_visits_self (c : Context) (bindings : List Binding) (node : Node) :
    ⟨bindings, node⟩ ∈ node.visits c bindings := by
  cases node <;> simp [Node.visits]

theorem mem_visitsOf_iff {visit : Visit} :
    visit ∈ visitsOf c bindings nodes ↔ ∃ node ∈ nodes, visit ∈ node.visits c bindings := by
  induction nodes with
  | nil => simp [visitsOf]
  | cons node nodes ih => simp [visitsOf, ih]

/-- A node is visited in each turn of the loops around it. -/
theorem Under.mem_visitsOf (h : Under outer nodes loops node) (hturn : c.IsTurn loops bindings) :
    ∃ bindings', c.IsTurn outer bindings' ∧ ⟨bindings, node⟩ ∈ visitsOf c bindings' nodes := by
  induction h with
  | here hnode =>
    exact ⟨bindings, hturn, mem_visitsOf_iff.2 ⟨_, hnode, mem_visits_self c bindings _⟩⟩
  | inside hloop _ ih =>
    obtain ⟨_, hturn', hmem⟩ := ih hturn
    cases hturn' with
    | @cons _ b _ rest hb hrest =>
      obtain ⟨var, item⟩ := b
      obtain ⟨rfl, hitem⟩ := hb
      refine ⟨rest, hrest, mem_visitsOf_iff.2 ⟨_, hloop, ?_⟩⟩
      rw [Node.visits]
      exact List.mem_cons_of_mem _ (List.mem_flatMap.2 ⟨item, hitem, hmem⟩)

end Turns

mutual

/-- What is visited stands in the tree, under loops that are at one of their turns. -/
theorem exists_under_of_mem_visits {c : Context} {outer : List (String × String)}
    {bindings : List Binding} (hturn : c.IsTurn outer bindings) (node : Node) {visit : Visit}
    (h : visit ∈ node.visits c bindings) :
    ∃ loops, Under outer [node] loops visit.node ∧ c.IsTurn loops visit.bindings := by
  match node with
  | .literal text =>
    rw [Node.visits] at h
    cases List.mem_singleton.1 h
    exact ⟨outer, .here List.mem_cons_self, hturn⟩
  | .placeholder reference line =>
    rw [Node.visits] at h
    cases List.mem_singleton.1 h
    exact ⟨outer, .here List.mem_cons_self, hturn⟩
  | .loop var collection body line =>
    rw [Node.visits] at h
    rcases List.mem_cons.1 h with rfl | h
    · exact ⟨outer, .here List.mem_cons_self, hturn⟩
    · obtain ⟨item, hitem, hvisit⟩ := List.mem_flatMap.1 h
      have hbody : c.IsTurn ((var, collection) :: outer) (⟨var, item⟩ :: bindings) :=
        .cons ⟨rfl, hitem⟩ hturn
      obtain ⟨loops, hunder, hloops⟩ := exists_under_of_mem_visitsOf hbody body hvisit
      exact ⟨loops, .inside List.mem_cons_self hunder, hloops⟩

theorem exists_under_of_mem_visitsOf {c : Context} {outer : List (String × String)}
    {bindings : List Binding} (hturn : c.IsTurn outer bindings) (nodes : List Node) {visit : Visit}
    (h : visit ∈ visitsOf c bindings nodes) :
    ∃ loops, Under outer nodes loops visit.node ∧ c.IsTurn loops visit.bindings := by
  match nodes with
  | [] => cases h
  | node :: nodes =>
    rw [visitsOf, List.mem_append] at h
    rcases h with h | h
    · obtain ⟨loops, hunder, hloops⟩ := exists_under_of_mem_visits hturn node h
      exact ⟨loops, hunder.mono (by simp), hloops⟩
    · obtain ⟨loops, hunder, hloops⟩ := exists_under_of_mem_visitsOf hturn nodes h
      exact ⟨loops, hunder.mono (List.subset_cons_self _ _), hloops⟩

end

/-- All visits resolve if and only if all nodes do that are reached. -/
theorem forall_visits_resolve_iff {c : Context} {nodes : List Node} :
    (∀ visit ∈ visitsOf c [] nodes, visit.Resolves c) ↔
      ∀ loops node, Under [] nodes loops node → c.Enters loops → node.Resolves c c.AllTyped loops := by
  constructor
  · intro h loops node hunder henters
    refine henters.resolves fun bindings hturn => ?_
    obtain ⟨_, hnil, hmem⟩ := hunder.mem_visitsOf hturn
    cases hnil
    exact h _ hmem
  · intro h visit hvisit
    obtain ⟨loops, hunder, hturn⟩ := exists_under_of_mem_visitsOf .nil nodes hvisit
    exact hturn.resolves (h loops _ hunder hturn.enters)

/-- A template expands if and only if each placeholder and each loop that is reached resolves.
Otherwise the first that does not, in the order of the expansion, turn by turn, is reported with the
name that its tag gives and the line of that tag. -/
theorem expand_reached {text : String} {t : Template} (hparse : Template.parse text = .ok t)
    (c : Context) :
    ((∃ output, t.expand c = .ok output) ↔ ∀ loops node, Under [] t.nodes loops node →
      c.Enters loops → node.Resolves c c.AllTyped loops) ∧
    ∀ e, t.expand c = .error e → ∃ before visit after name line,
      visitsOf c [] t.nodes = before ++ visit :: after ∧ (∀ v ∈ before, v.Resolves c) ∧
        ¬visit.Resolves c ∧ visit.node.Names text name line ∧ e = .unbound name line := by
  have hdecides : Decides c (visitsOf c [] t.nodes) (t.expand c) := decides_visitsOf c [] t.nodes
  refine ⟨?_, fun e he => ?_⟩
  · rw [← forall_visits_resolve_iff]
    constructor
    · rintro ⟨output, houtput⟩
      rw [houtput] at hdecides
      exact hdecides
    · intro hall
      cases hexpand : t.expand c with
      | ok output => exact ⟨output, rfl⟩
      | error e =>
        rw [hexpand] at hdecides
        obtain ⟨before, visit, after, hvisits, -, hvisit, -⟩ := hdecides
        exact absurd (hall visit (by simp [hvisits])) hvisit
  · rw [he] at hdecides
    obtain ⟨before, visit, after, hvisits, hbefore, hvisit, hunbound⟩ := hdecides
    have hmem : visit ∈ visitsOf c [] t.nodes := by simp [hvisits]
    obtain ⟨loops, hunder, -⟩ := exists_under_of_mem_visitsOf .nil t.nodes hmem
    obtain ⟨name, line, hnames, rfl⟩ := hunder.exists_names hparse hunbound
    exact ⟨before, visit, after, name, line, hvisits, hbefore, hvisit, hnames, rfl⟩

/-- A type that one item lacks: the placeholder does not resolve, and the error names it. -/
theorem expand_reached_of_untyped :
    let text := "\x7b%for p in properties%\x7d\x7b\x7bp.type\x7d\x7d\x7b%endfor%\x7d"
    let t : Template := ⟨[.loop "p" "properties" [.placeholder ⟨"p", ["type"]⟩ 1] 1]⟩
    let c : Context := ⟨"Main", [⟨"a", some "Int"⟩, ⟨"b", none⟩], []⟩
    Template.parse text = .ok t ∧ t.expand c = .error (.unbound "p.type" 1) ∧
    ((∃ output, t.expand c = .ok output) ↔ ∀ loops node, Under [] t.nodes loops node →
      c.Enters loops → node.Resolves c c.AllTyped loops) ∧
    ∀ e, t.expand c = .error e → ∃ before visit after name line,
      visitsOf c [] t.nodes = before ++ visit :: after ∧ (∀ v ∈ before, v.Resolves c) ∧
        ¬visit.Resolves c ∧ visit.node.Names text name line ∧ e = .unbound name line := by
  intro text t c
  have hparse : Template.parse text = .ok t := by cbv
  have hexpand : t.expand c = .error (.unbound "p.type" 1) := by rfl
  exact ⟨hparse, hexpand, expand_reached hparse c⟩

end Scaffold.Template
