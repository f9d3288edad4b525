import Scaffold.Proofs.Template.Line
import Scaffold.Proofs.Template.Resolution

/-!
Closed templates. A template is closed under some names if every placeholder is one of these, or the
name of the scene, or a field that every property has, and every loop goes through a collection.
This can be checked on the tree alone, and it is enough for the template to expand in any context
that binds the names.
-/

namespace Scaffold.Template

/-- The fields that every property has, with or without a type. -/
def commonFields : List String :=
  ["name", "outlet", "outlet_type", "reset"]

/-- The reference is one of the names and no loop variable, or a common field of a loop variable. -/
def Reference.isClosed (names vars : List String) (r : Reference) : Bool :=
  match r.fields with
  | [] => !vars.contains r.head && ("name" :: names).contains r.head
  | [field] => vars.contains r.head && commonFields.contains field
  | _ => false

mutual

/-- All that stands in a node is closed under the names and the loop variables. -/
def Node.isClosed (names vars : List String) : Node → Bool
  | .literal _ => true
  | .placeholder reference _ => reference.isClosed names vars
  | .loop var collection body _ =>
    ["properties", "display_properties"].contains collection && areClosed names (var :: vars) body

def areClosed (names vars : List String) : List Node → Bool
  | [] => true
  | node :: nodes => node.isClosed names vars && areClosed names vars nodes

end

/-- The context has a value for each of the names. -/
def Context.Binds (c : Context) (names : List String) : Prop :=
  ∀ name ∈ names, c.scalar? name ≠ none

variable {c : Context} {names : List String}

theorem Context.Binds.bind (h : c.Binds names) (key value : String) :
    (c.bind key value).Binds (key :: names) := by
  intro name hmem
  by_cases hname : name = "name"
  · subst hname
    exact nofun
  rw [scalar?_bind hname]
  split
  · exact nofun
  · next hne => exact h name ((List.mem_cons.1 hmem).resolve_left (Ne.symm hne))

theorem areClosed_eq_all (names vars : List String) (nodes : List Node) :
    areClosed names vars nodes = nodes.all (Node.isClosed names vars) := by
  induction nodes with
  | nil => rfl
  | cons node nodes ih => rw [areClosed, ih, List.all_cons]

theorem Reference.resolves_of_isClosed {r : Reference} {bindings : List Binding}
    (hbinds : c.Binds names) (h : r.isClosed names (bindings.map (·.var)) = true) :
    r.Resolves c (fun p => p.type? ≠ none) (scopeOf bindings) := by
  have hkeys : Assoc.keys (scopeOf bindings) = bindings.map (·.var) := by
    rw [Assoc.keys, scopeOf, List.map_map]
    rfl
  rw [isClosed] at h
  split at h
  · next hfields =>
    rw [Bool.and_eq_true, Bool.not_eq_true', ← Bool.not_eq_true, List.contains_iff_mem,
      List.contains_iff_mem, ← hkeys] at h
    refine .inl ⟨hfields, h.1, ?_⟩
    rcases List.mem_cons.1 h.2 with hname | hglobal
    · exact .inl hname
    · exact not_not.1 fun hnot => hbinds _ hglobal (Context.scalar?_eq_none_iff.2 hnot)
  · next field hfields =>
    rw [Bool.and_eq_true, List.contains_iff_mem, List.contains_iff_mem, ← hkeys] at h
    cases hfind : Assoc.find? r.head (scopeOf bindings) with
    | none => exact absurd h.1 (Assoc.find?_eq_none_iff.1 hfind)
    | some p => exact .inr ⟨field, p, hfields, hfind, .inl h.2⟩
  · cases h

mutual

/-- All that is visited in a closed node resolves. -/
theorem resolves_of_isClosed (hbinds : c.Binds names) (bindings : List Binding) (node : Node)
    (h : node.isClosed names (bindings.map (·.var)) = true) :
    ∀ visit ∈ node.visits c bindings, visit.Resolves c := by
  match node with
  | .literal text =>
    rw [Node.visits]
    exact List.forall_mem_singleton.2 trivial
  | .placeholder reference line =>
    rw [Node.visits]
    exact List.forall_mem_singleton.2 (Reference.resolves_of_isClosed hbinds h)
  | .loop var collection body line =>
    rw [Node.isClosed, Bool.and_eq_true, List.contains_iff_mem] at h
    rw [Node.visits]
    refine List.forall_mem_cons.2 ⟨by simpa [Visit.Resolves, Node.Resolves] using h.1, ?_⟩
    intro visit hvisit
    obtain ⟨item, -, hvisit⟩ := List.mem_flatMap.1 hvisit
    exact resolves_of_areClosed hbinds (⟨var, item⟩ :: bindings) body h.2 visit hvisit

theorem resolves_of_areClosed (hbinds : c.Binds names) (bindings : List Binding) (nodes : List Node)
    (h : areClosed names (bindings.map (·.var)) nodes = true) :
    ∀ visit ∈ visitsOf c bindings nodes, visit.Resolves c := by
  match nodes with
  | [] => exact nofun
  | node :: nodes =>
    rw [areClosed, Bool.and_eq_true] at h
    intro visit hvisit
    rw [visitsOf, List.mem_append] at hvisit
    rcases hvisit with hvisit | hvisit
    · exact resolves_of_isClosed hbinds bindings node h.1 visit hvisit
    · exact resolves_of_areClosed hbinds bindings nodes h.2 visit hvisit

end

theorem exists_expandNodes_of_areClosed {nodes : List Node} (hbinds : c.Binds names)
    (h : areClosed names [] nodes = true) : ∃ text, expandNodes c [] nodes = .ok text := by
  have hdecides := decides_visitsOf c [] nodes
  cases hexpand : expandNodes c [] nodes with
  | ok text => exact ⟨text, rfl⟩
  | error e =>
    rw [hexpand] at hdecides
    obtain ⟨before, visit, after, hvisits, -, hvisit, -⟩ := hdecides
    refine absurd (resolves_of_areClosed hbinds [] nodes h visit ?_) hvisit
    rw [hvisits]
    exact List.mem_append_right _ List.mem_cons_self

/-- Behind nodes that are closed, a name that nothing binds is the error. -/
theorem expandNodes_of_unbound {before after : List Node} {name : String} {line : Nat}
    (hbinds : c.Binds names) (h : areClosed names [] before = true)
    (hname : c.scalar? name = none) :
    expandNodes c [] (before ++ .placeholder ⟨name, []⟩ line :: after) =
      .error (.unbound name line) := by
  obtain ⟨text, hbefore⟩ := exists_expandNodes_of_areClosed hbinds h
  have hvalue : c.resolve? [] ⟨name, []⟩ = none := hname
  rw [expandNodes_append, hbefore, expandNodes_cons, Node.expand, hvalue]
  rfl

/-- The characters can be read, and what is read is closed under the names. -/
def readsClosed (names : List String) (cs : List Char) : Bool :=
  match readNodes 1 cs with
  | .ok nodes => areClosed names [] nodes
  | .error _ => false

/-- The characters can be read, and the first placeholder or loop that is not closed under the names
is the given name. -/
def readsOpen (names : List String) (name : String) (line : Nat) (cs : List Char) : Bool :=
  match readNodes 1 cs with
  | .ok nodes =>
    match nodes.dropWhile (Node.isClosed names []) with
    | .placeholder reference line' :: _ => reference = ⟨name, []⟩ && line' = line
    | _ => false
  | .error _ => false

theorem exists_parse_of_readsClosed {text : String} (h : readsClosed names text.toList = true) :
    ∃ t, Template.parse text = .ok t := by
  rw [readsClosed] at h
  split at h
  · next nodes hread => exact ⟨⟨nodes⟩, by rw [parse_eq_readNodes, hread]; rfl⟩
  · cases h

theorem expand_of_readsClosed {text : String} (hbinds : c.Binds names)
    (h : readsClosed names text.toList = true) : ∃ output, Scaffold.expand text c = .ok output := by
  rw [readsClosed] at h
  split at h
  · next nodes hread =>
    obtain ⟨output, houtput⟩ := exists_expandNodes_of_areClosed hbinds h
    refine ⟨output, ?_⟩
    rw [Scaffold.expand, parse_eq_readNodes, hread]
    exact houtput
  · cases h

theorem expand_of_readsOpen {text name : String} {line : Nat} (hbinds : c.Binds names)
    (h : readsOpen names name line text.toList = true) (hname : c.scalar? name = none) :
    Scaffold.expand text c = .error (.unbound name line) := by
  rw [readsOpen] at h
  split at h
  · next nodes hread =>
    split at h
    · next reference line' after hdrop =>
      rw [Bool.and_eq_true, decide_eq_true_iff, decide_eq_true_iff] at h
      obtain ⟨rfl, rfl⟩ := h
      have hnodes := List.takeWhile_append_dropWhile (p := Node.isClosed names []) (l := nodes)
      rw [hdrop] at hnodes
      have hbefore : areClosed names [] (nodes.takeWhile (Node.isClosed names [])) = true := by
        rw [areClosed_eq_all]
        exact List.all_takeWhile
      rw [Scaffold.expand, parse_eq_readNodes, hread]
      exact hnodes ▸ expandNodes_of_unbound hbinds hbefore hname
    · cases h
  · cases h

end Scaffold.Template
