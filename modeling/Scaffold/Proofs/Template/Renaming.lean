import Scaffold.Proofs.Template.Unrolling
import Scaffold.Proofs.Template.Visit

/-!
Renaming of loop variables. The variable of a loop may be replaced by a name that its body does not
mention, in the loop and in the placeholders that it binds. Wherever the loop stands, expansion
comes to the same places as before and each gives the same text, so a failure is at the same place
too and only names the new variable where it named the old one.
-/

namespace Scaffold.Template

mutual

/-- The name is the head of a placeholder or the variable of a loop, at any depth. -/
def Node.mentions (name : String) : Node → Bool
  | .literal _ => false
  | .placeholder reference _ => reference.head = name
  | .loop var _ body _ => var = name || areMentioning name body

def areMentioning (name : String) : List Node → Bool
  | [] => false
  | node :: nodes => node.mentions name || areMentioning name nodes

end

/-- The reference under loops with these variables, inside of a loop whose variable `v` becomes
`w`. -/
def Reference.rename (v w : String) (inner : List String) (r : Reference) : Reference :=
  if r.head = v ∧ v ∉ inner then ⟨w, r.fields⟩ else r

mutual

/-- The node under loops with these variables, inside of a loop whose variable `v` becomes `w`. -/
def Node.rename (v w : String) (inner : List String) : Node → Node
  | .literal text => .literal text
  | .placeholder reference line => .placeholder (reference.rename v w inner) line
  | .loop var collection body line =>
    .loop var collection (renameNodes v w (var :: inner) body) line

def renameNodes (v w : String) (inner : List String) : List Node → List Node
  | [] => []
  | node :: nodes => node.rename v w inner :: renameNodes v w inner nodes

end

/-- The node without what is inside of it. -/
def Node.withoutBody : Node → Node
  | .loop var collection _ line => .loop var collection [] line
  | node => node

/-- The second error is the first one, but it may name `w` as the head where that names `v`. -/
def Error.IsRenamed (v w : String) (e e' : Error) : Prop :=
  e' = e ∨ ∃ fields line, e = .unbound (Reference.text ⟨v, fields⟩) line ∧
    e' = .unbound (Reference.text ⟨w, fields⟩) line

/-- What becomes of a visit when the variable `v` of a loop becomes `w`. Outside of the loop nothing
does, except to what is in the body of a loop. Inside, the loop binds `w` in place of `v`, and the
node is renamed under the loops between. -/
inductive Visit.IsRenamed (v w : String) : Visit → Visit → Prop where
  | outside {bindings : List Binding} {node node' : Node} : node'.withoutBody = node.withoutBody →
      IsRenamed v w ⟨bindings, node⟩ ⟨bindings, node'⟩
  | loop {bindings : List Binding} {collection : String} {body body' : List Node} {line : Nat} :
      IsRenamed v w ⟨bindings, .loop v collection body line⟩
        ⟨bindings, .loop w collection body' line⟩
  | inside {inner outer : List Binding} {item : Property} {node : Node} :
      w ∉ inner.map (·.var) → node.mentions w = false →
      IsRenamed v w ⟨inner ++ ⟨v, item⟩ :: outer, node⟩
        ⟨inner ++ ⟨w, item⟩ :: outer, node.rename v w (inner.map (·.var))⟩

variable {c : Context} {v w : String} {inner outer : List Binding} {item : Property}

theorem find?_var_eq_none_iff {bindings : List Binding} {name : String} :
    bindings.find? (·.var = name) = none ↔ name ∉ bindings.map (·.var) := by
  rw [List.find?_eq_none, List.mem_map]
  simp

/-- The renamed variable stands for what the variable stood for, and every other name stands for
what it did. -/
theorem resolve?_rename {r : Reference} (hinner : w ∉ inner.map (·.var)) (hhead : r.head ≠ w) :
    c.resolve? (inner ++ ⟨w, item⟩ :: outer) (r.rename v w (inner.map (·.var))) =
      c.resolve? (inner ++ ⟨v, item⟩ :: outer) r := by
  by_cases hr : r.head = v ∧ v ∉ inner.map (·.var)
  · obtain ⟨hv, hfree⟩ := hr
    have hnew : (inner ++ ⟨w, item⟩ :: outer).find? (·.var = w) = some ⟨w, item⟩ := by
      rw [List.find?_append, find?_var_eq_none_iff.2 hinner]
      simp
    have hold : (inner ++ ⟨v, item⟩ :: outer).find? (·.var = v) = some ⟨v, item⟩ := by
      rw [List.find?_append, find?_var_eq_none_iff.2 hfree]
      simp
    rw [Reference.rename, if_pos ⟨hv, hfree⟩, Context.resolve?, Context.resolve?, hnew, hv, hold]
    rcases r.fields with _ | ⟨field, _ | ⟨field', fields⟩⟩ <;> rfl
  · rw [Reference.rename, if_neg hr]
    apply resolve?_congr
    rw [binding?, binding?, List.find?_append, List.find?_append]
    cases hfind : inner.find? (·.var = r.head) with
    | some b => rfl
    | none =>
      have hv : v ≠ r.head := by
        rintro rfl
        exact hr ⟨rfl, find?_var_eq_none_iff.1 hfind⟩
      simp [hv, hhead.symm]

theorem Visit.result_withoutBody (bindings : List Binding) (node : Node) :
    (Visit.mk bindings node.withoutBody).result c = (Visit.mk bindings node).result c := by
  cases node <;> rfl

/-- A renamed visit adds the same text, or fails with the renamed error. -/
theorem Visit.IsRenamed.result {visit visit' : Visit} (h : visit.IsRenamed v w visit') :
    visit'.result c = visit.result c ∨ ∃ e e', visit.result c = .error e ∧
      visit'.result c = .error e' ∧ e.IsRenamed v w e' := by
  cases h with
  | @outside bindings node node' hbody =>
    left
    rw [← result_withoutBody bindings node', hbody, result_withoutBody]
  | loop => exact .inl rfl
  | @inside inner outer item node hinner hmentions =>
    cases node with
    | literal text => exact .inl rfl
    | loop var collection body line => exact .inl rfl
    | placeholder r line =>
      rw [Node.mentions, decide_eq_false_iff_not] at hmentions
      rw [Node.rename, result_placeholder, result_placeholder, resolve?_rename hinner hmentions]
      cases c.resolve? (inner ++ ⟨v, item⟩ :: outer) r with
      | some value => exact .inl rfl
      | none =>
        refine .inr ⟨_, _, rfl, rfl, ?_⟩
        rw [Reference.rename]
        split
        · next hr =>
          obtain ⟨rfl, -⟩ := hr
          exact .inr ⟨r.fields, line, rfl, rfl⟩
        · exact .inl rfl

theorem Visit.IsRenamed.result_eq_ok_iff {visit visit' : Visit} (h : visit.IsRenamed v w visit')
    {text : String} : visit'.result c = .ok text ↔ visit.result c = .ok text := by
  rcases h.result (c := c) with heq | ⟨e, e', he, he', -⟩
  · rw [heq]
  · simp [he, he']

theorem forall₂_flatMap {α β γ : Type} {R : β → γ → Prop} {f : α → List β} {g : α → List γ}
    (h : ∀ a, List.Forall₂ R (f a) (g a)) (items : List α) :
    List.Forall₂ R (items.flatMap f) (items.flatMap g) := by
  have hsame : List.Forall₂ Eq items items := List.forall₂_refl items
  refine List.rel_flatMap hsame ?_
  rintro item _ rfl
  exact h item

mutual

theorem visits_rename {inner : List Binding} (hinner : w ∉ inner.map (·.var)) (node : Node)
    (hnode : node.mentions w = false) :
    List.Forall₂ (Visit.IsRenamed v w) (node.visits c (inner ++ ⟨v, item⟩ :: outer))
      ((node.rename v w (inner.map (·.var))).visits c (inner ++ ⟨w, item⟩ :: outer)) := by
  match node with
  | .literal text => exact .cons (.inside hinner hnode) .nil
  | .placeholder r line => exact .cons (.inside hinner hnode) .nil
  | .loop var collection body line =>
    refine .cons (.inside hinner hnode) (forall₂_flatMap (fun item' => ?_) _)
    rw [Node.mentions, Bool.or_eq_false_iff, decide_eq_false_iff_not] at hnode
    have hinner' : w ∉ (Binding.mk var item' :: inner).map (·.var) := by
      rw [List.map_cons, List.mem_cons, not_or]
      exact ⟨Ne.symm hnode.1, hinner⟩
    exact visitsOf_rename hinner' body hnode.2

theorem visitsOf_rename {inner : List Binding} (hinner : w ∉ inner.map (·.var))
    (nodes : List Node) (hnodes : areMentioning w nodes = false) :
    List.Forall₂ (Visit.IsRenamed v w) (visitsOf c (inner ++ ⟨v, item⟩ :: outer) nodes)
      (visitsOf c (inner ++ ⟨w, item⟩ :: outer) (renameNodes v w (inner.map (·.var)) nodes)) := by
  match nodes with
  | [] => exact .nil
  | node :: nodes =>
    rw [areMentioning, Bool.or_eq_false_iff] at hnodes
    exact List.rel_append (visits_rename hinner node hnodes.1)
      (visitsOf_rename hinner nodes hnodes.2)

end

/-- In the loop itself, all that is visited is renamed. -/
theorem visitsOf_rename_loop {body : List Node} (hbody : areMentioning w body = false)
    (collection : String) (line : Nat) (bindings : List Binding) :
    List.Forall₂ (Visit.IsRenamed v w) (visitsOf c bindings [.loop v collection body line])
      (visitsOf c bindings [.loop w collection (renameNodes v w [] body) line]) := by
  have hinner : w ∉ ([] : List Binding).map (·.var) := List.not_mem_nil
  refine List.rel_append (.cons .loop (forall₂_flatMap (fun item => ?_) _)) .nil
  exact visitsOf_rename hinner body hbody

/-- Around the place nothing changes. -/
theorem Surroundings.visitsOf_fill {nodes nodes' : List Node}
    (h : ∀ bindings, List.Forall₂ (Visit.IsRenamed v w) (visitsOf c bindings nodes)
      (visitsOf c bindings nodes')) (around : Surroundings) (bindings : List Binding) :
    List.Forall₂ (Visit.IsRenamed v w) (visitsOf c bindings (around.fill nodes))
      (visitsOf c bindings (around.fill nodes')) := by
  have hsame (bindings : List Binding) (others : List Node) :
      List.Forall₂ (Visit.IsRenamed v w) (visitsOf c bindings others)
        (visitsOf c bindings others) :=
    List.forall₂_same.2 fun _ _ => .outside rfl
  induction around generalizing bindings with
  | here before after =>
    simp only [fill, visitsOf_append]
    exact List.rel_append (List.rel_append (hsame _ _) (h bindings)) (hsame _ _)
  | inLoop before var collection line inner after ih =>
    simp only [fill, visitsOf_append, visitsOf, Node.visits]
    refine List.rel_append (hsame _ _) (List.rel_append (.cons (.outside rfl) ?_) (hsame _ _))
    exact forall₂_flatMap (fun item => ih _) _

theorem exists_of_forall₂_append_cons {α β : Type} {R : α → β → Prop} {before after : List α}
    {a : α} {bs : List β} (h : List.Forall₂ R (before ++ a :: after) bs) :
    ∃ before' b after', bs = before' ++ b :: after' ∧ List.Forall₂ R before before' ∧ R a b := by
  induction before generalizing bs with
  | nil =>
    cases h with
    | cons ha _ => exact ⟨[], _, _, rfl, .nil, ha⟩
  | cons first before ih =>
    cases h with
    | cons hfirst hrest =>
      obtain ⟨before', b, after', rfl, hbefore, hb⟩ := ih hrest
      exact ⟨_ :: before', b, after', rfl, .cons hfirst hbefore, hb⟩

theorem exists_texts_of_isRenamed {visits visits' : List Visit}
    (h : List.Forall₂ (Visit.IsRenamed v w) visits visits') :
    (∀ u ∈ visits', ∃ text, u.result c = .ok text) ↔
      ∀ u ∈ visits, ∃ text, u.result c = .ok text := by
  induction h with
  | nil => simp
  | cons hvisit _ ih => simp only [List.forall_mem_cons, ih, hvisit.result_eq_ok_iff]

theorem resultOf_eq_ok_iff_of_isRenamed {visits visits' : List Visit}
    (h : List.Forall₂ (Visit.IsRenamed v w) visits visits') {text : String} :
    resultOf c visits' = .ok text ↔ resultOf c visits = .ok text := by
  induction h generalizing text with
  | nil => rfl
  | cons hvisit _ ih =>
    simp only [resultOf, List.map_cons, joinResults_cons, joined_eq_ok_iff] at ih ⊢
    simp only [ih, hvisit.result_eq_ok_iff]

/-- The renamed run fails where the other one does. -/
theorem exists_failsAt_of_isRenamed {visits visits' before : List Visit} {visit : Visit} {e : Error}
    (h : List.Forall₂ (Visit.IsRenamed v w) visits visits')
    (hfails : FailsAt c visits before visit e) :
    ∃ before' visit' e', FailsAt c visits' before' visit' e' ∧
      List.Forall₂ (Visit.IsRenamed v w) (before ++ [visit]) (before' ++ [visit']) ∧
      e.IsRenamed v w e' := by
  obtain ⟨⟨after, rfl⟩, htexts, hvisit⟩ := hfails
  rw [List.append_assoc, List.singleton_append] at h
  obtain ⟨before', visit', after', rfl, hbefore, hrenamed⟩ := exists_of_forall₂_append_cons h
  have htexts' := (exists_texts_of_isRenamed hbefore).2 htexts
  have hpairs : List.Forall₂ (Visit.IsRenamed v w) (before ++ [visit]) (before' ++ [visit']) :=
    List.rel_append hbefore (.cons hrenamed .nil)
  have hreaches : before' ++ [visit'] <+: before' ++ visit' :: after' := ⟨after', by simp⟩
  rcases hrenamed.result (c := c) with heq | ⟨_, e', he, he', herror⟩
  · exact ⟨before', visit', e, ⟨hreaches, htexts', heq.trans hvisit⟩, hpairs, .inl rfl⟩
  · cases he.symm.trans hvisit
    exact ⟨before', visit', e', ⟨hreaches, htexts', he'⟩, hpairs, herror⟩

/-- Wherever a loop stands in a template, its variable may become a name that its body does not
mention. The template gives the same text as before, or it fails at the same place, and the error
names the new variable if it is one of a placeholder that is renamed. -/
theorem expand_rename (c : Context) (around : Surroundings) (v w collection : String)
    {body : List Node} (line : Nat) (hbody : areMentioning w body = false) :
    let t : Template := ⟨around.fill [.loop v collection body line]⟩
    let t' : Template := ⟨around.fill [.loop w collection (renameNodes v w [] body) line]⟩
    (∀ text, t'.expand c = .ok text ↔ t.expand c = .ok text) ∧
    ∀ e, t.expand c = .error e → ∃ e', t'.expand c = .error e' ∧ e.IsRenamed v w e' ∧
      ∃ before visit before' visit', FailsAt c (visitsOf c [] t.nodes) before visit e ∧
        FailsAt c (visitsOf c [] t'.nodes) before' visit' e' ∧
        List.Forall₂ (Visit.IsRenamed v w) (before ++ [visit]) (before' ++ [visit']) := by
  intro t t'
  have hvisits : List.Forall₂ (Visit.IsRenamed v w) (visitsOf c [] t.nodes)
      (visitsOf c [] t'.nodes) :=
    around.visitsOf_fill (visitsOf_rename_loop hbody collection line) []
  rw [expand_template_eq_resultOf, expand_template_eq_resultOf]
  refine ⟨fun text => resultOf_eq_ok_iff_of_isRenamed hvisits, fun e he => ?_⟩
  obtain ⟨before, visit, hfails⟩ := resultOf_eq_error_iff.1 he
  obtain ⟨before', visit', e', hfails', hpairs, herror⟩ :=
    exists_failsAt_of_isRenamed hvisits hfails
  exact ⟨e', resultOf_eq_error_iff.2 ⟨before', visit', hfails'⟩, herror, before, visit, before',
    visit', hfails, hfails', hpairs⟩

/-- The new variable is also that of a loop around and of a global value, and the inner loop hides
the old one. -/
theorem expand_rename_of_hidden :
    let c : Context := ⟨"Main", [⟨"id", none⟩], [("q", "Demo")]⟩
    let body : List Node := [.loop "p" "display_properties" [.placeholder ⟨"p", ["type"]⟩ 2] 2,
      .placeholder ⟨"p", ["name"]⟩ 3, .placeholder ⟨"p", ["type"]⟩ 3]
    let around : Surroundings :=
      .inLoop [.placeholder ⟨"q", []⟩ 1] "q" "properties" 1 (.here [] []) []
    let t : Template := ⟨around.fill [.loop "p" "properties" body 1]⟩
    let t' : Template := ⟨around.fill [.loop "q" "properties" (renameNodes "p" "q" [] body) 1]⟩
    areMentioning "q" body = false ∧ t.expand c = .error (.unbound "p.type" 3) ∧
      t'.expand c = .error (.unbound "q.type" 3) ∧
      (Error.unbound "p.type" 3).IsRenamed "p" "q" (.unbound "q.type" 3) := by
  intro c body around t t'
  have hbody : areMentioning "q" body = false := by decide
  have hfails : t.expand c = .error (.unbound "p.type" 3) := by rfl
  have hfails' : t'.expand c = .error (.unbound "q.type" 3) := by rfl
  obtain ⟨e', he', hrenamed, -⟩ :=
    (expand_rename c around "p" "q" "properties" 1 hbody).2 _ hfails
  cases he'.symm.trans hfails'
  exact ⟨hbody, hfails, hfails', hrenamed⟩

end Scaffold.Template
