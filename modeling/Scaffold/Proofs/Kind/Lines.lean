import Scaffold.Proofs.Kind.Texts
import Scaffold.Proofs.Template.Concatenation

/-!
Templates given by their lines. No tag opens across a line end, so such a template expands line by
line. The lines of a loop are taken together: what stands in them is written once for each item.
-/

namespace Scaffold.Kind.Builtin

open Template Text

variable {c : Context} {l l' : String} {ls ls' ms ms' : List String} {cs : List Char}

theorem lines_cons (l : String) (ls : List String) : lines (l :: ls) = l ++ "\n" ++ lines ls := by
  rw [lines, lines, List.map_cons, String.join_cons]

theorem lines_append (ls ms : List String) : lines (ls ++ ms) = lines ls ++ lines ms := by
  rw [lines, lines, lines, List.map_append, String.join_append]

theorem not_joins_lines (ls : List String) (cs : List Char) : ¬Joins (lines ls).toList cs := by
  rintro ⟨hlast, -⟩
  rcases List.eq_nil_or_concat ls with rfl | ⟨init, l, rfl⟩
  · cases hlast
  · rw [List.concat_eq_append, lines_append, lines_cons] at hlast
    simp [lines] at hlast

/-- In the context the lines of a template expand to these lines. -/
def Gives (c : Context) (ls ls' : List String) : Prop :=
  expand (lines ls) c = .ok (lines ls')

namespace Gives

theorem nil : Gives c [] [] :=
  expand_of_splitOpening_none (by decide) c

theorem append (h : Gives c ls ls') (h' : Gives c ms ms') : Gives c (ls ++ ms) (ls' ++ ms') := by
  rw [Gives, lines_append, lines_append]
  exact expand_append_of_ok h h' (not_joins_lines ls _)

theorem cons (hl : expand l c = .ok l') (h : Gives c ls ls') : Gives c (l :: ls) (l' :: ls') := by
  have hend : expand "\n" c = .ok "\n" := expand_of_splitOpening_none (by decide) c
  have hseam : ¬Joins l.toList "\n".toList := by
    rintro ⟨-, hhead | hhead⟩ <;> cases hhead
  have hline : expand (l ++ "\n") c = .ok (l' ++ "\n") := expand_append_of_ok hl hend hseam
  have hseam' : ¬Joins (l ++ "\n").toList (lines ls).toList := by
    rintro ⟨hlast, -⟩
    simp at hlast
  rw [Gives, lines_cons, lines_cons]
  exact expand_append_of_ok hline h hseam'

/-- A line without tags stays as it is. -/
theorem plain (hl : splitOpening cs = none) (h : Gives c ls ls') :
    Gives c (String.ofList cs :: ls) (String.ofList cs :: ls') :=
  cons (expand_of_splitOpening_none (by rwa [String.toList_ofList]) c) h

end Gives

/-- The characters are read as these nodes. -/
def IsReadAs (cs : List Char) (nodes : List Node) : Prop :=
  (cut 1 cs).map Segment.piece = (piecesOf nodes).map .ok

instance (cs : List Char) (nodes : List Node) : Decidable (IsReadAs cs nodes) :=
  inferInstanceAs (Decidable (_ = _))

theorem IsReadAs.expand_eq {nodes : List Node} (h : IsReadAs cs nodes) (c : Context) :
    expand (String.ofList cs) c = expandNodes c [] nodes := by
  have hmatches : Matches (cut 1 cs) (piecesOf nodes) := by
    rwa [IsReadAs, ← List.forall₂_eq_eq_eq, List.forall₂_map_left_iff, List.forall₂_map_right_iff]
      at h
  have hparse : Template.parse (String.ofList cs) = .ok ⟨nodes⟩ := by
    rw [parse_eq_ok_iff_reads, String.toList_ofList]
    exact reads_iff_matches_cut.2 hmatches
  rw [expand, hparse]
  rfl

theorem Gives.read {nodes : List Node} (hread : IsReadAs cs nodes)
    (hnodes : expandNodes c [] nodes = .ok l') (h : Gives c ls ls') :
    Gives c (String.ofList cs :: ls) (l' :: ls') :=
  cons ((hread.expand_eq c).trans hnodes) h

/-- A line with one placeholder is filled in. -/
theorem Gives.filled {before key value after : String} (hvalue : c.scalar? key = some value)
    (hread : IsReadAs cs [.literal before, .placeholder ⟨key, []⟩ 1, .literal after])
    (h : Gives c ls ls') :
    Gives c (String.ofList cs :: ls) ((before ++ value ++ after) :: ls') := by
  have hresolve : c.resolve? [] ⟨key, []⟩ = some value := hvalue
  refine .read hread ?_ h
  simp only [expandNodes_cons, expandNodes_nil, Node.expand, hresolve, joined_ok_ok,
    String.append_empty, String.append_assoc]

theorem Gives.filled₂ {before key value between key' value' after : String}
    (hvalue : c.scalar? key = some value) (hvalue' : c.scalar? key' = some value')
    (hread : IsReadAs cs [.literal before, .placeholder ⟨key, []⟩ 1, .literal between,
      .placeholder ⟨key', []⟩ 1, .literal after])
    (h : Gives c ls ls') : Gives c (String.ofList cs :: ls)
      ((before ++ value ++ between ++ value' ++ after) :: ls') := by
  have hresolve : c.resolve? [] ⟨key, []⟩ = some value := hvalue
  have hresolve' : c.resolve? [] ⟨key', []⟩ = some value' := hvalue'
  refine .read hread ?_ h
  simp only [expandNodes_cons, expandNodes_nil, Node.expand, hresolve, hresolve', joined_ok_ok,
    String.append_empty, String.append_assoc]

theorem joinResults_map_ok {α : Type} (items : List α) (text : α → String) :
    joinResults (items.map fun item => .ok (text item)) = .ok (String.join (items.map text)) := by
  induction items with
  | nil => rfl
  | cons item items ih =>
    rw [List.map_cons, joinResults_cons, ih, joined_ok_ok, List.map_cons, String.join_cons]

/-- The indentation of the first tag goes with each item, and that of the last tag stands behind
all. -/
theorem append_join {α : Type} {indent : String} {text : α → String} {written : α → List String}
    (h : ∀ item, indent ++ text item = lines (written item) ++ indent) (items : List α) :
    indent ++ String.join (items.map text) = lines (items.flatMap written) ++ indent := by
  induction items with
  | nil => simp [lines]
  | cons item items ih =>
    rw [List.map_cons, String.join_cons, ← String.append_assoc, h, String.append_assoc, ih,
      ← String.append_assoc, List.flatMap_cons, lines_append]

/-- A loop writes lines for each item, and what its last tag stands between behind them. -/
theorem Gives.loop {collection : String} {body : List Node} {items : List Property}
    {text : Property → String} {written : Property → List String} (indent last : String)
    (hitems : c.collection? collection = some items) (hspells : Spells ls cs)
    (hread : IsReadAs cs (Node.ofText indent.toList ++
      [.loop "p" collection body 1, .literal (last ++ "\n")]))
    (hbody : ∀ p, expandNodes c [⟨"p", p⟩] body = .ok (text p))
    (htext : ∀ p, indent ++ text p = lines (written p) ++ indent) :
    Gives c ls (items.flatMap written ++ [indent ++ last]) := by
  have hls : lines ls = String.ofList cs := by rw [← hspells.toList_lines, String.ofList_toList]
  rw [Gives, hls, hread.expand_eq, expandNodes_append, expandNodes_ofText, expandNodes_cons,
    expand_loop hitems]
  simp only [hbody, joinResults_map_ok, expandNodes_singleton, Node.expand, joined_ok_ok,
    String.ofList_toList]
  rw [← String.append_assoc, append_join htext, lines_append, lines_cons]
  simp [lines, String.append_assoc]

theorem Gives.append_concat (h : Gives c ms (ms' ++ [l'])) (h' : Gives c ls ls') :
    Gives c (ms ++ ls) (ms' ++ l' :: ls') := by
  have hboth := h.append h'
  rwa [List.append_assoc, List.singleton_append] at hboth

end Scaffold.Kind.Builtin
