import Scaffold.Proofs.Template.Grammar
import Scaffold.Proofs.Template.Line
import Scaffold.Proofs.Template.Resolution

/-!
Concatenation of templates. Where no opening delimiter stands across the seam, a text behind a
template is read and expanded as if it stood alone, on later lines: the literal text on both sides
of the seam becomes one, and everything else stays as it is.
-/

namespace Scaffold.Template

open Text

/-- An opening delimiter stands across the seam of two texts. -/
def Joins (a b : List Char) : Prop :=
  a.getLast? = some '{' ∧ (b.head? = some '{' ∨ b.head? = some '%')

section Seam

variable {a b : List Char} {c : Char}

theorem Joins.append_left (before : List Char) (h : Joins a b) : Joins (before ++ a) b :=
  ⟨by rw [List.getLast?_append, h.1]; rfl, h.2⟩

theorem not_joins_tail (h : ¬Joins (c :: a) b) : ¬Joins a b :=
  mt (Joins.append_left [c]) h

theorem opening?_append (hseam : ¬Joins (c :: a) b) :
    opening? (c :: (a ++ b)) = (opening? (c :: a)).map fun (d, rest) => (d, rest ++ b) := by
  by_cases hc : c = '{'
  · subst hc
    cases a with
    | cons second rest => simp [opening?, Function.comp_def]
    | nil =>
      cases b with
      | nil => rfl
      | cons second rest =>
        have hnone : Delimiter.ofSecondChar? second = none := by
          unfold Delimiter.ofSecondChar?
          split
          · exact absurd ⟨rfl, Or.inl rfl⟩ hseam
          · exact absurd ⟨rfl, Or.inr rfl⟩ hseam
          · rfl
        simp [opening?, hnone]
  · have hnone (cs : List Char) : opening? (c :: cs) = none := by
      unfold opening?
      split <;> simp_all
    rw [hnone, hnone, Option.map_none]

/-- The leftmost opening delimiter of both texts is that of the first, or if it has none, that of
the second. -/
theorem splitOpening_append (hseam : ¬Joins a b) : splitOpening (a ++ b) =
    match splitOpening a with
    | some (before, d, rest) => some (before, d, rest ++ b)
    | none => (splitOpening b).map fun (before, rest) => (a ++ before, rest) := by
  induction a with
  | nil => simp [splitOpening]
  | cons c a ih =>
    rw [List.cons_append, splitOpening, opening?_append hseam, ih (not_joins_tail hseam),
      splitOpening]
    cases opening? (c :: a) with
    | some found => rfl
    | none =>
      cases splitOpening a with
      | some found => rfl
      | none => cases splitOpening b <;> rfl

theorem Delimiter.splitClosing_append {d : Delimiter} {cs content after : List Char}
    (h : d.splitClosing cs = some (content, after)) (b : List Char) :
    d.splitClosing (cs ++ b) = some (content, after ++ b) := by
  induction cs generalizing content with
  | nil => cases h
  | cons c cs ih =>
    rw [splitClosing] at h
    have hhead : (cs ++ b).head? = cs.head? := by
      cases cs with
      | nil => simp [splitClosing] at h
      | cons second rest => rfl
    rw [List.cons_append, splitClosing, hhead]
    split at h
    · next hhere =>
      cases h
      obtain ⟨rest, rfl⟩ := List.head?_eq_some_iff.1 hhere.2
      rw [if_pos hhere]
      rfl
    · next hhere =>
      obtain ⟨⟨content', after'⟩, hs, he⟩ := Option.map_eq_some_iff.1 h
      cases he
      rw [if_neg hhere, ih hs]
      rfl

/-- Literal text in front becomes part of the literal text that the second one begins with. -/
theorem exists_cut_text_append (line : Nat) (hopen : splitOpening a = none) (hseam : ¬Joins a b) :
    ∃ before later, cut (line + newlines a) b = Segment.ofText before ++ later ∧
      cut line (a ++ b) = Segment.ofText (a ++ before) ++ later := by
  have hsplit := splitOpening_append hseam
  rw [hopen] at hsplit
  cases hb : splitOpening b with
  | none =>
    rw [hb] at hsplit
    refine ⟨b, [], ?_, ?_⟩
    · rw [cut_of_splitOpening_none hb, List.append_nil]
    · rw [cut_of_splitOpening_none hsplit, List.append_nil]
  | some split =>
    obtain ⟨before, d, rest⟩ := split
    rw [hb] at hsplit
    cases hclose : d.splitClosing rest with
    | none =>
      refine ⟨before, _, cut_of_splitClosing_none hb hclose, ?_⟩
      rw [cut_of_splitClosing_none hsplit hclose, newlines_append, ← Nat.add_assoc]
    | some split =>
      refine ⟨before, _, cut_of_split hb hclose, ?_⟩
      rw [cut_of_split hsplit hclose, newlines_append, ← Nat.add_assoc]

/-- The segments of both texts are those of the first and those of the second, with the literal text
at the seam put together. -/
theorem exists_cut_append {line : Nat} (hseam : ¬Joins a b)
    (hclosed : ∀ d l, Segment.unclosed d l ∉ cut line a) :
    ∃ tags tail before later, cut line a = tags ++ Segment.ofText tail ∧
      cut (line + newlines a) b = Segment.ofText before ++ later ∧
      cut line (a ++ b) = tags ++ Segment.ofText (tail ++ before) ++ later := by
  induction a using cut_induction generalizing line with
  | text a hopen =>
    obtain ⟨before, later, hb, hboth⟩ := exists_cut_text_append line hopen hseam
    exact ⟨[], a, before, later, cut_of_splitOpening_none hopen, hb, hboth⟩
  | unclosed a before d rest hopen hclose =>
    rw [cut_of_splitClosing_none hopen hclose] at hclosed
    exact absurd (List.mem_append_right _ List.mem_cons_self) (hclosed d _)
  | tag a before d rest content after hopen hclose ih =>
    have hsplit := splitOpening_append hseam
    rw [hopen] at hsplit
    have ha : a = before ++ d.opening.toList ++ (content ++ d.closing.toList) ++ after := by
      rw [splitOpening_eq hopen, Delimiter.splitClosing_eq hclose]
      simp only [List.append_assoc]
    have hline : line + newlines before + newlines content + newlines after = line + newlines a := by
      rw [ha]
      simp [Nat.add_assoc]
    rw [cut_of_split hopen hclose] at hclosed
    have hrest : ∀ d' l, Segment.unclosed d' l ∉
        cut (line + newlines before + newlines content) after := fun d' l hmem =>
      hclosed d' l (List.mem_append_right _ (List.mem_cons_of_mem _ hmem))
    obtain ⟨tags, tail, before', later, hafter, hb, hboth⟩ :=
      ih (fun hjoins => hseam (ha ▸ hjoins.append_left _)) hrest
    refine ⟨Segment.ofText before ++ .tag d content (line + newlines before) :: tags, tail, before',
      later, ?_, ?_, ?_⟩
    · rw [cut_of_split hopen hclose, hafter, List.append_assoc, List.cons_append]
    · rw [← hline, hb]
    · rw [cut_of_split hsplit (Delimiter.splitClosing_append hclose b), hboth]
      simp only [List.append_assoc, List.cons_append]

end Seam

/-! ### A template behind another one -/

/-- Nodes that belong to the outermost list, if that list is the innermost one. -/
def outermost (earlier : List Node) : List OpenLoop → List Node
  | [] => earlier
  | _ :: _ => []

def loopsOnto (earlier : List Node) : List OpenLoop → List OpenLoop
  | [] => []
  | l :: loops => { l with before := l.before ++ outermost earlier loops } :: loopsOnto earlier loops

namespace Draft

/-- The draft if these nodes had been read before it was begun, the last one first. -/
def onto (earlier : List Node) (draft : Draft) : Draft :=
  ⟨loopsOnto earlier draft.loops, draft.nodes ++ outermost earlier draft.loops⟩

theorem addTag_onto (earlier : List Node) (draft : Draft) (line : Nat) (tag : Tag) :
    (draft.onto earlier).addTag line tag = (draft.addTag line tag).map (onto earlier) := by
  cases tag with
  | placeholder reference => rfl
  | loopStart var collection => rfl
  | loopEnd =>
    rcases draft with ⟨_ | ⟨l, loops⟩, nodes⟩
    · rfl
    · simp only [addTag, onto, loopsOnto, outermost, List.append_nil]
      rfl

/-- One step of reading does not depend on what stands before. -/
theorem add_onto (earlier : List Node) (draft : Draft) (segment : Segment) :
    (draft.onto earlier).add segment = (draft.add segment).map (onto earlier) := by
  cases segment with
  | literal text => rfl
  | unclosed d line => rfl
  | tag d content line =>
    rw [add, add]
    cases Tag.read d content with
    | error fault => rfl
    | ok tag => exact addTag_onto earlier draft line tag

theorem finish_onto (earlier : List Node) (draft : Draft) :
    (draft.onto earlier).finish = draft.finish.map (earlier.reverse ++ ·) := by
  rcases draft with ⟨_ | ⟨l, loops⟩, nodes⟩
  · simp only [finish, onto, loopsOnto, outermost, List.reverse_append]
    rfl
  · rfl

theorem read_onto (earlier : List Node) (draft : Draft) (segments : List Segment) :
    (draft.onto earlier).read segments = (draft.read segments).map (earlier.reverse ++ ·) := by
  induction segments generalizing draft with
  | nil => exact finish_onto earlier draft
  | cons segment segments ih =>
    rw [read_cons, read_cons, add_onto]
    cases draft.add segment with
    | error e => rfl
    | ok next => exact ih next

theorem read_append (draft : Draft) (segments segments' : List Segment) :
    draft.read (segments ++ segments') =
      segments.foldlM add draft >>= fun next => next.read segments' := by
  rw [read, List.foldlM_append]
  cases segments.foldlM add draft <;> rfl

/-- Where reading goes to the end, every tag is closed. -/
theorem not_mem_of_read {draft : Draft} {segments : List Segment} {nodes : List Node}
    (h : draft.read segments = .ok nodes) (d : Delimiter) (line : Nat) :
    Segment.unclosed d line ∉ segments := by
  induction segments generalizing draft with
  | nil => exact List.not_mem_nil
  | cons segment segments ih =>
    rw [read_cons] at h
    obtain ⟨next, hadd, h⟩ := bind_eq_ok_iff.1 h
    intro hmem
    rcases List.mem_cons.1 hmem with rfl | hmem
    · cases hadd
    · exact ih h hmem

end Draft

/-- Literal text as a node, and no node for no text. -/
def Node.ofText : List Char → List Node
  | [] => []
  | text => [.literal (String.ofList text)]

theorem Draft.read_ofText_append (draft : Draft) (text : List Char) (segments : List Segment) :
    draft.read (Segment.ofText text ++ segments) =
      Draft.read ⟨draft.loops, Node.ofText text ++ draft.nodes⟩ segments := by
  cases text with
  | nil => rfl
  | cons c text => rfl

theorem expandNodes_ofText (c : Context) (bindings : List Binding) (text : List Char) :
    expandNodes c bindings (Node.ofText text) = .ok (String.ofList text) := by
  cases text with
  | nil => rfl
  | cons c text => exact expandNodes_singleton _

/-- Where reading goes to the end, no loop is open before the last literal text. -/
theorem Draft.exists_foldlM_of_read {tags : List Segment} {tail : List Char} {nodes : List Node}
    (h : Draft.empty.read (tags ++ Segment.ofText tail) = .ok nodes) :
    ∃ earlier, tags.foldlM Draft.add Draft.empty = .ok (Draft.empty.onto earlier) ∧
      nodes = earlier.reverse ++ Node.ofText tail := by
  rw [read_append] at h
  obtain ⟨draft, hfold, h⟩ := bind_eq_ok_iff.1 h
  rw [← List.append_nil (Segment.ofText tail), read_ofText_append] at h
  obtain ⟨hloops, rfl⟩ := finish_eq_ok_iff.1 h
  refine ⟨draft.nodes, hfold.trans (congrArg Except.ok ?_), ?_⟩
  · rcases draft with ⟨loops, nodes⟩
    cases hloops
    rfl
  · rw [List.reverse_append]
    cases tail <;> rfl

section Behind

variable {a b : String} {c : Context} {t : Template}

/-- How the tree of a template with a text behind it comes from the trees of both. -/
theorem exists_readNodes_append (ha : Template.parse a = .ok t)
    (hseam : ¬Joins a.toList b.toList) :
    ∃ (earlier : List Node) (tail before : List Char) (later : Except Error (List Node)),
      t.nodes = earlier ++ Node.ofText tail ∧
      shiftResult (newlines a.toList) (shiftNodes (newlines a.toList)) (readNodes 1 b.toList) =
        later.map (Node.ofText before ++ ·) ∧
      readNodes 1 (a ++ b).toList =
        later.map ((earlier ++ Node.ofText (tail ++ before)) ++ ·) := by
  have hread : readNodes 1 a.toList = .ok t.nodes := by
    rw [parse_eq_readNodes] at ha
    obtain ⟨nodes, hnodes, rfl⟩ := map_eq_ok_iff.1 ha
    exact hnodes
  obtain ⟨tags, tail, before, later, hcuta, hcutb, hcut⟩ :=
    exists_cut_append hseam (Draft.not_mem_of_read hread)
  rw [readNodes, hcuta] at hread
  obtain ⟨earlier, hfold, hnodes⟩ := Draft.exists_foldlM_of_read hread
  refine ⟨earlier.reverse, tail, before, Draft.empty.read later, hnodes, ?_, ?_⟩
  · rw [← readNodes_shift, readNodes, hcutb, Draft.read_ofText_append]
    have honto := Draft.read_onto (Node.ofText before) Draft.empty later
    have hreverse : (Node.ofText before).reverse = Node.ofText before := by
      cases before <;> rfl
    rw [hreverse] at honto
    rw [← honto]
    simp only [Draft.onto, Draft.empty, loopsOnto, outermost, List.append_nil, List.nil_append]
  · rw [readNodes, String.toList_append, hcut, List.append_assoc, Draft.read_append, hfold]
    change Draft.read (Draft.empty.onto earlier) _ = _
    rw [Draft.read_ofText_append]
    have honto := Draft.read_onto (Node.ofText (tail ++ before) ++ earlier) Draft.empty later
    have hreverse : (Node.ofText (tail ++ before) ++ earlier).reverse =
        earlier.reverse ++ Node.ofText (tail ++ before) := by
      rw [List.reverse_append]
      cases tail ++ before <;> rfl
    rw [hreverse] at honto
    rw [← honto]
    rfl

/-- A text behind a template is expanded as if it stood alone, on later lines. -/
theorem expand_behind (ha : Template.parse a = .ok t) (hseam : ¬Joins a.toList b.toList) :
    Scaffold.expand (a ++ b) c =
      match Template.parse b with
      | .error e => .error (e.shift (newlines a.toList))
      | .ok t' => joined (t.expand c) (shiftResult (newlines a.toList) id (t'.expand c)) := by
  obtain ⟨earlier, tail, before, later, hnodes, hb, hboth⟩ := exists_readNodes_append ha hseam
  rw [Scaffold.expand, parse_eq_readNodes (a ++ b), hboth, parse_eq_readNodes b]
  cases hread : readNodes 1 b.toList with
  | error e =>
    rw [hread] at hb
    cases later with
    | ok nodes => cases hb
    | error e' => cases hb; rfl
  | ok nodes =>
    rw [hread] at hb
    cases later with
    | error e' => cases hb
    | ok nodes' =>
      have hnodes' : shiftNodes (newlines a.toList) nodes = Node.ofText before ++ nodes' := by
        simpa [shiftResult, Except.map] using hb
      change expandNodes c [] ((earlier ++ Node.ofText (tail ++ before)) ++ nodes') =
        joined (expandNodes c [] t.nodes) (shiftResult (newlines a.toList) id (expandNodes c [] nodes))
      rw [hnodes, ← expandNodes_shift, hnodes']
      simp only [expandNodes_append, expandNodes_ofText, String.ofList_append, joined_assoc]
      rw [← joined_assoc (.ok (String.ofList tail)), joined_ok_ok]

/-- Texts that expand are expanded one after the other. -/
theorem expand_append_of_ok {x y : String} (ha : Scaffold.expand a c = .ok x)
    (hb : Scaffold.expand b c = .ok y) (hseam : ¬Joins a.toList b.toList) :
    Scaffold.expand (a ++ b) c = .ok (x ++ y) := by
  cases hparse : Template.parse a with
  | error e =>
    rw [Scaffold.expand, hparse] at ha
    cases ha
  | ok t =>
    rw [expand_behind hparse hseam]
    rw [Scaffold.expand, hparse] at ha
    cases hparse' : Template.parse b with
    | error e =>
      rw [Scaffold.expand, hparse'] at hb
      cases hb
    | ok t' =>
      rw [Scaffold.expand, hparse'] at hb
      have hx : t.expand c = .ok x := ha
      have hy : t'.expand c = .ok y := hb
      simp only [hx, hy]
      rfl

end Behind

theorem Draft.exists_malformed_of_add {draft : Draft} {segment : Segment} {e : Error}
    (h : draft.add segment = .error e) : ∃ fault line, e = .malformed fault line := by
  cases segment with
  | literal text => cases h
  | unclosed d line => cases h; exact ⟨_, _, rfl⟩
  | tag d content line =>
    rw [add] at h
    split at h
    · cases h; exact ⟨_, _, rfl⟩
    · next tag _ =>
      cases tag with
      | placeholder reference => cases h
      | loopStart var collection => cases h
      | loopEnd =>
        rw [addTag] at h
        split at h
        · cases h; exact ⟨_, _, rfl⟩
        · cases h

theorem Draft.exists_malformed_of_read {draft : Draft} {segments : List Segment} {e : Error}
    (h : draft.read segments = .error e) : ∃ fault line, e = .malformed fault line := by
  induction segments generalizing draft with
  | nil =>
    change draft.finish = .error e at h
    rw [finish] at h
    split at h
    · cases h
    · cases h; exact ⟨_, _, rfl⟩
  | cons segment segments ih =>
    rw [read_cons] at h
    cases hadd : draft.add segment with
    | error e' =>
      rw [hadd] at h
      cases h
      exact exists_malformed_of_add hadd
    | ok next =>
      rw [hadd] at h
      exact ih h

theorem exists_malformed_of_parse {text : String} {e : Error}
    (h : Template.parse text = .error e) : ∃ fault line, e = .malformed fault line := by
  rw [parse_eq_readNodes] at h
  cases hread : readNodes 1 text.toList with
  | error e' =>
    rw [hread] at h
    cases h
    exact Draft.exists_malformed_of_read hread
  | ok nodes =>
    rw [hread] at h
    cases h

/-- Text without an opening delimiter is literal. -/
theorem expand_of_splitOpening_none {text : String} (h : splitOpening text.toList = none)
    (c : Context) : Scaffold.expand text c = .ok text := by
  have hnodes : readNodes 1 text.toList = .ok (Node.ofText text.toList) := by
    rw [readNodes, cut_of_splitOpening_none h, ← List.append_nil (Segment.ofText _),
      Draft.read_ofText_append]
    cases text.toList <;> rfl
  rw [Scaffold.expand, parse_eq_readNodes, hnodes]
  change expandNodes c [] (Node.ofText text.toList) = _
  rw [expandNodes_ofText, String.ofList_toList]

/-- Where no opening delimiter stands across the seam, a template with a text behind it is expanded
part by part. If the text is no template, its fault is reported on a line that is later by the lines
before it; if not, the error of the first part is reported, and then that of the second, again on a
later line; and if there is none, both outputs are joined. A text without opening delimiters is its
own output. -/
theorem expand_append (c : Context) :
    (∀ a b : String, (∃ t, Template.parse a = .ok t) → ¬Joins a.toList b.toList →
      match Template.parse b, Scaffold.expand a c, Scaffold.expand b c with
      | .error (.malformed fault line), _, _ =>
        Scaffold.expand (a ++ b) c = .error (.malformed fault (line + newlines a.toList))
      | .ok _, .error e, _ => Scaffold.expand (a ++ b) c = .error e
      | .ok _, .ok _, .error (.unbound name line) =>
        Scaffold.expand (a ++ b) c = .error (.unbound name (line + newlines a.toList))
      | .ok _, .ok x, .ok y => Scaffold.expand (a ++ b) c = .ok (x ++ y)
      | _, _, _ => False) ∧
    ∀ text : String,
      (∀ (before : List Char) (d : Delimiter) (rest : List Char),
        text.toList ≠ before ++ d.opening.toList ++ rest) →
      Scaffold.expand text c = .ok text := by
  refine ⟨?_, fun text htext => expand_of_splitOpening_none (splitOpening_eq_none_iff.2 htext) c⟩
  rintro a b ⟨t, ha⟩ hseam
  have hboth := expand_behind (c := c) ha hseam
  have hexpand : ∀ {text : String} {t : Template}, Template.parse text = .ok t →
      Scaffold.expand text c = t.expand c := by
    intro text t hparse
    rw [Scaffold.expand, hparse]
    rfl
  rw [hexpand ha]
  cases hb : Template.parse b with
  | error e =>
    rw [hb] at hboth
    obtain ⟨fault, line, rfl⟩ := exists_malformed_of_parse hb
    exact hboth
  | ok t' =>
    replace hboth : Scaffold.expand (a ++ b) c =
        joined (t.expand c) (shiftResult (newlines a.toList) id (t'.expand c)) := by rw [hboth, hb]
    rw [hexpand hb]
    cases hx : t.expand c with
    | error e =>
      rw [hx] at hboth
      exact hboth
    | ok x =>
      rw [hx] at hboth
      cases hy : t'.expand c with
      | error e =>
        rw [hy] at hboth
        obtain ⟨name, line, rfl⟩ := exists_unbound_of_expand hy
        exact hboth
      | ok y =>
        rw [hy] at hboth
        exact hboth

/-- A lone brace at the seam is text, and the line counts from the beginning of both. -/
theorem expand_append_after_brace :
    let a := "\x7b\x7bname\x7d\x7d\n\x7b"
    let b := "!\x7b\x7bq\x7d\x7d"
    let c : Context := ⟨"Main", [], []⟩
    Template.parse a = .ok ⟨[.placeholder ⟨"name", []⟩ 1, .literal "\n\x7b"]⟩ ∧
    ¬Joins a.toList b.toList ∧
    Template.parse b = .ok ⟨[.literal "!", .placeholder ⟨"q", []⟩ 1]⟩ ∧
    Scaffold.expand (a ++ b) c = .error (.unbound "q" 2) := by
  intro a b c
  have ha : Template.parse a = .ok ⟨[.placeholder ⟨"name", []⟩ 1, .literal "\n\x7b"]⟩ := by cbv
  have hb : Template.parse b = .ok ⟨[.literal "!", .placeholder ⟨"q", []⟩ 1]⟩ := by cbv
  have hseam : ¬Joins a.toList b.toList := by
    rintro ⟨-, hhead⟩
    revert hhead
    decide
  have hx : Scaffold.expand a c = .ok "Main\n\x7b" := by
    rw [Scaffold.expand, ha]
    rfl
  have hy : Scaffold.expand b c = .error (.unbound "q" 1) := by
    rw [Scaffold.expand, hb]
    rfl
  have h := (expand_append c).1 a b ⟨_, ha⟩ hseam
  rw [hb, hx, hy] at h
  have hline : newlines a.toList = 1 := by decide
  change Scaffold.expand (a ++ b) c = .error (.unbound "q" (1 + newlines a.toList)) at h
  rw [hline] at h
  exact ⟨ha, hseam, hb, h⟩

end Scaffold.Template
