import Scaffold.Proofs.Template.Grammar

/-!
Where the nodes of a tree stand: in the tree under the loops around them, and in the text as the tag
they were read from. A tag of a text is one that reading it from the left comes to, so what looks
like a tag inside of another one is none.
-/

namespace Scaffold.Template

open Text

/-- At any depth of these nodes, which stand under the outer loops, a node stands under these loops.
A loop is its variable with its collection, and the innermost one comes first. -/
inductive Under : List (String × String) → List Node → List (String × String) → Node → Prop where
  | here {outer : List (String × String)} {nodes : List Node} {node : Node} : node ∈ nodes →
      Under outer nodes outer node
  | inside {outer loops : List (String × String)} {nodes body : List Node} {node : Node}
      {var collection : String} {line : Nat} : .loop var collection body line ∈ nodes →
      Under ((var, collection) :: outer) body loops node → Under outer nodes loops node

theorem mem_piecesOf {node : Node} {nodes : List Node} {piece : Piece} (hnode : node ∈ nodes)
    (hpiece : piece ∈ node.pieces) : piece ∈ piecesOf nodes := by
  induction nodes with
  | nil => cases hnode
  | cons first nodes ih =>
    rw [piecesOf, List.mem_append]
    rcases List.mem_cons.1 hnode with rfl | hnode
    · exact Or.inl hpiece
    · exact Or.inr (ih hnode)

theorem Under.mono {outer loops : List (String × String)} {nodes nodes' : List Node} {node : Node}
    (h : Under outer nodes loops node) (hsubset : nodes ⊆ nodes') : Under outer nodes' loops node := by
  cases h with
  | here hnode => exact .here (hsubset hnode)
  | inside hloop hbelow => exact .inside (hsubset hloop) hbelow

/-- What a node consists of, the tree around it does too. -/
theorem Under.mem_piecesOf {outer loops : List (String × String)} {nodes : List Node} {node : Node}
    {piece : Piece} (h : Under outer nodes loops node) (hpiece : piece ∈ node.pieces) :
    piece ∈ piecesOf nodes := by
  induction h with
  | here hnode => exact Template.mem_piecesOf hnode hpiece
  | inside hloop _ ih =>
    apply Template.mem_piecesOf hloop
    rw [Node.pieces]
    exact List.mem_cons_of_mem _ (List.mem_append_left _ (ih hpiece))

/-- Read from the left, the text has a tag of this kind with this content, behind this text. -/
inductive HasTag : List Char → List Char → Delimiter → List Char → Prop where
  | first {cs before rest content after : List Char} {d : Delimiter} : OpensAt cs before d rest →
      ClosesAt rest content d after → HasTag cs before d content
  | later {cs before rest content after before' content' : List Char} {d d' : Delimiter} :
      OpensAt cs before d rest → ClosesAt rest content d after → HasTag after before' d' content' →
      HasTag cs (before ++ d.opening.toList ++ content ++ d.closing.toList ++ before') d' content'

/-- A piece of a text that is not literal is a tag of the text. Its line is that of its opening
delimiter. -/
theorem Reads.exists_hasTag {line : Nat} {cs : List Char} {pieces : List Piece} {piece : Piece}
    (h : Reads line cs pieces) (hpiece : piece ∈ pieces) (hliteral : ∀ text, piece ≠ .literal text) :
    ∃ before d content tag, HasTag cs before d content ∧ Tag.IsWritten d content tag ∧
      piece = tag.piece (line + newlines before) := by
  have hnot_text : ∀ text : List Char, piece ∉ Piece.ofText text := by
    intro text hmem
    cases text with
    | nil => cases hmem
    | cons c text => exact hliteral _ (List.mem_singleton.1 hmem)
  induction h with
  | text _ => exact absurd hpiece (hnot_text _)
  | @tag line cs before rest content after d tag pieces hopen hclose hwritten _ ih =>
    rcases List.mem_append.1 hpiece with htext | hpiece
    · exact absurd htext (hnot_text _)
    · rcases List.mem_cons.1 hpiece with rfl | hlater
      · exact ⟨before, d, content, tag, .first hopen hclose, hwritten, rfl⟩
      · obtain ⟨before', d', content', tag', htag, hwritten', rfl⟩ := ih hlater
        refine ⟨_, d', content', tag', .later hopen hclose htag, hwritten', ?_⟩
        simp [Nat.add_assoc]

/-- A tag of the text, on this line, from which the node was read and which names this: the
reference of a placeholder, the collection of a loop. -/
inductive Node.Names (text : String) : Node → String → Nat → Prop where
  | placeholder {before content : List Char} {reference : Reference} :
      HasTag text.toList before .expression content →
      Tag.IsWritten .expression content (.placeholder reference) →
      Names text (.placeholder reference (1 + newlines before)) reference.text (1 + newlines before)
  | loop {before content : List Char} {var collection : String} {body : List Node} :
      HasTag text.toList before .directive content →
      Tag.IsWritten .directive content (.loopStart var collection) →
      Names text (.loop var collection body (1 + newlines before)) collection (1 + newlines before)

/-- The error that a node is if it does not resolve. -/
def Node.unbound? : Node → Option Error
  | .literal _ => none
  | .placeholder reference line => some (.unbound reference.text line)
  | .loop _ collection _ line => some (.unbound collection line)

section Names

variable {text : String} {t : Template} {outer loops : List (String × String)}

theorem Under.names_placeholder (hparse : Template.parse text = .ok t) {reference : Reference}
    {line : Nat} (h : Under outer t.nodes loops (.placeholder reference line)) :
    (Node.placeholder reference line).Names text reference.text line := by
  have hmem : Piece.placeholder reference line ∈ piecesOf t.nodes :=
    h.mem_piecesOf (by simp [Node.pieces])
  obtain ⟨before, d, content, tag, htag, hwritten, heq⟩ :=
    (parse_eq_ok_iff_reads.1 hparse).exists_hasTag hmem (by simp)
  cases hwritten with
  | placeholder hleft hright hnames =>
    cases heq
    exact .placeholder htag (.placeholder hleft hright hnames)
  | loopStart => cases heq
  | loopEnd => cases heq

theorem Under.names_loop (hparse : Template.parse text = .ok t) {var collection : String}
    {body : List Node} {line : Nat} (h : Under outer t.nodes loops (.loop var collection body line)) :
    (Node.loop var collection body line).Names text collection line := by
  have hmem : Piece.loopStart var collection line ∈ piecesOf t.nodes :=
    h.mem_piecesOf (by simp [Node.pieces])
  obtain ⟨before, d, content, tag, htag, hwritten, heq⟩ :=
    (parse_eq_ok_iff_reads.1 hparse).exists_hasTag hmem (by simp)
  cases hwritten with
  | placeholder => cases heq
  | loopStart hwords hvar hcollection =>
    cases heq
    exact .loop htag (.loopStart hwords hvar hcollection)
  | loopEnd => cases heq

/-- The error that a node of a template is if it does not resolve says what its tag says. -/
theorem Under.exists_names (hparse : Template.parse text = .ok t) {node : Node} {e : Error}
    (h : Under outer t.nodes loops node) (he : node.unbound? = some e) :
    ∃ name line, node.Names text name line ∧ e = .unbound name line := by
  cases node with
  | literal text => cases he
  | placeholder reference line =>
    cases he
    exact ⟨_, _, h.names_placeholder hparse, rfl⟩
  | loop var collection body line =>
    cases he
    exact ⟨_, _, h.names_loop hparse, rfl⟩

end Names

end Scaffold.Template
