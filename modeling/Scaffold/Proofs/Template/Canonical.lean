import Mathlib.Data.List.Chain
import Scaffold.Proofs.Template.Concatenation

/-!
The canonical text of a tree: literals as they are, and tags with one blank on each side of what
stands in them. A tree is read back from its canonical text if it is well formed, and every tree
that is read is well formed, so the well-formed trees are those of templates. Read depth first, a
well-formed tree is a list of pieces in which every literal is followed by a tag whose opening
delimiter starts where it is written.
-/

namespace Scaffold.Template

open Text

/-- The text between the delimiters of a tag. -/
def Tag.content : Tag → String
  | .placeholder reference => " " ++ reference.text ++ " "
  | .loopStart var collection => " for " ++ var ++ " in " ++ collection ++ " "
  | .loopEnd => " endfor "

def Tag.delimiter : Tag → Delimiter
  | .placeholder _ => .expression
  | .loopStart .. | .loopEnd => .directive

/-- A tag with its delimiters. -/
def Tag.written (tag : Tag) : List Char :=
  tag.delimiter.opening.toList ++ tag.content.toList ++ tag.delimiter.closing.toList

mutual

/-- The canonical text of a node. -/
def Node.written : Node → List Char
  | .literal text => text.toList
  | .placeholder reference _ => (Tag.placeholder reference).written
  | .loop var collection body _ =>
    (Tag.loopStart var collection).written ++ writtenNodes body ++ Tag.loopEnd.written

def writtenNodes : List Node → List Char
  | [] => []
  | node :: nodes => node.written ++ writtenNodes nodes

end

mutual

/-- A node with the line of every tag in it, where this text stands before the node: one more than
there are line ends before the tag. -/
def Node.placed (before : List Char) : Node → Node
  | .literal text => .literal text
  | .placeholder reference _ => .placeholder reference (1 + newlines before)
  | .loop var collection body _ =>
    .loop var collection (placedNodes (before ++ (Tag.loopStart var collection).written) body)
      (1 + newlines before)

def placedNodes (before : List Char) : List Node → List Node
  | [] => []
  | node :: nodes => node.placed before :: placedNodes (before ++ node.written) nodes

end

mutual

/-- A node without its lines. -/
def Node.withoutLines : Node → Node
  | .literal text => .literal text
  | .placeholder reference _ => .placeholder reference 0
  | .loop var collection body _ => .loop var collection (nodesWithoutLines body) 0

def nodesWithoutLines : List Node → List Node
  | [] => []
  | node :: nodes => node.withoutLines :: nodesWithoutLines nodes

end

/-- A literal of a template: there is text, and no tag opens in it. -/
def IsLiteral (text : String) : Prop :=
  text ≠ "" ∧ ∀ d : Delimiter, ¬d.opening.toList <:+: text.toList

def EndsInBrace (text : String) : Prop :=
  text.toList.getLast? = some '{'

mutual

/-- Names are ASCII identifiers, and the lists of nodes in a loop are well formed. No literal in
them ends in a brace, as the end tag of the loop follows the last one. -/
def Node.WellFormed : Node → Prop
  | .literal text => IsLiteral text
  | .placeholder reference _ => ∀ segment ∈ reference.segments, IsName segment.toList
  | .loop var collection body _ =>
    IsName var.toList ∧ IsName collection.toList ∧ WellFormedNodes body ∧
      ∀ text, .literal text ∈ body → ¬EndsInBrace text

/-- No two literals stand side by side, and a literal that ends in a brace comes last. -/
def WellFormedNodes : List Node → Prop
  | [] => True
  | node :: nodes =>
    node.WellFormed ∧ WellFormedNodes nodes ∧
      ∀ text, node = .literal text →
        (EndsInBrace text → nodes = []) ∧ ∀ other, nodes.head? ≠ some (.literal other)

end

/-- The canonical text of a piece. -/
def Piece.written : Piece → List Char
  | .literal text => text.toList
  | .placeholder reference _ => (Tag.placeholder reference).written
  | .loopStart var collection _ => (Tag.loopStart var collection).written
  | .loopEnd => Tag.loopEnd.written

def Piece.atLine (line : Nat) : Piece → Piece
  | .placeholder reference _ => .placeholder reference line
  | .loopStart var collection _ => .loopStart var collection line
  | piece => piece

/-- Pieces with the lines that they have in their canonical text. -/
def placedPieces (line : Nat) : List Piece → List Piece
  | [] => []
  | piece :: pieces => piece.atLine line :: placedPieces (line + newlines piece.written) pieces

/-- The names in a piece are identifiers, and no tag opens in a literal. -/
def Piece.WellFormed : Piece → Prop
  | .literal text => IsLiteral text
  | .placeholder reference _ => ∀ segment ∈ reference.segments, IsName segment.toList
  | .loopStart var collection _ => IsName var.toList ∧ IsName collection.toList
  | .loopEnd => True

/-- A literal stands before tags only, and does not end in a brace then. -/
def Piece.Precedes (piece next : Piece) : Prop :=
  ∀ text, piece = .literal text → ¬EndsInBrace text ∧ ∀ other, next ≠ .literal other

def WellFormedPieces (pieces : List Piece) : Prop :=
  (∀ piece ∈ pieces, piece.WellFormed) ∧ pieces.IsChain Piece.Precedes

theorem Piece.eq_literal_or_tag (piece : Piece) :
    (∃ text, piece = .literal text) ∨ ∃ tag line, piece = Tag.piece line tag := by
  cases piece with
  | literal text => exact .inl ⟨text, rfl⟩
  | placeholder reference line => exact .inr ⟨.placeholder reference, line, rfl⟩
  | loopStart var collection line => exact .inr ⟨.loopStart var collection, line, rfl⟩
  | loopEnd => exact .inr ⟨.loopEnd, 0, rfl⟩

@[simp] theorem written_piece (tag : Tag) (line : Nat) :
    (tag.piece line).written = tag.written := by
  cases tag <;> rfl

@[simp] theorem atLine_piece (tag : Tag) (line line' : Nat) :
    (tag.piece line).atLine line' = tag.piece line' := by
  cases tag <;> rfl

theorem piece_ne_literal (tag : Tag) (line : Nat) (text : String) :
    tag.piece line ≠ .literal text := by
  cases tag <;> exact nofun

theorem precedes_of_tag (tag : Tag) (line : Nat) (next : Piece) : (tag.piece line).Precedes next :=
  fun text htext => absurd htext (piece_ne_literal tag line text)

theorem placedPieces_append (line : Nat) (pieces pieces' : List Piece) :
    placedPieces line (pieces ++ pieces') = placedPieces line pieces ++
      placedPieces (line + newlines (pieces.flatMap Piece.written)) pieces' := by
  induction pieces generalizing line with
  | nil => rfl
  | cons piece pieces ih =>
    simp only [List.cons_append, placedPieces, ih, List.flatMap_cons, newlines_append,
      Nat.add_assoc]

mutual

theorem flatMap_written_pieces (node : Node) :
    node.pieces.flatMap Piece.written = node.written := by
  cases node with
  | literal text => simp [Node.pieces, Node.written, Piece.written]
  | placeholder reference line => simp [Node.pieces, Node.written, Piece.written]
  | loop var collection body line =>
    rw [Node.pieces, Node.written, List.flatMap_cons, List.flatMap_append,
      flatMap_written_piecesOf body, List.append_assoc]
    simp [Piece.written]

theorem flatMap_written_piecesOf (nodes : List Node) :
    (piecesOf nodes).flatMap Piece.written = writtenNodes nodes := by
  cases nodes with
  | nil => rfl
  | cons node nodes =>
    rw [piecesOf, List.flatMap_append, flatMap_written_pieces node, flatMap_written_piecesOf nodes,
      writtenNodes]

end

mutual

theorem pieces_placed (before : List Char) (node : Node) :
    (node.placed before).pieces = placedPieces (1 + newlines before) node.pieces := by
  cases node with
  | literal text => rfl
  | placeholder reference line => rfl
  | loop var collection body line =>
    rw [Node.placed, Node.pieces, piecesOf_placedNodes _ body, Node.pieces, placedPieces,
      placedPieces_append, newlines_append, ← Nat.add_assoc]
    rfl

theorem piecesOf_placedNodes (before : List Char) (nodes : List Node) :
    piecesOf (placedNodes before nodes) = placedPieces (1 + newlines before) (piecesOf nodes) := by
  cases nodes with
  | nil => rfl
  | cons node nodes =>
    rw [placedNodes, piecesOf, pieces_placed before node, piecesOf_placedNodes _ nodes, piecesOf,
      placedPieces_append, flatMap_written_pieces, newlines_append, ← Nat.add_assoc]

end

mutual

theorem withoutLines_placed (before : List Char) (node : Node) :
    (node.placed before).withoutLines = node.withoutLines := by
  cases node with
  | literal text => rfl
  | placeholder reference line => rfl
  | loop var collection body line =>
    rw [Node.placed, Node.withoutLines, nodesWithoutLines_placedNodes _ body, Node.withoutLines]

theorem nodesWithoutLines_placedNodes (before : List Char) (nodes : List Node) :
    nodesWithoutLines (placedNodes before nodes) = nodesWithoutLines nodes := by
  cases nodes with
  | nil => rfl
  | cons node nodes =>
    rw [placedNodes, nodesWithoutLines, withoutLines_placed before node,
      nodesWithoutLines_placedNodes _ nodes, nodesWithoutLines]

end

theorem head?_piecesOf_eq_literal_iff {nodes : List Node} {text : String} :
    (piecesOf nodes).head? = some (.literal text) ↔ nodes.head? = some (.literal text) := by
  cases nodes with
  | nil => simp [piecesOf]
  | cons node nodes => cases node <;> simp [piecesOf, Node.pieces]

theorem getLast?_piecesOf_eq_literal_iff {nodes : List Node} {text : String} :
    (piecesOf nodes).getLast? = some (.literal text) ↔ nodes.getLast? = some (.literal text) := by
  rcases List.eq_nil_or_concat nodes with rfl | ⟨nodes, node, rfl⟩
  · simp [piecesOf]
  · rw [List.concat_eq_append, Draft.piecesOf_append, piecesOf, piecesOf, List.append_nil,
      List.getLast?_concat]
    cases node <;> simp [Node.pieces, List.getLast?_append, List.getLast?_cons]

theorem wellFormedPieces_append {pieces pieces' : List Piece} :
    WellFormedPieces (pieces ++ pieces') ↔ WellFormedPieces pieces ∧ WellFormedPieces pieces' ∧
      ∀ piece ∈ pieces.getLast?, ∀ next ∈ pieces'.head?, piece.Precedes next := by
  simp only [WellFormedPieces, List.forall_mem_append, List.isChain_append]
  constructor
  · rintro ⟨⟨h1, h2⟩, hchain1, hchain2, hseam⟩
    exact ⟨⟨h1, hchain1⟩, ⟨h2, hchain2⟩, hseam⟩
  · rintro ⟨⟨h1, hchain1⟩, ⟨h2, hchain2⟩, hseam⟩
    exact ⟨⟨h1, h2⟩, hchain1, hchain2, hseam⟩

theorem wellFormedPieces_singleton {piece : Piece} :
    WellFormedPieces [piece] ↔ piece.WellFormed := by
  simp [WellFormedPieces]

theorem wellFormedPieces_tag_cons {tag : Tag} {line : Nat} {pieces : List Piece} :
    WellFormedPieces (tag.piece line :: pieces) ↔
      (tag.piece line).WellFormed ∧ WellFormedPieces pieces := by
  rw [← List.singleton_append, wellFormedPieces_append, wellFormedPieces_singleton]
  constructor
  · rintro ⟨hpiece, hpieces, -⟩
    exact ⟨hpiece, hpieces⟩
  · rintro ⟨hpiece, hpieces⟩
    refine ⟨hpiece, hpieces, fun piece hlast next _ => ?_⟩
    obtain rfl : tag.piece line = piece := by simpa using hlast
    exact precedes_of_tag tag line next

/-- In a well-formed list of nodes a literal that ends in a brace is the last node. -/
theorem getLast?_of_endsInBrace {nodes : List Node} {text : String} (h : WellFormedNodes nodes)
    (hmem : .literal text ∈ nodes) (hbrace : EndsInBrace text) :
    nodes.getLast? = some (.literal text) := by
  induction nodes with
  | nil => cases hmem
  | cons node nodes ih =>
    obtain ⟨-, hnodes, hfollow⟩ := h
    rcases List.mem_cons.1 hmem with rfl | hmem
    · rw [(hfollow text rfl).1 hbrace]
      rfl
    · rw [List.getLast?_cons, ih hnodes hmem]
      rfl

/-- What a well-formed list of nodes asks of a node and those behind it. -/
theorem forall_precedes_iff (node : Node) (nodes : List Node) :
    (∀ piece ∈ node.pieces.getLast?, ∀ next ∈ (piecesOf nodes).head?, piece.Precedes next) ↔
      ∀ text, node = .literal text →
        (EndsInBrace text → nodes = []) ∧ ∀ other, nodes.head? ≠ some (.literal other) := by
  cases node with
  | literal text =>
    have hhead : (piecesOf nodes).head? = none ↔ nodes = [] := by
      cases nodes with
      | nil => simp [piecesOf]
      | cons node nodes => cases node <;> simp [piecesOf, Node.pieces]
    simp only [Node.pieces, List.getLast?_singleton, Option.mem_def, Option.some.injEq,
      forall_eq', Node.literal.injEq, Piece.Precedes, Piece.literal.injEq]
    constructor
    · intro h
      refine ⟨fun hbrace => ?_, fun other hother => ?_⟩
      · cases hnext : (piecesOf nodes).head? with
        | none => exact hhead.1 hnext
        | some next => exact absurd hbrace (h next hnext).1
      · exact (h _ (head?_piecesOf_eq_literal_iff.2 hother)).2 other rfl
    · rintro ⟨hbrace, hliteral⟩ next hnext
      refine ⟨fun hends => ?_, ?_⟩
      · rw [hhead.2 (hbrace hends)] at hnext
        cases hnext
      · rintro other rfl
        exact hliteral other (head?_piecesOf_eq_literal_iff.1 hnext)
  | placeholder reference line =>
    simp [Node.pieces, Piece.Precedes]
  | loop var collection body line =>
    simp [Node.pieces, Piece.Precedes, List.getLast?_cons]

mutual

/-- Trees and their pieces are well formed alike. -/
theorem wellFormed_pieces_iff (node : Node) : WellFormedPieces node.pieces ↔ node.WellFormed := by
  cases node with
  | literal text => exact wellFormedPieces_singleton
  | placeholder reference line => exact wellFormedPieces_singleton
  | loop var collection body line =>
    have hend : (∀ piece ∈ (piecesOf body).getLast?, ∀ next ∈ [Piece.loopEnd].head?,
        piece.Precedes next) ↔
        ∀ text, body.getLast? = some (.literal text) → ¬EndsInBrace text := by
      simp only [List.head?_cons, Option.mem_def, Option.some.injEq, forall_eq', Piece.Precedes,
        ← getLast?_piecesOf_eq_literal_iff]
      constructor
      · intro h text hlast
        exact (h _ hlast text rfl).1
      · rintro h piece hlast text rfl
        exact ⟨h text hlast, fun other => nofun⟩
    rw [Node.pieces, Node.WellFormed, ← wellFormed_piecesOf_iff body]
    change WellFormedPieces ((Tag.loopStart var collection).piece line :: _) ↔ _
    rw [wellFormedPieces_tag_cons, wellFormedPieces_append, wellFormedPieces_singleton, hend,
      wellFormed_piecesOf_iff body]
    constructor
    · rintro ⟨⟨hvar, hcollection⟩, hbody, -, hlast⟩
      exact ⟨hvar, hcollection, hbody, fun text hmem hbrace =>
        hlast text (getLast?_of_endsInBrace hbody hmem hbrace) hbrace⟩
    · rintro ⟨hvar, hcollection, hbody, hmem⟩
      exact ⟨⟨hvar, hcollection⟩, hbody, trivial, fun text hlast =>
        hmem text (List.mem_of_getLast? hlast)⟩

theorem wellFormed_piecesOf_iff (nodes : List Node) :
    WellFormedPieces (piecesOf nodes) ↔ WellFormedNodes nodes := by
  cases nodes with
  | nil => simp [piecesOf, WellFormedPieces, WellFormedNodes]
  | cons node nodes =>
    rw [piecesOf, wellFormedPieces_append, wellFormed_pieces_iff node,
      wellFormed_piecesOf_iff nodes, forall_precedes_iff, WellFormedNodes]

end

/-! ### Reading canonical text -/

/-- No character of an identifier is a brace or a percent sign, which close tags. -/
theorem closerChar_not_mem_name {cs : List Char} (h : IsName cs) (d : Delimiter) :
    d.closerChar ∉ cs := by
  intro hmem
  have hbounds := h.toNat_bounds _ hmem
  revert hbounds
  cases d <;> decide

theorem closerChar_not_mem_content {tag : Tag} {line : Nat} (h : (tag.piece line).WellFormed) :
    tag.delimiter.closerChar ∉ tag.content.toList := by
  intro hmem
  cases tag with
  | placeholder reference =>
    have htext : Delimiter.expression.closerChar ∈ reference.text.toList := by
      simpa [Tag.content, Tag.delimiter, Delimiter.closerChar] using hmem
    rw [Reference.toList_text] at htext
    rcases mem_intercalate htext with hdot | ⟨_, hpiece, hc⟩
    · simp [Delimiter.closerChar] at hdot
    · obtain ⟨segment, hsegment, rfl⟩ := List.mem_map.1 hpiece
      exact closerChar_not_mem_name (h segment hsegment) _ hc
  | loopStart var collection =>
    have hnames : Delimiter.directive.closerChar ∈ var.toList ∨
        Delimiter.directive.closerChar ∈ collection.toList := by
      simpa [Tag.content, Tag.delimiter, Delimiter.closerChar] using hmem
    rcases hnames with hvar | hcollection
    · exact closerChar_not_mem_name h.1 _ hvar
    · exact closerChar_not_mem_name h.2 _ hcollection
  | loopEnd => simp [Tag.content, Tag.delimiter, Delimiter.closerChar] at hmem

theorem isGap_blank : IsGap [' '] := by
  intro c hc
  obtain rfl := List.mem_singleton.1 hc
  rfl

theorem isWord_of_isIdentifier {cs : List Char} (h : isIdentifier cs = true) : IsWord cs :=
  ((isIdentifier_iff cs).1 h).isWord

/-- The content of a tag is written as the grammar asks. -/
theorem isWritten_content {tag : Tag} {line : Nat} (h : (tag.piece line).WellFormed) :
    Tag.IsWritten tag.delimiter tag.content.toList tag := by
  have hfor : IsWord "for".toList := isWord_of_isIdentifier rfl
  have hin : IsWord "in".toList := isWord_of_isIdentifier rfl
  have hendfor : IsWord "endfor".toList := isWord_of_isIdentifier rfl
  cases tag with
  | placeholder reference =>
    rw [Tag.content, String.toList_append, String.toList_append]
    exact .placeholder isGap_blank isGap_blank h
  | loopStart var collection =>
    have hblank : ∀ rest : List Char, ∀ c ∈ (' ' :: rest).head?, isBlank c = true := by
      intro rest c hc
      obtain rfl : ' ' = c := by simpa using hc
      rfl
    have hend : HasWords [' '] [] := .gap isGap_blank
    have hwords := HasWords.word isGap_blank hfor (hblank _) <|
      HasWords.word isGap_blank h.1.isWord (hblank _) <|
      HasWords.word isGap_blank hin (hblank _) <|
      HasWords.word isGap_blank h.2.isWord (hblank []) hend
    refine .loopStart ?_ h.1 h.2
    simpa [Tag.content] using hwords
  | loopEnd =>
    have hend : HasWords [' '] [] := .gap isGap_blank
    refine .loopEnd ?_
    exact HasWords.word isGap_blank hendfor
      (fun c hc => isGap_blank c (List.mem_of_mem_head? hc)) hend

/-- A tag behind text in which no tag opens, and which does not end in a brace, opens where it is
written. -/
theorem opensAt_append {before rest : List Char} {d : Delimiter}
    (hfree : ∀ d : Delimiter, ¬d.opening.toList <:+: before) (hbrace : before.getLast? ≠ some '{') :
    OpensAt (before ++ d.opening.toList ++ rest) before d rest := by
  have hnone : splitOpening before = none :=
    splitOpening_eq_none_iff.2 fun first d' rest' heq => hfree d' ⟨first, rest', heq.symm⟩
  have hopen : splitOpening (d.opening.toList ++ rest) = some ([], d, rest) := by
    cases d <;> rfl
  have hseam : ¬Joins before (d.opening.toList ++ rest) := fun hjoins => hbrace hjoins.1
  rw [← splitOpening_eq_some_iff, List.append_assoc, splitOpening_append hseam, hnone, hopen]
  simp

theorem closesAt_append {content rest : List Char} {d : Delimiter} (h : d.closerChar ∉ content) :
    ClosesAt (content ++ d.closing.toList ++ rest) content d rest := by
  rw [← splitClosing_eq_some_iff]
  induction content with
  | nil => cases d <;> rfl
  | cons c content ih =>
    rw [List.mem_cons, not_or] at h
    rw [List.cons_append, List.cons_append, Delimiter.splitClosing, ih h.2,
      if_neg fun hc => h.1 hc.1.symm]
    rfl

/-- A tag is read where it is written, with the literal text in front of it. -/
theorem reads_written_tag {before after : List Char} {line line' : Nat} {tag : Tag}
    {pieces : List Piece} (hfree : ∀ d : Delimiter, ¬d.opening.toList <:+: before)
    (hbrace : before.getLast? ≠ some '{') (htag : (tag.piece line').WellFormed)
    (hafter : Reads (line + newlines before + newlines tag.written) after pieces) :
    Reads line (before ++ (tag.written ++ after))
      (Piece.ofText before ++ tag.piece (line + newlines before) :: pieces) := by
  have hcloses : ClosesAt (tag.content.toList ++ tag.delimiter.closing.toList ++ after)
      tag.content.toList tag.delimiter after :=
    closesAt_append (closerChar_not_mem_content htag)
  have hopens : OpensAt (before ++ tag.delimiter.opening.toList ++
      (tag.content.toList ++ tag.delimiter.closing.toList ++ after)) before tag.delimiter _ :=
    opensAt_append hfree hbrace
  have hlines : newlines tag.written = newlines tag.content.toList := by
    simp [Tag.written]
  rw [hlines] at hafter
  have hread := Reads.tag hopens hcloses (isWritten_content htag) hafter
  simpa [Tag.written] using hread

theorem IsLiteral.ofText_eq {text : String} (h : IsLiteral text) :
    Piece.ofText text.toList = [.literal text] := by
  have hne : text.toList ≠ [] := by simpa using h.1
  obtain ⟨c, cs, hcs⟩ := List.exists_cons_of_ne_nil hne
  rw [hcs, Piece.ofText, ← hcs, String.ofList_toList]
  simp

/-- Well-formed pieces are read back from their canonical text. -/
theorem reads_written {pieces : List Piece} (h : WellFormedPieces pieces) (line : Nat) :
    Reads line (pieces.flatMap Piece.written) (placedPieces line pieces) := by
  have hnone : ∀ d : Delimiter, ¬d.opening.toList <:+: [] := by
    intro d
    cases d <;> decide
  induction hn : pieces.length using Nat.strongRecOn generalizing pieces line with
  | _ n ih =>
    cases pieces with
    | nil =>
      refine Reads.text fun before d rest heq => hnone d ⟨before, rest, heq.symm⟩
    | cons piece pieces =>
      rcases piece.eq_literal_or_tag with ⟨text, rfl⟩ | ⟨tag, line', rfl⟩
      · have hliteral : IsLiteral text := h.1 _ List.mem_cons_self
        cases pieces with
        | nil =>
          have hread : Reads line text.toList (Piece.ofText text.toList) :=
            .text fun before d rest heq => hliteral.2 d ⟨before, rest, heq.symm⟩
          rw [hliteral.ofText_eq] at hread
          simpa [Piece.written, placedPieces, Piece.atLine] using hread
        | cons next pieces =>
          obtain ⟨hbrace, hnext⟩ := (List.isChain_cons_cons.1 h.2).1 text rfl
          rcases next.eq_literal_or_tag with ⟨other, rfl⟩ | ⟨tag, line', rfl⟩
          · exact absurd rfl (hnext other)
          · have htail : WellFormedPieces (tag.piece line' :: pieces) :=
              ⟨fun piece hpiece => h.1 piece (List.mem_cons_of_mem _ hpiece),
                (List.isChain_cons_cons.1 h.2).2⟩
            obtain ⟨htag, hpieces⟩ := wellFormedPieces_tag_cons.1 htail
            have hafter := ih pieces.length (by simp at hn; omega) hpieces
              (line + newlines text.toList + newlines tag.written) rfl
            have hread := reads_written_tag hliteral.2 hbrace htag hafter
            rw [hliteral.ofText_eq] at hread
            rw [List.flatMap_cons, List.flatMap_cons, written_piece, placedPieces, placedPieces,
              written_piece, atLine_piece]
            exact hread
      · obtain ⟨htag, hpieces⟩ := wellFormedPieces_tag_cons.1 h
        have hafter := ih pieces.length (by simp at hn; omega) hpieces
          (line + newlines tag.written) rfl
        have hread : Reads line ([] ++ (tag.written ++ pieces.flatMap Piece.written))
            (Piece.ofText [] ++ tag.piece (line + newlines []) :: _) :=
          reads_written_tag hnone (by simp) htag (by simpa [newlines] using hafter)
        simpa [placedPieces, Piece.ofText, newlines] using hread

theorem wellFormed_of_isWritten {d : Delimiter} {content : List Char} {tag : Tag}
    (h : Tag.IsWritten d content tag) (line : Nat) : (tag.piece line).WellFormed := by
  cases h with
  | placeholder _ _ hnames => exact hnames
  | loopStart _ hvar hcollection => exact ⟨hvar, hcollection⟩
  | loopEnd _ => exact trivial

/-- In the text before the leftmost tag none opens, and it does not end in a brace. -/
theorem OpensAt.free {cs before rest : List Char} {d : Delimiter} (h : OpensAt cs before d rest) :
    (∀ d : Delimiter, ¬d.opening.toList <:+: before) ∧ before.getLast? ≠ some '{' := by
  obtain ⟨rfl, hfirst⟩ := h
  constructor
  · rintro d' ⟨first, second, rfl⟩
    have hle := hfirst first d' (second ++ (d.opening.toList ++ rest)) (by simp)
    simp only [List.length_append, d'.length_opening] at hle
    omega
  · intro hlast
    obtain ⟨first, rfl⟩ := List.getLast?_eq_some_iff.1 hlast
    have hsecond : ∃ second, d.opening.toList = ['{', second] := by
      cases d <;> exact ⟨_, rfl⟩
    obtain ⟨second, hsecond⟩ := hsecond
    have hle := hfirst first .expression (second :: rest) (by
      rw [hsecond]
      simp [Delimiter.opening])
    simp at hle

theorem wellFormed_ofText {text : List Char} (h : ∀ d : Delimiter, ¬d.opening.toList <:+: text) :
    WellFormedPieces (Piece.ofText text) := by
  cases text with
  | nil => exact ⟨nofun, .nil⟩
  | cons c text =>
    refine wellFormedPieces_singleton.2 ⟨by simp [String.ext_iff], ?_⟩
    simpa using h

/-- The pieces of every template are well formed. -/
theorem Reads.wellFormed {line : Nat} {cs : List Char} {pieces : List Piece}
    (h : Reads line cs pieces) : WellFormedPieces pieces := by
  induction h with
  | text hopen =>
    exact wellFormed_ofText fun d hinfix => by
      obtain ⟨before, rest, heq⟩ := hinfix
      exact hopen before d rest heq.symm
  | @tag line cs before rest content after d tag pieces hopen _ hwritten _ ih =>
    obtain ⟨hfree, hbrace⟩ := hopen.free
    rw [wellFormedPieces_append, wellFormedPieces_tag_cons]
    refine ⟨wellFormed_ofText hfree, ⟨wellFormed_of_isWritten hwritten _, ih⟩, ?_⟩
    rintro piece hpiece next hnext text rfl
    cases before with
    | nil => cases hpiece
    | cons c before =>
      obtain rfl : String.ofList (c :: before) = text := by simpa [Piece.ofText] using hpiece
      obtain rfl : tag.piece _ = next := by simpa using hnext
      refine ⟨by simpa [EndsInBrace] using hbrace, fun other => piece_ne_literal tag _ other⟩

/-- The template with this tree, written canonically. -/
def canonicalText (nodes : List Node) : String :=
  String.ofList (writtenNodes nodes)

/-- A well-formed tree is read back from its canonical text, with the lines of its tags there. -/
theorem parse_canonicalText_eq {nodes : List Node} (h : WellFormedNodes nodes) :
    Template.parse (canonicalText nodes) = .ok ⟨placedNodes [] nodes⟩ := by
  have hread := reads_written ((wellFormed_piecesOf_iff nodes).2 h) 1
  rw [parse_eq_ok_iff_reads, canonicalText, String.toList_ofList, piecesOf_placedNodes,
    ← flatMap_written_piecesOf]
  exact hread

/-- The trees of templates are the well-formed ones. -/
theorem wellFormedNodes_of_parse {text : String} {t : Scaffold.Template}
    (h : Template.parse text = .ok t) : WellFormedNodes t.nodes :=
  (wellFormed_piecesOf_iff t.nodes).1 (parse_eq_ok_iff_reads.1 h).wellFormed

/-- Well-formed trees are read back from their canonical text, every tree that is read is well
formed, and so a template that is written anew and read again has the same tree but for lines. -/
theorem parse_canonical :
    (∀ nodes, WellFormedNodes nodes →
      Template.parse (canonicalText nodes) = .ok ⟨placedNodes [] nodes⟩) ∧
    ∀ text t, Template.parse text = .ok t → WellFormedNodes t.nodes ∧
      ∃ t', Template.parse (canonicalText t.nodes) = .ok t' ∧
        nodesWithoutLines t'.nodes = nodesWithoutLines t.nodes := by
  refine ⟨fun nodes => parse_canonicalText_eq, fun text t hparse => ?_⟩
  have hwell := wellFormedNodes_of_parse hparse
  exact ⟨hwell, _, parse_canonicalText_eq hwell, nodesWithoutLines_placedNodes [] t.nodes⟩

/-- A loop between line ends, with half a closing delimiter at the end of its body and a lone brace
behind it. -/
def nestedNodes : List Node :=
  [.literal "a\n", .loop "p" "properties" [.placeholder ⟨"p", ["name"]⟩ 0, .literal "\n%\x7d"] 0,
    .literal "\x7d\x7b"]

theorem parse_canonical_nested :
    WellFormedNodes nestedNodes ∧
    Template.parse
        ("a\n\x7b% for p in properties %\x7d\x7b\x7b p.name \x7d\x7d\n%\x7d" ++
          "\x7b% endfor %\x7d\x7d\x7b") =
      .ok ⟨[.literal "a\n",
        .loop "p" "properties" [.placeholder ⟨"p", ["name"]⟩ 2, .literal "\n%\x7d"] 2,
        .literal "\x7d\x7b"]⟩ := by
  have hnames : ∀ cs ∈ [['p'], "name".toList, "properties".toList], IsName cs := by
    intro cs hcs
    apply (isIdentifier_iff cs).1
    revert cs
    decide
  have hliterals : ∀ text ∈ ["a\n", "\n%\x7d", "\x7d\x7b"], IsLiteral text := by
    intro text htext
    refine ⟨?_, fun d => ?_⟩
    · revert text
      decide
    · cases d <;> revert text <;> decide
  have hwell : WellFormedNodes nestedNodes := by
    simp [nestedNodes, WellFormedNodes, Node.WellFormed, EndsInBrace, Reference.segments]
      at hnames hliterals ⊢
    simp [hnames, hliterals]
  exact ⟨hwell, parse_canonical.1 nestedNodes hwell⟩

end Scaffold.Template
