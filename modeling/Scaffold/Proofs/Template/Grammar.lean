import Mathlib.Data.List.Induction
import Scaffold.Proofs.Result
import Scaffold.Proofs.Template.Segments
import Scaffold.Proofs.Text.Words
import Scaffold.Template.Node

/-!
The language of templates. A text is read from the left into pieces: the next tag starts at the
leftmost opening delimiter and ends at the first closing delimiter of its kind after it, and what
stands between tags is literal. A template is a text whose loop tags are balanced like brackets, and
its tree is their bracket structure: read depth first, it gives back the pieces of the text.
-/

namespace Scaffold.Template

open Text

/-- A stretch of literal text, or a tag with its line. -/
inductive Piece where
  | literal (text : String)
  | placeholder (reference : Reference) (line : Nat)
  | loopStart (var collection : String) (line : Nat)
  | loopEnd
  deriving DecidableEq, Repr

/-- Literal text as a piece, and no piece for no text. -/
def Piece.ofText : List Char → List Piece
  | [] => []
  | text => [.literal (String.ofList text)]

def Tag.piece (line : Nat) : Tag → Piece
  | .placeholder reference => .placeholder reference line
  | .loopStart var collection => .loopStart var collection line
  | .loopEnd => .loopEnd

/-- Between the delimiters of the given kind, this content stands for a tag: a dotted list of
identifiers with white space around it, or the words of a loop header or of a loop end. -/
inductive Tag.IsWritten : Delimiter → List Char → Tag → Prop where
  | placeholder {left right : List Char} {r : Reference} : IsGap left → IsGap right →
      (∀ segment ∈ r.segments, IsName segment.toList) →
      IsWritten .expression (left ++ r.text.toList ++ right) (.placeholder r)
  | loopStart {content : List Char} {var collection : String} :
      HasWords content ["for".toList, var.toList, "in".toList, collection.toList] →
      IsName var.toList → IsName collection.toList →
      IsWritten .directive content (.loopStart var collection)
  | loopEnd {content : List Char} : HasWords content ["endfor".toList] →
      IsWritten .directive content .loopEnd

/-- The leftmost opening delimiter of a text is of this kind, with this text before and after it. -/
def OpensAt (cs before : List Char) (d : Delimiter) (rest : List Char) : Prop :=
  cs = before ++ d.opening.toList ++ rest ∧
  ∀ (before' : List Char) (d' : Delimiter) (rest' : List Char),
    cs = before' ++ d'.opening.toList ++ rest' → before.length ≤ before'.length

/-- The first closing delimiter of this kind, with this text before and after it. -/
def ClosesAt (cs content : List Char) (d : Delimiter) (rest : List Char) : Prop :=
  cs = content ++ d.closing.toList ++ rest ∧
  ∀ content' rest' : List Char, cs = content' ++ d.closing.toList ++ rest' →
    content.length ≤ content'.length

/-- The pieces of a text that starts at the given line. Every tag in it is closed and written
well. -/
inductive Reads : Nat → List Char → List Piece → Prop where
  | text {line : Nat} {cs : List Char} :
      (∀ (before : List Char) (d : Delimiter) (rest : List Char),
        cs ≠ before ++ d.opening.toList ++ rest) →
      Reads line cs (Piece.ofText cs)
  | tag {line : Nat} {cs before rest content after : List Char} {d : Delimiter} {tag : Tag}
      {pieces : List Piece} :
      OpensAt cs before d rest → ClosesAt rest content d after → Tag.IsWritten d content tag →
      Reads (line + newlines before + newlines content) after pieces →
      Reads line cs (Piece.ofText before ++ tag.piece (line + newlines before) :: pieces)

mutual

/-- A node read depth first: its literals and tags in order. -/
def Node.pieces : Node → List Piece
  | .literal text => [.literal text]
  | .placeholder reference line => [.placeholder reference line]
  | .loop var collection body line =>
    .loopStart var collection line :: (piecesOf body ++ [.loopEnd])

def piecesOf : List Node → List Piece
  | [] => []
  | node :: nodes => node.pieces ++ piecesOf nodes

end

def Piece.isLoopStart : Piece → Bool
  | .loopStart .. => true
  | _ => false

def Piece.isLoopEnd : Piece → Bool
  | .loopEnd => true
  | _ => false

/-- Loops are opened as often as they are ended, and never ended more often than opened before. -/
def Balanced (pieces : List Piece) : Prop :=
  pieces.countP Piece.isLoopStart = pieces.countP Piece.isLoopEnd ∧
  ∀ read, read <+: pieces → read.countP Piece.isLoopEnd ≤ read.countP Piece.isLoopStart

theorem opening?_append_opening (d : Delimiter) (rest : List Char) :
    opening? (d.opening.toList ++ rest) = some (d, rest) :=
  opening?_eq_some_iff.2 rfl

theorem exists_splitOpening_of_append (before : List Char) (d : Delimiter) (rest : List Char) :
    ∃ before' d' rest', before'.length ≤ before.length ∧
      splitOpening (before ++ d.opening.toList ++ rest) = some (before', d', rest') := by
  induction before with
  | nil =>
    refine ⟨[], d, rest, Nat.le_refl _, ?_⟩
    rw [List.nil_append]
    cases d <;> rfl
  | cons c before ih =>
    obtain ⟨before', d', rest', hle, hsplit⟩ := ih
    rw [List.cons_append, List.cons_append, splitOpening, hsplit]
    split
    · next d'' rest'' _ => exact ⟨[], d'', rest'', Nat.zero_le _, rfl⟩
    · exact ⟨c :: before', d', rest', Nat.succ_le_succ hle, rfl⟩

theorem splitOpening_eq_none_iff {cs : List Char} : splitOpening cs = none ↔
    ∀ (before : List Char) (d : Delimiter) (rest : List Char),
      cs ≠ before ++ d.opening.toList ++ rest := by
  constructor
  · rintro h before d rest rfl
    obtain ⟨_, _, _, _, hsplit⟩ := exists_splitOpening_of_append before d rest
    rw [h] at hsplit
    cases hsplit
  · intro h
    cases hsplit : splitOpening cs with
    | none => rfl
    | some split => exact absurd (splitOpening_eq hsplit) (h _ _ _)

theorem splitOpening_eq_some_iff {cs before rest : List Char} {d : Delimiter} :
    splitOpening cs = some (before, d, rest) ↔ OpensAt cs before d rest := by
  constructor
  · intro h
    refine ⟨splitOpening_eq h, fun before' d' rest' heq => ?_⟩
    obtain ⟨_, _, _, hle, hsplit⟩ := exists_splitOpening_of_append before' d' rest'
    rw [← heq, h] at hsplit
    cases hsplit
    exact hle
  · rintro ⟨rfl, hfirst⟩
    obtain ⟨before', d', rest', hle, hsplit⟩ := exists_splitOpening_of_append before d rest
    have heq := splitOpening_eq hsplit
    have hlength := Nat.le_antisymm hle (hfirst _ _ _ heq)
    rw [List.append_assoc, List.append_assoc] at heq
    obtain ⟨rfl, htail⟩ := List.append_inj heq hlength.symm
    have hopening := opening?_append_opening d rest
    rw [htail, opening?_append_opening] at hopening
    cases hopening
    exact hsplit

theorem exists_splitClosing_of_append (d : Delimiter) (content rest : List Char) :
    ∃ content' rest', content'.length ≤ content.length ∧
      d.splitClosing (content ++ d.closing.toList ++ rest) = some (content', rest') := by
  induction content with
  | nil =>
    refine ⟨[], rest, Nat.le_refl _, ?_⟩
    rw [List.nil_append]
    cases d <;> rfl
  | cons c content ih =>
    obtain ⟨content', rest', hle, hsplit⟩ := ih
    rw [List.cons_append, List.cons_append, Delimiter.splitClosing, hsplit]
    split
    · exact ⟨[], _, Nat.zero_le _, rfl⟩
    · exact ⟨c :: content', rest', Nat.succ_le_succ hle, rfl⟩

theorem splitClosing_eq_some_iff {d : Delimiter} {cs content rest : List Char} :
    d.splitClosing cs = some (content, rest) ↔ ClosesAt cs content d rest := by
  constructor
  · intro h
    refine ⟨Delimiter.splitClosing_eq h, fun content' rest' heq => ?_⟩
    obtain ⟨_, _, hle, hsplit⟩ := exists_splitClosing_of_append d content' rest'
    rw [← heq, h] at hsplit
    cases hsplit
    exact hle
  · rintro ⟨rfl, hfirst⟩
    obtain ⟨content', rest', hle, hsplit⟩ := exists_splitClosing_of_append d content rest
    have heq := Delimiter.splitClosing_eq hsplit
    have hlength := Nat.le_antisymm hle (hfirst _ _ heq)
    rw [List.append_assoc, List.append_assoc] at heq
    obtain ⟨rfl, htail⟩ := List.append_inj heq hlength.symm
    rw [hsplit, List.append_cancel_left htail]

theorem Reference.toList_text (r : Reference) :
    r.text.toList = ['.'].intercalate (r.segments.map String.toList) := by
  rw [Reference.text, String.toList_intercalate]
  rfl

theorem Reference.read?_eq_some_iff {cs : List Char} {r : Reference} :
    Reference.read? cs = some r ↔
      cs = r.text.toList ∧ ∀ segment ∈ r.segments, IsName segment.toList := by
  constructor
  · intro h
    unfold Reference.read? at h
    simp only at h
    split at h
    · next hall =>
      split at h
      · cases h
      · next head fields heq =>
        cases h
        have hsegments : splitWhere (· = '.') cs = (head :: fields).map String.toList := by
          rw [← heq, List.map_map]
          simp [Function.comp_def]
        refine ⟨?_, fun segment hsegment => ?_⟩
        · rw [Reference.toList_text, Reference.segments, ← hsegments, intercalate_splitWhere]
        · rw [hsegments, List.all_eq_true] at hall
          exact (isIdentifier_iff _).1 (hall _ (List.mem_map_of_mem hsegment))
    · cases h
  · rintro ⟨rfl, hnames⟩
    have hsplit : splitWhere (· = '.') r.text.toList = r.segments.map String.toList := by
      rw [Reference.toList_text]
      refine splitWhere_intercalate (by simp [Reference.segments]) fun piece hpiece => ?_
      obtain ⟨segment, hsegment, rfl⟩ := List.mem_map.1 hpiece
      exact (hnames segment hsegment).dot_not_mem
    have hall : (splitWhere (· = '.') r.text.toList).all isIdentifier = true := by
      rw [hsplit, List.all_eq_true]
      intro piece hpiece
      obtain ⟨segment, hsegment, rfl⟩ := List.mem_map.1 hpiece
      exact (isIdentifier_iff _).2 (hnames segment hsegment)
    simp only [Reference.read?]
    rw [if_pos hall, hsplit, List.map_map]
    simp [Function.comp_def, Reference.segments]

/-- A dotted list of identifiers is not empty and holds no white space. -/
theorem Reference.isWord_text {r : Reference} (h : ∀ segment ∈ r.segments, IsName segment.toList) :
    IsWord r.text.toList := by
  have hdot : isBlank '.' = false := by decide
  rw [Reference.toList_text, Reference.segments]
  rw [Reference.segments] at h
  -- Induction on the fields, with the head replaced by the next field.
  induction hf : r.fields generalizing r with
  | nil =>
    rw [List.map_cons, List.map_nil, List.intercalate_singleton]
    exact (h r.head List.mem_cons_self).isWord
  | cons field fields ih =>
    have hhead := (h r.head List.mem_cons_self).isWord
    have htail := ih (r := ⟨field, fields⟩)
      (fun segment hsegment => h segment (by rw [hf]; exact List.mem_cons_of_mem _ hsegment)) rfl
    rw [List.map_cons, List.map_cons, List.intercalate_cons_cons]
    rw [List.map_cons] at htail
    refine ⟨by simp, fun c hc => ?_⟩
    simp only [List.mem_append, List.mem_singleton] at hc
    rcases hc with (hc | rfl) | hc
    · exact hhead.2 c hc
    · exact hdot
    · exact htail.2 c hc

theorem Tag.readExpression_eq_ok_iff {content : List Char} {tag : Tag} :
    Tag.readExpression content = .ok tag ↔ Tag.IsWritten .expression content tag := by
  constructor
  · intro h
    unfold Tag.readExpression at h
    simp only at h
    split at h
    · cases h
    · split at h
      · next r hread =>
        cases h
        obtain ⟨htext, hnames⟩ := Reference.read?_eq_some_iff.1 hread
        obtain ⟨left, right, hleft, hright, heq⟩ := exists_eq_append_trim content
        rw [heq, htext]
        exact .placeholder hleft hright hnames
      · cases h
  · rintro (@⟨left, right, r, hleft, hright, hnames⟩)
    have hword := Reference.isWord_text hnames
    have hempty : ¬ r.text.toList.isEmpty = true := by simpa using hword.1
    simp only [Tag.readExpression, trim_append hleft hright hword]
    rw [if_neg hempty, Reference.read?_eq_some_iff.2 ⟨rfl, hnames⟩]

theorem map_ofList_eq_iff {ws : List (List Char)} {names : List String} :
    ws.map String.ofList = names ↔ ws = names.map String.toList := by
  constructor
  · rintro rfl
    simp [Function.comp_def]
  · rintro rfl
    simp [Function.comp_def]

theorem Tag.readDirective_eq_ok_iff {content : List Char} {tag : Tag} :
    Tag.readDirective content = .ok tag ↔ Tag.IsWritten .directive content tag := by
  constructor
  · intro h
    unfold Tag.readDirective at h
    split at h
    · cases h
    · next heq =>
      cases h
      exact .loopEnd (words_eq_iff.1 (map_ofList_eq_iff.1 heq))
    · next var collection heq =>
      split at h
      · cases h
      · next hvar =>
        split at h
        · cases h
        · next hcollection =>
          cases h
          simp only [Bool.not_eq_true', Bool.not_eq_false] at hvar hcollection
          exact .loopStart (words_eq_iff.1 (map_ofList_eq_iff.1 heq))
            ((isIdentifier_iff _).1 hvar) ((isIdentifier_iff _).1 hcollection)
    · cases h
    · cases h
  · rintro (_ | ⟨hwords, hvar, hcollection⟩ | hwords)
    · unfold Tag.readDirective
      rw [hwords.words_eq]
      simp [(isIdentifier_iff _).2 hvar, (isIdentifier_iff _).2 hcollection]
    · unfold Tag.readDirective
      rw [hwords.words_eq]
      simp

theorem Tag.read_eq_ok_iff {d : Delimiter} {content : List Char} {tag : Tag} :
    Tag.read d content = .ok tag ↔ Tag.IsWritten d content tag := by
  cases d with
  | expression => exact Tag.readExpression_eq_ok_iff
  | directive => exact Tag.readDirective_eq_ok_iff

/-! ### From segments to pieces -/

/-- The piece that a segment stands for. -/
def Segment.piece : Segment → Except Error Piece
  | .literal text => .ok (.literal (String.ofList text))
  | .unclosed delimiter line => .error (.malformed (.unclosed delimiter) line)
  | .tag delimiter content line =>
    match Tag.read delimiter content with
    | .error fault => .error (.malformed fault line)
    | .ok read => .ok (read.piece line)

/-- These segments stand for these pieces, one for one. -/
def Matches (segments : List Segment) (pieces : List Piece) : Prop :=
  List.Forall₂ (fun segment piece => segment.piece = .ok piece) segments pieces

theorem matches_ofText (text : List Char) : Matches (Segment.ofText text) (Piece.ofText text) := by
  cases text with
  | nil => exact .nil
  | cons c text => exact .cons rfl .nil

theorem Matches.eq_ofText {text : List Char} {pieces : List Piece}
    (h : Matches (Segment.ofText text) pieces) : pieces = Piece.ofText text := by
  cases text with
  | nil =>
    cases h
    rfl
  | cons c text =>
    cases h with
    | cons hpiece hnil =>
      cases hnil
      cases hpiece
      rfl

theorem Matches.exists_eq_append {before after : List Segment} {pieces : List Piece}
    (h : Matches (before ++ after) pieces) :
    ∃ first second, Matches before first ∧ Matches after second ∧ pieces = first ++ second := by
  induction before generalizing pieces with
  | nil => exact ⟨[], pieces, .nil, h, rfl⟩
  | cons segment before ih =>
    cases h with
    | cons hpiece htail =>
      obtain ⟨first, second, hfirst, hsecond, rfl⟩ := ih htail
      exact ⟨_ :: first, second, .cons hpiece hfirst, hsecond, rfl⟩

theorem Segment.piece_tag_eq_ok_iff {d : Delimiter} {content : List Char} {line : Nat}
    {piece : Piece} : (Segment.tag d content line).piece = .ok piece ↔
      ∃ tag, Tag.IsWritten d content tag ∧ piece = tag.piece line := by
  rw [Segment.piece]
  constructor
  · intro h
    split at h
    · cases h
    · next tag hread =>
      cases h
      exact ⟨tag, Tag.read_eq_ok_iff.1 hread, rfl⟩
  · rintro ⟨tag, hwritten, rfl⟩
    rw [Tag.read_eq_ok_iff.2 hwritten]

/-- The pieces of a text are those that its segments stand for. -/
theorem reads_iff_matches_cut {line : Nat} {cs : List Char} {pieces : List Piece} :
    Reads line cs pieces ↔ Matches (cut line cs) pieces := by
  constructor
  · intro h
    induction h with
    | text hopen =>
      rw [cut_of_splitOpening_none (splitOpening_eq_none_iff.2 hopen)]
      exact matches_ofText _
    | tag hopen hclose hwritten _ ih =>
      rw [cut_of_split (splitOpening_eq_some_iff.2 hopen) (splitClosing_eq_some_iff.2 hclose)]
      exact List.rel_append (matches_ofText _)
        (.cons (Segment.piece_tag_eq_ok_iff.2 ⟨_, hwritten, rfl⟩) ih)
  · intro h
    induction cs using cut_induction generalizing line pieces with
    | text cs hopen =>
      rw [cut_of_splitOpening_none hopen] at h
      rw [h.eq_ofText]
      exact .text (splitOpening_eq_none_iff.1 hopen)
    | unclosed cs before d rest hopen hclose =>
      rw [cut_of_splitClosing_none hopen hclose] at h
      obtain ⟨_, _, _, hunclosed, _⟩ := h.exists_eq_append
      cases hunclosed with
      | cons hpiece _ => cases hpiece
    | tag cs before d rest content after hopen hclose ih =>
      rw [cut_of_split hopen hclose] at h
      obtain ⟨texts, _, htexts, htags, rfl⟩ := h.exists_eq_append
      rw [Matches.eq_ofText htexts]
      cases htags with
      | cons hpiece hafter =>
        obtain ⟨tag, hwritten, rfl⟩ := Segment.piece_tag_eq_ok_iff.1 hpiece
        exact .tag (splitOpening_eq_some_iff.1 hopen) (splitClosing_eq_some_iff.1 hclose)
          hwritten (ih hafter)

namespace Draft

/-- Adds a piece to what has been read, unless it ends a loop that is not open. -/
def addPiece (draft : Draft) : Piece → Option Draft
  | .literal text => some (draft.push (.literal text))
  | .placeholder reference line => some (draft.push (.placeholder reference line))
  | .loopStart var collection line => some ⟨⟨var, collection, line, draft.nodes⟩ :: draft.loops, []⟩
  | .loopEnd =>
    match draft.loops with
    | [] => none
    | l :: loops => some ⟨loops, .loop l.var l.collection draft.nodes.reverse l.line :: l.before⟩

theorem addTag_eq_ok_iff {draft draft' : Draft} {line : Nat} {tag : Tag} :
    draft.addTag line tag = .ok draft' ↔ draft.addPiece (tag.piece line) = some draft' := by
  cases tag with
  | placeholder reference => simp [addTag, Tag.piece, addPiece]
  | loopStart var collection => simp [addTag, Tag.piece, addPiece]
  | loopEnd =>
    simp only [addTag, Tag.piece, addPiece]
    cases draft.loops <;> simp

theorem add_eq_ok_iff {draft draft' : Draft} {segment : Segment} :
    draft.add segment = .ok draft' ↔
      ∃ piece, segment.piece = .ok piece ∧ draft.addPiece piece = some draft' := by
  cases segment with
  | literal text => simp [add, Segment.piece, addPiece]
  | unclosed d line => simp [add, Segment.piece]
  | tag d content line =>
    simp only [add, Segment.piece]
    cases Tag.read d content with
    | error fault => simp
    | ok tag => simp [addTag_eq_ok_iff]

theorem foldlM_add_eq_ok_iff {segments : List Segment} {draft draft' : Draft} :
    segments.foldlM add draft = .ok draft' ↔
      ∃ pieces, Matches segments pieces ∧ pieces.foldlM addPiece draft = some draft' := by
  induction segments generalizing draft with
  | nil =>
    constructor
    · intro h
      cases h
      exact ⟨[], .nil, rfl⟩
    · rintro ⟨pieces, hmatches, hfold⟩
      cases hmatches
      cases hfold
      rfl
  | cons segment segments ih =>
    rw [List.foldlM_cons]
    constructor
    · intro h
      obtain ⟨next, hadd, h⟩ := bind_eq_ok_iff.1 h
      obtain ⟨piece, hpiece, hnext⟩ := add_eq_ok_iff.1 hadd
      obtain ⟨pieces, hmatches, hfold⟩ := ih.1 h
      refine ⟨piece :: pieces, .cons hpiece hmatches, ?_⟩
      rw [List.foldlM_cons, hnext]
      exact hfold
    · rintro ⟨_, hmatches, hfold⟩
      cases hmatches with
      | @cons _ piece _ pieces hpiece hmatches =>
        rw [List.foldlM_cons] at hfold
        obtain ⟨next, hnext, hrest⟩ := Option.bind_eq_some_iff.1 hfold
        rw [add_eq_ok_iff.2 ⟨piece, hpiece, hnext⟩]
        exact ih.2 ⟨pieces, hmatches, hrest⟩

/-- The pieces in front of the innermost list of nodes. -/
def piecesBefore : List OpenLoop → List Piece
  | [] => []
  | l :: loops =>
    piecesBefore loops ++ piecesOf l.before.reverse ++ [.loopStart l.var l.collection l.line]

/-- All pieces that have been read. -/
def pieces (draft : Draft) : List Piece :=
  piecesBefore draft.loops ++ piecesOf draft.nodes.reverse

theorem piecesOf_append (nodes nodes' : List Node) :
    piecesOf (nodes ++ nodes') = piecesOf nodes ++ piecesOf nodes' := by
  induction nodes with
  | nil => rfl
  | cons node nodes ih => rw [List.cons_append, piecesOf, ih, piecesOf, List.append_assoc]

theorem piecesOf_reverse_cons (node : Node) (nodes : List Node) :
    piecesOf (node :: nodes).reverse = piecesOf nodes.reverse ++ node.pieces := by
  rw [List.reverse_cons, piecesOf_append, piecesOf, piecesOf, List.append_nil]

theorem pieces_push (draft : Draft) (node : Node) :
    (draft.push node).pieces = draft.pieces ++ node.pieces := by
  rw [pieces, push, piecesOf_reverse_cons, pieces, List.append_assoc]

/-- A step reads one more piece. -/
theorem pieces_of_addPiece {draft draft' : Draft} {piece : Piece}
    (h : draft.addPiece piece = some draft') : draft'.pieces = draft.pieces ++ [piece] := by
  cases piece with
  | literal text =>
    cases h
    rw [pieces_push, Node.pieces]
  | placeholder reference line =>
    cases h
    rw [pieces_push, Node.pieces]
  | loopStart var collection line =>
    cases h
    simp only [pieces, piecesBefore, List.reverse_nil, piecesOf, List.append_nil]
  | loopEnd =>
    rw [addPiece] at h
    split at h
    · cases h
    · next l loops hloops =>
      cases h
      rw [pieces, piecesOf_reverse_cons, Node.pieces, pieces, hloops, piecesBefore]
      simp only [List.append_assoc, List.cons_append, List.nil_append]

/-- A run reads the pieces one after the other. -/
theorem pieces_of_foldlM {read : List Piece} {draft draft' : Draft}
    (h : read.foldlM addPiece draft = some draft') : draft'.pieces = draft.pieces ++ read := by
  induction read generalizing draft with
  | nil =>
    cases h
    rw [List.append_nil]
  | cons piece read ih =>
    rw [List.foldlM_cons] at h
    obtain ⟨next, hnext, hrest⟩ := Option.bind_eq_some_iff.1 h
    rw [ih hrest, pieces_of_addPiece hnext, List.append_assoc, List.singleton_append]

mutual

/-- Reading the pieces of a node adds the node. -/
theorem foldlM_pieces (node : Node) (draft : Draft) :
    node.pieces.foldlM addPiece draft = some (draft.push node) := by
  match node with
  | .literal text => rfl
  | .placeholder reference line => rfl
  | .loop var collection body line =>
    rw [Node.pieces, List.foldlM_cons, addPiece, Option.bind_eq_bind, Option.bind_some,
      List.foldlM_append, foldlM_piecesOf body, Option.bind_eq_bind, Option.bind_some,
      List.append_nil, List.foldlM_cons, addPiece, List.reverse_reverse]
    rfl

theorem foldlM_piecesOf (nodes : List Node) (draft : Draft) :
    (piecesOf nodes).foldlM addPiece draft =
      some { draft with nodes := nodes.reverse ++ draft.nodes } := by
  match nodes with
  | [] => rfl
  | node :: nodes =>
    rw [piecesOf, List.foldlM_append, foldlM_pieces node, Option.bind_eq_bind, Option.bind_some,
      foldlM_piecesOf nodes, push, List.reverse_cons, List.append_assoc, List.singleton_append]

end

/-- As many loops are open as have been opened and not ended. -/
theorem length_loops_of_addPiece {draft draft' : Draft} {piece : Piece}
    (h : draft.addPiece piece = some draft') :
    draft'.loops.length + [piece].countP Piece.isLoopEnd =
      draft.loops.length + [piece].countP Piece.isLoopStart := by
  cases piece with
  | literal text =>
    cases h
    rfl
  | placeholder reference line =>
    cases h
    rfl
  | loopStart var collection line =>
    cases h
    rfl
  | loopEnd =>
    rw [addPiece] at h
    split at h
    · cases h
    · next l loops hloops =>
      cases h
      rw [hloops]
      rfl

theorem length_loops_of_foldlM {read : List Piece} {draft draft' : Draft}
    (h : read.foldlM addPiece draft = some draft') :
    draft'.loops.length + read.countP Piece.isLoopEnd =
      draft.loops.length + read.countP Piece.isLoopStart := by
  induction read generalizing draft with
  | nil =>
    cases h
    rfl
  | cons piece read ih =>
    rw [List.foldlM_cons] at h
    obtain ⟨next, hnext, hrest⟩ := Option.bind_eq_some_iff.1 h
    have hstep := length_loops_of_addPiece hnext
    have hrun := ih hrest
    rw [← List.singleton_append, List.countP_append, List.countP_append]
    omega

/-- Reading stops early only at a loop end that is one too many. -/
theorem exists_foldlM_of_balanced {pieces : List Piece} (hbalanced : Balanced pieces) :
    ∀ read, read <+: pieces → ∃ draft, read.foldlM addPiece empty = some draft := by
  intro read hpre
  induction read using List.reverseRecOn with
  | nil => exact ⟨empty, rfl⟩
  | append_singleton read piece ih =>
    obtain ⟨draft, hrun⟩ := ih ((List.prefix_append read [piece]).trans hpre)
    have hcount := length_loops_of_foldlM hrun
    have hle := hbalanced.2 _ hpre
    rw [List.countP_append, List.countP_append] at hle
    rw [List.foldlM_append, hrun, Option.bind_eq_bind, Option.bind_some, List.foldlM_cons]
    cases piece with
    | literal text => exact ⟨_, rfl⟩
    | placeholder reference line => exact ⟨_, rfl⟩
    | loopStart var collection line => exact ⟨_, rfl⟩
    | loopEnd =>
      rw [addPiece]
      cases hloops : draft.loops with
      | nil =>
        have h1 : [Piece.loopEnd].countP Piece.isLoopEnd = 1 := rfl
        have h0 : [Piece.loopEnd].countP Piece.isLoopStart = 0 := rfl
        rw [hloops] at hcount
        simp only [empty, List.length_nil] at hcount
        omega
      | cons l loops => exact ⟨_, rfl⟩

end Draft

/-- The pieces that can be read off a tree are the balanced ones. -/
theorem exists_piecesOf_eq_iff_balanced {pieces : List Piece} :
    (∃ nodes, piecesOf nodes = pieces) ↔ Balanced pieces := by
  constructor
  · rintro ⟨nodes, rfl⟩
    have hrun := Draft.foldlM_piecesOf nodes Draft.empty
    have hcount := Draft.length_loops_of_foldlM hrun
    refine ⟨?_, fun read hpre => ?_⟩
    · simp only [Draft.empty, List.length_nil] at hcount
      omega
    · obtain ⟨rest, heq⟩ := hpre
      rw [← heq, List.foldlM_append] at hrun
      obtain ⟨draft, hread, _⟩ := Option.bind_eq_some_iff.1 hrun
      have := Draft.length_loops_of_foldlM hread
      simp only [Draft.empty, List.length_nil] at this
      omega
  · intro hbalanced
    obtain ⟨draft, hrun⟩ := Draft.exists_foldlM_of_balanced hbalanced pieces List.prefix_rfl
    have hpieces := Draft.pieces_of_foldlM hrun
    have hcount := Draft.length_loops_of_foldlM hrun
    have hloops : draft.loops = [] := by
      apply List.eq_nil_of_length_eq_zero
      have := hbalanced.1
      simp only [Draft.empty, List.length_nil] at hcount
      omega
    refine ⟨draft.nodes.reverse, ?_⟩
    rw [Draft.pieces, hloops] at hpieces
    exact hpieces

theorem finish_eq_ok_iff {draft : Draft} {nodes : List Node} :
    draft.finish = .ok nodes ↔ draft.loops = [] ∧ draft.nodes.reverse = nodes := by
  rw [Draft.finish]
  split <;> simp_all

/-- Reading a template gives the tree whose pieces are those of the text. -/
theorem parse_eq_ok_iff_reads {text : String} {t : Template} :
    Template.parse text = .ok t ↔ Reads 1 text.toList (piecesOf t.nodes) := by
  rw [reads_iff_matches_cut, ← segments_eq_cut, Template.parse]
  constructor
  · intro h
    obtain ⟨draft, hfold, h⟩ := bind_eq_ok_iff.1 h
    obtain ⟨nodes, hfinish, h⟩ := bind_eq_ok_iff.1 h
    cases h
    obtain ⟨hloops, rfl⟩ := finish_eq_ok_iff.1 hfinish
    obtain ⟨pieces, hmatches, hrun⟩ := Draft.foldlM_add_eq_ok_iff.1 hfold
    have hpieces := Draft.pieces_of_foldlM hrun
    rw [Draft.pieces, hloops] at hpieces
    rw [show piecesOf draft.nodes.reverse = pieces from hpieces]
    exact hmatches
  · intro h
    have hrun := Draft.foldlM_piecesOf t.nodes Draft.empty
    rw [Draft.foldlM_add_eq_ok_iff.2 ⟨_, h, hrun⟩]
    simp only [bind, Except.bind, Draft.empty, Draft.finish, List.append_nil,
      List.reverse_reverse]
    rfl

/-- A text is a template if and only if its tags are closed and written well and its loops are
balanced, its tree is the one whose pieces are those of the text, and the scanner, which cuts the
text at bytes, never cuts a character apart. -/
theorem parse_grammar (text : String) :
    (∀ t : Template, Template.parse text = .ok t ↔ Reads 1 text.toList (piecesOf t.nodes)) ∧
    ((∃ t, Template.parse text = .ok t) ↔
      ∃ pieces, Reads 1 text.toList pieces ∧ Balanced pieces) ∧
    ∀ token ∈ tokens text, (token.segment? text.toUTF8).isSome := by
  refine ⟨fun t => parse_eq_ok_iff_reads, ⟨?_, ?_⟩, fun token => isSome_segment?⟩
  · rintro ⟨t, hparse⟩
    exact ⟨_, parse_eq_ok_iff_reads.1 hparse, exists_piecesOf_eq_iff_balanced.1 ⟨_, rfl⟩⟩
  · rintro ⟨pieces, hreads, hbalanced⟩
    obtain ⟨nodes, rfl⟩ := exists_piecesOf_eq_iff_balanced.2 hbalanced
    exact ⟨⟨nodes⟩, parse_eq_ok_iff_reads.2 hreads⟩

end Scaffold.Template
