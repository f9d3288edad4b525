import Scaffold.Proofs.Template.Opening
import Scaffold.Proofs.Text.Run

/-!
Which error a text is rejected with. A tag is bad if it is never closed, if its content is not that
of a tag, or if it ends a loop where none is open. The leftmost bad tag is reported, and if there is
none, the last loop that is still open at the end. Both are reported on the line on which the tag
opens, which is also the line that the nodes of a template carry.
-/

namespace Scaffold.Template

open Text

/-- What is wrong with the content of a tag of this kind. -/
inductive Tag.IsFaulty : Delimiter → List Char → Fault → Prop where
  | emptyExpression {content : List Char} : IsGap content →
      IsFaulty .expression content .emptyExpression
  | invalidExpression {content text : List Char} : TrimsTo content text → text ≠ [] →
      (∀ tag, ¬Tag.IsWritten .expression content tag) →
      IsFaulty .expression content (.invalidExpression (String.ofList text))
  | emptyDirective {content : List Char} : HasWords content [] →
      IsFaulty .directive content .emptyDirective
  | unknownDirective {content word : List Char} {words : List (List Char)} :
      HasWords content (word :: words) → word ≠ "for".toList →
      word :: words ≠ ["endfor".toList] →
      IsFaulty .directive content (.unknownDirective (String.ofList word))
  | invalidLoopHeader {content text : List Char} {words : List (List Char)} :
      HasWords content ("for".toList :: words) → TrimsTo content text →
      (∀ var collection, words ≠ [var, "in".toList, collection]) →
      IsFaulty .directive content (.invalidLoopHeader (String.ofList text))
  | invalidLoopVariable {content var collection : List Char} :
      HasWords content ["for".toList, var, "in".toList, collection] → ¬IsName var →
      IsFaulty .directive content (.invalidLoopVariable (String.ofList var))
  | invalidCollection {content var collection : List Char} :
      HasWords content ["for".toList, var, "in".toList, collection] → IsName var →
      ¬IsName collection →
      IsFaulty .directive content (.invalidCollection (String.ofList collection))

theorem Tag.readExpression_eq_error_iff {content : List Char} {fault : Fault} :
    Tag.readExpression content = .error fault ↔ Tag.IsFaulty .expression content fault := by
  constructor
  · intro h
    have hwritten : ∀ tag, ¬Tag.IsWritten .expression content tag := by
      intro tag htag
      rw [Tag.readExpression_eq_ok_iff.2 htag] at h
      cases h
    unfold Tag.readExpression at h
    simp only [List.isEmpty_iff] at h
    split at h
    · next hempty =>
      cases h
      exact .emptyExpression (trim_eq_nil_iff.1 hempty)
    · next hne =>
      split at h
      · cases h
      · cases h
        exact .invalidExpression (trim_eq_iff.1 rfl) hne hwritten
  · intro h
    cases h with
    | emptyExpression hgap =>
      simp only [Tag.readExpression, trim_eq_nil_iff.2 hgap]
      rfl
    | invalidExpression htrims hne hwritten =>
      cases hread : Tag.readExpression content with
      | ok tag => exact absurd (Tag.readExpression_eq_ok_iff.1 hread) (hwritten tag)
      | error fault =>
        unfold Tag.readExpression at hread
        simp only [List.isEmpty_iff, trim_eq_iff.2 htrims, if_neg hne] at hread
        split at hread
        · cases hread
        · exact hread.symm

theorem isIdentifier_eq_false_iff {cs : List Char} : isIdentifier cs = false ↔ ¬IsName cs := by
  rw [← isIdentifier_iff, Bool.not_eq_true]

theorem Tag.isFaulty_of_readDirective {content : List Char} {fault : Fault}
    (h : Tag.readDirective content = .error fault) : Tag.IsFaulty .directive content fault := by
  unfold Tag.readDirective at h
  split at h
  · next heq =>
    cases h
    exact .emptyDirective (words_eq_iff.1 (map_ofList_eq_iff.1 heq))
  · cases h
  · next var collection heq =>
    have hwords := words_eq_iff.1 (map_ofList_eq_iff.1 heq)
    split at h
    · next hvar =>
      cases h
      rw [← String.ofList_toList (s := var)]
      exact .invalidLoopVariable hwords (isIdentifier_eq_false_iff.1 (by simpa using hvar))
    · next hvar =>
      split at h
      · next hcollection =>
        cases h
        rw [← String.ofList_toList (s := collection)]
        exact .invalidCollection hwords ((isIdentifier_iff _).1 (by simpa using hvar))
          (isIdentifier_eq_false_iff.1 (by simpa using hcollection))
      · cases h
  · next names hshape heq =>
    cases h
    refine .invalidLoopHeader (words_eq_iff.1 (map_ofList_eq_iff.1 heq)) (trim_eq_iff.1 rfl) ?_
    intro var collection hnames
    apply hshape (String.ofList var) (String.ofList collection)
    rw [← map_ofList_eq_iff.2 hnames.symm]
    rfl
  · next word names hend _ hfor heq =>
    cases h
    rw [← String.ofList_toList (s := word)]
    refine .unknownDirective (words_eq_iff.1 (map_ofList_eq_iff.1 heq)) ?_ ?_
    · exact fun hword => hfor (String.toList_injective hword)
    · intro hword
      rw [List.cons.injEq, List.map_eq_nil_iff] at hword
      exact hend (String.toList_injective hword.1) hword.2

theorem Tag.readDirective_of_isFaulty {content : List Char} {fault : Fault}
    (h : Tag.IsFaulty .directive content fault) : Tag.readDirective content = .error fault := by
  cases h with
  | emptyDirective hwords =>
    simp only [Tag.readDirective, hwords.words_eq, List.map_nil]
  | unknownDirective hwords hfor hend =>
    unfold Tag.readDirective
    split <;> rename_i heq <;> replace heq := hwords.words_eq ▸ map_ofList_eq_iff.1 heq
    · cases heq
    · exact absurd heq hend
    · exact absurd (List.cons.inj heq).1 hfor
    · exact absurd (List.cons.inj heq).1 hfor
    · rw [(List.cons.inj heq).1, String.ofList_toList]
  | invalidLoopHeader hwords htrims hshape =>
    unfold Tag.readDirective
    rw [trim_eq_iff.2 htrims]
    split <;> rename_i heq <;> replace heq := hwords.words_eq ▸ map_ofList_eq_iff.1 heq
    · cases heq
    · exact absurd (List.cons.inj heq).1 (by decide)
    · exact absurd (List.cons.inj heq).2 (hshape _ _)
    · rfl
    · next hfor => exact absurd (String.toList_injective (List.cons.inj heq).1.symm) hfor
  | invalidLoopVariable hwords hvar =>
    simp [Tag.readDirective, hwords.words_eq, isIdentifier_eq_false_iff, hvar]
  | invalidCollection hwords hvar hcollection =>
    simp [Tag.readDirective, hwords.words_eq, isIdentifier_eq_false_iff, hvar, hcollection]

theorem Tag.read_eq_error_iff {d : Delimiter} {content : List Char} {fault : Fault} :
    Tag.read d content = .error fault ↔ Tag.IsFaulty d content fault := by
  cases d with
  | expression => exact Tag.readExpression_eq_error_iff
  | directive => exact ⟨Tag.isFaulty_of_readDirective, Tag.readDirective_of_isFaulty⟩

/-- The text, which starts at the given line, is a template by itself: its tags are closed and
written well, and its loops are balanced. -/
def IsTemplateFrom (line : Nat) (cs : List Char) : Prop :=
  ∃ pieces, Reads line cs pieces ∧ Balanced pieces

/-- Behind this text, the text has a bad tag: it is never closed, or its content is faulty, or it
ends a loop while none is open. Only what stands before the tag counts, so that a loop end may be
bad even if the text goes on with anything else. -/
inductive IsBad (cs : List Char) : List Char → Fault → Prop where
  | unclosed {before rest : List Char} {d : Delimiter} : Opens cs before d rest →
      (∀ content after : List Char, rest ≠ content ++ d.closing.toList ++ after) →
      IsBad cs before (.unclosed d)
  | content {before content : List Char} {d : Delimiter} {fault : Fault} :
      HasTag cs before d content → Tag.IsFaulty d content fault → IsBad cs before fault
  | loopEnd {before content : List Char} : HasTag cs before .directive content →
      Tag.IsWritten .directive content .loopEnd → IsTemplateFrom 1 before →
      IsBad cs before .loopEndOutsideLoop

/-- The leftmost bad tag of the text stands behind this text. -/
structure IsFirstBad (cs before : List Char) (fault : Fault) : Prop where
  bad : IsBad cs before fault
  first : ∀ before' fault', IsBad cs before' fault' → before.length ≤ before'.length

/-- Behind this text a loop begins that is never closed, and what follows its tag is balanced: of
all loops that are open at the end it is the one that was opened last. -/
def IsLastOpen (cs before : List Char) (var collection : String) : Prop :=
  ∃ content rest after, Opens cs before .directive rest ∧
    ClosesAt rest content .directive after ∧
    Tag.IsWritten .directive content (.loopStart var collection) ∧
    IsTemplateFrom (1 + newlines before + newlines content) after

theorem IsBad.exists_opens {cs before : List Char} {fault : Fault} (h : IsBad cs before fault) :
    ∃ d rest, Opens cs before d rest := by
  cases h with
  | unclosed hopens => exact ⟨_, _, hopens⟩
  | content htag =>
    obtain ⟨rest, _, hopens, _⟩ := hasTag_iff.1 htag
    exact ⟨_, rest, hopens⟩
  | loopEnd htag =>
    obtain ⟨rest, _, hopens, _⟩ := hasTag_iff.1 htag
    exact ⟨_, rest, hopens⟩

/-! ### Where reading stops -/

theorem foldlM_append_cons {draft next : Draft} {first last : List Segment} {segment : Segment}
    (h : first.foldlM Draft.add draft = .ok next) :
    (first ++ segment :: last).foldlM Draft.add draft =
      next.add segment >>= fun following => last.foldlM Draft.add following := by
  rw [List.foldlM_append, h]
  rfl

/-- Reading fails at the first segment that cannot be added. -/
theorem exists_of_foldlM_add_eq_error {draft : Draft} {segments : List Segment} {e : Error}
    (h : segments.foldlM Draft.add draft = .error e) :
    ∃ first segment last next, segments = first ++ segment :: last ∧
      first.foldlM Draft.add draft = .ok next ∧ next.add segment = .error e := by
  induction segments generalizing draft with
  | nil => cases h
  | cons segment segments ih =>
    rw [List.foldlM_cons] at h
    cases hadd : draft.add segment with
    | error e' =>
      rw [hadd] at h
      cases h
      exact ⟨[], segment, segments, draft, rfl, rfl, hadd⟩
    | ok next =>
      rw [hadd] at h
      obtain ⟨first, segment', last, next', rfl, hfirst, hadd'⟩ := ih h
      refine ⟨segment :: first, segment', last, next', rfl, ?_, hadd'⟩
      rw [List.foldlM_cons, hadd]
      exact hfirst

section Stop

variable {cs before before' rest : List Char} {d : Delimiter} {line : Nat} {draft next : Draft}
  {fault : Fault} {e : Error}

/-- Reading a text fails at a tag. -/
theorem exists_opens_of_foldlM_cut_eq_error (h : (cut line cs).foldlM Draft.add draft = .error e) :
    ∃ before d rest next, Opens cs before d rest ∧
      (cut line before).foldlM Draft.add draft = .ok next ∧
      next.add (tagAt (line + newlines before) d rest) = .error e := by
  obtain ⟨first, segment, last, next, hcut, hfirst, hadd⟩ := exists_of_foldlM_add_eq_error h
  have hsegment : ∀ text, segment ≠ .literal text := by
    rintro text rfl
    cases hadd
  obtain ⟨before, d, rest, hopens, rfl, rfl, _⟩ := exists_opens_of_cut_eq hsegment hcut
  exact ⟨before, d, rest, next, hopens, hfirst, hadd⟩

/-- A text that can be read is a template if no loop is open at its end. -/
theorem isTemplateFrom_iff (h : (cut line cs).foldlM Draft.add Draft.empty = .ok draft) :
    IsTemplateFrom line cs ↔ draft.loops = [] := by
  constructor
  · rintro ⟨pieces, hreads, hbalanced⟩
    obtain ⟨nodes, rfl⟩ := exists_piecesOf_eq_iff_balanced.2 hbalanced
    have hfold := Draft.foldlM_add_eq_ok_iff.2
      ⟨_, reads_iff_matches_cut.1 hreads, Draft.foldlM_piecesOf nodes Draft.empty⟩
    rw [h] at hfold
    cases hfold
    rfl
  · intro hloops
    obtain ⟨pieces, hmatches, hfold⟩ := Draft.foldlM_add_eq_ok_iff.1 h
    have hpieces : piecesOf draft.nodes.reverse = pieces := by
      have hall := Draft.pieces_of_foldlM hfold
      rwa [Draft.pieces, hloops] at hall
    exact ⟨pieces, reads_iff_matches_cut.2 hmatches, exists_piecesOf_eq_iff_balanced.1 ⟨_, hpieces⟩⟩

/-- Reading a template opens no loops and closes none. -/
theorem IsTemplateFrom.exists_foldlM (h : IsTemplateFrom line cs) (draft : Draft) :
    ∃ nodes, (cut line cs).foldlM Draft.add draft = .ok { draft with nodes } := by
  obtain ⟨pieces, hreads, hbalanced⟩ := h
  obtain ⟨nodes, rfl⟩ := exists_piecesOf_eq_iff_balanced.2 hbalanced
  exact ⟨_, Draft.foldlM_add_eq_ok_iff.2
    ⟨_, reads_iff_matches_cut.1 hreads, Draft.foldlM_piecesOf nodes draft⟩⟩

/-- Where the text before a tag can be read, a tag that cannot be added is bad. -/
theorem exists_isBad_of_add_tagAt (hopens : Opens cs before d rest)
    (hread : (cut 1 before).foldlM Draft.add Draft.empty = .ok draft)
    (h : draft.add (tagAt (1 + newlines before) d rest) = .error e) :
    ∃ fault, IsBad cs before fault ∧ e = .malformed fault (1 + newlines before) := by
  cases hsplit : d.splitClosing rest with
  | none =>
    rw [tagAt, hsplit] at h
    cases h
    refine ⟨_, .unclosed hopens fun content after heq => ?_, rfl⟩
    obtain ⟨_, _, _, hsplit'⟩ := exists_splitClosing_of_append d content after
    rw [← heq, hsplit] at hsplit'
    cases hsplit'
  | some split =>
    obtain ⟨content, after⟩ := split
    have hclose := splitClosing_eq_some_iff.1 hsplit
    have htag := hasTag_iff.2 ⟨rest, after, hopens, hclose⟩
    rw [tagAt_of_closesAt hclose, Draft.add] at h
    cases htagRead : Tag.read d content with
    | error fault =>
      rw [htagRead] at h
      cases h
      exact ⟨fault, .content htag (Tag.read_eq_error_iff.1 htagRead), rfl⟩
    | ok tag =>
      rw [htagRead] at h
      cases tag with
      | placeholder reference => cases h
      | loopStart var collection => cases h
      | loopEnd =>
        simp only [Draft.addTag] at h
        split at h
        · next hloops =>
          cases h
          have hwritten := Tag.read_eq_ok_iff.1 htagRead
          cases hwritten with
          | loopEnd hwords =>
            exact ⟨_, .loopEnd htag (.loopEnd hwords) ((isTemplateFrom_iff hread).2 hloops), rfl⟩
        · cases h

/-- A bad tag is not added. -/
theorem add_tagAt_of_isBad (hopens : Opens cs before d rest)
    (hread : (cut 1 before).foldlM Draft.add Draft.empty = .ok draft) (hbad : IsBad cs before fault) :
    draft.add (tagAt (1 + newlines before) d rest) =
      .error (.malformed fault (1 + newlines before)) := by
  cases hbad with
  | unclosed hopens' hnot =>
    obtain ⟨_, rfl, rfl⟩ := hopens.unique hopens' rfl
    rw [tagAt_of_not_closing hnot, Draft.add]
  | content htag hfaulty =>
    obtain ⟨rest', after, hopens', hclose⟩ := hasTag_iff.1 htag
    obtain ⟨_, rfl, rfl⟩ := hopens.unique hopens' rfl
    rw [tagAt_of_closesAt hclose, Draft.add, Tag.read_eq_error_iff.2 hfaulty]
  | loopEnd htag hwritten hbefore =>
    obtain ⟨rest', after, hopens', hclose⟩ := hasTag_iff.1 htag
    obtain ⟨_, rfl, rfl⟩ := hopens.unique hopens' rfl
    rw [tagAt_of_closesAt hclose, Draft.add, Tag.read_eq_ok_iff.2 hwritten]
    simp only [Draft.addTag, (isTemplateFrom_iff hread).1 hbefore]

/-- What has been read up to some segment holds no bad tag. -/
theorem not_isBad_of_foldlM {first last : List Segment}
    (hfirst : first.foldlM Draft.add Draft.empty = .ok draft) (hopens : Opens cs before d rest)
    (hcut : first = cut 1 before ++ tagAt (1 + newlines before) d rest :: last) :
    ¬IsBad cs before fault := by
  intro hbad
  rw [hcut, List.foldlM_append] at hfirst
  obtain ⟨next, hread, hfirst⟩ := bind_eq_ok_iff.1 hfirst
  rw [List.foldlM_cons, add_tagAt_of_isBad hopens hread hbad] at hfirst
  cases hfirst

theorem not_isBad_of_foldlM_cut (h : (cut 1 cs).foldlM Draft.add Draft.empty = .ok draft) :
    ¬IsBad cs before fault := by
  intro hbad
  obtain ⟨d, rest, hopens⟩ := hbad.exists_opens
  exact not_isBad_of_foldlM h hopens (hopens.cut_eq 1) hbad

/-- Reading fails at the leftmost bad tag. -/
theorem foldlM_cut_eq_error_iff : (cut 1 cs).foldlM Draft.add Draft.empty = .error e ↔
    ∃ before fault, IsFirstBad cs before fault ∧ e = .malformed fault (1 + newlines before) := by
  have hstop : ∀ {e : Error}, (cut 1 cs).foldlM Draft.add Draft.empty = .error e →
      ∃ before d rest draft, Opens cs before d rest ∧
        (cut 1 before).foldlM Draft.add Draft.empty = .ok draft ∧
        draft.add (tagAt (1 + newlines before) d rest) = .error e ∧
        ∀ before' fault', IsBad cs before' fault' → before.length ≤ before'.length := by
    intro e h
    obtain ⟨before, d, rest, draft, hopens, hread, hadd⟩ := exists_opens_of_foldlM_cut_eq_error h
    refine ⟨before, d, rest, draft, hopens, hread, hadd, fun before' fault' hbad => ?_⟩
    by_contra hlt
    obtain ⟨d', rest', hopens'⟩ := hbad.exists_opens
    obtain ⟨segments, hcut⟩ := hopens'.exists_cut_eq_of_lt hopens (by omega) 1
    exact not_isBad_of_foldlM hread hopens' hcut hbad
  constructor
  · intro h
    obtain ⟨before, d, rest, draft, hopens, hread, hadd, hfirst⟩ := hstop h
    obtain ⟨fault, hbad, rfl⟩ := exists_isBad_of_add_tagAt hopens hread hadd
    exact ⟨before, fault, ⟨hbad, hfirst⟩, rfl⟩
  · rintro ⟨before, fault, ⟨hbad, hfirst⟩, rfl⟩
    cases hfold : (cut 1 cs).foldlM Draft.add Draft.empty with
    | ok draft => exact absurd hbad (not_isBad_of_foldlM_cut hfold)
    | error e =>
      obtain ⟨before', d, rest, draft, hopens, hread, hadd, hfirst'⟩ := hstop hfold
      obtain ⟨fault', hbad', _⟩ := exists_isBad_of_add_tagAt hopens hread hadd
      obtain ⟨d', rest', hopens'⟩ := hbad.exists_opens
      have hlength := Nat.le_antisymm (hfirst _ _ hbad') (hfirst' _ _ hbad)
      obtain ⟨rfl, _, _⟩ := hopens'.unique hopens hlength
      rw [add_tagAt_of_isBad hopens hread hbad] at hadd
      exact hadd.symm

end Stop

theorem Matches.exists_of_eq_append_cons {segments : List Segment} {first last : List Piece}
    {piece : Piece} (h : Matches segments (first ++ piece :: last)) :
    ∃ segments' segment segments'', segments = segments' ++ segment :: segments'' ∧
      segment.piece = .ok piece ∧ Matches segments'' last := by
  induction first generalizing segments with
  | nil =>
    cases h with
    | cons hpiece hlast => exact ⟨[], _, _, rfl, hpiece, hlast⟩
  | cons _ first ih =>
    cases h with
    | @cons segment _ _ _ _ htail =>
      obtain ⟨segments', segment', segments'', rfl, hpiece, hlast⟩ := ih htail
      exact ⟨segment :: segments', segment', segments'', rfl, hpiece, hlast⟩

section LastOpen

variable {cs before : List Char} {draft : Draft} {l : OpenLoop} {loops : List OpenLoop}
  {var collection : String}

/-- The innermost open loop at the end of a text that can be read is the one opened last. -/
theorem exists_isLastOpen (h : (cut 1 cs).foldlM Draft.add Draft.empty = .ok draft)
    (hloops : draft.loops = l :: loops) :
    ∃ before, IsLastOpen cs before l.var l.collection ∧ l.line = 1 + newlines before := by
  obtain ⟨pieces, hmatches, hfold⟩ := Draft.foldlM_add_eq_ok_iff.1 h
  have hpieces := Draft.pieces_of_foldlM hfold
  rw [Draft.pieces, hloops, Draft.piecesBefore, List.append_assoc, List.singleton_append] at hpieces
  change _ = pieces at hpieces
  rw [← hpieces] at hmatches
  obtain ⟨first, segment, last, hcut, hpiece, hafter⟩ := hmatches.exists_of_eq_append_cons
  have hsegment : ∀ text, segment ≠ .literal text := by
    rintro text rfl
    cases hpiece
  obtain ⟨before, d, rest, hopens, _, htag, rfl⟩ := exists_opens_of_cut_eq hsegment hcut
  cases hsplit : d.splitClosing rest with
  | none =>
    rw [← htag, tagAt, hsplit] at hpiece
    cases hpiece
  | some split =>
    obtain ⟨content, after⟩ := split
    have hclose := splitClosing_eq_some_iff.1 hsplit
    rw [← htag, tagAt_of_closesAt hclose] at hpiece
    rw [behind_of_closesAt hclose] at hafter
    obtain ⟨tag, hwritten, heq⟩ := Segment.piece_tag_eq_ok_iff.1 hpiece
    cases hwritten with
    | placeholder => cases heq
    | loopEnd => cases heq
    | loopStart hwords hvar hcollection =>
      obtain ⟨hvarEq, hcollectionEq, hline⟩ := Piece.loopStart.inj heq
      refine ⟨before, ⟨content, rest, after, hopens, hclose, ?_, ?_⟩, hline⟩
      · rw [hvarEq, hcollectionEq]
        exact .loopStart hwords hvar hcollection
      · exact ⟨_, reads_iff_matches_cut.2 hafter, exists_piecesOf_eq_iff_balanced.1 ⟨_, rfl⟩⟩

/-- The loop that was opened last and is still open at the end is the innermost one. -/
theorem IsLastOpen.exists_loops_eq (hlast : IsLastOpen cs before var collection)
    (h : (cut 1 cs).foldlM Draft.add Draft.empty = .ok draft) :
    ∃ nodes loops, draft.loops = ⟨var, collection, 1 + newlines before, nodes⟩ :: loops := by
  obtain ⟨content, rest, after, hopens, hclose, hwritten, hafter⟩ := hlast
  rw [hopens.cut_eq 1, tagAt_of_closesAt hclose, behind_of_closesAt hclose, List.foldlM_append] at h
  obtain ⟨next, -, h⟩ := bind_eq_ok_iff.1 h
  rw [List.foldlM_cons, Draft.add, Tag.read_eq_ok_iff.2 hwritten] at h
  obtain ⟨nodes, hnodes⟩ := hafter.exists_foldlM
    ⟨⟨var, collection, 1 + newlines before, next.nodes⟩ :: next.loops, []⟩
  change (cut _ after).foldlM Draft.add ⟨⟨_, _, _, next.nodes⟩ :: next.loops, []⟩ = .ok draft at h
  rw [hnodes] at h
  cases h
  exact ⟨_, _, rfl⟩

end LastOpen

theorem parse_eq_error_iff_readNodes {text : String} {e : Error} :
    Template.parse text = .error e ↔ readNodes 1 text.toList = .error e := by
  rw [parse_eq_readNodes]
  cases readNodes 1 text.toList with
  | error e' => simp [Except.map]
  | ok nodes => simp [Except.map]

/-- The leftmost bad tag is reported, and if there is none, the last open loop. -/
theorem parse_eq_error_iff {text : String} {e : Error} : Template.parse text = .error e ↔
    (∃ before fault, IsFirstBad text.toList before fault ∧
      e = .malformed fault (1 + newlines before)) ∨
    (∀ before fault, ¬IsBad text.toList before fault) ∧
      ∃ before var collection, IsLastOpen text.toList before var collection ∧
        e = .malformed (.loopNeverClosed var collection) (1 + newlines before) := by
  rw [parse_eq_error_iff_readNodes, readNodes, Draft.read, ← foldlM_cut_eq_error_iff]
  cases hfold : (cut 1 text.toList).foldlM Draft.add Draft.empty with
  | error e' =>
    have hbad : ∃ before fault, IsBad text.toList before fault := by
      obtain ⟨before, fault, hfirst, _⟩ := foldlM_cut_eq_error_iff.1 hfold
      exact ⟨before, fault, hfirst.bad⟩
    change Except.error e' = .error e ↔ _
    rw [Except.error.injEq, Except.error.injEq]
    constructor
    · exact Or.inl
    · rintro (h | ⟨hnone, _⟩)
      · exact h
      · obtain ⟨before, fault, hbad⟩ := hbad
        exact absurd hbad (hnone before fault)
  | ok draft =>
    change draft.finish = .error e ↔ _
    constructor
    · intro h
      refine Or.inr ⟨fun before fault => not_isBad_of_foldlM_cut hfold, ?_⟩
      rw [Draft.finish] at h
      split at h
      · cases h
      · next l loops hloops =>
        cases h
        obtain ⟨before, hlast, hline⟩ := exists_isLastOpen hfold hloops
        exact ⟨before, _, _, hlast, by rw [hline]⟩
    · rintro (h | ⟨_, before, var, collection, hlast, rfl⟩)
      · cases h
      · obtain ⟨nodes, loops, hloops⟩ := hlast.exists_loops_eq hfold
        rw [Draft.finish, hloops]

/-- A bad tag that is closed is reported whatever follows. -/
theorem parse_append_of_error {text : String} {fault : Fault} {line : Nat}
    (h : Template.parse text = .error (.malformed fault line)) (hclosed : ∀ d, fault ≠ .unclosed d)
    (hended : ∀ var collection, fault ≠ .loopNeverClosed var collection) (more : String) :
    Template.parse (text ++ more) = .error (.malformed fault line) := by
  have hfold : (cut 1 text.toList).foldlM Draft.add Draft.empty =
      .error (.malformed fault line) := by
    rcases parse_eq_error_iff.1 h with hfirst | ⟨_, _, _, _, _, he⟩
    · exact foldlM_cut_eq_error_iff.2 hfirst
    · cases he
      exact absurd rfl (hended _ _)
  obtain ⟨before, d, rest, draft, hopens, hread, hadd⟩ := exists_opens_of_foldlM_cut_eq_error hfold
  have htag : tagAt (1 + newlines before) d (rest ++ more.toList) =
      tagAt (1 + newlines before) d rest := by
    cases hsplit : d.splitClosing rest with
    | none =>
      rw [tagAt, hsplit] at hadd
      cases hadd
      exact absurd rfl (hclosed d)
    | some split =>
      have hclose := splitClosing_eq_some_iff.1 hsplit
      rw [tagAt_of_closesAt hclose, tagAt_of_closesAt (hclose.extend more.toList)]
  have hcut := (hopens.extend more.toList).cut_eq 1
  rw [parse_eq_error_iff_readNodes, readNodes, Draft.read, String.toList_append, hcut, htag,
    foldlM_append_cons hread, hadd]
  rfl

def Piece.isLiteral : Piece → Bool
  | .literal _ => true
  | _ => false

/-- These are the tags of a text from left to right, each with the text before it. -/
structure TagsOf (cs : List Char) (tags : List (List Char × Tag)) : Prop where
  increasing : tags.Pairwise fun first second => first.1.length < second.1.length
  mem_iff : ∀ before tag, (before, tag) ∈ tags ↔
    ∃ d content, HasTag cs before d content ∧ Tag.IsWritten d content tag

theorem filter_ofText (text : List Char) :
    (Piece.ofText text).filter (!·.isLiteral) = [] := by
  cases text <;> rfl

theorem Tag.isLiteral_piece (tag : Tag) (line : Nat) : (tag.piece line).isLiteral = false := by
  cases tag <;> rfl

/-- The pieces of a text that are not literal are its tags in order, on the lines on which they
open. -/
theorem exists_tagsOf_of_reads {line : Nat} {cs : List Char} {pieces : List Piece}
    (h : Reads line cs pieces) : ∃ tags, TagsOf cs tags ∧
      pieces.filter (!·.isLiteral) =
        tags.map fun (before, tag) => tag.piece (line + newlines before) := by
  induction h with
  | text hopen =>
    refine ⟨[], ⟨.nil, fun before tag => ?_⟩, filter_ofText _⟩
    constructor
    · nofun
    · rintro ⟨d, content, htag, _⟩
      obtain ⟨rest, _, hopens, _⟩ := hasTag_iff.1 htag
      exact absurd hopens.eq (hopen _ _ _)
  | @tag line cs before rest content after d tag pieces hopen hclose hwritten hafter ih =>
    obtain ⟨tags, ⟨hincreasing, hmem⟩, hpieces⟩ := ih
    let inFront := before ++ d.opening.toList ++ content ++ d.closing.toList
    refine ⟨(before, tag) :: tags.map fun (before', tag') => (inFront ++ before', tag'),
      ⟨?_, fun before' tag' => ?_⟩, ?_⟩
    · refine List.pairwise_cons.2 ⟨fun later hlater => ?_, ?_⟩
      · obtain ⟨⟨before', tag'⟩, _, rfl⟩ := List.mem_map.1 hlater
        simp only [inFront, List.length_append, Delimiter.length_opening]
        omega
      · refine List.pairwise_map.2 (hincreasing.imp fun hlt => ?_)
        simp only [List.length_append]
        omega
    · rw [List.mem_cons, List.mem_map]
      constructor
      · rintro (heq | ⟨⟨before'', tag''⟩, hlater, heq⟩)
        · cases heq
          exact ⟨d, content, .first hopen hclose, hwritten⟩
        · cases heq
          obtain ⟨d', content', htag, hwritten'⟩ := (hmem _ _).1 hlater
          exact ⟨d', content', .later hopen hclose htag, hwritten'⟩
      · rintro ⟨d', content', htag, hwritten'⟩
        cases htag with
        | first hopen' hclose' =>
          obtain ⟨rfl, rfl, rfl⟩ := hopen.unique hopen'
          obtain ⟨rfl, rfl⟩ := hclose.unique hclose'
          have hread := Tag.read_eq_ok_iff.2 hwritten
          rw [Tag.read_eq_ok_iff.2 hwritten'] at hread
          cases hread
          exact Or.inl rfl
        | later hopen' hclose' hlater =>
          obtain ⟨rfl, rfl, rfl⟩ := hopen.unique hopen'
          obtain ⟨rfl, rfl⟩ := hclose.unique hclose'
          exact Or.inr ⟨_, (hmem _ _).2 ⟨d', content', hlater, hwritten'⟩, rfl⟩
    · rw [List.filter_append, filter_ofText, List.nil_append, List.filter_cons, tag.isLiteral_piece,
        hpieces, List.map_cons, List.map_map]
      refine congrArg (tag.piece (line + newlines before) :: ·) (List.map_congr_left ?_)
      rintro ⟨before', tag'⟩ _
      simp [inFront, Nat.add_assoc]

/-- A text that is no template is rejected with its leftmost bad tag, or if all tags are good, with
the last loop that is open at its end; in both cases on the line on which the tag opens. The nodes
of a template, depth first, are the tags of its text in order, again on their lines. Text behind a
bad tag that is closed changes nothing about the error. -/
theorem parse_reports_leftmost (text : String) :
    (∀ e, Template.parse text = .error e ↔
      (∃ before fault, IsFirstBad text.toList before fault ∧
        e = .malformed fault (1 + newlines before)) ∨
      (∀ before fault, ¬IsBad text.toList before fault) ∧
        ∃ before var collection, IsLastOpen text.toList before var collection ∧
          e = .malformed (.loopNeverClosed var collection) (1 + newlines before)) ∧
    (∀ t, Template.parse text = .ok t → ∃ tags, TagsOf text.toList tags ∧
      (piecesOf t.nodes).filter (!·.isLiteral) =
        tags.map fun (before, tag) => tag.piece (1 + newlines before)) ∧
    ∀ fault line, Template.parse text = .error (.malformed fault line) →
      (∀ d, fault ≠ .unclosed d) → (∀ var collection, fault ≠ .loopNeverClosed var collection) →
      ∀ more, Template.parse (text ++ more) = .error (.malformed fault line) := by
  refine ⟨fun e => parse_eq_error_iff, fun t hparse => ?_, fun fault line => parse_append_of_error⟩
  exact exists_tagsOf_of_reads (parse_eq_ok_iff_reads.1 hparse)

/-- A bad directive is reported on its own line, also where a delimiter behind it is never closed. -/
theorem parse_reports_leftmost_directive :
    let text := "a\n\x7b\x7b x \x7d\x7d\n\x7b% end %\x7d"
    Template.parse text = .error (.malformed (.unknownDirective "end") 3) ∧
    (∃ before, IsFirstBad text.toList before (.unknownDirective "end") ∧ newlines before = 2) ∧
    Template.parse (text ++ "\x7b\x7b") = .error (.malformed (.unknownDirective "end") 3) := by
  intro text
  have hparse : Template.parse text = .error (.malformed (.unknownDirective "end") 3) := by
    have herror : (Template.parse text).map (fun _ => ()) =
        .error (.malformed (.unknownDirective "end") 3) := by
      decide +kernel
    cases hread : Template.parse text with
    | ok t =>
      rw [hread] at herror
      cases herror
    | error e =>
      rw [hread] at herror
      cases herror
      rfl
  refine ⟨hparse, ?_, (parse_reports_leftmost text).2.2 _ _ hparse nofun nofun _⟩
  rcases ((parse_reports_leftmost text).1 _).1 hparse with ⟨before, fault, hfirst, he⟩ | h
  · obtain ⟨rfl, hline⟩ := Error.malformed.inj he
    exact ⟨before, hfirst, by omega⟩
  · obtain ⟨_, _, _, _, _, he⟩ := h
    cases he

end Scaffold.Template
