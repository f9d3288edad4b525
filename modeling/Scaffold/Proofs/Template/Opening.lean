import Scaffold.Proofs.Template.Concatenation
import Scaffold.Proofs.Template.Occurrence

/-!
Reading a text up to one of its tags. The text before a tag has the same segments alone as it has in
the whole text, so what is read before a tag depends neither on the tag nor on what follows it, and
of two tags the one further left is read first.
-/

namespace Scaffold.Template

open Text

/-- Read from the left, the text has the opening delimiter of a tag of this kind behind this text,
with this text after it. The tag may never be closed. -/
inductive Opens : List Char → List Char → Delimiter → List Char → Prop where
  | first {cs before rest : List Char} {d : Delimiter} : OpensAt cs before d rest →
      Opens cs before d rest
  | later {cs before rest content after before' rest' : List Char} {d d' : Delimiter} :
      OpensAt cs before d rest → ClosesAt rest content d after → Opens after before' d' rest' →
      Opens cs (before ++ d.opening.toList ++ content ++ d.closing.toList ++ before') d' rest'

section Leftmost

variable {cs before before' rest rest' content content' after after' more : List Char}
  {d d' : Delimiter}

theorem OpensAt.unique (h : OpensAt cs before d rest) (h' : OpensAt cs before' d' rest') :
    before = before' ∧ d = d' ∧ rest = rest' := by
  have hsplit := splitOpening_eq_some_iff.2 h
  rw [splitOpening_eq_some_iff.2 h'] at hsplit
  cases hsplit
  exact ⟨rfl, rfl, rfl⟩

theorem ClosesAt.unique (h : ClosesAt cs content d after) (h' : ClosesAt cs content' d after') :
    content = content' ∧ after = after' := by
  have hsplit := splitClosing_eq_some_iff.2 h
  rw [splitClosing_eq_some_iff.2 h'] at hsplit
  cases hsplit
  exact ⟨rfl, rfl⟩

/-- The leftmost opening delimiter stays where it is when the text goes on. -/
theorem OpensAt.extend (h : OpensAt cs before d rest) (more : List Char) :
    OpensAt (cs ++ more) before d (rest ++ more) := by
  refine ⟨by rw [h.1]; simp only [List.append_assoc], fun before' d' rest' heq => ?_⟩
  by_contra hlt
  have hprefix : before' ++ d'.opening.toList <+: cs := by
    have hall : before' ++ d'.opening.toList <+: cs ++ more := ⟨rest', heq.symm⟩
    apply List.prefix_of_prefix_length_le hall (List.prefix_append _ _)
    rw [h.1]
    simp only [List.length_append, Delimiter.length_opening]
    omega
  obtain ⟨tail, htail⟩ := hprefix
  exact hlt (h.2 before' d' tail htail.symm)

theorem OpensAt.restrict (h : OpensAt cs before d (rest ++ more)) :
    OpensAt (before ++ d.opening.toList ++ rest) before d rest := by
  refine ⟨rfl, fun before' d' rest' heq => h.2 before' d' (rest' ++ more) ?_⟩
  rw [h.1, ← List.append_assoc, heq, List.append_assoc]

theorem ClosesAt.extend (h : ClosesAt cs content d after) (more : List Char) :
    ClosesAt (cs ++ more) content d (after ++ more) :=
  splitClosing_eq_some_iff.1 (Delimiter.splitClosing_append (splitClosing_eq_some_iff.2 h) more)

theorem ClosesAt.restrict (h : ClosesAt cs content d (after ++ more)) :
    ClosesAt (content ++ d.closing.toList ++ after) content d after := by
  refine ⟨rfl, fun content' rest' heq => h.2 content' (rest' ++ more) ?_⟩
  rw [h.1, ← List.append_assoc, heq, List.append_assoc]

/-- No tag opens in the text before the leftmost opening delimiter. -/
theorem OpensAt.splitOpening_before (h : OpensAt cs before d rest) : splitOpening before = none := by
  rw [splitOpening_eq_none_iff]
  rintro before' d' rest' rfl
  have hle := h.2 before' d' (rest' ++ d.opening.toList ++ rest) (by
    rw [h.1]
    simp only [List.append_assoc])
  simp only [List.length_append, Delimiter.length_opening] at hle
  omega

end Leftmost

namespace Opens

variable {cs before before' rest rest' content after more : List Char} {d d' : Delimiter}

theorem eq (h : Opens cs before d rest) : cs = before ++ d.opening.toList ++ rest := by
  induction h with
  | first hopen => exact hopen.1
  | later hopen hclose _ ih =>
    rw [hopen.1, hclose.1, ih]
    simp only [List.append_assoc]

/-- At one place of a text at most one tag opens. -/
theorem unique (h : Opens cs before d rest) (h' : Opens cs before' d' rest')
    (hlength : before.length = before'.length) : before = before' ∧ d = d' ∧ rest = rest' := by
  have heq := h.eq
  rw [h'.eq, List.append_assoc, List.append_assoc] at heq
  obtain ⟨rfl, htail⟩ := List.append_inj heq hlength.symm
  have hopening := opening?_append_opening d rest
  rw [← htail, opening?_append_opening] at hopening
  cases hopening
  exact ⟨rfl, rfl, rfl⟩

/-- A tag opens at the same place when the text goes on. -/
theorem extend (h : Opens cs before d rest) (more : List Char) :
    Opens (cs ++ more) before d (rest ++ more) := by
  induction h with
  | first hopen => exact .first (hopen.extend more)
  | later hopen hclose _ ih => exact .later (hopen.extend more) (hclose.extend more) ih

/-- A tag opens at the same place when the text ends earlier, but not before it. -/
theorem restrict (h : Opens cs before d (rest ++ more)) :
    Opens (before ++ d.opening.toList ++ rest) before d rest := by
  generalize hall : rest ++ more = all at h
  induction h with
  | first hopen =>
    subst hall
    exact .first hopen.restrict
  | @later cs before _ content after before' _ d d' hopen hclose hlater ih =>
    subst hall
    have hafter : after = before' ++ d'.opening.toList ++ rest ++ more := by
      rw [hlater.eq]
      simp only [List.append_assoc]
    rw [hafter] at hclose
    have hclose' := hclose.restrict
    rw [hclose.1, ← List.append_assoc] at hopen
    have hopen' := hopen.restrict
    have htext : before ++ d.opening.toList ++ content ++ d.closing.toList ++ before' ++
        d'.opening.toList ++ rest = before ++ d.opening.toList ++
          (content ++ d.closing.toList ++ (before' ++ d'.opening.toList ++ rest)) := by
      simp only [List.append_assoc]
    rw [htext]
    exact .later hopen' hclose' (ih rfl)

/-- Of two places where tags open, the one further left is a tag that is closed before the other
one opens. -/
theorem exists_of_lt (h : Opens cs before d rest) (h' : Opens cs before' d' rest')
    (hlt : before.length < before'.length) :
    ∃ content after between, ClosesAt rest content d after ∧ Opens after between d' rest' ∧
      before' = before ++ d.opening.toList ++ content ++ d.closing.toList ++ between := by
  induction h generalizing before' with
  | first hopen =>
    cases h' with
    | first hopen' =>
      obtain ⟨rfl, _, _⟩ := hopen.unique hopen'
      exact absurd hlt (Nat.lt_irrefl _)
    | later hopen' hclose' hlater =>
      obtain ⟨rfl, rfl, rfl⟩ := hopen.unique hopen'
      exact ⟨_, _, _, hclose', hlater, rfl⟩
  | later hopen hclose _ ih =>
    cases h' with
    | first hopen' =>
      obtain ⟨rfl, _, _⟩ := hopen.unique hopen'
      simp only [List.length_append] at hlt
      omega
    | later hopen' hclose' hlater' =>
      obtain ⟨rfl, rfl, rfl⟩ := hopen.unique hopen'
      obtain ⟨rfl, rfl⟩ := hclose.unique hclose'
      obtain ⟨content, after, between, hclosed, hbetween, rfl⟩ := ih hlater' (by
        simp only [List.length_append] at hlt ⊢
        omega)
      exact ⟨content, after, between, hclosed, hbetween, by simp only [List.append_assoc]⟩

end Opens

/-- The tags of a text are what is opened and closed in it. -/
theorem hasTag_iff {cs before content : List Char} {d : Delimiter} :
    HasTag cs before d content ↔
      ∃ rest after, Opens cs before d rest ∧ ClosesAt rest content d after := by
  constructor
  · intro h
    induction h with
    | first hopen hclose => exact ⟨_, _, .first hopen, hclose⟩
    | later hopen hclose _ ih =>
      obtain ⟨rest, after, hopens, hcloses⟩ := ih
      exact ⟨rest, after, .later hopen hclose hopens, hcloses⟩
  · rintro ⟨rest, after, hopens, hcloses⟩
    induction hopens with
    | first hopen => exact .first hopen hcloses
    | later hopen hclose _ ih => exact .later hopen hclose (ih hcloses)

/-- The segment of a tag that opens on this line in front of this text. -/
def tagAt (line : Nat) (d : Delimiter) (rest : List Char) : Segment :=
  match d.splitClosing rest with
  | none => .unclosed d line
  | some (content, _) => .tag d content line

/-- The segments behind a tag that opens on this line in front of this text. -/
def behind (line : Nat) (d : Delimiter) (rest : List Char) : List Segment :=
  match d.splitClosing rest with
  | none => []
  | some (content, after) => cut (line + newlines content) after

section Cut

variable {cs before before' rest rest' content after : List Char} {d d' : Delimiter} {line : Nat}

theorem tagAt_of_closesAt (h : ClosesAt rest content d after) :
    tagAt line d rest = .tag d content line := by
  rw [tagAt, splitClosing_eq_some_iff.2 h]

theorem behind_of_closesAt (h : ClosesAt rest content d after) :
    behind line d rest = cut (line + newlines content) after := by
  rw [behind, splitClosing_eq_some_iff.2 h]

theorem tagAt_of_not_closing (h : ∀ content after, rest ≠ content ++ d.closing.toList ++ after) :
    tagAt line d rest = .unclosed d line := by
  cases hsplit : d.splitClosing rest with
  | none => rw [tagAt, hsplit]
  | some split => exact absurd (Delimiter.splitClosing_eq hsplit) (h _ _)

/-- The segments of a text are those of the text before a tag, the tag, and what is behind it. -/
theorem Opens.cut_eq (h : Opens cs before d rest) (line : Nat) : cut line cs =
    cut line before ++ tagAt (line + newlines before) d rest ::
      behind (line + newlines before) d rest := by
  induction h generalizing line with
  | @first cs before rest d hopen =>
    rw [cut_of_splitOpening_none hopen.splitOpening_before, tagAt, behind]
    have hsplit := splitOpening_eq_some_iff.2 hopen
    cases hclose : d.splitClosing rest with
    | none => rw [cut_of_splitClosing_none hsplit hclose]
    | some split => rw [cut_of_split hsplit hclose]
  | @later cs before rest content after before' rest' d d' hopen hclose hlater ih =>
    have hsplit := splitOpening_eq_some_iff.2 hopen
    have htag := splitClosing_eq_some_iff.2 hclose
    rw [hlater.eq, List.append_assoc] at hclose
    have hclose' := hclose.restrict
    rw [hclose.1, ← List.append_assoc] at hopen
    have htext : before ++ d.opening.toList ++ (content ++ d.closing.toList ++ before') =
        before ++ d.opening.toList ++ content ++ d.closing.toList ++ before' := by
      simp only [List.append_assoc]
    have hbefore : cut line (before ++ d.opening.toList ++ content ++ d.closing.toList ++ before') =
        Segment.ofText before ++ .tag d content (line + newlines before) ::
          cut (line + newlines before + newlines content) before' := by
      rw [← htext]
      exact cut_of_split (splitOpening_eq_some_iff.2 hopen.restrict)
        (splitClosing_eq_some_iff.2 hclose')
    have hline : line + newlines before + newlines content + newlines before' =
        line + newlines (before ++ d.opening.toList ++ content ++ d.closing.toList ++ before') := by
      simp [Nat.add_assoc]
    rw [cut_of_split hsplit htag, ih, hline, hbefore,
      List.append_assoc (Segment.ofText before), List.cons_append]

/-- What is read before the second of two tags: what is read before the first, and the first. -/
theorem Opens.exists_cut_eq_of_lt (h : Opens cs before d rest) (h' : Opens cs before' d' rest')
    (hlt : before.length < before'.length) (line : Nat) :
    ∃ segments, cut line before' =
      cut line before ++ tagAt (line + newlines before) d rest :: segments := by
  obtain ⟨content, after, between, hclose, hbetween, rfl⟩ := h.exists_of_lt h' hlt
  have hrest : rest = content ++ d.closing.toList ++ between ++ (d'.opening.toList ++ rest') := by
    rw [hclose.1, hbetween.eq]
    simp only [List.append_assoc]
  have htag : tagAt (line + newlines before) d rest = .tag d content (line + newlines before) :=
    tagAt_of_closesAt hclose
  rw [hbetween.eq, List.append_assoc] at hclose
  have hcut := (hrest ▸ h).restrict.cut_eq line
  rw [tagAt_of_closesAt hclose.restrict, ← htag, ← List.append_assoc, ← List.append_assoc] at hcut
  exact ⟨_, hcut⟩

theorem literal_of_mem_ofText {text : List Char} {segment : Segment}
    (h : segment ∈ Segment.ofText text) : segment = .literal text := by
  cases text with
  | nil => cases h
  | cons c text => exact List.mem_singleton.1 h

/-- A segment that is no literal is the first one behind some literal text, or further back. -/
theorem ofText_append_cons_eq_append_cons {text : List Char} {segment segment' : Segment}
    {segments first last : List Segment} (hsegment : ∀ text, segment' ≠ .literal text)
    (h : Segment.ofText text ++ segment :: segments = first ++ segment' :: last) :
    (first = Segment.ofText text ∧ segment = segment' ∧ segments = last) ∨
      ∃ between, first = Segment.ofText text ++ segment :: between ∧
        segments = between ++ segment' :: last := by
  rcases List.append_eq_append_iff.1 h with ⟨tail, rfl, htail⟩ | ⟨tail, htext, htail⟩
  · cases tail with
    | nil =>
      rw [List.nil_append, List.cons.injEq] at htail
      exact Or.inl ⟨List.append_nil _, htail.1, htail.2⟩
    | cons next tail =>
      rw [List.cons_append, List.cons.injEq] at htail
      obtain ⟨rfl, hsegments⟩ := htail
      exact Or.inr ⟨tail, rfl, hsegments⟩
  · cases tail with
    | nil =>
      rw [List.nil_append, List.cons.injEq] at htail
      rw [List.append_nil] at htext
      exact Or.inl ⟨htext.symm, htail.1.symm, htail.2.symm⟩
    | cons next tail =>
      rw [List.cons_append, List.cons.injEq] at htail
      obtain ⟨rfl, _⟩ := htail
      have hmem : segment' ∈ Segment.ofText text := by
        rw [htext]
        exact List.mem_append_right _ List.mem_cons_self
      exact absurd (literal_of_mem_ofText hmem) (hsegment _)

/-- A segment that is no literal is a tag that opens where the segments in front of it end. -/
theorem exists_opens_of_cut_eq {segment : Segment} {first last : List Segment}
    (hsegment : ∀ text, segment ≠ .literal text) (h : cut line cs = first ++ segment :: last) :
    ∃ before d rest, Opens cs before d rest ∧ cut line before = first ∧
      tagAt (line + newlines before) d rest = segment ∧
      behind (line + newlines before) d rest = last := by
  induction cs using cut_induction generalizing line first with
  | text cs hopen =>
    rw [cut_of_splitOpening_none hopen] at h
    have hmem : segment ∈ Segment.ofText cs := by
      rw [h]
      exact List.mem_append_right _ List.mem_cons_self
    exact absurd (literal_of_mem_ofText hmem) (hsegment _)
  | unclosed cs before d rest hopen hclose =>
    have hopens := splitOpening_eq_some_iff.1 hopen
    rw [cut_of_splitClosing_none hopen hclose] at h
    rcases ofText_append_cons_eq_append_cons hsegment h with ⟨rfl, rfl, rfl⟩ | ⟨between, _, hlast⟩
    · refine ⟨before, d, rest, .first hopens, ?_, ?_, ?_⟩
      · exact cut_of_splitOpening_none hopens.splitOpening_before
      · rw [tagAt, hclose]
      · rw [behind, hclose]
    · simp at hlast
  | tag cs before d rest content after hopen hclose ih =>
    have hopens := splitOpening_eq_some_iff.1 hopen
    have hcloses := splitClosing_eq_some_iff.1 hclose
    rw [cut_of_split hopen hclose] at h
    rcases ofText_append_cons_eq_append_cons hsegment h with
      ⟨rfl, rfl, rfl⟩ | ⟨between, rfl, hlast⟩
    · refine ⟨before, d, rest, .first hopens, ?_, ?_, ?_⟩
      · exact cut_of_splitOpening_none hopens.splitOpening_before
      · exact tagAt_of_closesAt hcloses
      · exact behind_of_closesAt hcloses
    · obtain ⟨before', d', rest', hlater, hfirst, htag, hbehind⟩ := ih hlast
      have hopens' := Opens.later hopens hcloses hlater
      have hline : line + newlines before + newlines content + newlines before' = line +
          newlines (before ++ d.opening.toList ++ content ++ d.closing.toList ++ before') := by
        simp [Nat.add_assoc]
      rw [hline] at htag hbehind
      refine ⟨_, d', rest', hopens', ?_, htag, hbehind⟩
      have hcut := hopens'.cut_eq line
      rw [htag, hbehind, cut_of_split hopen hclose, hlast] at hcut
      have hsame : cut line (before ++ d.opening.toList ++ content ++ d.closing.toList ++ before') ++
          segment :: last = (Segment.ofText before ++ .tag d content (line + newlines before) ::
            between) ++ segment :: last := by
        rw [← hcut, List.append_assoc, List.cons_append]
      exact List.append_cancel_right hsame

end Cut

end Scaffold.Template
