import Mathlib.Data.List.Infix
import Scaffold.Proofs.Swift.Declaration

/-!
Bodies with braces of their own. A body is read up to its first closing brace, and a type is taken
from a later line if there is none behind its colon. So the line of a property is lost behind a
block, and it can be lost where another property is left without a type. All other lines give their
properties, in order.
-/

namespace Scaffold.Swift

open Text

def EndsLine (cs : List Char) : Prop := cs.getLast? = some '\n'

def AtLineStart (before : List Char) : Prop := before = [] ∨ EndsLine before

section

variable {cs rest run more : List Char}

theorem EndsLine.mem (h : EndsLine cs) : '\n' ∈ cs := List.mem_of_getLast? h

theorem EndsLine.of_append (h : EndsLine (cs ++ rest)) (hne : rest ≠ []) : EndsLine rest := by
  rwa [EndsLine, List.getLast?_append_of_ne_nil _ hne] at h

theorem EndsLine.append (h : EndsLine rest) (cs : List Char) : EndsLine (cs ++ rest) := by
  have hne : rest ≠ [] := List.ne_nil_of_mem h.mem
  rwa [EndsLine, List.getLast?_append_of_ne_nil _ hne]

theorem endsLine_concat (cs : List Char) : EndsLine (cs ++ ['\n']) := by
  rw [EndsLine, List.getLast?_concat]

theorem AtLineStart.append (h : AtLineStart cs) (h' : AtLineStart rest) :
    AtLineStart (cs ++ rest) := by
  rcases h' with rfl | h'
  · rwa [List.append_nil]
  · exact .inr (h'.append cs)

theorem EndsLine.exists_line (h : EndsLine cs) :
    ∃ line behind, cs = line ++ '\n' :: behind ∧ '\n' ∉ line ∧ AtLineStart behind := by
  obtain ⟨line, behind, rfl, hline⟩ := List.eq_append_cons_of_mem h.mem
  refine ⟨line, behind, rfl, hline, ?_⟩
  by_cases hne : behind = []
  · exact .inl hne
  · rw [List.append_cons] at h
    exact .inr (h.of_append hne)

/-- A run takes all of the lines before a text, or it ends within them. -/
theorem EndsLine.split (h : EndsLine cs) (heq : cs ++ rest = run ++ more) :
    (∃ run', run = cs ++ run' ∧ rest = run' ++ more) ∨
      ∃ cs', cs = run ++ cs' ∧ EndsLine cs' ∧ more = cs' ++ rest := by
  rcases List.append_eq_append_iff.1 heq with hwhole | ⟨cs', rfl, hmore⟩
  · exact .inl hwhole
  · by_cases hne : cs' = []
    · subst hne
      exact .inl ⟨[], by rw [List.append_nil, List.append_nil], hmore.symm⟩
    · exact .inr ⟨cs', rfl, h.of_append hne, hmore⟩

theorem EndsLine.split_of_not_mem (h : EndsLine cs) (hrun : '\n' ∉ run)
    (heq : cs ++ rest = run ++ more) :
    ∃ cs', cs = run ++ cs' ∧ EndsLine cs' ∧ more = cs' ++ rest := by
  refine (h.split heq).resolve_left ?_
  rintro ⟨run', rfl, -⟩
  exact hrun (List.mem_append_left _ h.mem)

end

namespace Head

variable (h : Head)

theorem head?_gap (cs : List Char) : ∀ c ∈ (h.gap ++ cs).head?, isWordChar c = false := by
  refine head?_append_of_head? h.isGap.2 (fun c hc => ?_) cs
  exact isWordChar_of_isBlank (h.isGap.1 c (List.mem_of_mem_head? hc))

/-- A head begins with a word. -/
theorem text_append_ne_colon {gap : List Char} (hgap : IsGap gap) (cs more : List Char) :
    h.text ++ cs ≠ gap ++ ':' :: more := by
  intro heq
  rw [h.text_append] at heq
  obtain ⟨-, hcolon⟩ := eq_of_runs h.isBefore hgap h.isIdentifier_keyword.head?
    (by rintro c ⟨⟩; rfl) heq
  rcases h.isKeyword with hkeyword | hkeyword <;> rw [hkeyword] at hcolon <;> cases hcolon

/-- A head begins with two words. -/
theorem text_append_ne_name {gap name beforeColon : List Char} (hgap : IsGap gap)
    (hname : IsIdentifier name) (hbefore : IsGap beforeColon) (cs more : List Char) :
    h.text ++ cs ≠ gap ++ (name ++ (beforeColon ++ ':' :: more)) := by
  intro heq
  rw [h.text_append] at heq
  obtain ⟨-, hfirst⟩ := eq_of_runs h.isBefore hgap h.isIdentifier_keyword.head? hname.head? heq
  obtain ⟨-, hbehind⟩ := eq_of_runs h.isIdentifier_keyword.2 hname.2 (h.head?_gap _)
    (head?_gap_colon hbefore _) hfirst
  obtain ⟨-, hsecond⟩ := eq_of_runs h.isGap.1 hbefore h.isName.head?
    (by rintro c ⟨⟩; rfl) hbehind
  obtain ⟨hne, hword⟩ := h.isName
  cases hcs : h.name with
  | nil => exact hne hcs
  | cons c name =>
    rw [hcs] at hsecond hword
    cases hsecond
    exact absurd (hword ':' List.mem_cons_self) (by decide +kernel)

end Head

/-- What a type is read from begins behind the colon and ends with its line. -/
theorem exists_of_typeAfterColon? {cs type rest : List Char}
    (h : typeAfterColon? cs = some (type, rest)) :
    ∃ gap line, cs = gap ++ line ∧ IsGap gap ∧ rest = line.dropWhile (· ≠ '\n') := by
  obtain ⟨gap, line, hcs, hgap, hline, -, hdrop⟩ := exists_run isBlank cs
  refine ⟨gap, line, hcs, hgap, ?_⟩
  rw [typeAfterColon?, hdrop] at h
  cases line with
  | nil =>
    simp only at h
    split at h
    · cases h
    · cases h
      rfl
  | cons c line =>
    cases h
    have hc : c ≠ '\n' := by
      rintro rfl
      cases hline _ rfl
    rw [List.dropWhile_cons_of_pos (by simpa using hc)]

theorem exists_head_of_storedProperty? {cs rest : List Char} {p : StoredProperty}
    (h : storedProperty? cs = some (p, rest)) :
    ∃ (head : Head) (gap line : List Char), cs = head.text ++ (gap ++ line) ∧ IsGap gap ∧
      rest = line.dropWhile (· ≠ '\n') := by
  obtain ⟨before, cs', rfl, hbefore, -, -, hdrop⟩ := exists_run isBlank cs
  simp only [storedProperty?, Option.bind_eq_bind, Option.bind_eq_some_iff, hdrop] at h
  obtain ⟨after, hafter, ⟨name, rest'⟩, hword, h⟩ := h
  obtain ⟨keyword, hkeyword, rfl⟩ := exists_keyword_of_afterKeyword? hafter
  obtain ⟨gap, rfl, hgap, hname⟩ := exists_gap_of_spacedWord? hword
  obtain ⟨beforeColon, behind, rfl, hbeforeColon, -, -, hdrop'⟩ := exists_run isBlank rest'
  simp only [hdrop'] at h
  split at h
  · next behind' =>
    obtain ⟨⟨type, rest''⟩, htype, hp⟩ := Option.bind_eq_some_iff.1 h
    cases hp
    obtain ⟨gap', line, rfl, hgap', hrest⟩ := exists_of_typeAfterColon? htype
    let head : Head := ⟨before, keyword, gap, name, beforeColon, hbefore, hkeyword, hgap, hname,
      hbeforeColon⟩
    exact ⟨head, gap', line, (head.text_append _).symm, hgap', hrest⟩
  · cases h

/-- A head stands last, at the start of a line and with nothing but white space behind its colon. -/
def LeavesOpen (before : List Char) : Prop :=
  ∃ (start : List Char) (head : Head) (gap : List Char),
    before = start ++ (head.text ++ gap) ∧ AtLineStart start ∧ IsGap gap

theorem LeavesOpen.append {start before : List Char} (hstart : AtLineStart start)
    (h : LeavesOpen before) : LeavesOpen (start ++ before) := by
  obtain ⟨start', head, gap, rfl, hstart', hgap⟩ := h
  exact ⟨start ++ start', head, gap, (List.append_assoc _ _ _).symm, hstart.append hstart', hgap⟩

/-- A text that ends with other than a colon, but for white space, leaves nothing open. -/
theorem LeavesOpen.getLast?_trimEnd {before : List Char} (h : LeavesOpen before) :
    (trimEnd before).getLast? = some ':' := by
  obtain ⟨start, head, gap, rfl, -, hgap⟩ := h
  have hlast : (start ++ head.text).getLast? = some ':' := by
    simp only [Head.text, ← List.append_assoc, List.getLast?_concat]
  rw [← List.append_assoc, trimEnd_append_gap hgap, trimEnd_of_getLast?, hlast]
  rw [hlast]
  rintro c ⟨⟩
  rfl

/-- A head does not begin before the line of another one and end in it. -/
theorem EndsLine.split_head {before more behind : List Char} (hends : EndsLine before)
    (head head' : Head) (heq : before ++ (head.text ++ more) = head'.text ++ behind) :
    IsGap before ∨
      ∃ cs, before = head'.text ++ cs ∧ EndsLine cs ∧ behind = cs ++ (head.text ++ more) := by
  have hnewline : isWordChar '\n' = false := by decide +kernel
  rw [head'.text_append] at heq
  rcases hends.split heq with ⟨gap, hgap, -⟩ | ⟨cs₁, rfl, hends, heq⟩
  · exact .inl fun c hc => head'.isBefore c (hgap ▸ List.mem_append_left _ hc)
  right
  -- No word holds a line end, so the first text can only end in white space of the other head, and
  -- what follows there does not begin like a head.
  obtain ⟨cs₂, rfl, hends, heq⟩ := hends.split_of_not_mem (head'.isIdentifier_keyword.not_mem
    hnewline) heq.symm
  rcases hends.split heq.symm with ⟨gap, hgap, hrest⟩ | ⟨cs₃, rfl, hends, heq⟩
  · exact absurd hrest (head.text_append_ne_name
      (fun c hc => head'.isGap.1 c (hgap ▸ List.mem_append_right _ hc)) head'.isName
      head'.isBeforeColon _ _)
  obtain ⟨cs₄, rfl, hends, heq⟩ := hends.split_of_not_mem (head'.isName.not_mem hnewline) heq.symm
  rcases hends.split heq.symm with ⟨gap, hgap, hrest⟩ | ⟨cs₅, rfl, hends, heq⟩
  · exact absurd hrest (head.text_append_ne_colon
      (fun c hc => head'.isBeforeColon c (hgap ▸ List.mem_append_right _ hc)) _ _)
  have hcolon : '\n' ∉ [':'] := by decide
  obtain ⟨cs, rfl, hends, heq⟩ := hends.split_of_not_mem hcolon heq.symm
  refine ⟨cs, ?_, hends, heq⟩
  rw [head'.text_append, List.singleton_append]

/-- Reading a property before the line of another one stops before that line, unless it takes the
type from there. -/
theorem exists_behind_of_read {before more rest : List Char} {p : StoredProperty} {head : Head}
    (hends : EndsLine before) (hclosed : ¬LeavesOpen before)
    (hread : storedProperty? (before ++ (head.text ++ more)) = some (p, rest)) :
    IsGap before ∨ ∃ start behind, before = start ++ behind ∧ EndsLine start ∧
      AtLineStart behind ∧ nextLine rest = behind ++ (head.text ++ more) := by
  obtain ⟨head', gap, line, heq, hgap, rfl⟩ := exists_head_of_storedProperty? hread
  rcases hends.split_head head head' heq with hblank | ⟨cs, rfl, hends, heq⟩
  · exact .inl hblank
  right
  rcases hends.split heq.symm with ⟨gap', hgap', -⟩ | ⟨cs, rfl, hends, rfl⟩
  · exact absurd ⟨[], head', cs, rfl, .inl rfl, fun c hc =>
      hgap c (hgap' ▸ List.mem_append_left _ hc)⟩ hclosed
  obtain ⟨line, behind, rfl, hline, hbehind⟩ := hends.exists_line
  refine ⟨head'.text ++ (gap ++ line) ++ ['\n'], behind, ?_, endsLine_concat _, hbehind, ?_⟩
  · simp only [List.append_assoc, List.singleton_append]
  · rw [List.append_assoc, List.cons_append,
      dropWhile_run (ne_of_not_mem hline) (by rintro _ ⟨⟩; rfl)]
    exact nextLine_append List.not_mem_nil _

/-- The line of a property is reached, with or without properties before it. -/
theorem exists_storedProperties_append {before : List Char} (hstart : AtLineStart before)
    (hclosed : ¬LeavesOpen before) (head : Head) (more : List Char) :
    ∃ ps, storedProperties (before ++ (head.text ++ more)) =
      ps ++ storedProperties (head.text ++ more) := by
  -- Strong induction: each reading leaves fewer lines before that of the head.
  induction hn : before.length using Nat.strongRecOn generalizing before with
  | _ n ih =>
    rcases hstart with rfl | hends
    · exact ⟨[], rfl⟩
    have hbehind {start behind : List Char} (heq : before = start ++ behind)
        (hstart : EndsLine start) (hline : AtLineStart behind) :
        ∃ ps, storedProperties (behind ++ (head.text ++ more)) =
          ps ++ storedProperties (head.text ++ more) := by
      subst heq
      refine ih behind.length ?_ hline (fun hopen => hclosed (hopen.append (.inr hstart))) rfl
      have hpos := List.length_pos_of_mem hstart.mem
      rw [List.length_append] at hn
      omega
    cases hread : storedProperty? (before ++ (head.text ++ more)) with
    | none =>
      obtain ⟨line, behind, heq, hline, hstart⟩ := hends.exists_line
      obtain ⟨ps, hps⟩ := hbehind (heq.trans (List.append_cons _ _ _)) (endsLine_concat _) hstart
      refine ⟨ps, ?_⟩
      rw [storedProperties_of_none hread, heq, List.append_assoc, List.cons_append,
        nextLine_append hline, hps]
    | some read =>
      obtain ⟨p, rest⟩ := read
      rcases exists_behind_of_read hends hclosed hread with
        hgap | ⟨start, behind, heq, hstart, hline, hnext⟩
      · have hsame : storedProperty? (before ++ (head.text ++ more)) =
            storedProperty? (head.text ++ more) := by
          rw [storedProperty?, storedProperty?, List.dropWhile_append_of_pos hgap]
        refine ⟨[], ?_⟩
        rw [List.nil_append, storedProperties_of_some hread,
          storedProperties_of_some (hsame.symm.trans hread)]
      · obtain ⟨ps, hps⟩ := hbehind heq hstart hline
        refine ⟨p :: ps, ?_⟩
        rw [storedProperties_of_some hread, hnext, hps, List.cons_append]

/-- The head of a property, and the text before it. -/
structure Site where
  before : List Char
  head : Head

namespace Site

variable {s s' : Site} {cs : List Char}

/-- A line of the text has this head, with something behind its colon. -/
structure IsIn (s : Site) (cs : List Char) : Prop where
  start : AtLineStart s.before
  line : '\n' ∉ s.head.text
  type : ∃ gap c rest, cs = s.before ++ (s.head.text ++ (gap ++ c :: rest)) ∧ IsIndent gap ∧
    isBlank c = false

/-- The text from the line on. -/
def behind (s : Site) (cs : List Char) : List Char :=
  cs.drop s.before.length

theorem IsIn.eq_append (h : s.IsIn cs) : cs = s.before ++ s.behind cs := by
  obtain ⟨gap, c, rest, rfl, -, -⟩ := h.type
  rw [behind, List.drop_left]

theorem IsIn.exists_eq (h : s.IsIn cs) : ∃ more, s.behind cs = s.head.text ++ more := by
  obtain ⟨gap, c, rest, rfl, -, -⟩ := h.type
  exact ⟨_, by rw [behind, List.drop_left]⟩

theorem IsIn.exists_read (h : s.IsIn cs) :
    ∃ p rest, storedProperty? (s.behind cs) = some (p, rest) ∧
      p.name = String.ofList s.head.name := by
  obtain ⟨gap, c, rest, rfl, hgap, hc⟩ := h.type
  rw [behind, List.drop_left]
  exact ⟨_, _, s.head.storedProperty?_append hgap.1 (List.cons_ne_nil _ _)
    (by rintro _ ⟨⟩; exact hc), rfl⟩

/-- What is read from a line on is read last. -/
theorem IsIn.exists_storedProperties_eq (h : s.IsIn cs) (hclosed : ¬LeavesOpen s.before) :
    ∃ ps, storedProperties cs = ps ++ storedProperties (s.behind cs) := by
  obtain ⟨more, hmore⟩ := h.exists_eq
  obtain ⟨ps, hps⟩ := exists_storedProperties_append h.start hclosed s.head more
  rw [← hmore, ← h.eq_append] at hps
  exact ⟨ps, hps⟩

/-- Between two lines there is the whole of the first one. -/
theorem IsIn.exists_between (h : s.IsIn cs) (h' : s'.IsIn cs)
    (hlt : s.before.length < s'.before.length) :
    ∃ between, s'.before = s.before ++ between ∧ s.behind cs = between ++ s'.behind cs ∧
      EndsLine between ∧ ¬IsGap between := by
  have heq := h.eq_append.symm.trans h'.eq_append
  obtain ⟨between, hbefore, hbehind⟩ := (List.append_eq_append_iff.1 heq).resolve_right (by
    rintro ⟨between, hbefore, -⟩
    rw [hbefore, List.length_append] at hlt
    omega)
  have hne : between ≠ [] := by
    rintro rfl
    rw [hbefore, List.append_nil] at hlt
    exact lt_irrefl _ hlt
  have hends : EndsLine between := by
    have hstart := h'.start
    rw [hbefore] at hstart
    exact (hstart.resolve_left (List.append_ne_nil_of_right_ne_nil _ hne)).of_append hne
  refine ⟨between, hbefore, hbehind, hends, fun hgap => ?_⟩
  obtain ⟨more, hmore⟩ := h.exists_eq
  rw [hmore] at hbehind
  obtain ⟨_, rfl, -, -⟩ := hends.split_of_not_mem h.line hbehind.symm
  have hcolon : ':' ∈ s.head.text := by simp [Head.text]
  exact hgap.not_mem rfl (List.mem_append_left _ hcolon)

/-- Less is read from a later line on. -/
theorem IsIn.length_lt (h : s.IsIn cs) (h' : s'.IsIn cs) (hclosed : ¬LeavesOpen s'.before)
    (hlt : s.before.length < s'.before.length) :
    (storedProperties (s'.behind cs)).length < (storedProperties (s.behind cs)).length := by
  obtain ⟨between, hbefore, hbehind, hends, hnotGap⟩ := h.exists_between h' hlt
  have hopen : ¬LeavesOpen between := fun hopen => hclosed (hbefore ▸ hopen.append h.start)
  obtain ⟨p, rest, hread, -⟩ := h.exists_read
  obtain ⟨more, hmore⟩ := h'.exists_eq
  have hreadOn := hread
  rw [hbehind, hmore] at hreadOn
  obtain ⟨start, behind, hsplit, hstart, hline, hnext⟩ :=
    (exists_behind_of_read hends hopen hreadOn).resolve_left hnotGap
  obtain ⟨ps, hps⟩ := exists_storedProperties_append hline
    (fun hopen' => hopen (hsplit ▸ hopen'.append (.inr hstart))) s'.head more
  calc (storedProperties (s'.behind cs)).length
    _ < (p :: (ps ++ storedProperties (s'.behind cs))).length := by
      rw [List.length_cons, List.length_append]
      omega
    _ = (storedProperties (s.behind cs)).length := by
      rw [storedProperties_of_some hread, hnext, hps, hmore]

/-- How many properties are read before the line. -/
def index (s : Site) (cs : List Char) : Nat :=
  (storedProperties cs).length - (storedProperties (s.behind cs)).length

theorem IsIn.getElem?_index (h : s.IsIn cs) (hclosed : ¬LeavesOpen s.before) :
    ((storedProperties cs)[s.index cs]?).map (·.name) = some (String.ofList s.head.name) := by
  obtain ⟨ps, hps⟩ := h.exists_storedProperties_eq hclosed
  obtain ⟨p, rest, hread, hname⟩ := h.exists_read
  have hindex : s.index cs = ps.length := by
    rw [index, hps, List.length_append, Nat.add_sub_cancel]
  have hfound : (storedProperties cs)[s.index cs]? = some p := by
    calc (storedProperties cs)[s.index cs]?
      _ = (ps ++ p :: storedProperties (nextLine rest))[ps.length]? := by
        rw [hindex, hps, storedProperties_of_some hread]
      _ = some p := by
        rw [List.getElem?_append_right le_rfl, Nat.sub_self, List.getElem?_cons_zero]
  rw [hfound, Option.map_some, hname]

theorem IsIn.index_lt (h : s.IsIn cs) (h' : s'.IsIn cs) (hclosed : ¬LeavesOpen s.before)
    (hclosed' : ¬LeavesOpen s'.before) (hlt : s.before.length < s'.before.length) :
    s.index cs < s'.index cs := by
  obtain ⟨ps, hps⟩ := h.exists_storedProperties_eq hclosed
  have hlength := congrArg List.length hps
  have hless := h.length_lt h' hclosed' hlt
  rw [List.length_append] at hlength
  rw [index, index]
  omega

end Site

/-! ### Bodies -/

/-- There are as many opening as closing braces, and up to no point fewer. -/
structure IsBalanced (body : List Char) : Prop where
  closed : body.count '{' = body.count '}'
  opened : ∀ cs, cs <+: body → cs.count '}' ≤ cs.count '{'

instance : DecidablePred IsBalanced := fun body =>
  decidable_of_iff (body.count '{' = body.count '}' ∧
      ∀ cs ∈ body.inits, cs.count '}' ≤ cs.count '{')
    ⟨fun h => ⟨h.1, fun cs hcs => h.2 cs ((List.mem_inits _ _).2 hcs)⟩,
      fun h => ⟨h.closed, fun cs hcs => h.opened cs ((List.mem_inits _ _).1 hcs)⟩⟩

namespace Site

variable {s : Site} {body : List Char}

/-- A line of the body itself, and not of a block within it. -/
structure IsOuter (s : Site) (body : List Char) : Prop where
  isIn : s.IsIn body
  depth : s.before.count '{' = s.before.count '}'

/-- What of a line stands before the first closing brace is enough to read its property. -/
theorem IsOuter.isIn_takeWhile (h : s.IsOuter body) (hbody : IsBalanced body)
    (hbrace : '}' ∉ s.before) : s.IsIn (body.takeWhile (· ≠ '}')) := by
  obtain ⟨⟨hstart, hline, gap, c, rest, rfl, hgap, hc⟩, hdepth⟩ := h
  have hnotHead {brace : Char} (hbrace : brace = '{' ∨ brace = '}') : brace ∉ s.head.text := by
    rcases hbrace with rfl | rfl <;>
      exact s.head.not_mem_text (by decide) (by decide +kernel) (by decide)
  have hnotGap {brace : Char} (hbrace : brace = '{' ∨ brace = '}') : brace ∉ gap := by
    rcases hbrace with rfl | rfl <;> exact hgap.1.not_mem rfl
  have hne : c ≠ '}' := by
    rintro rfl
    have hopened := hbody.opened (s.before ++ (s.head.text ++ (gap ++ ['}'])))
      ⟨rest, by simp only [List.append_assoc, List.singleton_append]⟩
    simp only [List.count_append, hdepth, List.count_eq_zero.2 hbrace,
      List.count_eq_zero.2 (hnotHead (.inl rfl)), List.count_eq_zero.2 (hnotHead (.inr rfl)),
      List.count_eq_zero.2 (hnotGap (.inl rfl)), List.count_eq_zero.2 (hnotGap (.inr rfl))]
      at hopened
    revert hopened
    decide
  have hnot : '}' ∉ s.before ++ (s.head.text ++ (gap ++ [c])) := by
    simp [hbrace, hnotHead, hnotGap, hne.symm]
  refine ⟨hstart, hline, gap, c, rest.takeWhile (· ≠ '}'), ?_, hgap, hc⟩
  have htake : (s.before ++ (s.head.text ++ (gap ++ [c])) ++ rest).takeWhile (· ≠ '}') =
      s.before ++ (s.head.text ++ (gap ++ [c])) ++ rest.takeWhile (· ≠ '}') :=
    List.takeWhile_append_of_pos (ne_of_not_mem hnot)
  simpa only [List.append_assoc, List.singleton_append] using htake

end Site

/-- A declaration with a balanced body, and what stands behind it. -/
structure BalancedDeclaration where
  keyword : List Char
  gap : List Char
  name : List Char
  middle : List Char
  body : List Char
  rest : List Char
  isKeyword : keyword = "struct".toList ∨ keyword = "class".toList
  isGap : IsGap gap ∧ gap ≠ []
  isName : IsIdentifier name
  isMiddle : '{' ∉ middle ∧ ∀ c ∈ middle.head?, isWordChar c = false
  isBalanced : IsBalanced body

/-- A keyword and a name stand here. -/
def StartsDeclaration (cs : List Char) : Prop :=
  ∃ keyword gap name rest, cs = keyword ++ (gap ++ (name ++ rest)) ∧
    (keyword = "struct".toList ∨ keyword = "class".toList) ∧ (IsGap gap ∧ gap ≠ []) ∧
    IsIdentifier name

theorem startsDeclaration_of_declaration? {cs : List Char} {read : List Char × List Char}
    (h : declaration? cs = some read) : StartsDeclaration cs := by
  simp only [declaration?, Option.bind_eq_bind, Option.bind_eq_some_iff] at h
  obtain ⟨after, hafter, ⟨name, rest⟩, hword, -⟩ := h
  obtain ⟨keyword, hkeyword, rfl⟩ := exists_keyword_of_afterKeyword? hafter
  obtain ⟨gap, rfl, hgap, hname⟩ := exists_gap_of_spacedWord? hword
  exact ⟨keyword, gap, name, rest, rfl, hkeyword, hgap, hname⟩

theorem exists_eq_takeWhile_append (cs : List Char) (c : Char) (rest : List Char) :
    ∃ rest', cs ++ c :: rest = cs.takeWhile (· ≠ c) ++ c :: rest' := by
  induction cs with
  | nil => exact ⟨rest, rfl⟩
  | cons d cs ih =>
    by_cases hd : d = c
    · subst hd
      exact ⟨cs ++ d :: rest, by simp⟩
    · obtain ⟨rest', hrest'⟩ := ih
      refine ⟨rest', ?_⟩
      rw [List.takeWhile_cons_of_pos (by simpa using hd), List.cons_append, hrest',
        List.cons_append]

namespace BalancedDeclaration

variable (d : BalancedDeclaration)

def text : List Char :=
  d.keyword ++ (d.gap ++ (d.name ++ (d.middle ++ '{' :: (d.body ++ '}' :: d.rest))))

/-- No declaration starts before this one. -/
def IsFirstBehind (before : List Char) : Prop :=
  ∀ cs, cs ≠ [] → cs <:+ before → ¬StartsDeclaration (cs ++ d.text)

/-- The body up to its first closing brace. -/
def block : List Char :=
  d.body.takeWhile (· ≠ '}')

theorem parse?_eq {before : List Char} (h : d.IsFirstBehind before) :
    Model.parse? (String.ofList (before ++ d.text)) =
      some ⟨String.ofList d.name, storedProperties d.block⟩ := by
  have hbrace : '}' ∉ d.block := by
    intro hmem
    simpa using List.all_eq_true.1 List.all_takeWhile _ hmem
  obtain ⟨rest, hrest⟩ := exists_eq_takeWhile_append d.body '}' d.rest
  have hdeclaration : declaration? d.text = some (d.name, d.block) := by
    rw [text, hrest]
    exact declaration?_append d.isKeyword d.isGap d.isName d.isMiddle hbrace rest
  have hskip := firstDeclaration?_skip fun cs hne hsuffix =>
    Option.eq_none_iff_forall_ne_some.2 fun read hread =>
      h cs hne hsuffix (startsDeclaration_of_declaration? hread)
  rw [Model.parse?, String.toList_ofList, hskip, firstDeclaration?_of_some hdeclaration]
  rfl

/-- A line of the body before the first closing brace, and not behind a head without a type. -/
structure IsKept (s : Site) : Prop where
  isOuter : s.IsOuter d.body
  brace : '}' ∉ s.before
  closed : ¬LeavesOpen s.before

/-- Each line that is kept gives its property, in the order of the lines. What stands behind the
first closing brace of the body makes no difference. -/
theorem parse?_kept {before : List Char} (h : d.IsFirstBehind before) :
    ∃ m, Model.parse? (String.ofList (before ++ d.text)) = some m ∧
      m.name = String.ofList d.name ∧
      (∃ index : Site → Nat,
        (∀ s, d.IsKept s →
          (m.properties[index s]?).map (·.name) = some (String.ofList s.head.name)) ∧
        ∀ s s', d.IsKept s → d.IsKept s' → s.before.length < s'.before.length →
          index s < index s') ∧
      ∀ (before' : List Char) (d' : BalancedDeclaration), d'.IsFirstBehind before' →
        d'.name = d.name → d'.block = d.block →
        Model.parse? (String.ofList (before' ++ d'.text)) = some m := by
  have hin {s : Site} (hs : d.IsKept s) : s.IsIn d.block :=
    hs.isOuter.isIn_takeWhile d.isBalanced hs.brace
  refine ⟨_, d.parse?_eq h, rfl, ⟨fun s => s.index d.block, ?_, ?_⟩, ?_⟩
  · exact fun s hs => (hin hs).getElem?_index hs.closed
  · exact fun s s' hs hs' => (hin hs).index_lt (hin hs') hs.closed hs'.closed
  · intro before' d' h' hname hblock
    rw [d'.parse?_eq h', hname, hblock]

end BalancedDeclaration

theorem isGap_space : IsGap " ".toList ∧ " ".toList ≠ [] :=
  ⟨List.forall_mem_singleton.2 rfl, List.cons_ne_nil _ _⟩

/-- The declaration of a structure with this body. -/
def pointWith (body : List Char) (h : IsBalanced body) : BalancedDeclaration where
  keyword := "struct".toList
  gap := " ".toList
  name := "Point".toList
  middle := " ".toList
  body := body
  rest := "\n".toList
  isKeyword := .inl rfl
  isGap := isGap_space
  isName := ⟨by decide, List.all_eq_true.1 (by decide +kernel)⟩
  isMiddle := ⟨by decide, by rintro _ ⟨⟩; decide +kernel⟩
  isBalanced := h

theorem isFirstBehind_pointWith {body : List Char} (h : IsBalanced body) :
    (pointWith body h).IsFirstBehind [] := fun _ hne hsuffix =>
  absurd (List.suffix_nil.1 hsuffix) hne

/-- The head of a constant, indented. -/
def letHead (name : Char) (h : isWordChar name = true) : Head where
  before := "  ".toList
  keyword := "let".toList
  gap := " ".toList
  name := [name]
  beforeColon := []
  isBefore := List.all_eq_true.1 rfl
  isKeyword := .inl rfl
  isGap := isGap_space
  isName := ⟨List.cons_ne_nil _ _, List.forall_mem_singleton.2 h⟩
  isBeforeColon := List.forall_mem_nil _

/-- A line that is indented, behind a text and with its type and what else stands in the body. -/
theorem isOuter_letHead {before rest : List Char} {name c : Char} (hname : isWordChar name = true)
    (hstart : EndsLine before) (hdepth : before.count '{' = before.count '}')
    (hc : isBlank c = false) (hline : name ≠ '\n') :
    Site.IsOuter ⟨before, letHead name hname⟩
      (before ++ ((letHead name hname).text ++ ([' '] ++ c :: rest))) := by
  refine ⟨⟨.inr hstart, ?_, [' '], c, rest, rfl, by decide, hc⟩, hdepth⟩
  simp [Head.text, letHead, hline.symm]

theorem parse?_kept_of_block :
    ∃ (m : Model) (i j : Nat), Model.parse? ("struct Point \x7b\n  let x: Int\n" ++
        "  let y: Int \x7b 0 \x7d\n  let z: Int\n\x7d\n") = some m ∧
      (m.properties[i]?).map (·.name) = some "x" ∧ (m.properties[j]?).map (·.name) = some "y" ∧
      i < j := by
  let body := "\n  let x: Int\n  let y: Int \x7b 0 \x7d\n  let z: Int\n".toList
  have hbody : IsBalanced body := by decide +kernel
  let x : Site := ⟨"\n".toList, letHead 'x' (by decide +kernel)⟩
  let y : Site := ⟨"\n  let x: Int\n".toList, letHead 'y' (by decide +kernel)⟩
  have hx : (pointWith body hbody).IsKept x := by
    refine ⟨isOuter_letHead (c := 'I') _ rfl rfl rfl (by decide), by decide, fun hopen => ?_⟩
    cases hopen.getLast?_trimEnd
  have hy : (pointWith body hbody).IsKept y := by
    refine ⟨isOuter_letHead (c := 'I') _ rfl rfl rfl (by decide), by decide, fun hopen => ?_⟩
    cases hopen.getLast?_trimEnd
  obtain ⟨m, hm, -, ⟨index, hname, horder⟩, -⟩ :=
    (pointWith body hbody).parse?_kept (isFirstBehind_pointWith hbody)
  exact ⟨m, index x, index y, hm, hname x hx, hname y hy, horder x y hx hy (by decide)⟩

/-- Lines are lost behind a block of the body, and where a line before them has no type. -/
theorem parse?_not_kept :
    (¬∀ (before : List Char) (d : BalancedDeclaration), d.IsFirstBehind before →
      ∃ m, Model.parse? (String.ofList (before ++ d.text)) = some m ∧
        ∀ s : Site, s.IsOuter d.body → ¬LeavesOpen s.before →
          ∃ p ∈ m.properties, p.name = String.ofList s.head.name) ∧
    ¬∀ (before : List Char) (d : BalancedDeclaration), d.IsFirstBehind before →
      ∃ m, Model.parse? (String.ofList (before ++ d.text)) = some m ∧
        ∀ s : Site, s.IsOuter d.body → '}' ∉ s.before →
          ∃ p ∈ m.properties, p.name = String.ofList s.head.name := by
  have hword : isWordChar 'y' = true := by decide +kernel
  constructor
  · intro h
    let body := "\n  func f() \x7b\x7d\n  let y: Int\n".toList
    have hbody : IsBalanced body := by decide +kernel
    let y : Site := ⟨"\n  func f() \x7b\x7d\n".toList, letHead 'y' hword⟩
    have hy : y.IsOuter body := isOuter_letHead hword rfl rfl rfl (by decide)
    have hnone : storedProperties (body.takeWhile (· ≠ '}')) = [] := by decide +kernel
    obtain ⟨m, hm, hlines⟩ := h [] (pointWith body hbody) (isFirstBehind_pointWith hbody)
    cases ((pointWith body hbody).parse?_eq (isFirstBehind_pointWith hbody)).symm.trans hm
    obtain ⟨p, hp, -⟩ := hlines y hy (fun hopen => by cases hopen.getLast?_trimEnd)
    have hp : p ∈ storedProperties (body.takeWhile (· ≠ '}')) := hp
    rw [hnone] at hp
    cases hp
  · intro h
    let body := "\n  let x:\n  let y: Int\n".toList
    have hbody : IsBalanced body := by decide +kernel
    let y : Site := ⟨"\n  let x:\n".toList, letHead 'y' hword⟩
    have hy : y.IsOuter body := isOuter_letHead hword rfl rfl rfl (by decide)
    have hone : storedProperties (body.takeWhile (· ≠ '}')) = [⟨"x", ⟨"let y: Int"⟩⟩] := by
      decide +kernel
    obtain ⟨m, hm, hlines⟩ := h [] (pointWith body hbody) (isFirstBehind_pointWith hbody)
    cases ((pointWith body hbody).parse?_eq (isFirstBehind_pointWith hbody)).symm.trans hm
    obtain ⟨p, hp, hname⟩ := hlines y hy (show '}' ∉ "\n  let x:\n".toList by decide)
    have hp : p ∈ storedProperties (body.takeWhile (· ≠ '}')) := hp
    rw [hone, List.mem_singleton] at hp
    rw [hp] at hname
    exact absurd hname (show "x" ≠ "y" by decide)

end Scaffold.Swift
