import Scaffold.Proofs.Swift.Declaration

/-!
The readers of models as patterns. A pattern is matched by backtracking: of the ways in which it
matches at a place the preferred one is taken, a longer run before a shorter one and the first
alternative before the second. A declaration and its properties are what two such patterns find,
although the readers never go back.
-/

namespace Scaffold.Swift

open Text

/-- A place in a text, with the character before it and what has been captured on the way. -/
structure Place where
  last : Option Char
  after : List Char
  captures : List (List Char)

inductive Pattern where
  | empty
  | one (p : Char → Bool)
  | many (p : Char → Bool)
  | lineStart
  | lineEnd
  | either (first second : Pattern)
  | andThen (first second : Pattern)
  | capture (pattern : Pattern)

namespace Place

/-- The start of a text. -/
def start (cs : List Char) : Place := ⟨none, cs, []⟩

def isLineStart (s : Place) : Bool :=
  s.last = none || s.last = some '\n'

def isLineEnd (s : Place) : Bool :=
  s.after.head? = none || s.after.head? = some '\n'

/-- The place behind a run of characters of a class. -/
def skip (p : Char → Bool) (s : Place) : Place :=
  ⟨(s.after.takeWhile p).getLast?.or s.last, s.after.dropWhile p, s.captures⟩

/-- The place with the text from an earlier place on captured. -/
def capture (s t : Place) : Place :=
  { t with captures := t.captures ++ [s.after.take (s.after.length - t.after.length)] }

end Place

namespace Pattern

variable {β : Type}

/-- Goes on with `k` behind a run of a class, the longest one first. -/
def runMany (p : Char → Bool) (k : Place → Option β) (captures : List (List Char)) :
    Option Char → List Char → Option β
  | last, [] => k ⟨last, [], captures⟩
  | last, c :: cs =>
    if p c then (runMany p k captures (some c) cs).or (k ⟨last, c :: cs, captures⟩)
    else k ⟨last, c :: cs, captures⟩

/-- Matches a pattern at a place and goes on with `k` behind it. The first way in which both succeed
is taken. -/
def run : Pattern → Place → (Place → Option β) → Option β
  | empty, s, k => k s
  | one p, s, k =>
    match s.after with
    | [] => none
    | c :: cs => if p c then k ⟨some c, cs, s.captures⟩ else none
  | many p, s, k => runMany p k s.captures s.last s.after
  | lineStart, s, k => if s.isLineStart then k s else none
  | lineEnd, s, k => if s.isLineEnd then k s else none
  | either first second, s, k => (first.run s k).or (second.run s k)
  | andThen first second, s, k => first.run s fun t => second.run t k
  | capture pattern, s, k => pattern.run s fun t => k (s.capture t)

/-- The leftmost match from a place on: the place behind it. -/
def searchFrom (pattern : Pattern) : Option Char → List Char → Option Place
  | last, [] => pattern.run ⟨last, [], []⟩ some
  | last, c :: cs => (pattern.run ⟨last, c :: cs, []⟩ some).or (pattern.searchFrom (some c) cs)

def search (pattern : Pattern) (s : Place) : Option Place :=
  pattern.searchFrom s.last s.after

/-- What is captured by all matches, each one looked for behind the one before it. -/
inductive Finds (pattern : Pattern) : Place → List (List (List Char)) → Prop where
  | nil {s : Place} : pattern.search s = none → Finds pattern s []
  | cons {s t : Place} {found : List (List (List Char))} : pattern.search s = some t →
      Finds pattern t found → Finds pattern s (t.captures :: found)

/-- The characters of a word, one after the other. -/
def word (cs : List Char) : Pattern :=
  cs.foldr (fun c pattern => (one (· = c)).andThen pattern) empty

/-- A run of at least one character of a class. -/
def many1 (p : Char → Bool) : Pattern :=
  (one p).andThen (many p)

def sequence (patterns : List Pattern) : Pattern :=
  patterns.foldr andThen empty

end Pattern

open Pattern

/-- The pattern `[^{]*\{([^}]*)`. -/
def bodyPattern : Pattern :=
  sequence [many (· ≠ '{'), one (· = '{'), capture (many (· ≠ '}'))]

/-- The pattern `(?:struct|class)\s+(\w+)`, with a body behind it. -/
def declarationPattern : Pattern :=
  sequence [either (word "struct".toList) (word "class".toList), many1 isBlank,
    capture (many1 isWordChar), bodyPattern]

/-- The pattern `(.+)$`, where `$` stands at the end of a line. -/
def typePattern : Pattern :=
  sequence [capture (many1 (· ≠ '\n')), lineEnd]

/-- The pattern `\s*:\s*`, with a type behind it. -/
def colonPattern : Pattern :=
  sequence [many isBlank, one (· = ':'), many isBlank, typePattern]

/-- The pattern `^\s*(?:let|var)\s+(\w+)`, where `^` stands at the start of a line, with a colon and
a type behind it. -/
def propertyPattern : Pattern :=
  sequence [lineStart, many isBlank, either (word "let".toList) (word "var".toList), many1 isBlank,
    capture (many1 isWordChar), colonPattern]

namespace Place

variable {p : Char → Bool} {last : Option Char} {c : Char} {cs : List Char}
  {captures : List (List Char)}

theorem skip_of_pos (last : Option Char) (hc : p c = true) :
    skip p ⟨last, c :: cs, captures⟩ = skip p ⟨some c, cs, captures⟩ := by
  simp only [skip, List.takeWhile_cons_of_pos hc, List.dropWhile_cons_of_pos hc, List.getLast?_cons,
    Option.some_or]
  cases (cs.takeWhile p).getLast? <;> rfl

theorem skip_of_neg (hc : p c = false) :
    skip p ⟨last, c :: cs, captures⟩ = ⟨last, c :: cs, captures⟩ := by
  simp only [skip, List.takeWhile_cons_of_neg (Bool.eq_false_iff.1 hc),
    List.dropWhile_cons_of_neg (Bool.eq_false_iff.1 hc), List.getLast?_nil, Option.none_or]

/-- What is captured over a run is the run. -/
theorem capture_skip (s : Place) (p : Char → Bool) :
    s.capture (s.skip p) = { s.skip p with captures := s.captures ++ [s.after.takeWhile p] } := by
  have hsplit := List.takeWhile_append_dropWhile (p := p) (l := s.after)
  have htake : s.after.take (s.after.length - (s.after.dropWhile p).length) =
      s.after.takeWhile p := by
    have hlength := congrArg List.length hsplit
    rw [List.length_append] at hlength
    rw [← hlength, Nat.add_sub_cancel]
    conv => lhs; arg 2; rw [← hsplit]
    rw [List.take_left]
  simp only [capture, skip, htake]

end Place

namespace Pattern

variable {β : Type} {p : Char → Bool} {s : Place} {k : Place → Option β}

theorem runMany_eq_none {captures : List (List Char)} {last : Option Char} {cs : List Char}
    (h : runMany p k captures last cs = none) : k ⟨last, cs, captures⟩ = none := by
  cases cs with
  | nil => exact h
  | cons c cs =>
    rw [runMany] at h
    split at h
    · exact (Option.or_eq_none_iff.1 h).2
    · exact h

/-- Where a shorter run succeeds only if the next longer one does, the longest one decides. -/
theorem runMany_eq {captures : List (List Char)} (hk : ∀ last c cs, p c = true →
      k ⟨last, c :: cs, captures⟩ ≠ none → k ⟨some c, cs, captures⟩ ≠ none)
    (last : Option Char) (cs : List Char) :
    runMany p k captures last cs = k (Place.skip p ⟨last, cs, captures⟩) := by
  induction cs generalizing last with
  | nil => rfl
  | cons c cs ih =>
    rw [runMany]
    cases hc : p c with
    | false => rw [Place.skip_of_neg hc, if_neg Bool.false_ne_true]
    | true =>
      rw [Place.skip_of_pos _ hc, if_pos rfl, ← ih]
      cases hrun : runMany p k captures (some c) cs with
      | some b => rw [Option.some_or]
      | none =>
        rw [Option.none_or]
        exact Classical.byContradiction fun hne => hk last c cs hc hne (runMany_eq_none hrun)

theorem run_many (hk : ∀ last c cs, p c = true → k ⟨last, c :: cs, s.captures⟩ ≠ none →
      k ⟨some c, cs, s.captures⟩ ≠ none) :
    (many p).run s k = k (s.skip p) :=
  runMany_eq hk s.last s.after

/-- If the longest run succeeds, it is taken. -/
theorem runMany_of_some {captures : List (List Char)} {last : Option Char} {cs : List Char} {b : β}
    (h : k (Place.skip p ⟨last, cs, captures⟩) = some b) :
    runMany p k captures last cs = some b := by
  induction cs generalizing last with
  | nil => exact h
  | cons c cs ih =>
    rw [runMany]
    cases hc : p c with
    | false =>
      rw [Place.skip_of_neg hc] at h
      rw [if_neg Bool.false_ne_true, h]
    | true =>
      rw [Place.skip_of_pos _ hc] at h
      rw [if_pos rfl, ih h, Option.some_or]

theorem run_many1 (hk : ∀ last c cs, p c = true → k ⟨last, c :: cs, s.captures⟩ ≠ none →
      k ⟨some c, cs, s.captures⟩ ≠ none) :
    (many1 p).run s k = if (s.after.takeWhile p).isEmpty then none else k (s.skip p) := by
  obtain ⟨last, cs, captures⟩ := s
  cases cs with
  | nil => rfl
  | cons c cs =>
    cases hc : p c with
    | false =>
      rw [List.takeWhile_cons_of_neg (Bool.eq_false_iff.1 hc)]
      exact if_neg (Bool.eq_false_iff.1 hc)
    | true =>
      rw [List.takeWhile_cons_of_pos hc, Place.skip_of_pos _ hc]
      exact (if_pos hc).trans (runMany_eq hk _ _)

theorem run_many1_of_neg {last : Option Char} {c : Char} {cs : List Char}
    {captures : List (List Char)} (hc : p c = false) :
    (many1 p).run ⟨last, c :: cs, captures⟩ k = none :=
  if_neg (Bool.eq_false_iff.1 hc)

theorem run_word (w : List Char) (s : Place) : ∃ last, (word w).run s k =
    (after? w s.after).bind fun rest => k ⟨last, rest, s.captures⟩ := by
  induction w generalizing s with
  | nil => exact ⟨s.last, rfl⟩
  | cons c w ih =>
    obtain ⟨last, cs, captures⟩ := s
    cases cs with
    | nil => exact ⟨last, rfl⟩
    | cons d cs =>
      obtain ⟨last', hrun⟩ := ih ⟨some d, cs, captures⟩
      refine ⟨last', ?_⟩
      by_cases hd : d = c
      · subst hd
        rw [after?, if_pos rfl, ← hrun]
        exact if_pos (decide_eq_true rfl)
      · rw [after?, if_neg (Ne.symm hd)]
        exact if_neg (by simpa using hd)

/-- Of two keywords that start differently one is matched at most. -/
theorem run_keyword (first second : String)
    (h : ∀ rest, after? second.toList (first.toList ++ rest) = none) (s : Place) : ∃ last,
    (either (word first.toList) (word second.toList)).run s k =
      (afterKeyword? first second s.after).bind fun rest => k ⟨last, rest, s.captures⟩ := by
  obtain ⟨last₁, hfirst⟩ := run_word (k := k) first.toList s
  obtain ⟨last₂, hsecond⟩ := run_word (k := k) second.toList s
  rw [run, hfirst, hsecond, afterKeyword?]
  cases hafter : after? first.toList s.after with
  | none => exact ⟨last₂, rfl⟩
  | some rest =>
    rw [after?_eq_some_iff.1 hafter, h rest]
    exact ⟨last₁, Option.or_none⟩

theorem run_capture {pattern : Pattern} :
    (capture pattern).run s k = pattern.run s fun t => k (s.capture t) := rfl

theorem run_sequence_nil : (sequence []).run s k = k s := rfl

theorem run_sequence_cons {pattern : Pattern} {patterns : List Pattern} :
    (sequence (pattern :: patterns)).run s k =
      pattern.run s fun t => (sequence patterns).run t k := rfl

/-- White space and a word are matched as they are read, if what follows does not match within the
word or else also behind it. -/
theorem run_spacedWord (hk : ∀ last c cs captures captures', isWordChar c = true →
      k ⟨last, c :: cs, captures⟩ ≠ none → k ⟨some c, cs, captures'⟩ ≠ none) (s : Place) :
    ∃ last, ((many1 isBlank).run s fun t => (many1 isWordChar).run t fun u => k (t.capture u)) =
      (spacedWord? s.after).bind fun read => k ⟨last, read.2, s.captures ++ [read.1]⟩ := by
  refine ⟨((s.skip isBlank).skip isWordChar).last, ?_⟩
  rw [run_many1]
  · rw [run_many1]
    · rw [Place.capture_skip, spacedWord?]
      simp only [Place.skip]
      cases (s.after.takeWhile isBlank).isEmpty with
      | true => rfl
      | false => by_cases hword : ((s.after.dropWhile isBlank).takeWhile isWordChar).isEmpty <;>
          simp [hword]
    · exact fun last c cs hc hne => hk last c cs _ _ hc hne
  · intro last c cs hc hne
    exact absurd (run_many1_of_neg (isWordChar_of_isBlank hc)) hne

/-- A body is found behind the next brace. -/
theorem run_bodyPattern (s : Place) : (bodyPattern.run s some).map Place.captures =
    match s.after.dropWhile (· ≠ '{') with
    | [] => none
    | _ :: body => some (s.captures ++ [body.takeWhile (· ≠ '}')]) := by
  simp only [bodyPattern, run_sequence_cons, run_sequence_nil, run_capture]
  rw [run_many]
  · have hafter : (s.skip (· ≠ '{')).after = s.after.dropWhile (· ≠ '{') := rfl
    rw [run, hafter]
    have hhead := List.head?_dropWhile_not (fun c => decide (c ≠ '{')) s.after
    cases hdrop : s.after.dropWhile (· ≠ '{') with
    | nil => rfl
    | cons c body =>
      rw [hdrop] at hhead
      have hc : decide (c = '{') = true := by simpa using hhead
      simp only [hc, if_true]
      rw [run_many]
      · rw [Place.capture_skip]
        rfl
      · exact fun _ _ _ _ _ => Option.some_ne_none _
  · intro last c cs hc hne
    exact absurd (if_neg (by simpa using hc)) hne

theorem run_bodyPattern_ne_none_iff (s : Place) :
    bodyPattern.run s some ≠ none ↔ '{' ∈ s.after := by
  have hbody := congrArg Option.isSome (run_bodyPattern s)
  rw [Option.isSome_map] at hbody
  rw [← Option.isSome_iff_ne_none, hbody, ← dropWhile_ne_ne_nil_iff]
  cases s.after.dropWhile (· ≠ '{') <;> simp

/-- A declaration that starts at a place is what the pattern matches there. -/
theorem run_declarationPattern (last : Option Char) (cs : List Char) :
    (declarationPattern.run ⟨last, cs, []⟩ some).map Place.captures =
      (declaration? cs).map fun read => [read.1, read.2] := by
  simp only [declarationPattern, run_sequence_cons, run_sequence_nil, run_capture]
  obtain ⟨last, hkeyword⟩ := run_keyword "struct" "class"
    (k := fun t => (many1 isBlank).run t fun t => (many1 isWordChar).run t fun u =>
      bodyPattern.run (t.capture u) some) (fun _ => rfl) ⟨last, cs, []⟩
  rw [hkeyword, declaration?]
  cases hafter : afterKeyword? "struct" "class" cs with
  | none => rfl
  | some rest =>
    simp only [Option.bind_some, Option.bind_eq_bind]
    obtain ⟨last, hword⟩ := run_spacedWord (k := fun t => bodyPattern.run t some)
      (fun last c cs captures captures' hc hne => by
        rw [run_bodyPattern_ne_none_iff] at hne ⊢
        refine (List.mem_cons.1 hne).resolve_left ?_
        rintro rfl
        exact absurd hc (by decide +kernel)) ⟨last, rest, []⟩
    rw [hword]
    cases spacedWord? rest with
    | none => rfl
    | some read =>
      simp only [Option.bind_some, run_bodyPattern]
      cases read.2.dropWhile (· ≠ '{') <;> rfl

/-- The first declaration is what the pattern finds. -/
theorem searchFrom_declarationPattern (last : Option Char) (cs : List Char) :
    (declarationPattern.searchFrom last cs).map Place.captures =
      (firstDeclaration? cs).map fun read => [read.1, read.2] := by
  induction cs generalizing last with
  | nil => exact run_declarationPattern last []
  | cons c cs ih =>
    rw [searchFrom, firstDeclaration?, Option.map_or, Option.map_or, run_declarationPattern, ih]

/-- The place is within a line, in front of `rest`, or of white space if nothing is left. -/
def Stops (t : Place) (rest : List Char) : Prop :=
  t.isLineStart = false ∧ (t.after = rest ∨ rest = [] ∧ IsGap t.after)

theorem isLineStart_skip (h : (s.after.takeWhile (· ≠ '\n')).isEmpty = false) :
    (s.skip (· ≠ '\n')).isLineStart = false := by
  have hne : s.after.takeWhile (· ≠ '\n') ≠ [] := by
    rintro heq
    rw [heq] at h
    cases h
  have hlast : (s.skip (· ≠ '\n')).last = some ((s.after.takeWhile (· ≠ '\n')).getLast hne) := by
    rw [Place.skip, List.getLast?_eq_some_getLast hne, Option.some_or]
  have hline := List.all_eq_true.1 List.all_takeWhile _ (List.getLast_mem hne)
  rw [Place.isLineStart, hlast]
  simpa using hline

theorem isLineEnd_skip (s : Place) : (s.skip (· ≠ '\n')).isLineEnd = true := by
  have hhead := List.head?_dropWhile_not (fun c => decide (c ≠ '\n')) s.after
  rw [Place.isLineEnd, Place.skip]
  cases hdrop : s.after.dropWhile (· ≠ '\n') with
  | nil => rfl
  | cons c rest =>
    rw [hdrop] at hhead
    simpa using hhead

/-- A type is the text up to the end of the line, if there is any. -/
theorem run_typePattern (s : Place) : typePattern.run s some =
    if (s.after.takeWhile (· ≠ '\n')).isEmpty then none
    else some { s.skip (· ≠ '\n') with
      captures := s.captures ++ [s.after.takeWhile (· ≠ '\n')] } := by
  simp only [typePattern, run_sequence_cons, run_sequence_nil, run_capture]
  rw [run_many1]
  · rw [Place.capture_skip]
    split
    · rfl
    · exact if_pos (isLineEnd_skip s)
  · intro last c cs hc hne
    refine absurd (if_neg ?_) hne
    simpa [Place.isLineEnd, Place.capture] using hc

theorem isPrefix_beforeValue (cs : List Char) : beforeValue cs <+: cs := by
  induction cs with
  | nil => exact List.prefix_rfl
  | cons c cs ih =>
    rw [beforeValue]
    split
    · exact List.nil_prefix
    · exact List.cons_prefix_cons.2 ⟨rfl, ih⟩

/-- In white space at the end of a body the type is what stands before a line end or the end of the
text: the pattern gives back white space that it has taken already. -/
theorem runMany_typePattern_of_gap {cs : List Char} {captures : List (List Char)} (hgap : IsGap cs)
    (last : Option Char) :
    if cs.all (· = '\n') then
      runMany isBlank (fun t => typePattern.run t some) captures last cs = none
    else ∃ t raw, runMany isBlank (fun t => typePattern.run t some) captures last cs = some t ∧
      t.captures = captures ++ [raw] ∧ IsGap raw ∧ t.isLineStart = false ∧ IsGap t.after := by
  induction cs generalizing last with
  | nil => rfl
  | cons c cs ih =>
    have hblank : isBlank c = true := hgap c List.mem_cons_self
    have ih := ih (fun d hd => hgap d (List.mem_cons_of_mem _ hd)) (some c)
    rw [runMany, if_pos hblank, run_typePattern, List.all_cons]
    cases hall : cs.all (· = '\n') with
    | false =>
      rw [hall] at ih
      obtain ⟨t, raw, hrun, ht⟩ := ih
      rw [Bool.and_false]
      exact ⟨t, raw, by rw [hrun, Option.some_or], ht⟩
    | true =>
      rw [hall] at ih
      rw [Bool.and_true, show runMany _ _ _ _ _ = none from ih, Option.none_or]
      by_cases hc : c = '\n'
      · subst hc
        rfl
      · have hne : ((c :: cs).takeWhile (· ≠ '\n')).isEmpty = false := by simp [hc]
        rw [decide_eq_false hc, if_neg Bool.false_ne_true, if_neg (Bool.eq_false_iff.1 hne)]
        exact ⟨_, _, rfl, rfl, fun d hd => hgap d ((List.takeWhile_sublist _).subset hd),
          isLineStart_skip hne, fun d hd => hgap d ((List.dropWhile_sublist (· ≠ '\n')).subset hd)⟩

/-- The type behind a colon is matched as it is read, but for what is left over at the end. -/
theorem run_afterColon (s : Place) :
    match typeAfterColon? s.after with
    | none => ((many isBlank).run s fun t => typePattern.run t some) = none
    | some (type, rest) => ∃ t raw,
        ((many isBlank).run s fun t => typePattern.run t some) = some t ∧ t.captures = s.captures ++ [raw] ∧ trim (beforeValue raw) = type ∧ Stops t rest := by
  obtain ⟨last, cs, captures⟩ := s
  have hhead := List.head?_dropWhile_not isBlank cs
  have hsplit := List.takeWhile_append_dropWhile (p := isBlank) (l := cs)
  simp only [typeAfterColon?, run]
  cases hdrop : cs.dropWhile isBlank with
  | nil =>
    have hgap : IsGap cs := by
      rw [hdrop, List.append_nil] at hsplit
      rw [← hsplit]
      exact fun c hc => List.all_eq_true.1 List.all_takeWhile c hc
    have hrun := @runMany_typePattern_of_gap cs captures hgap last
    cases hall : cs.all (· = '\n') with
    | true =>
      rw [hall] at hrun
      exact hrun
    | false =>
      rw [hall] at hrun
      obtain ⟨t, raw, hrun, hcaptures, hraw, hline, hafter⟩ := hrun
      refine ⟨t, raw, hrun, hcaptures, ?_, hline, .inr ⟨rfl, hafter⟩⟩
      exact trim_of_gap fun c hc => hraw c ((isPrefix_beforeValue raw).subset hc)
  | cons c rest =>
    rw [hdrop] at hhead
    have hc : c ≠ '\n' := by
      rintro rfl
      cases hhead
    have hafter : (Place.skip isBlank ⟨last, cs, captures⟩).after = c :: rest := hdrop
    have hne : ((Place.skip isBlank ⟨last, cs, captures⟩).after.takeWhile (· ≠ '\n')).isEmpty =
        false := by
      rw [hafter]
      simp [hc]
    have htype := run_typePattern (Place.skip isBlank ⟨last, cs, captures⟩)
    rw [if_neg (Bool.eq_false_iff.1 hne)] at htype
    refine ⟨_, _, runMany_of_some htype, rfl, by rw [hafter], isLineStart_skip hne, .inl ?_⟩
    show (Place.skip isBlank ⟨last, cs, captures⟩).after.dropWhile (· ≠ '\n') = _
    rw [hafter, List.dropWhile_cons_of_pos (by simpa using hc)]

/-! ### Properties -/

/-- A property as it is read from what the pattern captures. -/
def readProperty (name raw : List Char) : StoredProperty :=
  ⟨String.ofList name, ⟨String.ofList (trim (beforeValue raw))⟩⟩

theorem run_many_of_neg {last : Option Char} {c : Char} {cs : List Char}
    {captures : List (List Char)} (hc : p c = false) :
    (many p).run ⟨last, c :: cs, captures⟩ k = k ⟨last, c :: cs, captures⟩ :=
  if_neg (Bool.eq_false_iff.1 hc)

/-- What is matched is what is read: nothing, or a property and a place behind it. -/
def IsRead (matched : Option Place) : Option (StoredProperty × List Char) → Prop
  | none => matched = none
  | some (property, rest) => ∃ t name raw, matched = some t ∧ t.captures = [name, raw] ∧
      property = readProperty name raw ∧ Stops t rest

theorem run_lineStart : lineStart.run s k = if s.isLineStart then k s else none := rfl

theorem run_one_of_neg {last : Option Char} {c : Char} {cs : List Char}
    {captures : List (List Char)} (hc : p c = false) :
    (one p).run ⟨last, c :: cs, captures⟩ k = none :=
  if_neg (Bool.eq_false_iff.1 hc)

theorem run_one_of_pos {last : Option Char} {c : Char} {cs : List Char}
    {captures : List (List Char)} (hc : p c = true) :
    (one p).run ⟨last, c :: cs, captures⟩ k = k ⟨some c, cs, captures⟩ :=
  if_pos hc

/-- White space before a colon is not given back. -/
theorem run_colonPattern (s : Place) : colonPattern.run s some =
    (one (· = ':')).run (s.skip isBlank) fun t =>
      (many isBlank).run t fun t => typePattern.run t some := by
  simp only [colonPattern, run_sequence_cons, run_sequence_nil]
  rw [run_many]
  intro last c cs hc hne
  refine absurd (run_one_of_neg ?_) hne
  rw [decide_eq_false_iff_not]
  rintro rfl
  cases hc

theorem run_colonPattern_of_colon {last : Option Char} {cs rest : List Char}
    {captures : List (List Char)} (h : cs.dropWhile isBlank = ':' :: rest) :
    colonPattern.run ⟨last, cs, captures⟩ some =
      (many isBlank).run ⟨some ':', rest, captures⟩ fun t => typePattern.run t some := by
  rw [run_colonPattern, Place.skip, h]
  exact run_one_of_pos rfl

theorem run_colonPattern_of_ne {last : Option Char} {cs : List Char} {captures : List (List Char)}
    (h : ∀ rest, cs.dropWhile isBlank = ':' :: rest → False) :
    colonPattern.run ⟨last, cs, captures⟩ some = none := by
  rw [run_colonPattern, Place.skip]
  cases hdrop : cs.dropWhile isBlank with
  | nil => rfl
  | cons c rest =>
    refine run_one_of_neg (decide_eq_false ?_)
    rintro rfl
    exact h rest hdrop

theorem run_colonPattern_of_word {last : Option Char} {c : Char} {cs : List Char}
    {captures : List (List Char)} (hc : isWordChar c = true) :
    colonPattern.run ⟨last, c :: cs, captures⟩ some = none := by
  have hcolon : c ≠ ':' := by
    rintro rfl
    exact absurd hc (by decide +kernel)
  simp only [colonPattern, run_sequence_cons, run_sequence_nil]
  rw [run_many_of_neg (isBlank_of_isWordChar hc)]
  exact run_one_of_neg (decide_eq_false hcolon)

theorem isRead_of_colon {last : Option Char} {cs rest name : List Char}
    (h : cs.dropWhile isBlank = ':' :: rest) :
    IsRead (colonPattern.run ⟨last, cs, [name]⟩ some)
      ((typeAfterColon? rest).bind fun read =>
        some (⟨String.ofList name, ⟨String.ofList read.1⟩⟩, read.2)) := by
  rw [run_colonPattern_of_colon h]
  have htype := run_afterColon ⟨some ':', rest, [name]⟩
  cases hread : typeAfterColon? rest with
  | none =>
    simp only [hread] at htype
    exact htype
  | some type =>
    simp only [hread] at htype
    obtain ⟨t, raw, hrun, hcaptures, htrim, hstops⟩ := htype
    exact ⟨t, name, raw, hrun, hcaptures, by rw [readProperty, htrim], hstops⟩

/-- No keyword starts with white space. -/
theorem run_keyword_of_blank {last : Option Char} {c : Char} {cs : List Char}
    {captures : List (List Char)} (hc : isBlank c = true) :
    (either (word "let".toList) (word "var".toList)).run ⟨last, c :: cs, captures⟩ k = none := by
  obtain ⟨last', hkeyword⟩ := run_keyword (k := k) "let" "var" (fun _ => rfl)
    ⟨last, c :: cs, captures⟩
  rw [hkeyword]
  cases hafter : afterKeyword? "let" "var" (c :: cs) with
  | none => rfl
  | some rest =>
    obtain ⟨keyword, hkeyword, heq⟩ := exists_keyword_of_afterKeyword? hafter
    rcases hkeyword with rfl | rfl
    · cases heq
      cases hc
    · cases heq
      cases hc

/-- A property that starts at a line is what the pattern matches there. -/
theorem run_propertyPattern (last : Option Char) (cs : List Char)
    (hline : Place.isLineStart ⟨last, cs, []⟩ = true) :
    IsRead (propertyPattern.run ⟨last, cs, []⟩ some) (storedProperty? cs) := by
  simp only [propertyPattern, run_sequence_cons, run_sequence_nil, run_capture, run_lineStart,
    hline, if_true]
  rw [run_many fun _ _ _ hc hne => absurd (run_keyword_of_blank hc) hne]
  obtain ⟨last₁, hkeyword⟩ := run_keyword "let" "var"
    (k := fun t => (many1 isBlank).run t fun t => (many1 isWordChar).run t fun u =>
      colonPattern.run (t.capture u) some) (fun _ => rfl) (Place.skip isBlank ⟨last, cs, []⟩)
  have hafter : (Place.skip isBlank ⟨last, cs, []⟩).after = cs.dropWhile isBlank := rfl
  have hcaptures : (Place.skip isBlank ⟨last, cs, []⟩).captures = [] := rfl
  rw [hkeyword, storedProperty?, hafter, hcaptures]
  cases afterKeyword? "let" "var" (cs.dropWhile isBlank) with
  | none => rfl
  | some rest =>
    simp only [Option.bind_some, Option.bind_eq_bind]
    obtain ⟨last₂, hword⟩ := run_spacedWord (k := fun t => colonPattern.run t some)
      (fun last c cs captures captures' hc hne => absurd (run_colonPattern_of_word hc) hne)
      ⟨last₁, rest, []⟩
    rw [hword]
    cases spacedWord? rest with
    | none => rfl
    | some read =>
      simp only [Option.bind_some]
      split
      · next hcolon => exact isRead_of_colon hcolon
      · next hne => exact run_colonPattern_of_ne hne

theorem run_propertyPattern_of_not_lineStart {last : Option Char} {cs : List Char}
    (hline : Place.isLineStart ⟨last, cs, []⟩ = false) :
    propertyPattern.run ⟨last, cs, []⟩ some = none := by
  simp only [propertyPattern, run_sequence_cons, run_lineStart, hline, Bool.false_eq_true, if_false]

/-- Within a line nothing is found before the next line. -/
theorem searchFrom_nextLine {last : Option Char} {cs : List Char}
    (h : propertyPattern.run ⟨last, cs, []⟩ some = none) :
    propertyPattern.searchFrom last cs = propertyPattern.searchFrom (some '\n') (nextLine cs) := by
  induction cs generalizing last with
  | nil =>
    have hnone : storedProperty? [] = none := rfl
    have hread := run_propertyPattern (some '\n') [] rfl
    rw [hnone] at hread
    exact h.trans hread.symm
  | cons c cs ih =>
    rw [searchFrom, h, Option.none_or]
    by_cases hc : c = '\n'
    · subst hc
      rfl
    · have hnext : nextLine (c :: cs) = nextLine cs := by
        rw [nextLine, List.dropWhile_cons_of_pos (by simpa using hc), nextLine]
      rw [hnext]
      exact ih (run_propertyPattern_of_not_lineStart (by simp [Place.isLineStart, hc]))

theorem searchFrom_of_gap {last : Option Char} {gap : List Char} (h : IsGap gap) :
    propertyPattern.searchFrom last gap = none := by
  have hrun (last : Option Char) {gap : List Char} (h : IsGap gap) :
      propertyPattern.run ⟨last, gap, []⟩ some = none := by
    cases hline : Place.isLineStart ⟨last, gap, []⟩ with
    | false => exact run_propertyPattern_of_not_lineStart hline
    | true =>
      have hnone : storedProperty? gap = none := by
        rw [storedProperty?, dropWhile_of_gap h]
        rfl
      have hread := run_propertyPattern last gap hline
      rwa [hnone] at hread
  induction gap generalizing last with
  | nil => exact hrun last h
  | cons c gap ih =>
    rw [searchFrom, hrun last h, Option.none_or]
    exact ih fun d hd => h d (List.mem_cons_of_mem _ hd)

theorem searchFrom_of_run {pattern : Pattern} {last : Option Char} {cs : List Char} {t : Place}
    (h : pattern.run ⟨last, cs, []⟩ some = some t) : pattern.searchFrom last cs = some t := by
  cases cs with
  | nil => exact h
  | cons c cs => rw [searchFrom, h, Option.some_or]

namespace Finds

variable {pattern : Pattern} {t : Place} {found found' : List (List (List Char))}

theorem congr (hsearch : pattern.search s = pattern.search t) (h : Finds pattern t found) :
    Finds pattern s found := by
  cases h with
  | nil hnone => exact .nil (hsearch.trans hnone)
  | cons hsome hrest => exact .cons (hsearch.trans hsome) hrest

theorem unique (h : Finds pattern s found) (h' : Finds pattern s found') : found' = found := by
  induction h generalizing found' with
  | nil hnone =>
    cases h' with
    | nil _ => rfl
    | cons hsome _ => cases hnone.symm.trans hsome
  | cons hsome _ ih =>
    cases h' with
    | nil hnone => cases hnone.symm.trans hsome
    | cons hsome' hrest =>
      cases hsome.symm.trans hsome'
      rw [ih hrest]

end Finds

/-- From the start of a line on the pattern finds the properties that are read. -/
theorem exists_finds_storedProperties (cs : List Char) :
    ∀ s : Place, s.isLineStart = true → s.after = cs → ∃ found : List (List Char × List Char),
      Finds propertyPattern s (found.map fun read => [read.1, read.2]) ∧
        storedProperties cs = found.map fun read => readProperty read.1 read.2 := by
  induction cs using storedProperties.induct with
  | case1 =>
    rintro ⟨last, _, _⟩ - rfl
    refine ⟨[], .nil (searchFrom_of_gap (List.forall_mem_nil _)), ?_⟩
    rw [storedProperties]
    rfl
  | case2 cs hne p rest hread ih =>
    rintro ⟨last, after, captures⟩ hline rfl
    have hrun := run_propertyPattern last after hline
    rw [show storedProperty? after = _ from hread] at hrun
    obtain ⟨t, name, raw, hrun, hcaptures, rfl, hinside, hafter⟩ := hrun
    have hsearch : propertyPattern.search ⟨last, after, captures⟩ = some t := searchFrom_of_run hrun
    have hnext : propertyPattern.search t =
        propertyPattern.search ⟨some '\n', nextLine t.after, []⟩ :=
      searchFrom_nextLine (run_propertyPattern_of_not_lineStart hinside)
    have hcons {found : List (List (List Char))} (h : Finds propertyPattern t found) :
        Finds propertyPattern ⟨last, after, captures⟩ ([name, raw] :: found) := by
      rw [← hcaptures]
      exact .cons hsearch h
    rw [storedProperties_of_some hread]
    rcases hafter with rfl | ⟨rfl, hgap⟩
    · obtain ⟨found, hfinds, hproperties⟩ := ih ⟨some '\n', nextLine t.after, []⟩ rfl rfl
      exact ⟨(name, raw) :: found, hcons (hfinds.congr hnext), by rw [hproperties, List.map_cons]⟩
    · refine ⟨[(name, raw)], hcons (.nil (searchFrom_of_gap hgap)), ?_⟩
      have hend : nextLine [] = [] := rfl
      rw [hend, storedProperties]
      rfl
  | case3 cs hne hread ih =>
    rintro ⟨last, after, captures⟩ hline rfl
    have hrun := run_propertyPattern last after hline
    rw [show storedProperty? after = _ from hread] at hrun
    obtain ⟨found, hfinds, hproperties⟩ := ih ⟨some '\n', nextLine after, []⟩ rfl rfl
    have hnext : propertyPattern.search ⟨last, after, captures⟩ =
        propertyPattern.search ⟨some '\n', nextLine after, []⟩ := searchFrom_nextLine hrun
    refine ⟨found, hfinds.congr hnext, ?_⟩
    rw [storedProperties_of_none hread, hproperties]

end Pattern

/-- A model is what the two patterns find: the first declaration in the text, and all properties in
its body. -/
theorem parse?_eq_some_iff_finds {text : String} {m : Model} : Model.parse? text = some m ↔
    ∃ place name body, declarationPattern.search (.start text.toList) = some place ∧
      place.captures = [name, body] ∧ ∃ found : List (List Char × List Char),
        Finds propertyPattern (.start body) (found.map fun read => [read.1, read.2]) ∧
        m = ⟨String.ofList name, found.map fun read => readProperty read.1 read.2⟩ := by
  have hsearch := searchFrom_declarationPattern none text.toList
  rw [Model.parse?]
  constructor
  · intro h
    obtain ⟨⟨name, body⟩, hfirst, hm⟩ := Option.bind_eq_some_iff.1 h
    cases hm
    rw [hfirst] at hsearch
    obtain ⟨place, hplace, hcaptures⟩ := Option.map_eq_some_iff.1 hsearch
    obtain ⟨found, hfinds, hproperties⟩ := exists_finds_storedProperties body (.start body) rfl rfl
    exact ⟨place, name, body, hplace, hcaptures, found, hfinds, by rw [hproperties]⟩
  · rintro ⟨place, name, body, hplace, hcaptures, found, hfinds, rfl⟩
    rw [show declarationPattern.searchFrom none text.toList = some place from hplace,
      Option.map_some, hcaptures] at hsearch
    obtain ⟨⟨name', body'⟩, hfirst, heq⟩ := Option.map_eq_some_iff.1 hsearch.symm
    obtain ⟨rfl, hbody⟩ : name' = name ∧ [body'] = [body] := List.cons.inj heq
    obtain rfl : body' = body := (List.cons.inj hbody).1
    obtain ⟨found', hfinds', hproperties⟩ :=
      exists_finds_storedProperties body' (.start body') rfl rfl
    have hinjective (read read' : List Char × List Char)
        (h : [read.1, read.2] = [read'.1, read'.2]) : read = read' := by
      obtain ⟨hname, hraw⟩ := List.cons.inj h
      exact Prod.ext hname (List.cons.inj hraw).1
    obtain rfl := (List.map_inj_right hinjective).1 (hfinds.unique hfinds')
    rw [hfirst]
    simp only [Option.bind_eq_bind, Option.bind_some, hproperties]
    rfl

end Scaffold.Swift
