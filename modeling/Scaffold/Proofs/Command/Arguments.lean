import Scaffold.Command.Arguments
import Scaffold.Proofs.Result

/-!
What the arguments of a command give: options with their values and operands, one after the other,
however they are spelled. Reading the arguments succeeds if and only if they give something and
all of it can be collected in this order. Only which error is reported may depend on the spelling,
as the value of an option is looked at when it is known what follows it. The reading ends for misuse
or for what an option asks for.
-/

namespace Scaffold.Command

/-- An option with its value, which is empty if the option takes none, or an operand. -/
inductive Given where
  | option (name value : String)
  | operand (text : String)
  deriving DecidableEq, Repr

/-- The values of an option, in order. -/
def valuesOf (name : String) (given : List Given) : List String :=
  given.filterMap fun
    | .option other value => if other = name then some value else none
    | .operand _ => none

/-- The operands, in order. -/
def operandsOf (given : List Given) : List String :=
  given.filterMap fun
    | .option .. => none
    | .operand text => some text

@[simp] theorem valuesOf_nil (name : String) : valuesOf name [] = [] :=
  rfl

@[simp] theorem operandsOf_nil : operandsOf [] = [] :=
  rfl

@[simp] theorem valuesOf_option (name other value : String) (given : List Given) :
    valuesOf name (.option other value :: given) =
      if other = name then value :: valuesOf name given else valuesOf name given := by
  by_cases h : other = name <;> simp [valuesOf, h]

@[simp] theorem valuesOf_operand (name text : String) (given : List Given) :
    valuesOf name (.operand text :: given) = valuesOf name given := by
  simp [valuesOf]

@[simp] theorem operandsOf_option (name value : String) (given : List Given) :
    operandsOf (.option name value :: given) = operandsOf given := by
  simp [operandsOf]

@[simp] theorem operandsOf_operand (text : String) (given : List Given) :
    operandsOf (.operand text :: given) = text :: operandsOf given := by
  simp [operandsOf]

variable {σ : Type}

/-- The last option that has been read is one of those of the grammar. -/
def Reading.IsOf (r : Reading σ) (g : Grammar σ) : Prop :=
  ∀ q ∈ r.pending?, q.1 ∈ g.parameters

namespace Grammar

variable {g : Grammar σ} {s s' : σ} {p : Parameter σ} {r : Reading σ}

/-- What letters that share a dash give, and the last option if its value is the next argument. -/
def givenLetters? (g : Grammar σ) : List Char → Option (List Given × Option (Parameter σ))
  | [] => some ([], none)
  | c :: cs => do
    let p ← g.parameters.find? (·.letter? = some c)
    if p.takesValue then
      match cs with
      | [] => some ([], some p)
      | '=' :: value => some ([.option p.name (String.ofList value)], none)
      | value => some ([.option p.name (String.ofList value)], none)
    else
      let (given, awaiting?) ← g.givenLetters? cs
      some (.option p.name "" :: given, awaiting?)

/-- What an option with a long name gives, or the option if its value is the next argument. -/
def givenLong? (g : Grammar σ) (name : String) (value? : Option String) :
    Option (List Given × Option (Parameter σ)) := do
  let p ← g.parameters.find? (·.name = name)
  match p.takesValue, value? with
  | false, some _ => none
  | false, none => some ([.option p.name ""], none)
  | true, some value => some ([.option p.name value], none)
  | true, none => some ([], some p)

/-- What arguments give, the first of which is the value of an option if one awaits it. -/
def given? (g : Grammar σ) : Option (Parameter σ) → List String → Option (List Given)
  | none, [] => some []
  | some _, [] => none
  | some p, argument :: arguments =>
    match Word.ofString argument with
    | .plain value => (g.given? none arguments).map (.option p.name value :: ·)
    | _ => none
  | none, argument :: arguments =>
    match Word.ofString argument with
    | .dashes => some (arguments.map .operand)
    | .long name value? => do
      let (given, awaiting?) ← g.givenLong? name value?
      (g.given? awaiting? arguments).map (given ++ ·)
    | .letters cs => do
      let (given, awaiting?) ← g.givenLetters? cs
      (g.given? awaiting? arguments).map (given ++ ·)
    | .plain text => (g.given? none arguments).map (.operand text :: ·)

/-- Collects something that is given. -/
def collect (g : Grammar σ) (s : σ) : Given → Except Halt σ
  | .option name value =>
    match g.parameters.find? (·.name = name) with
    | some p => p.give value s
    | none => .error (.misuse (.unknownOption ("--" ++ name)))
  | .operand text => do return (← g.readOperand ⟨s, none⟩ text).collected

/-- No two options have the same name, and options say nothing about the operand. -/
structure Lawful (g : Grammar σ) : Prop where
  nodup_names : (g.parameters.map Parameter.name).Nodup
  isGiven_eq {p : Parameter σ} {operand : Operand σ} {value : String} {s s' : σ} :
    p ∈ g.parameters → g.operand? = some operand → p.give value s = .ok s' →
      operand.isGiven s' = operand.isGiven s

theorem Lawful.find?_name (hg : g.Lawful) (hp : p ∈ g.parameters) :
    g.parameters.find? (·.name = p.name) = some p := by
  have hnodup := hg.nodup_names
  generalize g.parameters = ps at hp hnodup
  induction ps with
  | nil => cases hp
  | cons first ps ih =>
    obtain ⟨hfirst, hnodup⟩ := List.nodup_cons.1 hnodup
    rcases List.mem_cons.1 hp with rfl | hp
    · simp
    · have hne : first.name ≠ p.name := fun heq => hfirst (heq ▸ List.mem_map_of_mem hp)
      rw [List.find?_cons_of_neg (by simpa using hne)]
      exact ih hp hnodup

theorem Lawful.collect_option (hg : g.Lawful) (hp : p ∈ g.parameters) (value : String) :
    g.collect s (.option p.name value) = p.give value s := by
  rw [collect, hg.find?_name hp]

/-- The reading after something has been collected, when an option may await its value. -/
def readingOf (s : σ) (awaiting? : Option (Parameter σ)) : Reading σ :=
  ⟨s, awaiting?.map (·, none)⟩

/-- What is given has been collected, and this is the reading after it. -/
def Collects (g : Grammar σ) (s : σ) (found? : Option (List Given × Option (Parameter σ)))
    (r : Reading σ) : Prop :=
  ∃ given awaiting?, found? = some (given, awaiting?) ∧
    ∃ s', given.foldlM g.collect s = .ok s' ∧ r = readingOf s' awaiting?

theorem error_eq_ok_iff {h : Halt} :
    (.error h : Except Halt (Reading σ)) = .ok r ↔ g.Collects s none r := by
  constructor
  · rintro ⟨⟩
  · rintro ⟨_, _, ⟨⟩, -⟩

theorem collects_nil (awaiting? : Option (Parameter σ)) :
    g.Collects s (some ([], awaiting?)) r ↔ r = readingOf s awaiting? := by
  constructor
  · rintro ⟨_, _, ⟨⟩, _, ⟨⟩, rfl⟩
    rfl
  · rintro rfl
    exact ⟨[], awaiting?, rfl, s, rfl, rfl⟩

theorem Lawful.collects_cons (hg : g.Lawful) (hp : p ∈ g.parameters) (value : String)
    (found? : Option (List Given × Option (Parameter σ))) :
    g.Collects s (found?.map fun found => (.option p.name value :: found.1, found.2)) r ↔
      ∃ s', p.give value s = .ok s' ∧ g.Collects s' found? r := by
  constructor
  · rintro ⟨_, _, hfound, s₂, hcollect, rfl⟩
    obtain ⟨⟨given, awaiting?⟩, rfl, ⟨⟩⟩ := Option.map_eq_some_iff.1 hfound
    rw [List.foldlM_cons, hg.collect_option hp, bind_eq_ok_iff] at hcollect
    obtain ⟨s₁, hgive, hcollect⟩ := hcollect
    exact ⟨s₁, hgive, given, awaiting?, rfl, s₂, hcollect, rfl⟩
  · rintro ⟨s₁, hgive, given, awaiting?, rfl, s₂, hcollect, rfl⟩
    refine ⟨_, _, rfl, s₂, ?_, rfl⟩
    rw [List.foldlM_cons, hg.collect_option hp, bind_eq_ok_iff]
    exact ⟨s₁, hgive, hcollect⟩

theorem Lawful.collects_option (hg : g.Lawful) (hp : p ∈ g.parameters) {value : String} :
    g.Collects s (some ([.option p.name value], none)) r ↔
      ∃ s', p.give value s = .ok s' ∧ r = ⟨s', none⟩ :=
  (hg.collects_cons hp value (some ([], none))).trans
    (exists_congr fun _ => and_congr_right fun _ => collects_nil none)

theorem ok_eq_ok_iff {r' : Reading σ} : (.ok r' : Except Halt (Reading σ)) = .ok r ↔ r = r' := by
  rw [Except.ok.injEq, eq_comm]

theorem give_eq_ok_iff {value : String} :
    (do return ⟨← p.give value s, none⟩ : Except Halt (Reading σ)) = .ok r ↔
      ∃ s', p.give value s = .ok s' ∧ r = ⟨s', none⟩ := by
  rw [bind_eq_ok_iff]
  exact exists_congr fun s' => and_congr_right fun _ => ok_eq_ok_iff

theorem Lawful.readLetters_eq_ok_iff (hg : g.Lawful) {cs : List Char} :
    g.readLetters ⟨s, none⟩ cs = .ok r ↔ g.Collects s (g.givenLetters? cs) r := by
  induction cs generalizing s with
  | nil =>
    exact ok_eq_ok_iff.trans (collects_nil none).symm
  | cons c cs ih =>
    rw [readLetters, givenLetters?]
    cases hfind : g.parameters.find? (·.letter? = some c) with
    | none => exact error_eq_ok_iff
    | some p =>
      have hp := List.mem_of_find?_eq_some hfind
      simp only [Reading.settle, Option.bind_eq_bind, Option.bind_some]
      cases p.takesValue with
      | true =>
        simp only [if_true]
        rcases cs with _ | ⟨first, rest⟩
        · exact ok_eq_ok_iff.trans (collects_nil (some p)).symm
        · by_cases hfirst : first = '='
          · subst hfirst
            exact give_eq_ok_iff.trans (hg.collects_option hp).symm
          · simp only [List.cons.injEq, hfirst, false_and, imp_self, implies_true]
            exact give_eq_ok_iff.trans (hg.collects_option hp).symm
      | false =>
        have hcons := hg.collects_cons (s := s) (r := r) hp "" (g.givenLetters? cs)
        rw [Option.map_eq_bind] at hcons
        refine Iff.trans ?_ hcons.symm
        exact (bind_eq_ok_iff (x := p.give "" s)).trans
          (exists_congr fun s' => and_congr_right fun _ => ih)

theorem Lawful.readLong_eq_ok_iff (hg : g.Lawful) {name : String} {value? : Option String} :
    g.readLong ⟨s, none⟩ name value? = .ok r ↔ g.Collects s (g.givenLong? name value?) r := by
  rw [readLong, givenLong?]
  cases hfind : g.parameters.find? (·.name = name) with
  | none => exact error_eq_ok_iff
  | some p =>
    have hp := List.mem_of_find?_eq_some hfind
    simp only [Reading.settle, Option.bind_eq_bind, Option.bind_some]
    cases p.takesValue with
    | true =>
      cases value? with
      | none => exact ok_eq_ok_iff.trans (collects_nil (some p)).symm
      | some value => exact give_eq_ok_iff.trans (hg.collects_option hp).symm
    | false =>
      cases value? with
      | none => exact give_eq_ok_iff.trans (hg.collects_option hp).symm
      | some value => exact error_eq_ok_iff

theorem pending?_of_readOperand {r' : Reading σ} {text : String}
    (h : g.readOperand r text = .ok r') : r'.pending? = none := by
  rw [readOperand] at h
  split at h
  · cases h
  · split at h
    · cases h
    · obtain ⟨_, -, h⟩ := bind_eq_ok_iff.1 h
      obtain ⟨_, -, h⟩ := bind_eq_ok_iff.1 h
      cases h
      rfl

theorem readOperand_eq_ok_iff {text : String} :
    g.readOperand ⟨s, none⟩ text = .ok r ↔
      ∃ s', g.collect s (.operand text) = .ok s' ∧ r = ⟨s', none⟩ := by
  constructor
  · intro h
    refine ⟨r.collected, bind_eq_ok_iff.2 ⟨r, h, rfl⟩, ?_⟩
    rw [← pending?_of_readOperand h]
  · rintro ⟨s', hcollect, rfl⟩
    obtain ⟨r, h, hr⟩ := bind_eq_ok_iff.1 hcollect
    obtain rfl : r.collected = s' := Except.ok.inj hr
    rw [h, ← pending?_of_readOperand h]

theorem readOperands_eq_ok_iff {texts : List String} :
    g.readOperands ⟨s, none⟩ texts >>= Reading.settle = .ok s' ↔
      (texts.map Given.operand).foldlM g.collect s = .ok s' := by
  induction texts generalizing s with
  | nil => exact Iff.rfl
  | cons text texts ih =>
    rw [readOperands, List.foldlM_cons, bind_assoc, bind_eq_ok_iff, List.map_cons, List.foldlM_cons,
      bind_eq_ok_iff]
    constructor
    · rintro ⟨r, hread, hrest⟩
      obtain ⟨s₁, hcollect, rfl⟩ := readOperand_eq_ok_iff.1 hread
      exact ⟨s₁, hcollect, ih.1 hrest⟩
    · rintro ⟨s₁, hcollect, hrest⟩
      exact ⟨_, readOperand_eq_ok_iff.2 ⟨s₁, hcollect, rfl⟩, ih.2 hrest⟩

/-- A step succeeds if and only if the last option is settled and the step succeeds after that. -/
def SettlesFirst {α : Type} (step : Reading σ → Except Halt α) (r : Reading σ) : Prop :=
  ∀ a, step r = .ok a ↔ ∃ s, r.settle = .ok s ∧ step ⟨s, none⟩ = .ok a

theorem SettlesFirst.bind {α β : Type} {step : Reading σ → Except Halt α} (h : SettlesFirst step r)
    (next : α → Except Halt β) : SettlesFirst (fun r => step r >>= next) r := by
  intro b
  simp only [bind_eq_ok_iff]
  constructor
  · rintro ⟨a, hstep, hnext⟩
    obtain ⟨s, hsettle, hstep⟩ := (h a).1 hstep
    exact ⟨s, hsettle, a, hstep, hnext⟩
  · rintro ⟨s, hsettle, a, hstep, hnext⟩
    exact ⟨a, (h a).2 ⟨s, hsettle, hstep⟩, hnext⟩

theorem settlesFirst_of_error {α : Type} {step : Reading σ → Except Halt α} {h : Halt}
    (herror : ∀ r, step r = .error h) : SettlesFirst step r := by
  intro a
  simp [herror]

theorem settlesFirst_readLong (name : String) (value? : Option String) :
    SettlesFirst (g.readLong · name value?) r := by
  cases hfind : g.parameters.find? (·.name = name) with
  | none => exact settlesFirst_of_error fun r => by rw [readLong, hfind]
  | some p =>
    intro r'
    simp only [readLong, hfind]
    cases p.takesValue with
    | true =>
      cases value? with
      | none => exact bind_eq_ok_iff
      | some value => exact bind_eq_ok_iff
    | false =>
      cases value? with
      | none => exact bind_eq_ok_iff
      | some value => simp

theorem settlesFirst_readLetters (c : Char) (cs : List Char) :
    SettlesFirst (g.readLetters · (c :: cs)) r := by
  cases hfind : g.parameters.find? (·.letter? = some c) with
  | none => exact settlesFirst_of_error fun r => by rw [readLetters, hfind]
  | some p =>
    intro r'
    simp only [readLetters, hfind]
    exact bind_eq_ok_iff

theorem Lawful.isGiven_of_settle (hg : g.Lawful) {operand : Operand σ}
    (hr : r.IsOf g) (hoperand : g.operand? = some operand)
    (h : r.settle = .ok s) : operand.isGiven s = operand.isGiven r.collected := by
  rw [Reading.settle] at h
  split at h
  · cases h
    rfl
  · cases h
  · next p value hpending => exact hg.isGiven_eq (hr _ hpending) hoperand h

theorem Lawful.settlesFirst_readOperand (hg : g.Lawful) (hr : r.IsOf g)
    (text : String) : SettlesFirst (g.readOperand · text) r := by
  cases hoperand : g.operand? with
  | none => exact settlesFirst_of_error fun r => by rw [readOperand, hoperand]
  | some operand =>
    intro r'
    simp only [readOperand, hoperand]
    constructor
    · intro h
      split at h
      · cases h
      · next hgiven =>
        obtain ⟨s, hsettle, h⟩ := bind_eq_ok_iff.1 h
        refine ⟨s, hsettle, ?_⟩
        rw [if_neg (by rwa [hg.isGiven_of_settle hr hoperand hsettle])]
        exact h
    · rintro ⟨s, hsettle, h⟩
      rw [hg.isGiven_of_settle hr hoperand hsettle] at h
      split at h
      · cases h
      · next hgiven =>
        rw [if_neg hgiven]
        exact bind_eq_ok_iff.2 ⟨s, hsettle, h⟩

theorem Word.ofString_ne_letters_nil (argument : String) :
    Word.ofString argument ≠ .letters [] := by
  rw [Word.ofString]
  split <;> exact nofun

/-- The last option is settled before anything else is read, unless what is read is its value. -/
theorem Lawful.settlesFirst_read (hg : g.Lawful) (hr : r.IsOf g)
    {arguments : List String} (hplain : (∃ p, r.pending? = some (p, none)) →
      ∀ argument ∈ arguments.head?, ∀ text, Word.ofString argument ≠ .plain text) :
    SettlesFirst (g.read · arguments) r := by
  have hsettle : SettlesFirst Reading.settle r := fun s' =>
    ⟨fun h => ⟨s', h, rfl⟩, fun ⟨s, h, hs⟩ => h.trans hs⟩
  cases arguments with
  | nil => exact hsettle
  | cons argument arguments =>
    simp only [read]
    cases hword : Word.ofString argument with
    | dashes =>
      cases arguments with
      | nil => exact hsettle
      | cons text texts =>
        simp only [readOperands, List.foldlM_cons, bind_assoc]
        exact (hg.settlesFirst_readOperand hr text).bind _
    | long name value? => exact (settlesFirst_readLong name value?).bind _
    | letters cs =>
      cases cs with
      | nil => exact absurd hword (Word.ofString_ne_letters_nil argument)
      | cons c cs => exact (settlesFirst_readLetters c cs).bind _
    | plain text =>
      have hstep := (hg.settlesFirst_readOperand hr text).bind (g.read · arguments)
      obtain ⟨collected, pending?⟩ := r
      rcases pending? with _ | ⟨p, _ | value⟩
      · exact hstep
      · exact absurd hword (hplain ⟨p, rfl⟩ argument rfl text)
      · exact hstep

/-- All options have a name of the grammar. -/
def Knows (g : Grammar σ) (given : List Given) : Prop :=
  ∀ name value, .option name value ∈ given → name ∈ g.parameters.map Parameter.name

theorem knows_nil : g.Knows [] :=
  nofun

theorem Knows.cons {p : Parameter σ} {given : List Given} (hp : p ∈ g.parameters) (value : String)
    (h : g.Knows given) : g.Knows (.option p.name value :: given) := by
  intro name value' hmem
  rcases List.mem_cons.1 hmem with heq | hmem
  · cases heq
    exact List.mem_map_of_mem hp
  · exact h name value' hmem

theorem Knows.append {given given' : List Given} (h : g.Knows given) (h' : g.Knows given') :
    g.Knows (given ++ given') := fun name value hmem =>
  (List.mem_append.1 hmem).elim (h name value) (h' name value)

theorem knows_operands (texts : List String) : g.Knows (texts.map .operand) := by
  simp [Knows]

/-- Options that have been found are those of the grammar, and so is the one that awaits a value. -/
structure Finds (g : Grammar σ) (given : List Given) (awaiting? : Option (Parameter σ)) : Prop where
  knows : g.Knows given
  mem : ∀ p ∈ awaiting?, p ∈ g.parameters

section

variable {given : List Given} {awaiting? : Option (Parameter σ)}

theorem finds_awaiting (hp : p ∈ g.parameters) : g.Finds [] (some p) :=
  ⟨knows_nil, by rintro _ ⟨⟩; exact hp⟩

theorem finds_option (hp : p ∈ g.parameters) (value : String) :
    g.Finds [.option p.name value] none :=
  ⟨knows_nil.cons hp value, nofun⟩

theorem finds_of_givenLong? {name : String} {value? : Option String}
    (h : g.givenLong? name value? = some (given, awaiting?)) : g.Finds given awaiting? := by
  obtain ⟨p, hfind, h⟩ := Option.bind_eq_some_iff.1 h
  have hp := List.mem_of_find?_eq_some hfind
  split at h <;> cases h
  · exact finds_option hp ""
  · exact finds_option hp _
  · exact finds_awaiting hp

theorem finds_of_givenLetters? {cs : List Char}
    (h : g.givenLetters? cs = some (given, awaiting?)) : g.Finds given awaiting? := by
  induction cs generalizing given with
  | nil =>
    cases h
    exact ⟨knows_nil, nofun⟩
  | cons c cs ih =>
    rw [givenLetters?] at h
    obtain ⟨p, hfind, h⟩ := Option.bind_eq_some_iff.1 h
    have hp := List.mem_of_find?_eq_some hfind
    split at h
    · split at h <;> cases h
      · exact finds_awaiting hp
      · exact finds_option hp _
      · exact finds_option hp _
    · obtain ⟨⟨rest, awaiting'?⟩, hrest, h⟩ := Option.bind_eq_some_iff.1 h
      cases h
      exact ⟨(ih hrest).knows.cons hp "", (ih hrest).mem⟩

end

theorem knows_of_given? {arguments : List String} {given : List Given}
    {awaiting? : Option (Parameter σ)} (h : g.given? awaiting? arguments = some given)
    (hawaiting : ∀ p ∈ awaiting?, p ∈ g.parameters) : g.Knows given := by
  induction arguments generalizing given awaiting? with
  | nil =>
    cases awaiting? with
    | none =>
      cases h
      exact knows_nil
    | some p => cases h
  | cons argument arguments ih =>
    cases awaiting? with
    | some p =>
      rw [given?] at h
      split at h
      · obtain ⟨rest, hrest, rfl⟩ := Option.map_eq_some_iff.1 h
        exact (ih hrest nofun).cons (hawaiting p rfl) _
      · cases h
    | none =>
      rw [given?] at h
      split at h
      · cases h
        exact knows_operands arguments
      · obtain ⟨⟨first, awaiting?⟩, hfirst, h⟩ := Option.bind_eq_some_iff.1 h
        obtain ⟨rest, hrest, rfl⟩ := Option.map_eq_some_iff.1 h
        have hfinds := finds_of_givenLong? hfirst
        exact hfinds.knows.append (ih hrest hfinds.mem)
      · obtain ⟨⟨first, awaiting?⟩, hfirst, h⟩ := Option.bind_eq_some_iff.1 h
        obtain ⟨rest, hrest, rfl⟩ := Option.map_eq_some_iff.1 h
        have hfinds := finds_of_givenLetters? hfirst
        exact hfinds.knows.append (ih hrest hfinds.mem)
      · obtain ⟨rest, hrest, rfl⟩ := Option.map_eq_some_iff.1 h
        exact (knows_operands [_]).append (ih hrest nofun)

/-! ### Reading all arguments -/

/-- From any reading on, these arguments are read successfully if and only if they give something
and all of it can be collected one after the other. -/
def ReadsGiven (g : Grammar σ) (arguments : List String) : Prop :=
  ∀ {s s' : σ} {awaiting? : Option (Parameter σ)}, (∀ p ∈ awaiting?, p ∈ g.parameters) →
    (g.read (readingOf s awaiting?) arguments = .ok s' ↔
      ∃ given, g.given? awaiting? arguments = some given ∧ given.foldlM g.collect s = .ok s')

section

variable {arguments : List String}

theorem ReadsGiven.first (h : g.ReadsGiven arguments) (item : Given) :
    (∃ s₁, g.collect s item = .ok s₁ ∧ g.read ⟨s₁, none⟩ arguments = .ok s') ↔
      ∃ given, (g.given? none arguments).map (item :: ·) = some given ∧
        given.foldlM g.collect s = .ok s' := by
  have hnone : ∀ p ∈ (none : Option (Parameter σ)), p ∈ g.parameters := nofun
  constructor
  · rintro ⟨s₁, hcollect, hread⟩
    obtain ⟨rest, hrest, hcollects⟩ := (h hnone).1 hread
    refine ⟨item :: rest, by rw [hrest, Option.map_some], ?_⟩
    rw [List.foldlM_cons]
    exact bind_eq_ok_iff.2 ⟨s₁, hcollect, hcollects⟩
  · rintro ⟨_, hgiven, hcollects⟩
    obtain ⟨rest, hrest, rfl⟩ := Option.map_eq_some_iff.1 hgiven
    rw [List.foldlM_cons] at hcollects
    obtain ⟨s₁, hcollect, hcollects⟩ := bind_eq_ok_iff.1 hcollects
    exact ⟨s₁, hcollect, (h hnone).2 ⟨rest, hrest, hcollects⟩⟩

/-- What options give is collected before the arguments behind them are read. -/
theorem ReadsGiven.options (h : g.ReadsGiven arguments)
    {found? : Option (List Given × Option (Parameter σ))} {step : Except Halt (Reading σ)}
    (hstep : ∀ r, step = .ok r ↔ g.Collects s found? r)
    (hfinds : ∀ {given awaiting?}, found? = some (given, awaiting?) → g.Finds given awaiting?) :
    step >>= (g.read · arguments) = .ok s' ↔
      ∃ given, (found?.bind fun found =>
          (g.given? found.2 arguments).map (found.1 ++ ·)) = some given ∧
        given.foldlM g.collect s = .ok s' := by
  rw [bind_eq_ok_iff]
  constructor
  · rintro ⟨r, hr, hread⟩
    obtain ⟨given, awaiting?, rfl, s₁, hcollect, rfl⟩ := (hstep r).1 hr
    obtain ⟨rest, hrest, hcollects⟩ := (h (hfinds rfl).mem).1 hread
    refine ⟨given ++ rest, by simp [hrest], ?_⟩
    rw [List.foldlM_append]
    exact bind_eq_ok_iff.2 ⟨s₁, hcollect, hcollects⟩
  · rintro ⟨_, hfound, hcollects⟩
    obtain ⟨⟨given, awaiting?⟩, rfl, hrest⟩ := Option.bind_eq_some_iff.1 hfound
    obtain ⟨rest, hgiven, rfl⟩ := Option.map_eq_some_iff.1 hrest
    rw [List.foldlM_append] at hcollects
    obtain ⟨s₁, hcollect, hcollects⟩ := bind_eq_ok_iff.1 hcollects
    exact ⟨_, (hstep _).2 ⟨given, awaiting?, rfl, s₁, hcollect, rfl⟩,
      (h (hfinds rfl).mem).2 ⟨rest, hgiven, hcollects⟩⟩

end

theorem Lawful.readsGiven (hg : g.Lawful) (arguments : List String) : g.ReadsGiven arguments := by
  -- The value of an option is not collected when it is read but when it is settled, with what comes
  -- after it. As this comes to the same, the last option can be settled first.
  induction arguments with
  | nil =>
    rintro s s' (_ | p) -
    · simp [read, given?, readingOf, Reading.settle, pure, Except.pure]
    · simp [read, given?, readingOf, Reading.settle]
  | cons argument arguments ih =>
    rintro s s' (_ | p) hawaiting
    · simp only [read, given?, readingOf, Option.map_none]
      cases Word.ofString argument with
      | dashes =>
        simp only [Option.some.injEq, exists_eq_left']
        exact readOperands_eq_ok_iff
      | long name value? => exact ih.options (fun _ => hg.readLong_eq_ok_iff) finds_of_givenLong?
      | letters cs => exact ih.options (fun _ => hg.readLetters_eq_ok_iff) finds_of_givenLetters?
      | plain text =>
        rw [← ih.first, bind_eq_ok_iff]
        constructor
        · rintro ⟨r, hoperand, hread⟩
          obtain ⟨s₁, hcollect, rfl⟩ := readOperand_eq_ok_iff.1 hoperand
          exact ⟨s₁, hcollect, hread⟩
        · rintro ⟨s₁, hcollect, hread⟩
          exact ⟨_, readOperand_eq_ok_iff.2 ⟨s₁, hcollect, rfl⟩, hread⟩
    · have hp : p ∈ g.parameters := hawaiting p rfl
      have hpending : ∀ value?, Reading.IsOf ⟨s, some (p, value?)⟩ g := by
        rintro value? _ ⟨⟩
        exact hp
      cases hword : Word.ofString argument with
      | plain text =>
        simp only [read, given?, readingOf, Option.map_some, hword]
        rw [← ih.first, hg.settlesFirst_read (hpending (some text)) (by rintro ⟨_, ⟨⟩⟩)]
        simp only [Reading.settle, hg.collect_option hp]
      | _ =>
        rw [readingOf, Option.map_some, hg.settlesFirst_read (hpending none) (by simp [hword])]
        simp [Reading.settle, given?, hword]

/-- Arguments are read successfully if and only if they give something and all of it can be
collected one after the other. -/
theorem Lawful.read_eq_ok_iff (hg : g.Lawful) {arguments : List String} :
    g.read ⟨s, none⟩ arguments = .ok s' ↔
      ∃ given, g.given? none arguments = some given ∧ given.foldlM g.collect s = .ok s' := by
  have hnone : ∀ p ∈ (none : Option (Parameter σ)), p ∈ g.parameters := nofun
  exact hg.readsGiven arguments hnone

section

variable {reason : Halt → Prop}

/-- Options and the operand end the reading only for such a reason. -/
structure EndsFor (g : Grammar σ) (reason : Halt → Prop) : Prop where
  misuse (m : Misuse) : reason (.misuse m)
  parameter {p : Parameter σ} {value : String} {s : σ} {h : Halt} :
    p ∈ g.parameters → p.give value s = .error h → reason h
  operand {operand : Operand σ} {text : String} {s : σ} {h : Halt} :
    g.operand? = some operand → operand.give text s = .error h → reason h

namespace EndsFor

theorem settle (hg : g.EndsFor reason) (hr : r.IsOf g) :
    Satisfies (fun _ => True) reason r.settle := by
  rw [Reading.settle]
  split
  · trivial
  · exact hg.misuse _
  · next p value hpending => exact satisfies_of_error fun h => hg.parameter (hr _ hpending)

theorem give (hg : g.EndsFor reason) {p : Parameter σ} (hp : p ∈ g.parameters) (value : String)
    (s : σ) : Satisfies (Reading.IsOf · g) reason (do return ⟨← p.give value s, none⟩) :=
  (satisfies_of_error fun _ => hg.parameter hp).bind fun _ _ => nofun

theorem readLetters (hg : g.EndsFor reason) (hr : r.IsOf g) (cs : List Char) :
    Satisfies (Reading.IsOf · g) reason (g.readLetters r cs) := by
  induction cs generalizing r with
  | nil => exact hr
  | cons c cs ih =>
    rw [Grammar.readLetters]
    split
    · exact hg.misuse _
    · next p hfind =>
      have hp := List.mem_of_find?_eq_some hfind
      refine (hg.settle hr).bind fun s _ => ?_
      split
      · split
        · rintro _ ⟨⟩
          exact hp
        · exact hg.give hp _ s
        · exact hg.give hp _ s
      · exact (satisfies_of_error fun _ => hg.parameter hp).bind fun s _ => ih nofun

theorem readLong (hg : g.EndsFor reason) (hr : r.IsOf g) (name : String) (value? : Option String) :
    Satisfies (Reading.IsOf · g) reason (g.readLong r name value?) := by
  rw [Grammar.readLong]
  split
  · exact hg.misuse _
  · next p hfind =>
    have hp := List.mem_of_find?_eq_some hfind
    split
    · exact hg.misuse _
    · exact (hg.settle hr).bind fun s _ => hg.give hp _ s
    · exact (hg.settle hr).bind fun s _ => hg.give hp _ s
    · refine (hg.settle hr).bind fun s _ => ?_
      rintro _ ⟨⟩
      exact hp

theorem readOperand (hg : g.EndsFor reason) (hr : r.IsOf g) (text : String) :
    Satisfies (Reading.IsOf · g) reason (g.readOperand r text) := by
  rw [Grammar.readOperand]
  split
  · exact hg.misuse _
  · next operand hoperand =>
    split
    · exact hg.misuse _
    · exact (hg.settle hr).bind fun s _ =>
        (satisfies_of_error fun _ => hg.operand hoperand).bind fun _ _ => nofun

theorem readOperands (hg : g.EndsFor reason) (hr : r.IsOf g) (texts : List String) :
    Satisfies (Reading.IsOf · g) reason (g.readOperands r texts) := by
  induction texts generalizing r with
  | nil => exact hr
  | cons text texts ih => exact (hg.readOperand hr text).bind fun _ hr => ih hr

/-- The reading of arguments ends only for such a reason. -/
theorem read (hg : g.EndsFor reason) (hr : r.IsOf g) (arguments : List String) :
    Satisfies (fun _ => True) reason (g.read r arguments) := by
  induction arguments generalizing r with
  | nil => exact hg.settle hr
  | cons argument arguments ih =>
    rw [Grammar.read]
    split
    · exact (hg.readOperands hr arguments).bind fun _ hr => hg.settle hr
    · exact (hg.readLong hr _ _).bind fun _ hr => ih hr
    · exact (hg.readLetters hr _).bind fun _ hr => ih hr
    · split
      · next p hpending =>
        refine ih ?_
        rintro _ ⟨⟩
        exact hr (p, none) hpending
      · exact (hg.readOperand hr _).bind fun _ hr => ih hr

end EndsFor

end

end Grammar

end Scaffold.Command
