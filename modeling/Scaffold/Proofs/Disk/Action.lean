import Scaffold.Disk.Action
import Scaffold.Proofs.Disk.Change

/-!
Actions on a disk, run from a disk to a disk. Directories are created where the moves of a path
lead if every name that is missing stands for a directory; an action that creates them changes
nothing else, whether it succeeds or not.
-/

namespace Scaffold

namespace DiskAction

variable {α β : Type} {d d' : Disk}

/-- What an action gives on a disk, and the disk after it. -/
def runOn (action : ExceptT Error (StateM Disk) α) (d : Disk) : Except Error α × Disk :=
  action.run.run d

theorem runOn_look : runOn MonadDisk.look d = (.ok d, d) :=
  rfl

theorem runOn_ofExcept (r : Except Error α) : runOn (MonadExcept.ofExcept r) d = (r, d) := by
  cases r <;> rfl

theorem runOn_lift (action : StateM Disk α) :
    runOn (ExceptT.lift action) d = (.ok (action.run d).1, (action.run d).2) :=
  rfl

theorem runOn_bind (action : ExceptT Error (StateM Disk) α)
    (next : α → ExceptT Error (StateM Disk) β) :
    runOn (action >>= next) d =
      match runOn action d with
      | (.ok a, d') => runOn (next a) d'
      | (.error e, d') => (.error e, d') := by
  rw [runOn, ExceptT.run_bind]
  simp only [runOn, StateT.run_bind]
  rcases h : action.run.run d with ⟨r, d'⟩
  cases r <;> rfl

theorem runOn_tryCatch (action : ExceptT Error (StateM Disk) α)
    (handler : Error → ExceptT Error (StateM Disk) α) :
    runOn (tryCatch action handler) d =
      match runOn action d with
      | (.ok a, d') => (.ok a, d')
      | (.error e, d') => runOn (handler e) d' := by
  simp only [runOn, ExceptT.run_tryCatch, StateT.run_bind]
  rcases h : action.run.run d with ⟨r, d'⟩
  cases r <;> rfl

theorem runOn_attempt (operation : DiskOperation) :
    runOn (MonadDisk.attempt operation) d =
      match operation.apply d with
      | .ok d' => (.ok (.ok ()), d')
      | .error e => (.ok (.error e), d) := by
  simp only [runOn, MonadDisk.attempt, ExceptT.run_lift, StateT.run_map]
  simp only [StateT.run]
  cases operation.apply d <;> rfl

theorem runOn_perform (operation : DiskOperation) :
    runOn (perform operation) d =
      match operation.apply d with
      | .ok d' => (.ok (), d')
      | .error e => (.error (.disk e), d) := by
  rw [perform, runOn_bind, runOn_attempt]
  cases operation.apply d <;> rfl

/-- An operation that is performed succeeds, or leaves the disk as it was. -/
theorem runOn_perform_eq {operation : DiskOperation} {r : Except Error Unit}
    (h : runOn (perform operation) d = (r, d')) :
    r = .ok () ∧ operation.apply d = .ok d' ∨ (∃ e, r = .error e) ∧ d' = d := by
  rw [runOn_perform] at h
  cases happly : operation.apply d with
  | ok next =>
    rw [happly] at h
    cases h
    exact .inl ⟨rfl, rfl⟩
  | error e =>
    rw [happly] at h
    cases h
    exact .inr ⟨⟨_, rfl⟩, rfl⟩

theorem runOn_bind_eq {action : ExceptT Error (StateM Disk) α}
    {next : α → ExceptT Error (StateM Disk) β} {r : Except Error β}
    (h : runOn (action >>= next) d = (r, d')) :
    (∃ e, runOn action d = (.error e, d') ∧ r = .error e) ∨
      ∃ a middle, runOn action d = (.ok a, middle) ∧ runOn (next a) middle = (r, d') := by
  rw [runOn_bind] at h
  rcases haction : runOn action d with ⟨result, middle⟩
  rw [haction] at h
  cases result with
  | ok a => exact .inr ⟨a, middle, rfl, h⟩
  | error e =>
    cases h
    exact .inl ⟨e, rfl, rfl⟩

end DiskAction

/-- The layout in which every name that is missing stands for a directory. -/
def Layout.filled (look : Layout) : Layout :=
  fun names => some ((look names).getD .directory)

theorem Disk.Route.filled {look : Layout} {links : Nat} {start last : List Name}
    {moves : List Step} {trail : List (List Name)} (h : Route look links start moves trail last) :
    Route look.filled links start moves trail last := by
  refine h.mono fun place item hitem => ?_
  rw [Layout.filled, hitem]
  rfl

namespace Disk

variable {d d' d₁ d₂ : Disk} {p q : Path}

/-- A place is on the way of a path if some of its first moves lead there, or would lead there if
the directories that are missing were created. -/
def OnTheWay (d : Disk) (p : Path) (names : List Name) : Prop :=
  ∃ moves links trail, moves <+: p.moves ∧
    Route d.item?.filled links (d.origin p) moves trail names

/-- Directories on the way of a path may have been created, and nothing else has changed. -/
structure Grows (d : Disk) (p : Path) (d' : Disk) : Prop where
  here : d'.here = d.here
  item (names : List Name) : d'.item? names = d.item? names ∨
    d.item? names = none ∧ d'.item? names = some .directory ∧ d.OnTheWay p names

theorem Grows.refl (d : Disk) (p : Path) : d.Grows p d :=
  ⟨rfl, fun _ => .inl rfl⟩

namespace Grows

theorem congr (h : d.Grows p d₁) (hhere : d₂.here = d₁.here) (hitem : d₂.item? = d₁.item?) :
    d.Grows p d₂ where
  here := hhere.trans h.here
  item := by
    rw [hitem]
    exact h.item

theorem filled_eq (h : d.Grows p d') : d'.item?.filled = d.item?.filled := by
  funext names
  rcases h.item names with heq | ⟨hnone, hdirectory, -⟩
  · rw [Layout.filled, Layout.filled, heq]
  · rw [Layout.filled, Layout.filled, hnone, hdirectory]
    rfl

theorem origin_eq (h : d.Grows p d') (q : Path) : d'.origin q = d.origin q :=
  origin_eq_of_here h.here q

/-- What stood somewhere still stands there. -/
theorem item_eq (h : d.Grows p d') {names : List Name} {item : Item}
    (hitem : d.item? names = some item) : d'.item? names = some item := by
  rcases h.item names with heq | ⟨hnone, -⟩
  · rw [heq, hitem]
  · cases hitem.symm.trans hnone

/-- A directory that is created for a beginning of the path is on its way. -/
theorem createDirectory (h : d.Grows p d₁) (hmoves : q.moves <+: p.moves)
    (habsolute : q.isAbsolute = p.isAbsolute) (hcreate : d₁.createDirectory q = .ok d₂) :
    d.Grows p d₂ := by
  obtain ⟨parent, name, ⟨hpoints, hvacant⟩, hhere, hitem⟩ := createDirectory_eq_ok hcreate
  refine ⟨hhere.trans h.here, fun names => ?_⟩
  rw [hitem]
  by_cases hnames : names = parent ++ [name]
  · subst hnames
    rw [Function.update_self]
    have hnone : d.item? (parent ++ [name]) = none := by
      rcases h.item (parent ++ [name]) with heq | ⟨hnone, -⟩
      · rw [← heq, hvacant]
      · exact hnone
    refine .inr ⟨hnone, rfl, q.moves, ?_⟩
    obtain ⟨links, trail, -, hroute⟩ := hpoints.arrives
    have hfilled := hroute.filled
    rw [h.filled_eq, h.origin_eq] at hfilled
    have hplace : d.item?.filled (parent ++ [name]) = some .directory := by
      rw [Layout.filled, hnone]
      rfl
    rw [origin_congr habsolute] at hfilled
    rw [hpoints.moves_eq] at hmoves ⊢
    exact ⟨_, _, hmoves, hfilled.append (.into hplace (.stop hplace))⟩
  · rw [Function.update_of_ne hnames]
    exact h.item names

end Grows

/-- A directory that has been created is one. -/
theorem isDirectory_of_createDirectory (h : d.createDirectory p = .ok d') :
    d'.isDirectory p = true := by
  obtain ⟨parent, name, ⟨hpoints, hvacant⟩, hhere, hitem⟩ := createDirectory_eq_ok h
  have hkept : ∀ names item, d.item? names = some item → d'.item? names = some item := by
    intro names item hnames
    rw [hitem, Function.update_of_ne, hnames]
    rintro rfl
    cases hnames.symm.trans hvacant
  have hpoints' := hpoints.mono hhere hkept
  refine isDirectory_iff.2 ⟨hpoints'.starts, _, hpoints'.arrives_append ?_⟩
  rw [hitem, Function.update_self]

end Disk

namespace DiskAction

variable {d d' d₁ : Disk} {p q : Path} {r : Except Error Unit}

theorem runOn_requireDirectory_eq {cause : FileError}
    (h : runOn (requireDirectory q cause) d = (r, d')) :
    d' = d ∧ (r = .ok () → d.isDirectory q = true) := by
  rw [requireDirectory, runOn_bind, runOn_look] at h
  cases hdirectory : d.isDirectory q with
  | true =>
    simp only [hdirectory] at h
    cases h
    exact ⟨rfl, fun _ => rfl⟩
  | false =>
    simp only [hdirectory] at h
    cases h
    exact ⟨rfl, nofun⟩

/-- Creating directories for beginnings of a path adds directories on its way only. If it succeeds,
the first of the paths leads to a directory. -/
theorem runOn_createChain_eq {ps : List Path}
    (hps : ∀ q ∈ ps, q.moves <+: p.moves ∧ q.isAbsolute = p.isAbsolute) (hgrows : d.Grows p d₁)
    (h : runOn (createChain ps) d₁ = (r, d')) :
    d.Grows p d' ∧ (r = .ok () → ∀ q ∈ ps.head?, q.bytes = [] ∨ d'.isDirectory q = true) := by
  induction ps generalizing d₁ d' r with
  | nil =>
    cases h
    exact ⟨hgrows, nofun⟩
  | cons q ps ih =>
    obtain ⟨⟨hmoves, habsolute⟩, hrest⟩ := List.forall_mem_cons.1 hps
    rw [createChain] at h
    simp only [List.head?_cons, Option.mem_some_iff, forall_eq']
    by_cases hbytes : q.bytes = []
    · rw [if_neg (not_not_intro hbytes)] at h
      cases h
      exact ⟨hgrows, fun _ => .inl hbytes⟩
    rw [if_pos hbytes, runOn_bind, runOn_attempt] at h
    cases hcreate : d₁.createDirectory q with
    | ok d₂ =>
      simp only [DiskOperation.apply, hcreate] at h
      cases h
      exact ⟨hgrows.createDirectory hmoves habsolute hcreate,
        fun _ => .inr (Disk.isDirectory_of_createDirectory hcreate)⟩
    | error e =>
      simp only [DiskOperation.apply, hcreate] at h
      by_cases hmissing : e = .notFound
      · subst hmissing
        rcases runOn_bind_eq h with ⟨_, hparents, rfl⟩ | ⟨_, d₂, hparents, hagain⟩
        · exact ⟨(ih hrest hgrows hparents).1, nofun⟩
        · have hgrows₂ := (ih hrest hgrows hparents).1
          rw [runOn_bind, runOn_attempt] at hagain
          cases hcreate : d₂.createDirectory q with
          | ok d₃ =>
            simp only [DiskOperation.apply, hcreate] at hagain
            cases hagain
            exact ⟨hgrows₂.createDirectory hmoves habsolute hcreate,
              fun _ => .inr (Disk.isDirectory_of_createDirectory hcreate)⟩
          | error e =>
            simp only [DiskOperation.apply, hcreate] at hagain
            obtain ⟨rfl, hdirectory⟩ := runOn_requireDirectory_eq hagain
            exact ⟨hgrows₂, fun hr => .inr (hdirectory hr)⟩
      · have hrequire : runOn (requireDirectory q e) d₁ = (r, d') := by
          cases e <;> first | exact absurd rfl hmissing | exact h
        obtain ⟨rfl, hdirectory⟩ := runOn_requireDirectory_eq hrequire
        exact ⟨hgrows, fun hr => .inr (hdirectory hr)⟩

/-- Creating a directory and its parents adds directories on its way only. -/
theorem runOn_createDirectories_eq (h : runOn (createDirectories p) d = (r, d')) :
    d.Grows p d' ∧ (r = .ok () → p.bytes = [] ∨ d'.isDirectory p = true) := by
  obtain ⟨hgrows, hfirst⟩ :=
    runOn_createChain_eq (fun q hq => Path.of_mem_ancestors hq) (.refl d p) h
  refine ⟨hgrows, fun hr => hfirst hr p ?_⟩
  rw [Path.ancestors]
  rfl

/-- A file is written after the directory that is to hold it has been created. -/
theorem runOn_writeFile_eq {content : ByteArray} (h : runOn (writeFile p content) d = (r, d')) :
    (∃ q e, p.parent? = some q ∧ runOn (createDirectories q) d = (.error e, d') ∧ r = .error e) ∨
    ∃ d₁, (d₁ = d ∨ ∃ q, p.parent? = some q ∧ runOn (createDirectories q) d = (.ok (), d₁)) ∧
      runOn (perform (.writeFile p content)) d₁ = (r, d') := by
  rw [writeFile] at h
  cases hparent : p.parent? with
  | none =>
    rw [hparent] at h
    exact .inr ⟨d, .inl rfl, h⟩
  | some q =>
    rw [hparent] at h
    rcases runOn_bind_eq h with ⟨e, hcreate, rfl⟩ | ⟨_, d₁, hcreate, hwrite⟩
    · exact .inl ⟨q, e, rfl, hcreate, rfl⟩
    · exact .inr ⟨d₁, .inr ⟨q, rfl, hcreate⟩, hwrite⟩

end DiskAction

end Scaffold
