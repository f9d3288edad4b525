import Mathlib.Data.List.Sort
import Mathlib.Data.Set.List
import Scaffold.Proofs.Kind.Resolution

/-!
The files of a kind that the user keeps. A walk through the directory of the kind meets every file
that is neither hidden nor reached through a link, and each becomes one template. They come in the
order of the names in their paths, which is not the order of the paths as texts where a directory
and a file start alike. No other file matters, but nothing is loaded if a path that the walk has to
open is longer than the system follows.
-/

namespace Scaffold.Kind

open Disk Text

variable {d d' : Disk} {templates directory : Path} {name header : String}
  {entries entries' : Entries} {names : List Name} {content : ByteArray} {source : String}

/-- The file that has been met, with the names that lead there. -/
def file? : List Name × Entry → Option (List Name × ByteArray)
  | (names, .file content) => some (names, content)
  | (_, .directory _) | (_, .link _) => none

/-- The files that a walk through a directory meets, in its order. -/
def filesBelow (entries : Entries) : List (List Name × ByteArray) :=
  (Entry.directory entries).descendants.filterMap file?

theorem file?_eq_some_iff {met : List Name × Entry} :
    file? met = some (names, content) ↔ met = (names, .file content) := by
  obtain ⟨_, _ | _ | _⟩ := met <;> simp [file?]

theorem mem_filesBelow_iff (h : (Entry.directory entries).isProper = true) :
    (names, content) ∈ filesBelow entries ↔ IsVisible entries names (.file content) := by
  simp only [filesBelow, List.mem_filterMap, file?_eq_some_iff, exists_eq_right,
    mem_descendants_iff h]

theorem pairwise_filesBelow (h : (Entry.directory entries).isProper = true) :
    (filesBelow entries).Pairwise fun a b => a.1.map Name.toPiece < b.1.map Name.toPiece := by
  refine (Entry.pairwise_descendants _ h).filterMap file? ?_
  rintro met met' hlt ⟨names, content⟩ hfile ⟨names', content'⟩ hfile'
  rw [file?_eq_some_iff.1 hfile, file?_eq_some_iff.1 hfile'] at hlt
  exact hlt

/-- The order leaves no choice, so the files are determined by which there are. -/
theorem filesBelow_congr (h : (Entry.directory entries).isProper = true)
    (h' : (Entry.directory entries').isProper = true)
    (hsame : ∀ names content, IsVisible entries names (.file content) ↔
      IsVisible entries' names (.file content)) : filesBelow entries = filesBelow entries' := by
  have : Std.Irrefl fun piece piece' : Piece => piece < piece' :=
    ⟨fun piece => List.lt_irrefl piece.bytes⟩
  have : Std.Asymm fun piece piece' : Piece => piece < piece' := ⟨fun _ _ => List.lt_asymm⟩
  have : Std.Irrefl fun a b : List Name × ByteArray =>
      a.1.map Name.toPiece < b.1.map Name.toPiece :=
    ⟨fun file => List.lt_irrefl (file.1.map Name.toPiece)⟩
  have : Std.Antisymm fun a b : List Name × ByteArray =>
      a.1.map Name.toPiece < b.1.map Name.toPiece :=
    ⟨fun _ _ hlt hgt => absurd hgt (List.lt_asymm hlt)⟩
  refine (pairwise_filesBelow h).eq_of_mem_iff (pairwise_filesBelow h') fun ⟨names, content⟩ => ?_
  rw [mem_filesBelow_iff h, mem_filesBelow_iff h', hsame]

theorem fromUTF8?_eq_some_iff :
    String.fromUTF8? content = some source ↔ content = source.toUTF8 := by
  rw [String.fromUTF8?]
  constructor
  · intro h
    split at h
    · cases h
      rfl
    · cases h
  · rintro rfl
    exact dif_pos source.isValidUTF8

/-- The path and the content of a file below a directory. -/
def located (file : List Name × ByteArray) : Path × ByteArray :=
  (.ofNames file.1, file.2)

/-- The path and the content by which a template is kept in the directory of its kind. -/
def kept (file : TemplateFile) : Path × ByteArray :=
  (file.path, file.source.toUTF8)

theorem ofNames_injective : Function.Injective Path.ofNames := fun _ _ h =>
  List.map_injective_iff.2 Name.toPiece_injective (Path.mk.inj h)

theorem located_injective : Function.Injective located := fun _ _ h =>
  Prod.ext (ofNames_injective (Prod.mk.inj h).1) (Prod.mk.inj h).2

theorem kept_injective : Function.Injective kept := by
  rintro ⟨path, source⟩ ⟨path', source'⟩ h
  obtain ⟨hpath, hsource⟩ := Prod.mk.inj h
  have hsome := fromUTF8?_eq_some_iff.2 hsource
  rw [fromUTF8?_eq_some_iff.2 rfl] at hsome
  cases hpath
  cases hsome
  rfl

theorem readTemplate_eq_ok_iff {file : TemplateFile} :
    readTemplate directory names content = .ok file ↔ located (names, content) = kept file := by
  obtain ⟨path, source⟩ := file
  rw [readTemplate, located, kept, Prod.mk.injEq, ← fromUTF8?_eq_some_iff]
  cases String.fromUTF8? content <;> simp

/-- Files are read as templates that are kept by them. -/
theorem mapM_readTemplate_eq_ok_iff {met : List (List Name × ByteArray)}
    {files : List TemplateFile} :
    (met.mapM fun file => readTemplate directory file.1 file.2) = .ok files ↔
      met.map located = files.map kept := by
  simp only [mapM_eq_ok_iff, readTemplate_eq_ok_iff]
  rw [← List.forall₂_map_right_iff, ← List.forall₂_map_left_iff, List.forall₂_eq_eq_eq]

/-- No file or directory that a walk has to open has a path longer than the system follows. -/
def PathsFit (directory : Path) (entries : Entries) : Prop :=
  ∀ names e, IsVisible entries names e → (∀ target, e ≠ .link target) →
    (directory.join (.ofNames names)).bytes.length ≤ longestPath

theorem size_le_of_readVisited {e : Entry} {file? : Option TemplateFile}
    (h : readVisited directory names e = .ok file?) (hlink : ∀ target, e ≠ .link target) :
    (directory.join (.ofNames names)).bytes.length ≤ longestPath := by
  cases e with
  | link target => exact absurd rfl (hlink target)
  | directory children =>
    simp only [readVisited] at h
    split at h
    · cases h
    · next hshort => exact Nat.le_of_not_lt hshort
  | file content =>
    simp only [readVisited] at h
    split at h
    · cases h
    · next hshort => exact Nat.le_of_not_lt hshort

/-- A run that gives nothing for some elements is the run over the others. -/
theorem mapM_filterMap {α β γ ε : Type} {f : α → Except ε (Option β)} {g : α → Option γ}
    {h : γ → Except ε β} {as : List α} (hskip : ∀ a ∈ as, g a = none → f a = .ok none)
    (hread : ∀ a ∈ as, ∀ c, g a = some c → f a = (h c).map some) :
    (as.mapM f).map (·.filterMap id) = (as.filterMap g).mapM h := by
  induction as with
  | nil => rfl
  | cons a as ih =>
    have ih := ih (fun a ha => hskip a (List.mem_cons_of_mem _ ha))
      (fun a ha => hread a (List.mem_cons_of_mem _ ha))
    rw [List.mapM_cons]
    cases hg : g a with
    | none =>
      rw [hskip a List.mem_cons_self hg, List.filterMap_cons_none hg, ← ih]
      cases as.mapM f <;> rfl
    | some c =>
      rw [hread a List.mem_cons_self c hg, List.filterMap_cons_some hg, List.mapM_cons, ← ih]
      cases h c with
      | error e => rfl
      | ok b => cases as.mapM f <;> rfl

/-- The files of a directory that can be listed are what reading gives on a walk. -/
theorem readFiles_of_list (hlist : d.list directory = .ok entries) :
    readFiles d name directory = (do
      let files ← ((Entry.directory entries).descendants.mapM fun met =>
        readVisited directory met.1 met.2).map (·.filterMap id)
      if files.isEmpty then .error (.kindInvalid (.noFiles name directory))
      else return files) := by
  rw [readFiles, hlist]
  cases hread : (Entry.directory entries).descendants.mapM fun met =>
      readVisited directory met.1 met.2 with
  | error e => simp [Except.mapError, Except.map, bind, Except.bind, hread]
  | ok visited => simp [Except.mapError, Except.map, bind, Except.bind, hread]

/-- Where all paths are short enough, what a walk meets besides files does not matter. -/
theorem readFiles_of_fit (hproper : (Entry.directory entries).isProper = true)
    (hlist : d.list directory = .ok entries) (hfit : PathsFit directory entries) :
    readFiles d name directory = (do
      let files ← (filesBelow entries).mapM fun file => readTemplate directory file.1 file.2
      if files.isEmpty then .error (.kindInvalid (.noFiles name directory))
      else return files) := by
  have hshort {names : List Name} {e : Entry}
      (hmem : (names, e) ∈ (Entry.directory entries).descendants)
      (hlink : ∀ target, e ≠ .link target) :
      ¬longestPath < (directory.join (.ofNames names)).bytes.length :=
    Nat.not_lt.2 (hfit names e ((mem_descendants_iff hproper).1 hmem) hlink)
  have hvisited : ((Entry.directory entries).descendants.mapM fun met =>
      readVisited directory met.1 met.2).map (·.filterMap id) =
      (filesBelow entries).mapM fun file => readTemplate directory file.1 file.2 := by
    refine mapM_filterMap ?_ ?_
    · rintro ⟨names, e⟩ hmem hnone
      cases e with
      | file content => cases hnone
      | link target => rfl
      | directory children => exact if_neg (hshort hmem nofun)
    · rintro ⟨names, e⟩ hmem file hfile
      cases file?_eq_some_iff.1 hfile
      exact if_neg (hshort hmem nofun)
  rw [readFiles_of_list hlist, hvisited]

theorem pathsFit_of_readFiles {files : List TemplateFile}
    (hproper : (Entry.directory entries).isProper = true) (hlist : d.list directory = .ok entries)
    (h : readFiles d name directory = .ok files) : PathsFit directory entries := by
  rw [readFiles_of_list hlist] at h
  obtain ⟨files', hfiles, -⟩ := bind_eq_ok_iff.1 h
  obtain ⟨visited, hvisited, -⟩ := map_eq_ok_iff.1 hfiles
  intro names e hvisible hlink
  obtain ⟨_, -, hread⟩ := exists_of_mem_right (mapM_eq_ok_iff.1 hvisited).flip
    ((mem_descendants_iff hproper).2 hvisible)
  exact size_le_of_readVisited hread hlink

theorem readFiles_eq_ok_iff {files : List TemplateFile}
    (hproper : (Entry.directory entries).isProper = true) (hlist : d.list directory = .ok entries) :
    readFiles d name directory = .ok files ↔
      PathsFit directory entries ∧ (filesBelow entries).map located = files.map kept ∧
        files ≠ [] := by
  have hread (hfit : PathsFit directory entries) : readFiles d name directory = .ok files ↔
      (filesBelow entries).map located = files.map kept ∧ files ≠ [] := by
    rw [readFiles_of_fit hproper hlist hfit, bind_eq_ok_iff]
    simp only [mapM_readTemplate_eq_ok_iff]
    constructor
    · rintro ⟨files', hfiles, h⟩
      cases files' with
      | nil => cases h
      | cons file files' =>
        cases h
        exact ⟨hfiles, List.cons_ne_nil _ _⟩
    · rintro ⟨hfiles, hne⟩
      refine ⟨files, hfiles, ?_⟩
      rw [if_neg (by simpa using hne)]
      rfl
  constructor
  · intro h
    have hfit := pathsFit_of_readFiles hproper hlist h
    exact ⟨hfit, (hread hfit).1 h⟩
  · rintro ⟨hfit, h⟩
    exact (hread hfit).2 h

/-- A path that stays in one directory for many steps. -/
def stayingPath (first : Name) (n : Nat) : Path :=
  ⟨first :: List.replicate n .dot⟩

theorem bytes_stayingPath_succ (first : Name) (n : Nat) :
    (stayingPath first (n + 1)).bytes = (stayingPath first n).bytes ++ [slash, 0x2E] := by
  rw [stayingPath, List.replicate_succ', ← List.cons_append,
    Path.bytes_append (List.cons_ne_nil _ _) (List.cons_ne_nil _ _)]
  rfl

theorem length_bytes_stayingPath (first : Name) (n : Nat) :
    (stayingPath first n).bytes.length = first.bytes.length + 2 * n := by
  induction n with
  | zero => exact congrArg List.length (Path.bytes_singleton first)
  | succ n ih =>
    rw [bytes_stayingPath_succ, List.length_append, ih, Nat.mul_succ, ← Nat.add_assoc]
    rfl

theorem mem_bytes_stayingPath {b : UInt8} {first : Name} {n : Nat} :
    b ∈ (stayingPath first n).bytes → b ∈ first.bytes ∨ b = slash ∨ b = 0x2E := by
  induction n with
  | zero =>
    intro h
    exact .inl (Path.bytes_singleton first ▸ h)
  | succ n ih =>
    rw [bytes_stayingPath_succ, List.mem_append]
    rintro (h | h)
    · exact ih h
    · exact .inr (by simpa using h)

theorem moves_stayingPath (first : Name) (n : Nat) :
    (stayingPath first n).moves = [.into first] := by
  have hstay : Step.ofPiece .dot = .stay := rfl
  rw [Path.moves, stayingPath, List.map_cons, List.map_replicate, Step.ofPiece_toPiece, hstay,
    Step.moves_cons_of_isMove rfl, Step.moves, List.filter_replicate]
  rfl

/-- There are files that are neither hidden nor reached through a link, all of them hold text, and
the walk that looks for them can open all that it meets. -/
structure IsLoadable (directory : Path) (entries : Entries) : Prop where
  fit : PathsFit directory entries
  exists_file : ∃ names content, IsVisible entries names (.file content)
  isText : ∀ names content, IsVisible entries names (.file content) →
    (String.fromUTF8? content).isSome

/-- Files that hold text can all be read. -/
theorem exists_map_kept (hproper : (Entry.directory entries).isProper = true)
    (htext : ∀ names content, IsVisible entries names (.file content) →
      (String.fromUTF8? content).isSome) :
    ∃ files : List TemplateFile, (filesBelow entries).map located = files.map kept := by
  have hsome : ∀ file ∈ (filesBelow entries).map located, ∃ template, kept template = file := by
    intro file hfile
    obtain ⟨⟨names, content⟩, hmem, rfl⟩ := List.mem_map.1 hfile
    obtain ⟨source, hsource⟩ := Option.isSome_iff_exists.1
      (htext names content ((mem_filesBelow_iff hproper).1 hmem))
    exact ⟨⟨.ofNames names, source⟩, Prod.ext rfl (fromUTF8?_eq_some_iff.1 hsource).symm⟩
  have hrange : (filesBelow entries).map located ∈ Set.range (List.map kept) := by
    rw [Set.range_list_map]
    exact hsome
  obtain ⟨files, hfiles⟩ := hrange
  exact ⟨files, hfiles.symm⟩

/-- A file is visible if and only if it is one of those that the templates are kept by. -/
theorem isVisible_iff_of_map_kept (hproper : (Entry.directory entries).isProper = true)
    {files : List TemplateFile} (h : (filesBelow entries).map located = files.map kept) :
    IsVisible entries names (.file content) ↔
      ∃ file ∈ files, kept file = located (names, content) := by
  rw [← mem_filesBelow_iff hproper, ← List.mem_map_of_injective located_injective, h, List.mem_map]

theorem isLoadable_iff (hproper : (Entry.directory entries).isProper = true)
    (hlist : d.list directory = .ok entries) :
    IsLoadable directory entries ↔ ∃ files, readFiles d name directory = .ok files := by
  simp only [readFiles_eq_ok_iff hproper hlist]
  constructor
  · rintro ⟨hfit, ⟨names, content, hexists⟩, htext⟩
    obtain ⟨files, hfiles⟩ := exists_map_kept hproper htext
    obtain ⟨file, hfile, -⟩ := (isVisible_iff_of_map_kept hproper hfiles).1 hexists
    exact ⟨files, hfit, hfiles, List.ne_nil_of_mem hfile⟩
  · rintro ⟨files, hfit, hfiles, hne⟩
    have hbelow : filesBelow entries ≠ [] := fun hnil => by
      rw [hnil, List.map_nil, eq_comm, List.map_eq_nil_iff] at hfiles
      exact hne hfiles
    obtain ⟨⟨names, content⟩, hmem⟩ := List.exists_mem_of_ne_nil _ hbelow
    refine ⟨hfit, ⟨names, content, (mem_filesBelow_iff hproper).1 hmem⟩, fun names content h => ?_⟩
    obtain ⟨file, -, hsame⟩ := (isVisible_iff_of_map_kept hproper hfiles).1 h
    rw [fromUTF8?_eq_some_iff.2 (Prod.mk.inj hsame).2.symm]
    rfl

theorem isProper_of_list (hd : d.IsProper) (hlist : d.list directory = .ok entries) :
    (Entry.directory entries).isProper = true := by
  obtain ⟨-, last, -, hentry⟩ := list_eq_ok_iff.1 hlist
  exact Entry.isProper_of_at? hd hentry

theorem resolve_eq_of_header (hheader : readHeader d templates = .ok header)
    (hlist : d.list (directoryPath templates name) = .ok entries) :
    resolve d (some templates) name = (do
      return ⟨name, header, ← readFiles d name (directoryPath templates name)⟩) := by
  have huser := source?_eq_user_iff.2 (isDirectory_iff_exists_list.2 ⟨entries, hlist⟩)
  rw [resolve_of_user huser, readUser, hheader]
  rfl

/-- The kind that a user keeps has one template for every file below its directory that is neither
hidden nor reached through a link, in the order of the names in their paths, and no other one. It
cannot be loaded if there is no such file, if one holds no text, or if a path is too long; and if
none is, nothing but these files matters. -/
theorem resolve_complete (hd : d.IsProper) (hheader : readHeader d templates = .ok header)
    (hlist : d.list (directoryPath templates name) = .ok entries) :
    (IsLoadable (directoryPath templates name) entries →
      ∃ files, resolve d (some templates) name = .ok ⟨name, header, files⟩ ∧
        files.Pairwise (fun a b => a.path.pieces < b.path.pieces) ∧
        ∀ file, file ∈ files ↔ ∃ names, file.path = .ofNames names ∧
          IsVisible entries names (.file file.source.toUTF8)) ∧
    (¬IsLoadable (directoryPath templates name) entries →
      ∃ fault, resolve d (some templates) name = .error (.kindInvalid fault)) ∧
    ∀ (d' : Disk) (entries' : Entries), d'.IsProper → readHeader d' templates = .ok header →
      d'.list (directoryPath templates name) = .ok entries' →
      PathsFit (directoryPath templates name) entries →
      PathsFit (directoryPath templates name) entries' →
      (∀ names content, IsVisible entries names (.file content) ↔
        IsVisible entries' names (.file content)) →
      resolve d' (some templates) name = resolve d (some templates) name := by
  have hproper := isProper_of_list hd hlist
  rw [resolve_eq_of_header hheader hlist]
  refine ⟨fun hload => ?_, fun hload => ?_, ?_⟩
  · obtain ⟨files, hfiles⟩ := (isLoadable_iff hproper hlist).1 hload
    obtain ⟨-, hkept, -⟩ := (readFiles_eq_ok_iff hproper hlist).1 hfiles
    refine ⟨files, by rw [hfiles]; rfl, ?_, fun file => ?_⟩
    · have hsorted : ((filesBelow entries).map located).Pairwise
          fun a b => a.1.pieces < b.1.pieces :=
        List.pairwise_map.2 (pairwise_filesBelow hproper)
      rw [hkept, List.pairwise_map] at hsorted
      exact hsorted
    · rw [← List.mem_map_of_injective kept_injective, ← hkept, List.mem_map]
      constructor
      · rintro ⟨⟨names, content⟩, hmem, hsame⟩
        obtain ⟨hpath, hcontent⟩ := Prod.mk.inj hsame
        exact ⟨names, hpath.symm, hcontent ▸ (mem_filesBelow_iff hproper).1 hmem⟩
      · rintro ⟨names, hpath, hvisible⟩
        exact ⟨_, (mem_filesBelow_iff hproper).2 hvisible, Prod.ext hpath.symm rfl⟩
  · cases hfiles : readFiles d name (directoryPath templates name) with
    | ok files => exact absurd ((isLoadable_iff hproper hlist).2 ⟨files, hfiles⟩) hload
    | error e =>
      obtain ⟨fault, rfl⟩ := exists_fault_of_readFiles hfiles
      exact ⟨fault, rfl⟩
  · intro d' entries' hd' hheader' hlist' hfit hfit' hsame
    have hproper' := isProper_of_list hd' hlist'
    rw [resolve_eq_of_header hheader' hlist', readFiles_of_fit hproper hlist hfit,
      readFiles_of_fit hproper' hlist' hfit', filesBelow_congr hproper hproper' hsame]

/-- Entries with a file, a directory whose name starts like the file, and a hidden file that holds
no text, listed out of order. -/
def viewEntries : Entries :=
  [(.of "Views.swift", .file "struct Views".toUTF8), (.of ".DS_Store", .file ⟨#[0, 159]⟩),
    (.of "Views", .directory [(.of "Cell.swift", .file "struct Cell".toUTF8)])]

/-- Templates with one kind of the user. -/
def viewTemplates : Disk :=
  ⟨[(.of "templates", .directory [(.of "table", .directory viewEntries)])], []⟩

theorem isVisible_viewEntries {e : Entry} (h : IsVisible viewEntries names e) :
    (names, e) = ([.of "Views.swift"], .file "struct Views".toUTF8) ∨
      (names, e) = ([.of "Views"], .directory [(.of "Cell.swift", .file "struct Cell".toUTF8)]) ∨
      (names, e) = ([.of "Views", .of "Cell.swift"], .file "struct Cell".toUTF8) := by
  obtain ⟨first, rest, rfl⟩ := List.exists_cons_of_ne_nil h.ne_nil
  rw [← mem_descendants_iff (by decide), mem_descendants_directory_iff] at h
  obtain ⟨hvisible, child, hchild, hbelow⟩ := h
  simp only [viewEntries, List.mem_cons, List.not_mem_nil, or_false] at hchild
  rcases hchild with heq | heq | heq <;> cases heq
  · rcases hbelow with ⟨rfl, rfl⟩ | hbelow
    · exact .inl rfl
    · cases hbelow
  · exact absurd rfl hvisible
  · rcases hbelow with ⟨rfl, rfl⟩ | hbelow
    · exact .inr (.inl rfl)
    obtain ⟨second, rest, rfl⟩ := List.exists_cons_of_ne_nil (l := rest) fun hnil =>
      nil_not_mem_descendants (hnil ▸ hbelow)
    obtain ⟨-, child, hchild, hbelow⟩ := mem_descendants_directory_iff.1 hbelow
    cases List.mem_singleton.1 hchild
    rcases hbelow with ⟨rfl, rfl⟩ | hbelow
    · exact .inr (.inr rfl)
    · cases hbelow

theorem resolve_complete_of_view :
    ∃ files, resolve viewTemplates (some ⟨[.of "templates"]⟩) "table" =
        .ok ⟨"table", Builtin.header, files⟩ ∧
      files.Pairwise (fun a b => a.path.pieces < b.path.pieces) ∧
      ∀ file, file ∈ files ↔ ∃ names, file.path = .ofNames names ∧
        IsVisible viewEntries names (.file file.source.toUTF8) := by
  refine (resolve_complete (d := viewTemplates) (by decide) (by rfl) (by rfl)).1 ⟨?_, ?_, ?_⟩
  · intro names e h _
    rcases isVisible_viewEntries h with heq | heq | heq <;> cases heq <;> decide
  · exact ⟨[.of "Views.swift"], _, List.cons_ne_nil _ _, by decide, rfl⟩
  · intro names content h
    rcases isVisible_viewEntries h with heq | heq | heq <;> cases heq
    · rw [fromUTF8?_eq_some_iff.2 rfl]
      rfl
    · rw [fromUTF8?_eq_some_iff.2 rfl]
      rfl

def plainEntries : Entries :=
  [(.of "ViewModel.swift", .file "struct ViewModel".toUTF8)]

/-- Templates with one kind of the user, that has one file. -/
def plainTemplates : Disk :=
  ⟨[(.of "templates", .directory [(.of "k", .directory plainEntries)])], []⟩

theorem starts_stayingPath {n : Nat} (h : 9 + 2 * n ≤ longestPath) :
    plainTemplates.Starts (stayingPath (.of "templates") n) where
  nul hmem := absurd (mem_bytes_stayingPath hmem) (by decide)
  size := by
    rw [length_bytes_stayingPath]
    exact h
  nonempty := by
    intro hempty
    have hsize := length_bytes_stayingPath (.of "templates") n
    have hfirst : (Name.of "templates").bytes.length = 9 := rfl
    rw [hempty, List.length_nil, hfirst] at hsize
    omega
  origin := congrArg _ (ite_self [])

theorem arrives_stayingPath (n : Nat) :
    plainTemplates.Arrives (stayingPath (.of "templates") n)
      (stayingPath (.of "templates") n).moves [.of "templates"] := by
  have horigin : plainTemplates.origin (stayingPath (.of "templates") n) = [] := ite_self []
  refine ⟨0, [[.of "templates"]], Nat.zero_le _, ?_⟩
  rw [horigin, moves_stayingPath]
  exact .into rfl (.stop rfl)

/-- The path of these templates, written so that it can be followed to the directory of the kind and
to a header, but not to the file. -/
def farPath : Path :=
  stayingPath (.of "templates") 2036

theorem length_bytes_farPath : farPath.bytes.length = 4081 :=
  length_bytes_stayingPath (.of "templates") 2036

theorem starts_farPath : plainTemplates.Starts farPath :=
  starts_stayingPath (by decide)

theorem arrives_farPath :
    plainTemplates.Arrives farPath farPath.moves [.of "templates"] :=
  arrives_stayingPath 2036

theorem directoryPath_farPath : directoryPath farPath "k" = farPath.join ⟨[Name.of "k"]⟩ :=
  directoryPath_eq (by decide)

theorem list_farPath : plainTemplates.list (directoryPath farPath "k") = .ok plainEntries := by
  have hsize := (Path.length_bytes_join farPath (Name.of "k")).2
  rw [length_bytes_farPath] at hsize
  rw [directoryPath_farPath]
  exact list_eq_ok_iff.2 ⟨starts_farPath.join (.of "k") (hsize.trans (by decide)), _,
    arrives_farPath.join rfl, rfl⟩

theorem readHeader_farPath : readHeader plainTemplates farPath = .ok Builtin.header := by
  have hnone : plainTemplates.item? ([.of "templates"] ++ [.of "header.swift"]) = none :=
    rfl
  have hfile : plainTemplates.isFile (farPath.join ⟨[Name.of "header.swift"]⟩) = false :=
    arrives_farPath.isFile_join_of_none hnone
  have hpath : Path.ofString headerFileName = ⟨[Name.of "header.swift"]⟩ := by decide
  simp only [readHeader, hpath, hfile, Bool.false_eq_true, if_false]

/-- A path may be followed to the directory of a kind, but not to a file in it. -/
theorem not_complete_of_long_path : ¬ ∀ (d : Disk) (templates : Path) (name header : String)
    (entries : Entries), d.IsProper → readHeader d templates = .ok header →
      d.list (directoryPath templates name) = .ok entries →
      (∃ names content, IsVisible entries names (.file content)) →
      (∀ names content, IsVisible entries names (.file content) →
        (String.fromUTF8? content).isSome) →
      ∃ files, resolve d (some templates) name = .ok ⟨name, header, files⟩ := by
  intro h
  have hvisible : IsVisible plainEntries [.of "ViewModel.swift"]
      (.file "struct ViewModel".toUTF8) :=
    ⟨List.cons_ne_nil _ _, by decide, rfl⟩
  have hfit : ¬PathsFit (directoryPath farPath "k") plainEntries := by
    intro hfit
    have hk : (Name.of "k").bytes.length = 1 := rfl
    have hname : (Name.of "ViewModel.swift").bytes.length = 15 := rfl
    have hlong : 4081 + 1 + 15 ≤ longestPath :=
      calc 4081 + 1 + 15
          = farPath.bytes.length + (Name.of "k").bytes.length +
              (Name.of "ViewModel.swift").bytes.length := by
            rw [length_bytes_farPath, hk, hname]
        _ ≤ (farPath.join ⟨[Name.of "k"]⟩).bytes.length +
              (Name.of "ViewModel.swift").bytes.length :=
            Nat.add_le_add_right (Path.length_bytes_join farPath _).1 _
        _ ≤ ((farPath.join ⟨[Name.of "k"]⟩).join
              ⟨[Name.of "ViewModel.swift"]⟩).bytes.length :=
            (Path.length_bytes_join _ _).1
        _ ≤ longestPath := directoryPath_farPath ▸ hfit _ _ hvisible nofun
    exact absurd hlong (by decide)
  have htext (names : List Name) (content : ByteArray)
      (hother : IsVisible plainEntries names (.file content)) :
      (String.fromUTF8? content).isSome := by
    have hshown : (Name.of "ViewModel.swift").isHidden = false := by decide
    rw [← mem_filesBelow_iff (by decide)] at hother
    have hcontent : names = [.of "ViewModel.swift"] ∧ content = "struct ViewModel".toUTF8 := by
      simpa [filesBelow, plainEntries, Entry.descendants, walksInto, file?, hshown] using hother
    rw [fromUTF8?_eq_some_iff.2 hcontent.2]
    rfl
  obtain ⟨files, hfiles⟩ := h plainTemplates farPath "k" Builtin.header _ (by decide)
    readHeader_farPath list_farPath ⟨_, _, hvisible⟩ htext
  rw [resolve_eq_of_header readHeader_farPath list_farPath] at hfiles
  obtain ⟨_, hread, -⟩ := bind_eq_ok_iff.1 hfiles
  exact hfit (pathsFit_of_readFiles (by decide) list_farPath hread)

end Scaffold.Kind
