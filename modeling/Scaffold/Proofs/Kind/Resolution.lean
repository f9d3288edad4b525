import Scaffold.Proofs.Disk.Directory
import Scaffold.Proofs.Kind.Arrangement
import Scaffold.Proofs.Scene.Rendering

/-!
Which kinds are listed, and which are found. Both look into the directory of the user's templates: a
listing goes through the entries of that directory and leaves out links and hidden names, while a
kind is found by following the path that its name gives. They agree on a name unless the name leads
to a directory that is not listed, or a directory is listed whose path is too long to follow, or one
whose name is no text, so that it is shown by another name than its own.
-/

namespace Scaffold.Kind

open Disk Text

variable {d : Disk} {templates : Path} {name : String} {n : Name} {parent : List Name}
  {source : Source} {entries : Entries}

/-- The path that a name gives among the user's templates. -/
def directoryPath (templates : Path) (name : String) : Path :=
  templates.join (.ofString name)

/-- Where the templates of a kind are taken from. -/
def source? (d : Disk) (templates : Path) (name : String) : Option Source :=
  if d.isDirectory (directoryPath templates name) then some .user
  else if (builtin? name).isSome then some .builtin
  else none

/-- The kind that the user keeps in the directory of its name. -/
def readUser (d : Disk) (templates : Path) (name : String) : Except Error KindTemplates := do
  let header ← readHeader d templates
  return ⟨name, header, ← readFiles d name (directoryPath templates name)⟩

theorem source?_eq_user_iff : source? d templates name = some .user ↔
    d.isDirectory (directoryPath templates name) = true := by
  rw [source?]
  split
  · next h => simp [h]
  · next h => split <;> simp [h]

theorem source?_eq_builtin_iff : source? d templates name = some .builtin ↔
    source? d templates name ≠ some .user ∧ (builtin? name).isSome := by
  rw [source?]
  split
  · simp
  · split <;> simp_all

theorem source?_eq_none_iff : source? d templates name = none ↔
    source? d templates name ≠ some .user ∧ builtin? name = none := by
  rw [source?]
  split
  · simp
  · cases builtin? name <;> simp

theorem resolve_of_user (h : source? d templates name = some .user) :
    resolve d (some templates) name = readUser d templates name := by
  have hdirectory := source?_eq_user_iff.1 h
  rw [directoryPath] at hdirectory
  simp only [resolve, hdirectory, if_true]
  rfl

theorem resolve_of_not_user (h : source? d templates name ≠ some .user) :
    resolve d (some templates) name =
      match builtin? name with
      | some kind => .ok kind
      | none => .error (.kindNotFound name) := by
  have hdirectory := mt source?_eq_user_iff.2 h
  rw [directoryPath] at hdirectory
  cases hbuiltin : builtin? name <;> simp only [resolve, if_neg hdirectory, hbuiltin]

theorem exists_fault_of_readHeader {e : Error} (h : readHeader d templates = .error e) :
    ∃ fault, e = .kindInvalid fault := by
  simp only [readHeader] at h
  split at h
  · cases hread : d.readText (templates.join (.ofString headerFileName)) with
    | error cause =>
      rw [hread] at h
      cases h
      exact ⟨_, rfl⟩
    | ok text =>
      rw [hread] at h
      cases h
  · cases h

theorem exists_fault_of_readVisited {directory : Path} {names : List Name} {visited : Entry}
    {e : Error} (h : readVisited directory names visited = .error e) :
    ∃ fault, e = .kindInvalid fault := by
  cases visited with
  | link target => cases h
  | directory entries =>
    simp only [readVisited] at h
    split at h
    · cases h
      exact ⟨_, rfl⟩
    · cases h
  | file content =>
    simp only [readVisited, readTemplate] at h
    split at h
    · cases h
      exact ⟨_, rfl⟩
    split at h
    · cases h
    · cases h
      exact ⟨_, rfl⟩

theorem exists_fault_of_readFiles {directory : Path} {e : Error}
    (h : readFiles d name directory = .error e) : ∃ fault, e = .kindInvalid fault := by
  rw [readFiles] at h
  cases hlist : d.list directory with
  | error cause =>
    rw [hlist] at h
    cases h
    exact ⟨_, rfl⟩
  | ok entries =>
    rw [hlist] at h
    simp only [Except.mapError, bind, Except.bind] at h
    split at h
    · next hread =>
      cases h
      obtain ⟨-, ⟨names, visited⟩, -, -, -, hvisited⟩ := mapM_eq_error_iff.1 hread
      exact exists_fault_of_readVisited hvisited
    · split at h
      · cases h
        exact ⟨_, rfl⟩
      · cases h

/-- Reading fails where the header or the files cannot be read, and takes both as they are read
otherwise. -/
theorem readUser_cases (d : Disk) (templates : Path) (name : String) :
    (∃ e, readUser d templates name = .error e ∧ (readHeader d templates = .error e ∨
      readFiles d name (directoryPath templates name) = .error e)) ∨
    ∃ header files, readUser d templates name = .ok ⟨name, header, files⟩ ∧
      readHeader d templates = .ok header ∧
      readFiles d name (directoryPath templates name) = .ok files := by
  rw [readUser]
  cases readHeader d templates with
  | error e => exact .inl ⟨e, rfl, .inl rfl⟩
  | ok header =>
    cases readFiles d name (directoryPath templates name) with
    | error e => exact .inl ⟨e, rfl, .inr rfl⟩
    | ok files => exact .inr ⟨header, files, rfl, rfl, rfl⟩

theorem exists_fault_of_readUser {e : Error} (h : readUser d templates name = .error e) :
    ∃ fault, e = .kindInvalid fault := by
  rcases readUser_cases d templates name with
    ⟨e', heq, hheader | hfiles⟩ | ⟨header, files, heq, -, -⟩
  · cases heq.symm.trans h
    exact exists_fault_of_readHeader hheader
  · cases heq.symm.trans h
    exact exists_fault_of_readFiles hfiles
  · cases heq.symm.trans h

/-- Whatever is wrong with the user's templates, the kind counts as found. -/
theorem readUser_ne_notFound (other : String) :
    readUser d templates name ≠ .error (.kindNotFound other) := by
  intro h
  obtain ⟨fault, hfault⟩ := exists_fault_of_readUser h
  cases hfault

/-- A kind is not found if and only if it has no source. -/
theorem resolve_eq_notFound_iff : resolve d (some templates) name = .error (.kindNotFound name) ↔
    source? d templates name = none := by
  by_cases huser : source? d templates name = some .user
  · rw [resolve_of_user huser, huser]
    simp [readUser_ne_notFound]
  · rw [resolve_of_not_user huser, source?_eq_none_iff]
    cases builtin? name <;> simp [huser]

theorem resolve_of_builtin (h : source? d templates name = some .builtin) :
    ∃ kind, builtin? name = some kind ∧ resolve d (some templates) name = .ok kind := by
  obtain ⟨huser, hsome⟩ := source?_eq_builtin_iff.1 h
  obtain ⟨kind, hkind⟩ := Option.isSome_iff_exists.1 hsome
  refine ⟨kind, hkind, ?_⟩
  rw [resolve_of_not_user huser, hkind]

theorem isSome_builtin?_iff : (builtin? name).isSome ↔ name ∈ Builtin.names := by
  rw [builtin?.eq_def]
  split <;> simp_all [Builtin.names]

/-- The directory of the user's templates holds a directory of this name, not a link to one, and the
name is not hidden. -/
structure IsSubdirectory (d : Disk) (templates : Path) (n : Name) (parent : List Name) : Prop where
  starts : d.Starts templates
  arrives : d.Arrives templates templates.moves parent
  directory : d.item? (parent ++ [n]) = some .directory
  visible : n.bytes.head? ≠ some 0x2E

theorem mem_visibleDirectories_iff (h : (Assoc.keys entries).Nodup) :
    n ∈ visibleDirectories entries ↔
      (Assoc.find? n entries).map Entry.item = some .directory ∧ n.bytes.head? ≠ some 0x2E := by
  have hdirectory (e : Entry) : e.isDirectory = true ↔ e.item = .directory := by
    cases e <;> simp [Entry.isDirectory, Entry.item]
  rw [← Name.isHidden_eq_false_iff]
  simp only [visibleDirectories, List.mem_map, List.mem_filter, Bool.and_eq_true, hdirectory,
    Bool.not_eq_true', Option.map_eq_some_iff, Assoc.find?_eq_some_iff_of_nodup h]
  constructor
  · rintro ⟨⟨_, e⟩, ⟨hmem, hitem, hshown⟩, rfl⟩
    exact ⟨⟨e, hmem, hitem⟩, hshown⟩
  · rintro ⟨⟨e, hmem, hitem⟩, hshown⟩
    exact ⟨(n, e), ⟨hmem, hitem, hshown⟩, rfl⟩

theorem nodup_visibleDirectories (h : (Assoc.keys entries).Nodup) :
    (visibleDirectories entries).Nodup :=
  h.sublist (List.filter_sublist.map _)

theorem list_of_list (h : d.list templates = .ok entries) :
    list d (some templates) = .ok (listing entries) := by
  have hdirectory := isDirectory_iff_exists_list.2 ⟨entries, h⟩
  simp only [list, Option.filter, hdirectory, if_true, h]
  rfl

/-- A listing holds the subdirectories of the user's templates and the builtin kinds. -/
theorem exists_list (hd : d.IsProper) (templates : Path) :
    ∃ entries, list d (some templates) = .ok (listing entries) ∧
      (visibleDirectories entries).Nodup ∧
      ∀ n, n ∈ visibleDirectories entries ↔ ∃ parent, IsSubdirectory d templates n parent := by
  cases hdirectory : d.isDirectory templates with
  | false =>
    have hlist : list d (some templates) = .ok (listing []) := by
      simp [list, Option.filter, hdirectory, listing]
    refine ⟨[], hlist, List.nodup_nil, fun n => iff_of_false List.not_mem_nil ?_⟩
    rintro ⟨parent, h⟩
    have hdirectory' := isDirectory_iff.2 ⟨h.starts, parent, h.arrives⟩
    rw [hdirectory] at hdirectory'
    cases hdirectory'
  | true =>
    obtain ⟨entries, hlist⟩ := isDirectory_iff_exists_list.1 hdirectory
    obtain ⟨hstarts, place, hplace, hes⟩ := list_eq_ok_iff.1 hlist
    have hkeys := (IsProper.of_entry? hd hes).1
    refine ⟨entries, list_of_list hlist, nodup_visibleDirectories hkeys, fun n => ?_⟩
    rw [mem_visibleDirectories_iff hkeys]
    constructor
    · rintro ⟨hitem, hvisible⟩
      exact ⟨place, hstarts, hplace, (item?_concat hes).trans hitem, hvisible⟩
    · rintro ⟨parent, h⟩
      obtain ⟨es', hes'⟩ :=
        item?_eq_directory_iff.1 (d.isTree_item?.eq_directory_of_append h.directory)
      obtain rfl := Except.ok.inj (hlist.symm.trans (list_eq_ok_iff.2
        ⟨h.starts, parent, h.arrives, hes'⟩))
      exact ⟨(item?_concat hes').symm.trans h.directory, h.visible⟩

/-- The kind is found where it is listed. -/
def Agree (d : Disk) (templates : Path) (name : String) (kinds : Listed) : Prop :=
  ∀ source, source? d templates name = some source ↔ (name, source) ∈ kinds

/-- There is a directory of the user that is shown by the name. -/
def IsShown (d : Disk) (templates : Path) (name : String) : Prop :=
  ∃ n parent, IsSubdirectory d templates n parent ∧ n.text = name

/-- Why a name that leads to a directory is not listed for it. -/
inductive IsUnlisted (d : Disk) (templates : Path) (name : String) : Prop where
  | empty (hempty : name = "")
  | slash (hslash : '/' ∈ name.toList)
  | hidden (hhidden : name.toList.head? = some '.')
  | here (hhere : templates.bytes = [])
  | link (n : Name) (parent : List Name) (target : Path) (hname : n.text? = some name)
      (harrives : d.Arrives templates templates.moves parent)
      (hlink : d.item? (parent ++ [n]) = some (.link target))

/-- The name leads to a directory of the user that is not listed, nor is one that is shown alike. -/
structure FoundUnlisted (d : Disk) (templates : Path) (name : String) : Prop where
  found : d.isDirectory (directoryPath templates name) = true
  unlisted : IsUnlisted d templates name
  notShown : ¬IsShown d templates name

/-- A directory of the user is listed, but the path to it is too long to be followed. -/
structure ListedTooLong (d : Disk) (templates : Path) (name : String) : Prop where
  listed : ∃ n parent, IsSubdirectory d templates n parent ∧ n.text? = some name
  long : longestPath < (directoryPath templates name).bytes.length

/-- A directory of the user is listed whose name is no text, and what it is shown by leads to no
directory. -/
structure ListedMisread (d : Disk) (templates : Path) (name : String) : Prop where
  listed : ∃ n parent, IsSubdirectory d templates n parent ∧ n.text = name ∧ n.text? = none
  notFound : d.isDirectory (directoryPath templates name) = false

theorem agree_listing_iff : Agree d templates name (listing entries) ↔
    (d.isDirectory (directoryPath templates name) = true ↔
      name ∈ shown (visibleDirectories entries)) := by
  rw [← source?_eq_user_iff]
  constructor
  · intro h
    rw [h .user, mem_listing_user_iff]
  · intro h source
    cases source with
    | user => rw [h, mem_listing_user_iff]
    | builtin =>
      rw [source?_eq_builtin_iff, mem_listing_builtin_iff, ← isSome_builtin?_iff, ← h, ne_eq]
      exact and_comm

/-- A directory that is found is a subdirectory, unless there is a reason for which it is not
listed. -/
theorem exists_subdirectory_or_isUnlisted
    (h : d.isDirectory (directoryPath templates name) = true) :
    (∃ n parent, IsSubdirectory d templates n parent ∧ n.text? = some name) ∨
      IsUnlisted d templates name := by
  by_cases hempty : name = ""
  · exact .inr (.empty hempty)
  by_cases hslash : '/' ∈ name.toList
  · exact .inr (.slash hslash)
  by_cases hhidden : name.toList.head? = some '.'
  · exact .inr (.hidden hhidden)
  by_cases hhere : templates.bytes = []
  · exact .inr (.here hhere)
  rw [directoryPath, Path.ofString, Path.ofBytes_of_not_mem (slash_mem_bytes_iff.not.2 hslash)] at h
  obtain ⟨hstarts, last, hlast⟩ := isDirectory_iff.1 h
  have hvisible := (head?_bytes_eq_iff (by decide)).not.2 hhidden
  obtain ⟨n, hn⟩ := hlast.exists_eq_toPiece (mt bytes_eq_nil_iff.1 hempty) hvisible
  have hname : n.text? = some name := decode?_eq_some_iff.2 (congrArg Piece.bytes hn).symm
  rw [hn] at hstarts hlast
  have hstarts' := hstarts.of_join hhere
  obtain ⟨parent, hparent, hitem | ⟨target, hitem⟩⟩ :=
    exists_of_arrives_join hstarts'.origin hlast
  · refine .inl ⟨n, parent, ⟨hstarts', hparent, hitem, ?_⟩, hname⟩
    rwa [← hn]
  · exact .inr (.link n parent target hname hparent hitem)

theorem text_eq_of_text? (h : n.text? = some name) : n.text = name := by
  rw [Piece.text, decode?_eq_some_iff.1 h, decode_bytes]

/-- A name that is a text gives the path of the name. -/
theorem directoryPath_eq (hname : n.text? = some name) :
    directoryPath templates name = templates.join ⟨[n]⟩ := by
  have hbytes : bytes name = n.bytes := (decode?_eq_some_iff.1 hname).symm
  rw [directoryPath, Path.ofString, hbytes, Path.ofBytes_of_not_mem n.slash_not_mem]

namespace IsSubdirectory

/-- There is no reason not to list a subdirectory. -/
theorem not_isUnlisted (h : IsSubdirectory d templates n parent) (hname : n.text? = some name) :
    ¬IsUnlisted d templates name := by
  have hbytes : bytes name = n.bytes := (decode?_eq_some_iff.1 hname).symm
  intro hunlisted
  cases hunlisted with
  | empty hempty =>
    have hne := (Piece.isName_iff.1 n.isName).1
    exact hne (Piece.eq_of_bytes (hbytes.symm.trans (bytes_eq_nil_iff.2 hempty)))
  | slash hslash => exact n.slash_not_mem (hbytes ▸ slash_mem_bytes_iff.2 hslash)
  | hidden hhidden => exact h.visible (hbytes ▸ (head?_bytes_eq_iff (by decide)).2 hhidden)
  | here hhere => exact h.starts.nonempty hhere
  | link other parent' target hother harrives hlink =>
    have heq : n = other :=
      Name.eq_of_toPiece (Piece.eq_of_bytes (hbytes.symm.trans (decode?_eq_some_iff.1 hother).symm))
    rw [h.arrives.unique harrives, ← heq, h.directory] at hlink
    cases hlink

/-- A subdirectory is found unless the path to it is too long. -/
theorem arrives_iff (h : IsSubdirectory d templates n parent) (hname : n.text? = some name) :
    (d.Starts (directoryPath templates name) ↔
      (directoryPath templates name).bytes.length ≤ longestPath) ∧
    d.Arrives (directoryPath templates name) (directoryPath templates name).moves
      (parent ++ [n]) := by
  rw [directoryPath_eq hname]
  exact ⟨⟨fun hstarts => hstarts.size, fun hlong => h.starts.join n hlong⟩,
    h.arrives.join h.directory⟩

theorem isDirectory_iff (h : IsSubdirectory d templates n parent) (hname : n.text? = some name) :
    d.isDirectory (directoryPath templates name) = true ↔
      (directoryPath templates name).bytes.length ≤ longestPath := by
  obtain ⟨hstarts, harrives⟩ := h.arrives_iff hname
  rw [Disk.isDirectory_iff]
  exact ⟨fun hdirectory => hdirectory.1.size, fun hlong => ⟨hstarts.2 hlong, _, harrives⟩⟩

end IsSubdirectory

/-- What is listed for the user under a name is found, or else too long or misread. -/
theorem isDirectory_of_isShown (h : IsShown d templates name)
    (hlong : ¬ListedTooLong d templates name) (hmisread : ¬ListedMisread d templates name) :
    d.isDirectory (directoryPath templates name) = true := by
  obtain ⟨n, parent, hsub, htext⟩ := h
  cases hname : n.text? with
  | none =>
    rw [← Bool.not_eq_false]
    exact fun hnot => hmisread ⟨⟨n, parent, hsub, htext, hname⟩, hnot⟩
  | some text =>
    obtain rfl := (text_eq_of_text? hname).symm.trans htext
    exact (hsub.isDirectory_iff hname).2
      (Nat.not_lt.1 fun hlt => hlong ⟨⟨n, parent, hsub, hname⟩, hlt⟩)

/-- A kind is read from the directory that its name leads to, or else is the builtin one. The
listing says so exactly if the name does not lead to a directory that is not listed, and no
directory is listed by it whose path is too long or whose name is another one. -/
theorem resolve_of_list (hd : d.IsProper) (templates : Path) (name : String) :
    ∃ kinds, list d (some templates) = .ok kinds ∧
      (source? d templates name = some .user →
        resolve d (some templates) name = readUser d templates name) ∧
      (source? d templates name = some .builtin →
        ∃ kind, builtin? name = some kind ∧ resolve d (some templates) name = .ok kind) ∧
      (source? d templates name = none ↔
        resolve d (some templates) name = .error (.kindNotFound name)) ∧
      (Agree d templates name kinds ↔ ¬FoundUnlisted d templates name ∧
        ¬ListedTooLong d templates name ∧ ¬ListedMisread d templates name) ∧
      (source? d templates name = some .user → (¬IsUnlisted d templates name ↔
        ∃ n parent, n.text? = some name ∧ IsSubdirectory d templates n parent ∧
          d.Arrives (directoryPath templates name) (directoryPath templates name).moves
            (parent ++ [n]))) := by
  obtain ⟨entries, hlist, -, hkept⟩ := exists_list hd templates
  have hshown : name ∈ shown (visibleDirectories entries) ↔ IsShown d templates name := by
    simp only [mem_shown_iff, hkept, IsShown, exists_and_right]
  refine ⟨listing entries, hlist, resolve_of_user, resolve_of_builtin, resolve_eq_notFound_iff.symm,
    ?_, fun huser => ⟨fun hlisted => ?_, ?_⟩⟩
  · rw [agree_listing_iff, hshown]
    constructor
    · intro hiff
      refine ⟨fun h => h.notShown (hiff.1 h.found), fun h => ?_, fun h => ?_⟩
      · obtain ⟨n, parent, hsub, hname⟩ := h.listed
        have hfound := hiff.2 ⟨n, parent, hsub, text_eq_of_text? hname⟩
        exact absurd ((hsub.isDirectory_iff hname).1 hfound) (Nat.not_le.2 h.long)
      · obtain ⟨n, parent, hsub, htext, -⟩ := h.listed
        exact absurd (hiff.2 ⟨n, parent, hsub, htext⟩) (Bool.eq_false_iff.1 h.notFound)
    · rintro ⟨hunlisted, hlong, hmisread⟩
      refine ⟨fun hfound => ?_, fun h => isDirectory_of_isShown h hlong hmisread⟩
      by_contra hnot
      obtain ⟨n, parent, hsub, hname⟩ | hreason := exists_subdirectory_or_isUnlisted hfound
      · exact hnot ⟨n, parent, hsub, text_eq_of_text? hname⟩
      · exact hunlisted ⟨hfound, hreason, hnot⟩
  · obtain ⟨n, parent, hsub, hname⟩ :=
      (exists_subdirectory_or_isUnlisted (source?_eq_user_iff.1 huser)).resolve_right hlisted
    exact ⟨n, parent, hname, hsub, (hsub.arrives_iff hname).2⟩
  · rintro ⟨n, parent, hname, hsub, -⟩
    exact hsub.not_isUnlisted hname

/-- Templates with one kind of the user, and a link to it in place of a builtin kind. -/
def linkedTemplates : Disk :=
  ⟨[(.of "templates", .directory [(.of "detail", .link ⟨[.of "table"]⟩),
    (.of "table", .directory [(.of "View.swift", .file "\x7b\x7b name \x7d\x7d".toUTF8)])])], []⟩

theorem resolve_of_list_of_subdirectory :
    let templates : Path := ⟨[.of "templates"]⟩
    ∃ kinds, list linkedTemplates (some templates) = .ok kinds ∧
      resolve linkedTemplates (some templates) "table" =
        readUser linkedTemplates templates "table" ∧
      Agree linkedTemplates templates "table" kinds := by
  intro templates
  have harrives : linkedTemplates.Arrives templates templates.moves [.of "templates"] := by
    have hmoves : templates.moves = [.into (.of "templates")] :=
      Path.moves_singleton (.of "templates")
    rw [hmoves]
    exact ⟨0, _, Nat.zero_le _, .into rfl (.stop rfl)⟩
  have hsub : IsSubdirectory linkedTemplates templates (.of "table") [.of "templates"] :=
    ⟨⟨by decide, by decide, by decide, rfl⟩, harrives, rfl, by decide⟩
  have hshown : IsShown linkedTemplates templates "table" := ⟨_, _, hsub, by decide⟩
  have hfound : ¬FoundUnlisted linkedTemplates templates "table" := fun h => h.notShown hshown
  have hlong : ¬ListedTooLong linkedTemplates templates "table" :=
    fun h => absurd h.long (by decide)
  have htable : (Name.of "table").text? = some "table" := by decide
  have hdirectory := (hsub.isDirectory_iff htable).2 (by decide)
  have hmisread : ¬ListedMisread linkedTemplates templates "table" :=
    fun h => Bool.noConfusion (hdirectory.symm.trans h.notFound)
  obtain ⟨kinds, hlist, huser, -, -, hagree, -⟩ :=
    resolve_of_list (d := linkedTemplates) (by decide) templates "table"
  exact ⟨kinds, hlist, huser (source?_eq_user_iff.2 hdirectory),
    hagree.2 ⟨hfound, hlong, hmisread⟩⟩

/-- A link among the templates is followed but not listed, and so is the directory above them. -/
theorem not_agree_of_link :
    let templates : Path := ⟨[.of "templates"]⟩
    ∃ kinds, list linkedTemplates (some templates) = .ok kinds ∧
      source? linkedTemplates templates "detail" = some .user ∧
      ("detail", .user) ∉ kinds ∧ ("detail", .builtin) ∈ kinds ∧
      source? linkedTemplates templates ".." = some .user ∧
      ∀ source, ("..", source) ∉ kinds := by
  refine ⟨_, list_of_list rfl, by decide, ?_, ?_, by decide, fun source => ?_⟩
  · rw [mem_listing_user_iff]
    decide
  · rw [mem_listing_builtin_iff]
    decide
  · cases source with
    | user =>
      rw [mem_listing_user_iff]
      decide
    | builtin =>
      rw [mem_listing_builtin_iff]
      decide

end Scaffold.Kind
