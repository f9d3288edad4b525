import Scaffold.Proofs.Kind.Files

/-!
The listing of the kinds as one that leaves no choice. The builtin kinds stand first, in their
order, and the other directories of the user follow in the order of the bytes of what they are shown
by; so the listing is determined by which directories there are, in whatever order the system gives
them. A kind that is listed for the user is read from the directory of its name, unless the path to
it is longer than the system follows, or the name of the directory is no text.
-/

namespace Scaffold.Kind

open Disk Text

variable {d d' : Disk} {templates : Path} {name : String} {n : Name} {entries entries' : Entries}
  {source : String → Source} {others : List String}

/-- These are the names of the subdirectories of the user's templates, each given once. -/
structure AreSubdirectories (d : Disk) (templates : Path) (kept : List Name) : Prop where
  nodup : kept.Nodup
  mem_iff : ∀ n, n ∈ kept ↔ ∃ parent, IsSubdirectory d templates n parent

/-- The system may give the entries of a directory in any order. -/
theorem list_perm (hlist : d.list templates = .ok entries)
    (hlist' : d'.list templates = .ok entries') (hperm : entries.Perm entries') :
    list d' (some templates) = list d (some templates) := by
  rw [list_of_list hlist, list_of_list hlist', listing_perm hperm]

/-- The kinds that the user keeps are listed as they are arranged. -/
theorem exists_list_eq_arranged (hd : d.IsProper) (templates : Path) :
    ∃ kept source others, AreSubdirectories d templates kept ∧
      list d (some templates) = .ok (arranged source others) ∧
      IsArrangement kept source others := by
  obtain ⟨entries, hlist, hnodup, hkept⟩ := exists_list hd templates
  obtain ⟨source, others, hlisting, harranged⟩ := exists_listing_eq_arranged entries
  exact ⟨_, source, others, ⟨hnodup, hkept⟩, hlisting ▸ hlist, harranged⟩

/-- The kind is read with the files in the directory of its name, or the result is what is wrong
with these or with the header. -/
inductive IsRead (d : Disk) (templates : Path) (name : String) :
    Except Error KindTemplates → Prop where
  | kind (header : String) (files : List TemplateFile)
      (hheader : readHeader d templates = .ok header)
      (hfiles : readFiles d name (directoryPath templates name) = .ok files) :
      IsRead d templates name (.ok ⟨name, header, files⟩)
  | badHeader (fault : KindFault) (hheader : readHeader d templates = .error (.kindInvalid fault)) :
      IsRead d templates name (.error (.kindInvalid fault))
  | badFiles (fault : KindFault)
      (hfiles : readFiles d name (directoryPath templates name) = .error (.kindInvalid fault)) :
      IsRead d templates name (.error (.kindInvalid fault))

theorem isRead_readUser (d : Disk) (templates : Path) (name : String) :
    IsRead d templates name (readUser d templates name) := by
  rcases readUser_cases d templates name with
    ⟨e, hread, hheader | hfiles⟩ | ⟨header, files, hread, hheader, hfiles⟩
  · obtain ⟨fault, rfl⟩ := exists_fault_of_readHeader hheader
    exact hread ▸ .badHeader fault hheader
  · obtain ⟨fault, rfl⟩ := exists_fault_of_readFiles hfiles
    exact hread ▸ .badFiles fault hfiles
  · exact hread ▸ .kind header files hheader hfiles

/-- A subdirectory to which the path can be followed holds the kind of its name. -/
theorem isRead_of_subdirectory {parent : List Name} (h : IsSubdirectory d templates n parent)
    (hname : n.text? = some name)
    (hsize : (directoryPath templates name).bytes.length ≤ longestPath) :
    IsRead d templates name (resolve d (some templates) name) := by
  rw [resolve_of_user (source?_eq_user_iff.2 ((h.isDirectory_iff hname).2 hsize))]
  exact isRead_readUser d templates name

/-- A name that is shown without a replacement character is a text. -/
theorem text?_eq_some (h : '\uFFFD' ∉ n.text.toList) : n.text? = some n.text :=
  decode?_eq_some_iff.2 (bytes_decode h).symm

/-- The builtin kinds are listed in their order, each for the user if and only if there is a
directory that is shown by its name, then the other directories as they are shown, in the order of
the bytes. No name is listed twice unless two directories are shown alike, for which both must be
shown with a replacement character, and the order of the entries does not matter. What is listed for
the user without one is the name of a directory, and a kind is read from the directory of its name
if the path to it is not too long. -/
theorem list_canonical (hd : d.IsProper) (templates : Path) :
    ∃ kept source others, AreSubdirectories d templates kept ∧
      list d (some templates) = .ok (arranged source others) ∧
      IsArrangement kept source others ∧
      ((Assoc.keys (arranged source others)).Nodup ↔ (shown kept).Nodup) ∧
      ((Assoc.keys (arranged source others)).filter fun name => '\uFFFD' ∉ name.toList).Nodup ∧
      ((shown kept).Nodup → others.Pairwise fun name name' => bytes name < bytes name') ∧
      (∀ (d' : Disk) (entries entries' : Entries), d.list templates = .ok entries →
        d'.list templates = .ok entries' → entries.Perm entries' →
        list d' (some templates) = .ok (arranged source others)) ∧
      ∀ name, (name, .user) ∈ arranged source others →
        ('\uFFFD' ∉ name.toList → ∃ n ∈ kept, n.text? = some name) ∧
        ((∃ n ∈ kept, n.text? = some name) →
          (directoryPath templates name).bytes.length ≤ longestPath →
          IsRead d templates name (resolve d (some templates) name)) := by
  obtain ⟨kept, source, others, hkept, hlist, harranged⟩ := exists_list_eq_arranged hd templates
  refine ⟨kept, source, others, hkept, hlist, harranged, harranged.nodup_keys_iff hkept.nodup,
    harranged.nodup_read hkept.nodup, harranged.pairwise_lt, ?_, fun name hmem => ⟨?_, ?_⟩⟩
  · intro d' entries entries' hentries hentries' hperm
    rw [list_perm hentries hentries' hperm, hlist]
  · intro hread
    obtain ⟨n, hn, rfl⟩ := mem_shown_iff.1 (harranged.mem_user_iff.1 hmem)
    exact ⟨n, hn, text?_eq_some hread⟩
  · rintro ⟨n, hn, hname⟩ hsize
    obtain ⟨parent, hsub⟩ := (hkept.mem_iff n).1 hn
    exact isRead_of_subdirectory hsub hname hsize

/-- Entries out of order: two kinds, one in place of a builtin kind, a hidden directory, a link and
a file. -/
def mixedEntries : Entries :=
  [(.of "zeta", .directory [(.of "View.swift", .file "struct View".toUTF8)]),
    (.of ".git", .directory []), (.of "alpha", .directory []),
    (.of "table", .link ⟨[.of "zeta"]⟩), (.of "detail", .directory []),
    (.of "notes", .file "".toUTF8)]

/-- Templates with these entries. -/
def templatesWith (entries : Entries) : Disk :=
  ⟨[(.of "templates", .directory entries)], []⟩

theorem list_canonical_of_mixed :
    let templates : Path := ⟨[.of "templates"]⟩
    ∃ source others,
      list (templatesWith mixedEntries) (some templates) = .ok (arranged source others) ∧
      list (templatesWith mixedEntries.reverse) (some templates) = .ok (arranged source others) ∧
      others = ["alpha", "zeta"] ∧
      IsRead (templatesWith mixedEntries) templates "zeta"
        (resolve (templatesWith mixedEntries) (some templates) "zeta") := by
  intro templates
  obtain ⟨kept, source, others, -, hlist, -, -, -, -, hperm, hread⟩ :=
    list_canonical (d := templatesWith mixedEntries) (by decide) templates
  have hlisting : arranged source others = listing mixedEntries :=
    Except.ok.inj (hlist.symm.trans (list_of_list rfl))
  obtain ⟨source', others', hlisting', harranged⟩ := exists_listing_eq_arranged mixedEntries
  have hexpected : IsArrangement (visibleDirectories mixedEntries) source' ["alpha", "zeta"] :=
    ⟨harranged.source_eq_user, by decide, by decide⟩
  have hothers : others = ["alpha", "zeta"] := by
    have hkeys := congrArg Assoc.keys (hlisting.trans hlisting')
    rw [keys_arranged, keys_arranged, (harranged.unique hexpected).2] at hkeys
    exact List.append_cancel_left hkeys
  have hzeta : ("zeta", .user) ∈ arranged source others := by
    rw [hlisting, mem_listing_user_iff]
    decide
  obtain ⟨hname, hread⟩ := hread "zeta" hzeta
  exact ⟨source, others, hlist, hperm _ _ _ rfl rfl (List.reverse_perm _).symm, hothers,
    hread (hname (by decide)) (by decide)⟩

/-- Two directories whose names are no texts and are shown alike. -/
def unreadEntries : Entries :=
  [(⟨⟨[0x6B, 0xFE], by decide⟩, by decide⟩, .directory plainEntries),
    (⟨⟨[0x6B, 0xFF], by decide⟩, by decide⟩, .directory plainEntries)]

/-- Names that are no texts may be listed twice, and templates may be listed by a path that is too
long when the name of a kind is added to it. Neither kind is found. -/
theorem not_canonical :
    (templatesWith unreadEntries).IsProper ∧ plainTemplates.IsProper ∧
    (∃ kinds, list (templatesWith unreadEntries) (some ⟨[.of "templates"]⟩) = .ok kinds ∧
      ¬(Assoc.keys kinds).Nodup ∧ ("k\uFFFD", .user) ∈ kinds ∧
      resolve (templatesWith unreadEntries) (some ⟨[.of "templates"]⟩) "k\uFFFD" =
        .error (.kindNotFound "k\uFFFD")) ∧
    ∃ kinds, list plainTemplates (some (stayingPath (.of "templates") 2043)) = .ok kinds ∧
      ("k", .user) ∈ kinds ∧
      resolve plainTemplates (some (stayingPath (.of "templates") 2043)) "k" =
        .error (.kindNotFound "k") := by
  refine ⟨by decide, by decide, ?_, ?_⟩
  · obtain ⟨source, others, hlisting, harranged⟩ := exists_listing_eq_arranged unreadEntries
    refine ⟨_, list_of_list rfl, ?_, ?_, resolve_eq_notFound_iff.2 (by decide)⟩
    · rw [hlisting, harranged.nodup_keys_iff (by decide)]
      decide
    · rw [mem_listing_user_iff]
      decide
  · have hlist : plainTemplates.list (stayingPath (.of "templates") 2043) =
        .ok [(.of "k", .directory plainEntries)] :=
      list_eq_ok_iff.2 ⟨starts_stayingPath (by decide), _, arrives_stayingPath 2043, rfl⟩
    refine ⟨_, list_of_list hlist, mem_listing_user_iff.2 (by decide),
      resolve_eq_notFound_iff.2 (source?_eq_none_iff.2 ⟨fun huser => ?_, rfl⟩)⟩
    have hsize := (isDirectory_iff.1 (source?_eq_user_iff.1 huser)).1.size
    rw [directoryPath_eq (n := .of "k") (by decide)] at hsize
    have hlong := (Path.length_bytes_join (stayingPath (.of "templates") 2043) (Name.of "k")).1
    have hk : (Name.of "k").bytes.length = 1 := rfl
    have hfirst : (Name.of "templates").bytes.length = 9 := rfl
    rw [length_bytes_stayingPath, hk, hfirst] at hlong
    exact absurd (hlong.trans hsize) (by decide)

end Scaffold.Kind
