import Scaffold.Proofs.Kind.Resolution

/-!
The header of a kind. A header among the user's templates is the one of every kind that the user
keeps there. The builtin kinds have the builtin header, also where they stand in for a kind that the
user does not keep.
-/

namespace Scaffold

namespace Disk

variable {d : Disk} {p : Path} {text : String}

theorem isFile_of_readText (h : d.readText p = .ok text) : d.isFile p = true := by
  obtain ⟨content, hread, -⟩ := bind_eq_ok_iff.1 h
  obtain ⟨e, hget, hfile⟩ := bind_eq_ok_iff.1 hread
  obtain ⟨names, hresolve⟩ := get_eq_ok_iff.1 hget
  rw [isFile, look?_eq_some_iff.2 ⟨names, hresolve⟩]
  cases e with
  | file content => rfl
  | link target => cases hfile
  | directory es => cases hfile

end Disk

namespace Kind

variable {d : Disk} {templates : Path} {name : String} {kind : KindTemplates}

/-- The path of the header among the user's templates. -/
def headerPath (templates : Path) : Path :=
  templates.join (.ofString headerFileName)

theorem header_of_builtin? (h : builtin? name = some kind) : kind.header = Builtin.header := by
  rw [builtin?.eq_def] at h
  split at h <;> cases h <;> rfl

theorem header_of_readUser (h : readUser d templates name = .ok kind) :
    readHeader d templates = .ok kind.header := by
  rcases readUser_cases d templates name with ⟨e, heq, -⟩ | ⟨header, files, heq, hheader, -⟩
  · cases heq.symm.trans h
  · cases heq.symm.trans h
    exact hheader

theorem readHeader_of_readText {text : String} (h : d.readText (headerPath templates) = .ok text) :
    readHeader d templates = .ok text := by
  have hfile := Disk.isFile_of_readText h
  rw [headerPath] at h hfile
  simp only [readHeader, hfile, if_true, h, Except.mapError]

/-- A header that cannot be read is an error, so a header that is found otherwise is the builtin
one. -/
theorem eq_of_readHeader {header : String} (h : readHeader d templates = .ok header)
    (hnone : ∀ text, d.readText (headerPath templates) ≠ .ok text) : header = Builtin.header := by
  simp only [readHeader] at h
  split at h
  · exact absurd (mapError_eq_ok_iff.1 h) (hnone header)
  · cases h
    rfl

/-- The header among the user's templates is the header of a kind exactly if the user keeps the kind
there, or if it is the builtin header anyway. Without a header among the templates it is the builtin
one. -/
theorem header_of_resolve (h : resolve d (some templates) name = .ok kind) :
    (∀ text, d.readText (headerPath templates) = .ok text →
      (kind.header = text ↔ source? d templates name = some .user ∨ text = Builtin.header)) ∧
    ((∀ text, d.readText (headerPath templates) ≠ .ok text) → kind.header = Builtin.header) := by
  by_cases huser : source? d templates name = some .user
  · rw [resolve_of_user huser] at h
    have hheader := header_of_readUser h
    refine ⟨fun text htext => ?_, eq_of_readHeader hheader⟩
    rw [readHeader_of_readText htext] at hheader
    simp [huser, (Except.ok.inj hheader).symm]
  · rw [resolve_of_not_user huser] at h
    cases hbuiltin : builtin? name with
    | none =>
      rw [hbuiltin] at h
      cases h
    | some builtin =>
      rw [hbuiltin] at h
      cases h
      rw [header_of_builtin? hbuiltin]
      exact ⟨fun text _ => by simp [huser, eq_comm], fun _ => rfl⟩

/-- Templates with a header and one kind of the user. -/
def templatesWithHeader : Disk :=
  ⟨[(.of "templates", .directory [(.of "header.swift", .file "// mine\n".toUTF8),
    (.of "table", .directory [(.of "View.swift", .file "struct View".toUTF8)])])], []⟩

theorem readText_templatesWithHeader :
    templatesWithHeader.readText (headerPath ⟨[.of "templates"]⟩) = .ok "// mine\n" := by
  have hbytes : templatesWithHeader.readBytes (headerPath ⟨[.of "templates"]⟩) =
      .ok "// mine\n".toUTF8 := rfl
  rw [Disk.readText, hbytes]
  rfl

theorem header_of_resolve_of_user :
    ∃ kind, resolve templatesWithHeader (some ⟨[.of "templates"]⟩) "table" = .ok kind ∧
      kind.header = "// mine\n" := by
  have hfound : (resolve templatesWithHeader (some ⟨[.of "templates"]⟩) "table").toBool = true := by
    decide +kernel
  cases hresolve : resolve templatesWithHeader (some ⟨[.of "templates"]⟩) "table" with
  | error e =>
    rw [hresolve] at hfound
    cases hfound
  | ok kind =>
    have huser : source? templatesWithHeader ⟨[.of "templates"]⟩ "table" = some .user := by decide
    exact ⟨kind, rfl,
      ((header_of_resolve hresolve).1 _ readText_templatesWithHeader).2 (.inl huser)⟩

/-- A builtin kind does not take the header that is among the user's templates. -/
theorem header_not_replaced :
    ∃ kind, resolve templatesWithHeader (some ⟨[.of "templates"]⟩) "base" = .ok kind ∧
      templatesWithHeader.readText (headerPath ⟨[.of "templates"]⟩) = .ok "// mine\n" ∧
      kind.header ≠ "// mine\n" := by
  have hbuiltin : source? templatesWithHeader ⟨[.of "templates"]⟩ "base" = some .builtin := by
    decide
  obtain ⟨kind, hkind, hresolve⟩ := resolve_of_builtin hbuiltin
  refine ⟨kind, hresolve, readText_templatesWithHeader, ?_⟩
  rw [header_of_builtin? hkind]
  decide

end Kind

end Scaffold
