import Scaffold.Project
import Scaffold.Proofs.Disk.Action
import Scaffold.Proofs.Disk.Reading
import Scaffold.Proofs.Toml.Statement

/-!
A configuration is read back from the document that holds it, and from the file that it has been
written to.
-/

namespace Scaffold.Config

open Toml

theorem toList_document (c : Config) : c.document.toList =
    headerLine "project".toList ++ (line "name" c.project ++ '\n' ::
      (headerLine "author".toList ++ (line "developer" c.developer ++
        (line "company" c.company ++ '\n' ::
          (headerLine "templates".toList ++ (line "dir" c.templatesDirectory ++
            (line "date_format" c.dateFormat ++ []))))))) := by
  have hproject : "[project]\n".toList = headerLine "project".toList := by decide
  have hauthor : "\n[author]\n".toList = '\n' :: headerLine "author".toList := by decide
  have htemplates : "\n[templates]\n".toList = '\n' :: headerLine "templates".toList := by decide
  unfold document
  rw [String.toList_ofList, hproject, hauthor, htemplates]
  simp only [List.append_assoc, List.cons_append, List.append_nil]

theorem readStatements?_header {key : String} (h : IsBareName key.toList) (rest : List Char) :
    readStatements? (headerLine key.toList ++ rest) =
      (readStatements? rest).map (.table ⟨[], key⟩ :: ·) := by
  rw [readStatements?_headerLine h, String.ofList_toList]

theorem readStatements?_line {key : String} (h : IsBareName key.toList) (value : String)
    (rest : List Char) : readStatements? (line key value ++ rest) =
      (readStatements? rest).map (.entry ⟨[], key⟩ (.text value) :: ·) := by
  have hline : line key value = entryLine key.toList value.toList := by
    unfold line entryLine
    rfl
  rw [hline, readStatements?_entryLine h, String.ofList_toList, String.ofList_toList]

/-- The statements that the document consists of. -/
def statements (c : Config) : List Statement :=
  [.table ⟨[], "project"⟩,
    .entry ⟨[], "name"⟩ (.text c.project),
    .table ⟨[], "author"⟩,
    .entry ⟨[], "developer"⟩ (.text c.developer),
    .entry ⟨[], "company"⟩ (.text c.company),
    .table ⟨[], "templates"⟩,
    .entry ⟨[], "dir"⟩ (.text c.templatesDirectory),
    .entry ⟨[], "date_format"⟩ (.text c.dateFormat)]

theorem readStatements?_document (c : Config) :
    readStatements? c.document.toList = some c.statements := by
  have hend : readStatements? [] = some [] := by
    rw [readStatements?]
    rfl
  rw [toList_document, readStatements?_header (by decide), readStatements?_line (by decide),
    readStatements?_newline, readStatements?_header (by decide), readStatements?_line (by decide),
    readStatements?_line (by decide), readStatements?_newline, readStatements?_header (by decide),
    readStatements?_line (by decide), readStatements?_line (by decide), hend]
  rfl

/-- The tables that the statements open and fill. -/
def tables (c : Config) : Items :=
  [("project", .table .explicit [("name", .value (.text c.project))]),
    ("author", .table .explicit
      [("developer", .value (.text c.developer)), ("company", .value (.text c.company))]),
    ("templates", .table .explicit
      [("dir", .value (.text c.templatesDirectory)), ("date_format", .value (.text c.dateFormat))])]

/-- No table is opened twice, and no key is given a value twice. -/
theorem foldlM_add_statements (c : Config) :
    c.statements.foldlM Draft.add ⟨[], []⟩ = some ⟨c.tables, ["templates"]⟩ :=
  rfl

theorem toml_parse?_document (c : Config) :
    Toml.parse? c.document = some (.table (entries c.tables)) := by
  have hmark : skipMark c.document.toList = c.document.toList := by
    rw [toList_document]
    rfl
  rw [Toml.parse?, hmark, readStatements?_document]
  simp only [Option.bind_eq_bind, Option.bind_some, foldlM_add_statements]

theorem parse?_document (c : Config) : parse? c.document = some c := by
  rw [parse?, toml_parse?_document]
  rfl

/-- A configuration that has been written is read back, whatever its texts are made of and whatever
stood at the path before. -/
theorem read_of_write {d d' : Disk} {p : Path} {c : Config}
    (h : DiskAction.runOn (Config.write p c) d = (.ok (), d')) : Config.read d' p = .ok c := by
  obtain ⟨-, hwrite⟩ | ⟨⟨e, herror⟩, -⟩ := DiskAction.runOn_perform_eq h
  · rw [Config.read, Disk.readText_of_writeBytes hwrite]
    simp only [Except.mapError, bind, Except.bind, parse?_document]
    rfl
  · cases herror

/-- Here quotes stand next to the closing ones, a line end comes first, and the file is replaced
through a link. -/
theorem read_of_write_through_link :
    let d : Disk := ⟨[(.of "old.toml", .file "[project]".toUTF8),
      (.of "scenegen.toml", .link ⟨[.of "old.toml"]⟩)], []⟩
    let p : Path := ⟨[.of "scenegen.toml"]⟩
    let c : Config := ⟨"\n''' \"\"", "\x1b\\\r\"\"\"\"", "", "C:\\\t'", "%Y\"\"\"\n"⟩
    let d' : Disk := ⟨[(.of "old.toml", .file c.document.toUTF8),
      (.of "scenegen.toml", .link ⟨[.of "old.toml"]⟩)], []⟩
    DiskAction.runOn (Config.write p c) d = (.ok (), d') ∧ Config.read d' p = .ok c := by
  intro d p c d'
  have hresolve : d.resolve true p =
      .ok (.found [.of "old.toml"] (.file "[project]".toUTF8)) :=
    Disk.walkFrom_eq_ok_iff.2 ⟨⟨by decide, by decide, by decide, rfl⟩, rfl⟩
  have hbytes : d.writeBytes p c.document.toUTF8 = .ok d' := by
    rw [Disk.writeBytes, hresolve]
    rfl
  have hwrite : DiskAction.runOn (Config.write p c) d = (.ok (), d') := by
    rw [write, DiskAction.runOn_perform]
    simp only [DiskOperation.apply, hbytes]
  exact ⟨hwrite, read_of_write hwrite⟩

end Scaffold.Config
