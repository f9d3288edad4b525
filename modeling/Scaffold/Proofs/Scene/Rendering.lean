import Scaffold.Proofs.Disk.Descendants
import Scaffold.Proofs.Result
import Scaffold.Scene.Generation

/-!
Where the files of a scene come to lie. The path of a template is made of names, be it a builtin
template or one that is found on the disk, and neither the name of a scene nor what stands in place
of a name holds a slash. So the path of a rendered file goes down into directories, and only its
last step may lead elsewhere.
-/

namespace Scaffold

open Disk Text

theorem slash_mem_bytes_iff {text : String} : slash ∈ bytes text ↔ '/' ∈ text.toList :=
  mem_bytes_iff (c := '/') (by decide)

/-- A text is that of one piece only. -/
theorem Piece.eq_of_text? {piece piece' : Piece} {text : String} (h : piece.text? = some text)
    (h' : piece'.text? = some text) : piece = piece' :=
  Piece.eq_of_bytes ((decode?_eq_some_iff.1 h).trans (decode?_eq_some_iff.1 h').symm)

namespace Path

variable {p : Path} {name : List UInt8}

/-- A single piece is one step at most. -/
theorem length_moves_singleton (piece : Piece) : (⟨[piece]⟩ : Path).moves.length ≤ 1 :=
  List.length_filter_le _ _

/-- A piece that does not start with a dot does not lead up. -/
theorem head?_moves_singleton_ne_up {piece : Piece} (hdot : piece.bytes.head? ≠ some 0x2E) :
    (⟨[piece]⟩ : Path).moves.head? ≠ some .up := by
  intro hup
  have hstep := List.mem_of_mem_filter (List.mem_of_mem_head? hup)
  rw [Step.eq_dots_of_ofPiece (List.mem_singleton.1 hstep).symm] at hdot
  exact hdot rfl

theorem eq_of_moves_singleton {piece : Piece} {first : Name}
    (h : (⟨[piece]⟩ : Path).moves = [.into first]) : piece = first.toPiece := by
  have hmem : Step.into first ∈ (⟨[piece]⟩ : Path).moves := h ▸ List.mem_singleton_self _
  have hpiece := List.mem_of_mem_filter hmem
  exact Step.ofPiece_eq_into_iff.1 (List.mem_singleton.1 hpiece).symm

/-- With another last name, a path of names still goes down into directories. -/
theorem descends_withFileName (hp : p.IsNormal) (hname : slash ∉ name) :
    (p.withFileName name).Descends := by
  have hjoin : ∀ q : Path, q.isAbsolute = false → .up ∉ q.moves →
      (q.join (ofBytes name)).Descends := by
    intro q hq hup
    have hsingle := isAbsolute_singleton ⟨name, hname⟩
    rw [ofBytes_of_not_mem hname]
    refine ⟨(isAbsolute_join hsingle (.inr (List.cons_ne_nil _ _))).trans hq, ?_⟩
    have hlength := length_moves_singleton ⟨name, hname⟩
    rw [moves_join hsingle]
    rcases hlast : (⟨[⟨name, hname⟩]⟩ : Path).moves with _ | ⟨move, _ | ⟨next, rest⟩⟩
    · rw [List.append_nil]
      exact fun hmem => hup (List.mem_of_mem_dropLast hmem)
    · rwa [List.dropLast_concat]
    · rw [hlast] at hlength
      simp at hlength
  have hup : .up ∉ p.moves := hp.up_not_mem_moves
  rw [withFileName]
  split
  · next q _ hparent =>
    refine hjoin q ((isAbsolute_parent? hparent).trans hp.isAbsolute_eq) ?_
    rw [moves_parent? hparent]
    exact fun hmem => hup (List.mem_of_mem_dropLast hmem)
  · exact hjoin p hp.isAbsolute_eq hup

/-- The names of a listing, one after the other, make a path. -/
theorem isNormal_ofNames {names : List Name} (hne : names ≠ []) :
    (ofNames names).IsNormal ∧ (ofNames names).names = names.map Name.toPiece := by
  have hname (name : Name) : Component.ofPiece? name.toPiece = some (.name name.toPiece) := by
    obtain ⟨hempty, hdot, hdots, -⟩ := Piece.isName_iff.1 name.isName
    exact (ofPiece?_eq_name hempty hdot hdots).2
  have hpieces : (names.map Name.toPiece).filterMap Component.ofPiece? =
      (names.map Name.toPiece).map .name := by
    rw [List.filterMap_map, List.map_map, ← List.filterMap_eq_map]
    exact List.filterMap_congr fun name _ => hname name
  refine isNormal_of_components (mt List.map_eq_nil_iff.1 hne) ?_
  obtain ⟨first, rest, rfl⟩ := List.exists_cons_of_ne_nil hne
  obtain ⟨hempty, hdot, -⟩ := Piece.isName_iff.1 first.isName
  exact (components_of_plain (fun h => hempty h.1) hdot).trans hpieces

end Path

theorem not_mem_of_isIdentifier {cs : List Char} {c : Char} (h : isIdentifier cs = true)
    (hc : isIdentifierPart c = false) : c ∉ cs := by
  intro hmem
  cases cs with
  | nil => cases h
  | cons first rest =>
    rw [isIdentifier, Bool.and_eq_true, List.all_eq_true] at h
    rcases List.mem_cons.1 hmem with rfl | hrest
    · have hstart : isIdentifierStart c = true := h.1
      rw [isIdentifierPart, Char.isAlphanum] at hc
      rw [isIdentifierStart] at hstart
      simp_all
    · exact Bool.false_ne_true (hc.symm.trans (h.2 c hrest))

/-- The path of a name that has been checked is the one piece that the name is. It need not be
short enough for an entry. -/
theorem exists_ofString_eq {name : String} (h : checkName name = .ok ()) :
    ∃ piece : Piece, piece.text? = some name ∧ Path.ofString name = ⟨[piece]⟩ ∧
      piece.bytes.head? ≠ some 0x2E := by
  rw [checkName_eq_ok_iff] at h
  have hslash := slash_mem_bytes_iff.not.2 (not_mem_of_isIdentifier h (c := '/') (by decide))
  refine ⟨⟨bytes name, hslash⟩, decode?_eq_some_iff.2 rfl, Path.ofBytes_of_not_mem hslash, ?_⟩
  intro hhead
  have hdot := (head?_bytes_eq_iff (c := '.') (by decide)).1 hhead
  exact not_mem_of_isIdentifier h (by decide) (List.mem_of_mem_head? hdot)

namespace Kind

variable {d : Disk} {name : String} {kind : KindTemplates}

/-- A template that is read has the names that lead to its file. -/
theorem path_of_readVisited {directory : Path} {names : List Name} {e : Entry}
    {file : TemplateFile} (h : readVisited directory names e = .ok (some file)) :
    file.path = .ofNames names := by
  cases e with
  | link target => cases h
  | directory entries =>
    simp only [readVisited] at h
    split at h <;> cases h
  | file content =>
    simp only [readVisited, readTemplate] at h
    split at h
    · cases h
    split at h
    · cases h
      rfl
    · cases h

theorem isNormal_of_readFiles {directory : Path} {files : List TemplateFile}
    (h : readFiles d name directory = .ok files) : ∀ file ∈ files, file.path.IsNormal := by
  obtain ⟨entries, hlist, h⟩ := bind_eq_ok_iff.1 h
  obtain ⟨visited, hread, h⟩ := bind_eq_ok_iff.1 h
  dsimp only at h
  split at h
  · cases h
  · cases h
    intro file hfile
    obtain ⟨⟨names, e⟩, hmem, hvisited⟩ := mem_of_mapM_eq_ok hread (by simpa using hfile)
    rw [path_of_readVisited hvisited]
    refine (Path.isNormal_ofNames ?_).1
    rintro rfl
    exact nil_not_mem_descendants hmem

instance (p : Path) : Decidable p.IsNormal :=
  inferInstanceAs (Decidable (_ ∧ _))

theorem isNormal_of_builtin? (h : builtin? name = some kind) :
    ∀ file ∈ kind.files, file.path.IsNormal := by
  unfold builtin? at h
  split at h <;> cases h <;> decide

theorem isNormal_of_user {templates directory : Path}
    (h : (do
      let header ← readHeader d templates
      return ⟨name, header, ← readFiles d name directory⟩ : Except Error KindTemplates) =
      .ok kind) : ∀ file ∈ kind.files, file.path.IsNormal := by
  obtain ⟨header, -, h⟩ := bind_eq_ok_iff.1 h
  obtain ⟨files, hfiles, h⟩ := bind_eq_ok_iff.1 h
  cases h
  exact isNormal_of_readFiles hfiles

/-- The paths of the templates of a kind. -/
theorem isNormal_of_resolve {templates? : Option Path}
    (h : resolve d templates? name = .ok kind) : ∀ file ∈ kind.files, file.path.IsNormal := by
  unfold resolve at h
  cases hbuiltin : builtin? name with
  | none =>
    rw [hbuiltin] at h
    cases templates? with
    | none => cases h
    | some templates =>
      simp only at h
      split at h
      · exact isNormal_of_user h
      · cases h
  | some found =>
    rw [hbuiltin] at h
    cases templates? with
    | none =>
      cases h
      exact isNormal_of_builtin? hbuiltin
    | some templates =>
      simp only at h
      split at h
      · exact isNormal_of_user h
      · cases h
        exact isNormal_of_builtin? hbuiltin

end Kind

namespace Scene

variable {c : Template.Context}

theorem slash_not_mem_of_outputName {path : Path} {fileName : Piece} {name : List UInt8}
    (hscene : '/' ∉ c.name.toList) (h : outputName path fileName c = .ok name) : slash ∉ name := by
  rw [outputName] at h
  split at h
  · split at h
    · cases h
    · split at h
      · cases h
      · next hchecked =>
        cases h
        rw [not_or, Bool.not_eq_true, List.any_eq_false] at hchecked
        rw [slash_mem_bytes_iff]
        exact fun hslash => hchecked.2 '/' hslash (by decide)
  · cases h
    rw [List.mem_append, slash_mem_bytes_iff]
    exact fun hslash => hslash.elim hscene fileName.slash_not_mem

theorem descends_of_outputPath {path p : Path} (hscene : '/' ∉ c.name.toList)
    (hpath : path.IsNormal) (h : outputPath path c = .ok p) : p.Descends := by
  rw [outputPath] at h
  split at h
  · cases h
  · next fileName hfile =>
    obtain ⟨name, hname, h⟩ := bind_eq_ok_iff.1 h
    cases h
    exact Path.descends_withFileName hpath (slash_not_mem_of_outputName hscene hname)

theorem descends_of_renderFile {header : Template} {template : TemplateFile} {file : RenderedFile}
    (hscene : '/' ∉ c.name.toList) (hpath : template.path.IsNormal)
    (h : renderFile header c template = .ok file) : file.path.Descends := by
  obtain ⟨p, hout, h⟩ := bind_eq_ok_iff.1 h
  obtain ⟨body, -, h⟩ := bind_eq_ok_iff.1 h
  obtain ⟨head, -, h⟩ := bind_eq_ok_iff.1 h
  obtain ⟨rest, -, h⟩ := bind_eq_ok_iff.1 h
  cases h
  exact descends_of_outputPath hscene hpath hout

/-- Every rendered file lies in the directory of the scene. -/
theorem descends_of_render {kind : KindTemplates} {files : List RenderedFile}
    (hscene : '/' ∉ c.name.toList) (hkind : ∀ template ∈ kind.files, template.path.IsNormal)
    (h : render kind c = .ok files) : ∀ file ∈ files, file.path.Descends := by
  obtain ⟨header, -, h⟩ := bind_eq_ok_iff.1 h
  intro file hfile
  obtain ⟨template, htemplate, hrender⟩ := mem_of_mapM_eq_ok h hfile
  exact descends_of_renderFile hscene (hkind template htemplate) hrender

end Scene

end Scaffold
