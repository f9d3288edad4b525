import Mathlib.Data.List.Perm.Basic
import Scaffold.Proofs.Scene.Output

/-!
Rendering file by file. What a template of a kind gives depends on the header, on the context and on
this template alone: its path first, then its body, then the header and the body expanded under the
name of the path. The first stage that fails decides about the template, and the first template that
fails decides about the scene.
-/

namespace Scaffold

open Text

namespace Path

variable {p : Path} {name : List UInt8}

/-- A path by this name in the directory of the other path: the name is written behind the
directory. -/
def IsBeside (p : Path) (name : List UInt8) (q : Path) : Prop :=
  ∃ (directory : Path) (between : List UInt8), p.parent? = some directory ∧
    directory.components = p.components.dropLast ∧
    (between = [slash] ∨
      between = [] ∧ (directory.bytes = [] ∨ directory.bytes.getLast? = some slash)) ∧
    q.bytes = directory.bytes ++ between ++ name

/-- The path with its last name replaced. A name that starts with a slash stands for itself. -/
def IsRenamed (p : Path) (name : List UInt8) (q : Path) : Prop :=
  if name.head? = some slash then q = ofBytes name else p.IsBeside name q

theorem isRenamed_withFileName {fileName : Piece} (h : p.fileName? = some fileName) :
    p.IsRenamed name (p.withFileName name) := by
  obtain ⟨directory, hdirectory⟩ := exists_parent_of_fileName? h
  rw [IsRenamed, withFileName, h, hdirectory]
  split
  · next hslash => exact join_of_isAbsolute ((isAbsolute_ofBytes_iff name).2 hslash)
  · next hslash =>
    have hrelative : (ofBytes name).isAbsolute = false := by
      rw [← Bool.not_eq_true, isAbsolute_ofBytes_iff]
      exact hslash
    obtain ⟨between, hbetween, hbytes⟩ :=
      bytes_join_of_relative (p := directory) hrelative (Piece.cut_ne_nil name)
    rw [bytes_ofBytes] at hbytes
    exact ⟨directory, between, hdirectory, components_parent? hdirectory, hbetween, hbytes⟩

end Path

namespace Scene

variable {kind : KindTemplates} {header : Template} {c : Template.Context}
  {template : TemplateFile} {result : Except Error RenderedFile} {path p : Path}

/-- The name that a template by this name gives its file: what it expands to if it holds a
placeholder, or the name with that of the scene in front. -/
inductive IsNamed (c : Template.Context) (fileName : Piece) : List UInt8 → Prop where
  | templated {text expanded : String} : templatedName? fileName = some text →
      expand text c = .ok expanded → ¬IsRefused expanded → IsNamed c fileName (bytes expanded)
  | plain : templatedName? fileName = none → IsNamed c fileName (bytes c.name ++ fileName.bytes)

/-- The path of the file that a template at this path gives. -/
def IsPlaced (c : Template.Context) (path p : Path) : Prop :=
  ∃ fileName name, path.fileName? = some fileName ∧ IsNamed c fileName name ∧
    p = path.withFileName name

/-- The context in which the file at this path is rendered. -/
def contextAt (c : Template.Context) (p : Path) : Template.Context :=
  c.bind "file_name" p.fileText

/-- What a template gives: its file, or the error of the first stage that fails. -/
inductive Gives (header : Template) (c : Template.Context) (template : TemplateFile) :
    Except Error RenderedFile → Prop where
  | noFileName : template.path.fileName? = none →
      Gives header c template (.error (.kindInvalid (.noFileName template.path)))
  | nameFails {fileName : Piece} {text : String} {e : Template.Error} :
      template.path.fileName? = some fileName → templatedName? fileName = some text →
      expand text c = .error e → Gives header c template (.error (.template template.path.text e))
  | nameRefused {fileName : Piece} {text expanded : String} :
      template.path.fileName? = some fileName → templatedName? fileName = some text →
      expand text c = .ok expanded → IsRefused expanded →
      Gives header c template (.error (.kindInvalid (.invalidFileName template.path expanded)))
  | bodyMalformed {p : Path} {e : Template.Error} : IsPlaced c template.path p →
      Template.parse template.source = .error e →
      Gives header c template (.error (.template template.path.text e))
  | headerFails {p : Path} {body : Template} {e : Template.Error} : IsPlaced c template.path p →
      Template.parse template.source = .ok body → header.expand (contextAt c p) = .error e →
      Gives header c template (.error (.template headerFileName e))
  | bodyFails {p : Path} {body : Template} {head : String} {e : Template.Error} :
      IsPlaced c template.path p → Template.parse template.source = .ok body →
      header.expand (contextAt c p) = .ok head → body.expand (contextAt c p) = .error e →
      Gives header c template (.error (.template template.path.text e))
  | file {p : Path} {body : Template} {head rest : String} : IsPlaced c template.path p →
      Template.parse template.source = .ok body → header.expand (contextAt c p) = .ok head →
      body.expand (contextAt c p) = .ok rest →
      Gives header c template (.ok ⟨p, head ++ rest⟩)

theorem isPlaced_iff : IsPlaced c path p ↔ outputPath path c = .ok p := by
  rw [outputPath_eq_ok_iff]
  constructor
  · rintro ⟨fileName, name, hfile, hnamed, rfl⟩
    refine ⟨name, ⟨fileName, hfile, outputName_eq_ok_iff.2 ?_⟩, rfl⟩
    cases hnamed with
    | templated htext hexpand hrefused => exact .inl ⟨_, _, htext, hexpand, hrefused, rfl⟩
    | plain hplain => exact .inr ⟨hplain, rfl⟩
  · rintro ⟨name, ⟨fileName, hfile, hname⟩, rfl⟩
    refine ⟨fileName, name, hfile, ?_, rfl⟩
    rcases outputName_eq_ok_iff.1 hname with ⟨_, _, htext, hexpand, hrefused, rfl⟩ | ⟨hplain, rfl⟩
    · exact .templated htext hexpand hrefused
    · exact .plain hplain

theorem IsPlaced.exists_isRenamed (h : IsPlaced c path p) :
    ∃ fileName name, path.fileName? = some fileName ∧ IsNamed c fileName name ∧
      path.IsRenamed name p := by
  obtain ⟨fileName, name, hfile, hnamed, rfl⟩ := h
  exact ⟨fileName, name, hfile, hnamed, Path.isRenamed_withFileName hfile⟩

theorem renderFile_of_gives (h : Gives header c template result) :
    renderFile header c template = result := by
  cases h with
  | noFileName hnone =>
    rw [renderFile, outputPath, hnone]
    rfl
  | nameFails hfile htext hexpand =>
    rw [renderFile, outputPath, hfile]
    simp only [outputName, htext, hexpand]
    rfl
  | nameRefused hfile htext hexpand hrefused =>
    rw [renderFile, outputPath, hfile]
    simp only [outputName_of_isRefused htext hexpand hrefused]
    rfl
  | bodyMalformed hplaced hbody =>
    rw [renderFile, isPlaced_iff.1 hplaced, hbody]
    rfl
  | headerFails hplaced hbody hhead =>
    rw [contextAt] at hhead
    rw [renderFile, isPlaced_iff.1 hplaced, hbody]
    simp only [bind, Except.bind, Except.mapError, hhead]
  | bodyFails hplaced hbody hhead hrest =>
    rw [contextAt] at hhead hrest
    rw [renderFile, isPlaced_iff.1 hplaced, hbody]
    simp only [bind, Except.bind, Except.mapError, hhead, hrest]
  | file hplaced hbody hhead hrest =>
    rw [contextAt] at hhead hrest
    rw [renderFile, isPlaced_iff.1 hplaced, hbody]
    simp only [bind, Except.bind, Except.mapError, hhead, hrest]
    rfl

theorem IsPlaced.exists_gives (header : Template) (h : IsPlaced c template.path p) :
    ∃ result, Gives header c template result := by
  cases hbody : Template.parse template.source with
  | error e => exact ⟨_, .bodyMalformed h hbody⟩
  | ok body =>
    cases hhead : header.expand (contextAt c p) with
    | error e => exact ⟨_, .headerFails h hbody hhead⟩
    | ok head =>
      cases hrest : body.expand (contextAt c p) with
      | error e => exact ⟨_, .bodyFails h hbody hhead hrest⟩
      | ok rest => exact ⟨_, .file h hbody hhead hrest⟩

/-- Every template gives something. -/
theorem exists_gives (header : Template) (c : Template.Context) (template : TemplateFile) :
    ∃ result, Gives header c template result := by
  cases hfile : template.path.fileName? with
  | none => exact ⟨_, .noFileName hfile⟩
  | some fileName =>
    cases htext : templatedName? fileName with
    | none => exact IsPlaced.exists_gives header ⟨_, _, hfile, .plain htext, rfl⟩
    | some text =>
      cases hexpand : expand text c with
      | error e => exact ⟨_, .nameFails hfile htext hexpand⟩
      | ok expanded =>
        by_cases hrefused : IsRefused expanded
        · exact ⟨_, .nameRefused hfile htext hexpand hrefused⟩
        · exact IsPlaced.exists_gives header
            ⟨_, _, hfile, .templated htext hexpand hrefused, rfl⟩

/-- Rendering a template is what it gives. -/
theorem gives_iff : Gives header c template result ↔ renderFile header c template = result := by
  constructor
  · exact renderFile_of_gives
  · rintro rfl
    obtain ⟨result, hgives⟩ := exists_gives header c template
    exact renderFile_of_gives hgives ▸ hgives

theorem gives_unique (header : Template) (c : Template.Context) (template : TemplateFile) :
    ∃! result, Gives header c template result := by
  refine ⟨renderFile header c template, gives_iff.2 rfl, fun result hresult => ?_⟩
  exact (gives_iff.1 hresult).symm

theorem render_eq (hheader : Template.parse kind.header = .ok header) :
    render kind c = kind.files.mapM (renderFile header c) := by
  rw [render, hheader]
  rfl

theorem render_eq_ok_iff_gives (hheader : Template.parse kind.header = .ok header)
    {files : List RenderedFile} : render kind c = .ok files ↔
      List.Forall₂ (fun template file => Gives header c template (.ok file)) kind.files files := by
  rw [render_eq hheader, mapM_eq_ok_iff]
  simp only [gives_iff]

theorem render_eq_error_iff_gives (hheader : Template.parse kind.header = .ok header)
    {e : Error} : render kind c = .error e ↔
      ∃ before template after, kind.files = before ++ template :: after ∧
        (∀ template ∈ before, ∃ file, Gives header c template (.ok file)) ∧
        Gives header c template (.error e) := by
  rw [render_eq hheader, mapM_eq_error_iff]
  simp only [gives_iff]

/-- In another order the templates give the same files in that order. -/
theorem exists_render_perm {files : List RenderedFile} {templates : List TemplateFile}
    (h : render kind c = .ok files) (hperm : kind.files.Perm templates) :
    ∃ files', render { kind with files := templates } c = .ok files' ∧ files.Perm files' := by
  obtain ⟨⟨header, hheader⟩, -⟩ := render_eq_ok_iff.1 h
  obtain ⟨files', hfiles', hperm'⟩ :=
    List.perm_comp_forall₂ hperm.symm ((render_eq_ok_iff_gives hheader).1 h)
  have hsame : Template.parse { kind with files := templates }.header = .ok header := hheader
  exact ⟨files', (render_eq_ok_iff_gives hsame).2 hfiles', hperm'.symm⟩

/-- A name that starts with a slash has it from the name of the scene. -/
theorem IsNamed.head?_name {fileName : Piece} {name : List UInt8} (h : IsNamed c fileName name)
    (hslash : name.head? = some slash) : c.name.toList.head? = some '/' := by
  cases h with
  | templated _ _ hrefused =>
    have hmem := List.mem_of_mem_head? hslash
    exact absurd (.inr (.inl (slash_mem_bytes_iff.1 hmem))) hrefused
  | plain =>
    rw [List.head?_append, Option.or_eq_some_iff] at hslash
    rcases hslash with hname | ⟨_, hslash⟩
    · exact (head?_bytes_eq_iff (by decide)).1 hname
    · exact absurd (List.mem_of_mem_head? hslash) fileName.slash_not_mem

theorem scalar?_contextAt (c : Template.Context) (p : Path) (key : String) :
    (contextAt c p).scalar? key =
      if key = "file_name" then some p.fileText else c.scalar? key := by
  rw [contextAt, Template.Context.bind, Template.Context.scalar?, Template.Context.scalar?,
    Assoc.find?_insert]
  by_cases hkey : key = "file_name"
  · subst hkey
    rfl
  · rw [if_neg hkey, if_neg (Ne.symm hkey)]

/-- Rendering goes template by template. A header that cannot be read ends it. If not, each template
gives either a file or an error, whatever the other templates are; the files of a scene are those
that its templates give, in order, and its error is that of the first template that gives one. A
file takes the name of its template in the same directory, unless the name of the scene starts with
a slash, and its own name is all that it adds to the context. -/
theorem render_filewise (kind : KindTemplates) (c : Template.Context) :
    (∀ e, Template.parse kind.header = .error e →
      render kind c = .error (.template headerFileName e)) ∧
    (∀ header, Template.parse kind.header = .ok header →
      (∀ template, ∃! result, Gives header c template result) ∧
      (∀ files, render kind c = .ok files ↔
        List.Forall₂ (fun template file => Gives header c template (.ok file)) kind.files files) ∧
      ∀ e, render kind c = .error e ↔
        ∃ before template after, kind.files = before ++ template :: after ∧
          (∀ template ∈ before, ∃ file, Gives header c template (.ok file)) ∧
          Gives header c template (.error e)) ∧
    (∀ files templates, render kind c = .ok files → kind.files.Perm templates →
      ∃ files', render { kind with files := templates } c = .ok files' ∧ files.Perm files') ∧
    (∀ path p, IsPlaced c path p → ∃ fileName name, path.fileName? = some fileName ∧
      IsNamed c fileName name ∧ path.IsRenamed name p ∧
      (name.head? = some slash → c.name.toList.head? = some '/')) ∧
    ∀ p, (contextAt c p).name = c.name ∧ (contextAt c p).properties = c.properties ∧
      ∀ key, (contextAt c p).scalar? key =
        if key = "file_name" then some p.fileText else c.scalar? key := by
  refine ⟨fun e hheader => ?_, fun header hheader => ⟨?_, ?_, ?_⟩, fun files templates => ?_,
    fun path p hplaced => ?_, fun p => ⟨rfl, rfl, scalar?_contextAt c p⟩⟩
  · rw [render, hheader]
    rfl
  · exact gives_unique header c
  · exact fun files => render_eq_ok_iff_gives hheader
  · exact fun e => render_eq_error_iff_gives hheader
  · exact exists_render_perm
  · obtain ⟨fileName, name, hfile, hnamed, hrenamed⟩ := hplaced.exists_isRenamed
    exact ⟨fileName, name, hfile, hnamed, hrenamed, hnamed.head?_name⟩

/-- A kind with one template in a directory. -/
def kindOfView (source : String) : KindTemplates where
  name := "mine"
  header := "// {{ file_name }}\n"
  files := [⟨.ofString "View/Cell.swift", source⟩]

def contextNamed (name : String) : Template.Context where
  name := name
  properties := []
  bindings := [("file_name", "none")]

/-- The body is read before anything is expanded, and its lines are its own. -/
theorem render_filewise_of_view :
    ∃ header, Template.parse "// {{ file_name }}\n" = .ok header ∧
      Gives header (contextNamed "Login") ⟨.ofString "View/Cell.swift", ""⟩
        (.ok ⟨.ofString "View/LoginCell.swift", "// LoginCell.swift\n"⟩) ∧
      Gives header (contextNamed "Login")
        ⟨.ofString "View/Cell.swift", "\x7b\x7b x \x7d\x7d\n\x7b\x7b"⟩
        (.error (.template "View/Cell.swift" (.malformed (.unclosed .expression) 2))) := by
  have hok : render (kindOfView "") (contextNamed "Login") =
      .ok [⟨.ofString "View/LoginCell.swift", "// LoginCell.swift\n"⟩] := by
    decide +kernel
  have herror : render (kindOfView "\x7b\x7b x \x7d\x7d\n\x7b\x7b") (contextNamed "Login") =
      .error (.template "View/Cell.swift" (.malformed (.unclosed .expression) 2)) := by
    decide +kernel
  obtain ⟨⟨header, hheader⟩, -⟩ := render_eq_ok_iff.1 hok
  have hrender (source : String) :=
    (render_filewise (kindOfView source) (contextNamed "Login")).2.1 header hheader
  refine ⟨header, hheader, ?_, ?_⟩
  · exact (List.forall₂_cons.1 (((hrender "").2.1 _).1 hok)).1
  · obtain ⟨before, template, after, hsplit, -, hgives⟩ := ((hrender _).2.2 _).1 herror
    rcases List.append_eq_singleton_iff.1 hsplit.symm with ⟨-, htemplate⟩ | ⟨-, hnil⟩
    · cases htemplate
      exact hgives
    · cases hnil

/-- The name of a scene that starts with a slash leads out of the directory of the template. -/
theorem render_leaves_directory :
    ¬∀ (kind : KindTemplates) (c : Template.Context) (files : List RenderedFile),
      render kind c = .ok files →
      List.Forall₂ (fun template file => ∃ fileName name,
        template.path.fileName? = some fileName ∧ IsNamed c fileName name ∧
        template.path.IsBeside name file.path) kind.files files := by
  intro h
  have hrender : render (kindOfView "") (contextNamed "/abs/") =
      .ok [⟨.ofString "/abs/Cell.swift", "// Cell.swift\n"⟩] := by
    decide +kernel
  obtain ⟨⟨fileName, name, hfile, hnamed, hbeside⟩, -⟩ := List.forall₂_cons.1 (h _ _ _ hrender)
  obtain ⟨directory, between, hdirectory, -, -, hbytes⟩ := hbeside
  have hview : directory = .ofString "View" :=
    Option.some.inj (hdirectory.symm.trans (show _ = some (Path.ofString "View") by decide))
  subst hview
  have hhead := congrArg List.head? hbytes
  have habs : (Path.ofString "/abs/Cell.swift").bytes.head? = some slash := by decide
  have hdirectoryHead : (Path.ofString "View").bytes.head? = some 0x56 := by decide
  rw [List.append_assoc, List.head?_append, hdirectoryHead, habs] at hhead
  cases hhead

end Scene

end Scaffold
