import Scaffold.Proofs.Scene.Rendering

/-!
The names of rendered files. A file lies where its template lies, and its last name is the one that
`file_name` stands for while the file is rendered, unless a templated name expands to dots. These
hold no separator, so they are let through, but as the last piece of a path they are no name.
-/

namespace Scaffold

open Text

namespace Path

variable {p : Path} {piece : Piece} {step : Component}

/-- A further piece adds its step. Behind the empty path it would be the first one. -/
theorem components_concat {pieces : List Piece} (hne : pieces ≠ []) (hempty : pieces ≠ [.empty])
    (piece : Piece) :
    components ⟨pieces ++ [piece]⟩ =
      components ⟨pieces⟩ ++ (Component.ofPiece? piece).toList := by
  obtain ⟨first, rest, rfl⟩ := List.exists_cons_of_ne_nil hne
  have hfirst : Component.ofFirst? first (rest ++ [piece]).isEmpty =
      Component.ofFirst? first rest.isEmpty := by
    cases rest with
    | nil =>
      have hroot : first ≠ .empty := fun h => hempty (by rw [h])
      rw [Component.ofFirst?, Component.ofFirst?, if_neg hroot, if_neg hroot]
    | cons => rfl
  have hlast : [piece].filterMap Component.ofPiece? = (Component.ofPiece? piece).toList := by
    cases hstep : Component.ofPiece? piece with
    | none => exact List.filterMap_cons_none hstep
    | some step => exact List.filterMap_cons_some hstep
  rw [List.cons_append, components_cons, components_cons, hfirst, List.filterMap_append, hlast,
    List.append_assoc]

theorem components_singleton (hstep : Component.ofPiece? piece = some step) :
    components ⟨[piece]⟩ = [step] := by
  have hroot : piece ≠ .empty := by
    rintro rfl
    cases hstep
  have hhere : piece ≠ .dot := by
    rintro rfl
    cases hstep
  rw [components_cons, Component.ofFirst?, if_neg hroot, if_neg hhere, hstep]
  rfl

theorem components_join_singleton (hstep : Component.ofPiece? piece = some step) :
    (p.join ⟨[piece]⟩).components = p.components ++ [step] := by
  obtain ⟨pieces⟩ := p
  rw [join, isAbsolute_singleton]
  simp only [Bool.false_eq_true, if_false]
  split
  · next hlast =>
    obtain ⟨init, rfl⟩ : ∃ init, pieces = init ++ [.empty] :=
      ⟨_, (List.dropLast_append_getLast? Piece.empty hlast).symm⟩
    rw [List.dropLast_concat]
    by_cases hnil : init = []
    · subst hnil
      exact components_singleton hstep
    by_cases hroot : init = [.empty]
    · subst hroot
      exact congrArg (Component.root :: ·) (List.filterMap_cons_some hstep)
    · rw [components_concat hnil hroot, components_concat hnil hroot, hstep]
      exact congrArg (· ++ [step]) (List.append_nil _).symm
  · next hlast =>
    by_cases hnil : pieces = []
    · subst hnil
      exact components_singleton hstep
    · have hempty : pieces ≠ [.empty] := by
        rintro rfl
        exact hlast rfl
      rw [components_concat hnil hempty, hstep]
      rfl

theorem exists_parent_of_fileName? (h : p.fileName? = some piece) : ∃ q, p.parent? = some q := by
  obtain ⟨_ | ⟨first, rest⟩⟩ := p
  · cases h
  rw [← Option.isSome_iff_exists, ← Option.ne_none_iff_isSome]
  intro hnone
  simp only [parent?] at hnone
  split at hnone
  · next hroot =>
    obtain ⟨rfl, hrest⟩ := hroot
    rw [Option.map_eq_none_iff, beforeLastStep?_eq_none_iff] at hnone
    rw [fileName?, components_root hrest, hnone] at h
    cases h
  · next hroot =>
    split at hnone
    · split at hnone <;> cases hnone
    · next hhere =>
      rw [Option.map_eq_none_iff, beforeLastStep?_eq_none_iff] at hnone
      rw [fileName?, components_of_plain hroot hhere, hnone] at h
      cases h

/-- Another last name takes the place of the old one. -/
theorem withFileName_eq {fileName : Piece} (h : p.fileName? = some fileName) (piece : Piece) :
    ∃ q, p.parent? = some q ∧ p.withFileName piece.bytes = q.join ⟨[piece]⟩ := by
  obtain ⟨q, hq⟩ := exists_parent_of_fileName? h
  refine ⟨q, hq, ?_⟩
  rw [withFileName, h, hq, ofBytes_of_not_mem piece.slash_not_mem]

theorem components_withFileName {fileName : Piece} (h : p.fileName? = some fileName)
    (hstep : Component.ofPiece? piece = some step) :
    (p.withFileName piece.bytes).components = p.components.dropLast ++ [step] := by
  obtain ⟨q, hq, hpiece⟩ := withFileName_eq h piece
  rw [hpiece, components_join_singleton hstep, components_parent? hq]

theorem moves_withFileName {fileName : Piece} (h : p.fileName? = some fileName) (piece : Piece) :
    (p.withFileName piece.bytes).moves = p.moves.dropLast ++ moves ⟨[piece]⟩ := by
  obtain ⟨q, hq, hpiece⟩ := withFileName_eq h piece
  rw [hpiece, moves_join (isAbsolute_singleton piece), moves_parent? hq]

theorem fileName?_eq_some_iff :
    p.fileName? = some piece ↔ p.components.getLast? = some (.name piece) := by
  rw [fileName?]
  split
  · next heq => rw [heq, Option.some.injEq, Option.some.injEq, Component.name.injEq]
  · next hnot =>
    refine iff_of_false (fun h => ?_) (hnot piece)
    cases h

theorem fileText_eq (h : p.fileName? = some piece) : p.fileText = piece.text := by
  rw [fileText, h]
  rfl

theorem IsNormal.exists_fileName? (h : p.IsNormal) : ∃ fileName, p.fileName? = some fileName := by
  obtain ⟨hne, hcomponents⟩ := h
  refine ⟨p.names.getLast hne, ?_⟩
  rw [fileName?_eq_some_iff, hcomponents, List.getLast?_map, List.getLast?_eq_some_getLast hne]
  rfl

/-- A proper name takes the place of the last one. -/
theorem IsNormal.withFileName (h : p.IsNormal) (hempty : piece ≠ .empty)
    (hdots : ¬(piece = .dot ∨ piece = .dots)) :
    (p.withFileName piece.bytes).IsNormal ∧
      (p.withFileName piece.bytes).names = p.names.dropLast ++ [piece] ∧
      (p.withFileName piece.bytes).fileName? = some piece := by
  obtain ⟨fileName, hfile⟩ := h.exists_fileName?
  rw [not_or] at hdots
  have hcomponents : (p.withFileName piece.bytes).components =
      (p.names.dropLast ++ [piece]).map .name := by
    rw [components_withFileName hfile (ofPiece?_eq_name hempty hdots.1 hdots.2).2, h.2,
      List.map_append, List.map_dropLast, List.map_singleton]
  obtain ⟨hnormal, hnames⟩ := isNormal_of_components (List.concat_ne_nil _ _) hcomponents
  refine ⟨hnormal, hnames, ?_⟩
  rw [fileName?_eq_some_iff, hcomponents, List.map_append, List.map_singleton,
    List.getLast?_concat]

/-- Dots in place of the last name lead elsewhere. -/
theorem IsNormal.not_of_dots (h : p.IsNormal) (hdots : piece = .dot ∨ piece = .dots)
    (hnormal : (p.withFileName piece.bytes).IsNormal) :
    (p.withFileName piece.bytes).names.dropLast ≠ p.names.dropLast := by
  obtain ⟨fileName, hfile⟩ := h.exists_fileName?
  intro hdirectory
  rcases hdots with rfl | rfl
  · have hmoves := moves_withFileName hfile .dot
    rw [h.moves_eq, hnormal.moves_eq, ← List.map_dropLast] at hmoves
    have hlength := congrArg List.length (hmoves.trans (List.append_nil _))
    rw [List.length_map, List.length_map, ← hdirectory, List.length_dropLast] at hlength
    have hpos := List.length_pos_iff.2 hnormal.1
    omega
  · have hup : Step.up ∈ (p.withFileName Piece.dots.bytes).moves := by
      rw [moves_withFileName hfile .dots]
      exact List.mem_append_right _ List.mem_cons_self
    exact hnormal.up_not_mem_moves hup

end Path

namespace Scene

variable {kind : KindTemplates} {c : Template.Context} {template : TemplateFile}
  {file : RenderedFile} {files : List RenderedFile} {path p : Path} {name : List UInt8}

/-- A template at the path gives a file by the name. -/
def GivesName (c : Template.Context) (path : Path) (name : List UInt8) : Prop :=
  ∃ fileName, path.fileName? = some fileName ∧ outputName path fileName c = .ok name

/-- The name of the template holds a placeholder, and expands to one of the two dots. -/
def ExpandsToDots (c : Template.Context) (path : Path) : Prop :=
  ∃ fileName text, path.fileName? = some fileName ∧ templatedName? fileName = some text ∧
    (expand text c = .ok "." ∨ expand text c = .ok "..")

theorem GivesName.unique {name' : List UInt8} (h : GivesName c path name)
    (h' : GivesName c path name') : name = name' := by
  obtain ⟨fileName, hfile, hname⟩ := h
  obtain ⟨fileName', hfile', hname'⟩ := h'
  cases hfile.symm.trans hfile'
  exact Except.ok.inj (hname.symm.trans hname')

/-- The names that a templated name must not expand to, as the renderer has it. -/
def IsRefused (name : String) : Prop :=
  name = "" ∨ '/' ∈ name.toList ∨ '\\' ∈ name.toList

theorem isRefused_iff {expanded : String} : IsRefused expanded ↔
    expanded = "" ∨ expanded.toList.any (fun c => c = '/' || c = '\\') = true := by
  have hseparators : expanded.toList.any (fun c => c = '/' || c = '\\') = true ↔
      '/' ∈ expanded.toList ∨ '\\' ∈ expanded.toList := by
    rw [List.any_eq_true]
    constructor
    · rintro ⟨c, hc, hseparator⟩
      rw [Bool.or_eq_true, decide_eq_true_iff, decide_eq_true_iff] at hseparator
      rcases hseparator with rfl | rfl
      · exact .inl hc
      · exact .inr hc
    · rintro (hc | hc)
      · exact ⟨_, hc, by decide⟩
      · exact ⟨_, hc, by decide⟩
  rw [IsRefused, hseparators]

section

variable {fileName : Piece} {text expanded : String}

theorem outputName_of_plain (h : templatedName? fileName = none) :
    outputName path fileName c = .ok (bytes c.name ++ fileName.bytes) := by
  rw [outputName, h]

theorem outputName_of_isRefused (h : templatedName? fileName = some text)
    (hexpand : expand text c = .ok expanded) (hrefused : IsRefused expanded) :
    outputName path fileName c = .error (.kindInvalid (.invalidFileName path expanded)) := by
  simp only [outputName, h, hexpand, if_pos (isRefused_iff.1 hrefused)]

theorem outputName_of_not_isRefused (h : templatedName? fileName = some text)
    (hexpand : expand text c = .ok expanded) (hrefused : ¬IsRefused expanded) :
    outputName path fileName c = .ok (bytes expanded) := by
  simp only [outputName, h, hexpand, if_neg (isRefused_iff.not.1 hrefused)]

theorem outputName_eq_ok_iff : outputName path fileName c = .ok name ↔
    (∃ text expanded, templatedName? fileName = some text ∧ expand text c = .ok expanded ∧
      ¬IsRefused expanded ∧ bytes expanded = name) ∨
    templatedName? fileName = none ∧ bytes c.name ++ fileName.bytes = name := by
  cases htemplated : templatedName? fileName with
  | none =>
    rw [outputName_of_plain htemplated, Except.ok.injEq]
    simp
  | some text =>
    rw [or_iff_left fun h => Option.some_ne_none text h.1]
    constructor
    · intro h
      cases hexpand : expand text c with
      | error e =>
        rw [outputName, htemplated] at h
        simp only [hexpand] at h
        cases h
      | ok expanded =>
        by_cases hrefused : IsRefused expanded
        · rw [outputName_of_isRefused htemplated hexpand hrefused] at h
          cases h
        · rw [outputName_of_not_isRefused htemplated hexpand hrefused] at h
          exact ⟨text, expanded, rfl, hexpand, hrefused, Except.ok.inj h⟩
    · rintro ⟨_, expanded, htext, hexpand, hrefused, rfl⟩
      cases htext
      exact outputName_of_not_isRefused htemplated hexpand hrefused

end

theorem outputPath_eq_ok_iff :
    outputPath path c = .ok p ↔ ∃ name, GivesName c path name ∧ path.withFileName name = p := by
  rw [outputPath]
  split
  · next hnone =>
    refine iff_of_false (fun h => ?_) (fun h => ?_)
    · cases h
    · obtain ⟨_, ⟨_, hsome, -⟩, -⟩ := h
      cases hnone.symm.trans hsome
  · next fileName hfile =>
    constructor
    · intro h
      obtain ⟨name, hname, h⟩ := bind_eq_ok_iff.1 h
      exact ⟨name, ⟨fileName, hfile, hname⟩, Except.ok.inj h⟩
    · rintro ⟨name, ⟨fileName', hfile', hname⟩, rfl⟩
      cases hfile.symm.trans hfile'
      rw [hname]
      rfl

section

variable (hname : checkName c.name = .ok ())
include hname

/-- What starts with the name of a scene is neither empty nor dots. -/
theorem append_ne_dots (fileName : Piece) (n : Nat) :
    bytes c.name ++ fileName.bytes ≠ List.replicate n 0x2E := by
  have hidentifier := checkName_eq_ok_iff.1 hname
  intro hdots
  cases hscene : bytes c.name with
  | nil =>
    rw [bytes_eq_nil_iff.1 hscene] at hidentifier
    cases hidentifier
  | cons first rest =>
    rw [hscene] at hdots
    have hfirst : first ∈ List.replicate n 0x2E := hdots ▸ List.mem_cons_self
    have hdot : 0x2E ∈ bytes c.name := by
      rw [hscene, List.eq_of_mem_replicate hfirst]
      exact List.mem_cons_self
    have hmem : '.' ∈ c.name.toList := (mem_bytes_iff (by decide)).1 hdot
    exact not_mem_of_isIdentifier hidentifier (by decide) hmem

/-- The name that a template gives is a piece of a path. -/
theorem GivesName.exists_piece (h : GivesName c path name) :
    ∃ piece : Piece, piece.bytes = name ∧ piece ≠ .empty := by
  obtain ⟨fileName, hfile, hout⟩ := h
  have hslash : '/' ∉ c.name.toList :=
    not_mem_of_isIdentifier (checkName_eq_ok_iff.1 hname) (by decide)
  refine ⟨⟨name, slash_not_mem_of_outputName hslash hout⟩, rfl, fun hempty => ?_⟩
  obtain rfl : name = [] := congrArg Piece.bytes hempty
  rcases outputName_eq_ok_iff.1 hout with ⟨text, expanded, -, -, hrefused, hnil⟩ | ⟨-, hnil⟩
  · exact hrefused (.inl (bytes_eq_nil_iff.1 hnil))
  · exact append_ne_dots hname fileName 0 hnil

theorem GivesName.expandsToDots_iff {piece : Piece} (h : GivesName c path piece.bytes) :
    ExpandsToDots c path ↔ piece = .dot ∨ piece = .dots := by
  obtain ⟨fileName, hfile, hout⟩ := h
  rw [ExpandsToDots, hfile]
  rcases outputName_eq_ok_iff.1 hout with
    ⟨text, expanded, htext, hexpand, -, hbytes⟩ | ⟨hplain, hbytes⟩
  · have hsame {other : String} {piece' : Piece} (hother : bytes other = piece'.bytes) :
        expanded = other ↔ piece = piece' := by
      rw [← bytes_injective.eq_iff, hbytes, hother]
      exact ⟨Piece.eq_of_bytes, congrArg Piece.bytes⟩
    constructor
    · rintro ⟨_, _, hfile', htext', hdots⟩
      cases hfile'
      cases htext.symm.trans htext'
      rw [hexpand, Except.ok.injEq, Except.ok.injEq] at hdots
      exact hdots.imp (hsame rfl).1 (hsame rfl).1
    · intro hdots
      refine ⟨fileName, text, rfl, htext, ?_⟩
      rw [hexpand, Except.ok.injEq, Except.ok.injEq]
      exact hdots.imp (hsame rfl).2 (hsame rfl).2
  · refine iff_of_false ?_ ?_
    · rintro ⟨_, _, hfile', htext, -⟩
      cases hfile'
      cases hplain.symm.trans htext
    · rintro (rfl | rfl)
      · exact append_ne_dots hname fileName 1 hbytes
      · exact append_ne_dots hname fileName 2 hbytes

end

/-- What a template of a kind expands to, with the header before it, while `file_name` stands for
the name. -/
def expandAs (kind : KindTemplates) (c : Template.Context) (template : TemplateFile)
    (name : String) : Except Template.Error String := do
  let head ← expand kind.header (c.bind "file_name" name)
  let rest ← expand template.source (c.bind "file_name" name)
  return head ++ rest

/-- The file that a template of a kind gives. -/
structure IsRendering (kind : KindTemplates) (c : Template.Context) (template : TemplateFile)
    (file : RenderedFile) : Prop where
  path : outputPath template.path c = .ok file.path
  content : expandAs kind c template file.path.fileText = .ok file.content

/-- The file lies where its template lies, with a proper name, and this is the name that it has
been rendered under. -/
structure IsProper (kind : KindTemplates) (c : Template.Context) (template : TemplateFile)
    (file : RenderedFile) : Prop where
  normal : file.path.IsNormal
  directory : file.path.names.dropLast = template.path.names.dropLast
  content : ∃ piece, piece ≠ .empty ∧ file.path.fileName? = some piece ∧
    expandAs kind c template piece.text = .ok file.content

theorem renderFile_eq_ok_iff {header : Template}
    (hheader : Template.parse kind.header = .ok header) :
    renderFile header c template = .ok file ↔ IsRendering kind c template file := by
  have hexpand : ∀ (text : String) (c : Template.Context),
      expand text c = Template.parse text >>= fun t => t.expand c := fun _ _ => rfl
  constructor
  · intro h
    obtain ⟨p, hpath, h⟩ := bind_eq_ok_iff.1 h
    obtain ⟨body, hbody, h⟩ := bind_eq_ok_iff.1 h
    obtain ⟨head, hhead, h⟩ := bind_eq_ok_iff.1 h
    obtain ⟨rest, hrest, h⟩ := bind_eq_ok_iff.1 h
    rw [mapError_eq_ok_iff] at hbody hhead hrest
    cases h
    refine ⟨hpath, bind_eq_ok_iff.2 ⟨head, ?_, bind_eq_ok_iff.2 ⟨rest, ?_, rfl⟩⟩⟩
    · exact (hexpand _ _).trans (bind_eq_ok_iff.2 ⟨header, hheader, hhead⟩)
    · exact (hexpand _ _).trans (bind_eq_ok_iff.2 ⟨body, hbody, hrest⟩)
  · rintro ⟨hpath, hcontent⟩
    obtain ⟨head, hhead, h⟩ := bind_eq_ok_iff.1 hcontent
    obtain ⟨rest, hrest, h⟩ := bind_eq_ok_iff.1 h
    obtain ⟨header', hheader', hhead⟩ := bind_eq_ok_iff.1 hhead
    obtain ⟨body, hbody, hrest⟩ := bind_eq_ok_iff.1 hrest
    cases hheader.symm.trans hheader'
    refine bind_eq_ok_iff.2 ⟨_, hpath, bind_eq_ok_iff.2 ⟨body, mapError_eq_ok_iff.2 hbody,
      bind_eq_ok_iff.2 ⟨head, mapError_eq_ok_iff.2 hhead,
        bind_eq_ok_iff.2 ⟨rest, mapError_eq_ok_iff.2 hrest, ?_⟩⟩⟩⟩
    rw [Except.ok.inj h]
    rfl

/-- The error of a template under its name, if the header can be read and expanded. -/
theorem renderFile_eq_error {header : Template} {head : String} {e : Template.Error}
    (hheader : Template.parse kind.header = .ok header) (hpath : outputPath template.path c = .ok p)
    (hhead : expand kind.header (c.bind "file_name" p.fileText) = .ok head)
    (hrest : expand template.source (c.bind "file_name" p.fileText) = .error e) :
    renderFile header c template = .error (.template template.path.text e) := by
  obtain ⟨header', hheader', hhead⟩ := bind_eq_ok_iff.1 hhead
  cases hheader.symm.trans hheader'
  rw [renderFile, hpath]
  cases hbody : Template.parse template.source with
  | error e' =>
    rw [expand, hbody] at hrest
    cases hrest
    rfl
  | ok body =>
    rw [expand, hbody] at hrest
    replace hrest : body.expand (c.bind "file_name" p.fileText) = .error e := hrest
    simp only [bind, Except.bind, Except.mapError, hhead, hrest]

/-- A kind renders if its header can be read and each of its templates gives a file. -/
theorem render_eq_ok_iff :
    render kind c = .ok files ↔ (∃ header, Template.parse kind.header = .ok header) ∧
      List.Forall₂ (IsRendering kind c) kind.files files := by
  constructor
  · intro h
    obtain ⟨header, hheader, h⟩ := bind_eq_ok_iff.1 h
    rw [mapError_eq_ok_iff] at hheader
    exact ⟨⟨header, hheader⟩,
      (mapM_eq_ok_iff.1 h).imp fun _ _ => (renderFile_eq_ok_iff hheader).1⟩
  · rintro ⟨⟨header, hheader⟩, hfiles⟩
    exact bind_eq_ok_iff.2 ⟨header, mapError_eq_ok_iff.2 hheader,
      mapM_eq_ok_iff.2 (hfiles.imp fun _ _ => (renderFile_eq_ok_iff hheader).2)⟩

/-- The first template that fails ends the rendering. -/
theorem render_eq_error {header : Template} {before after : List TemplateFile} {e : Error}
    (hheader : Template.parse kind.header = .ok header)
    (hfiles : kind.files = before ++ template :: after)
    (hbefore : ∀ template ∈ before, ∃ file, IsRendering kind c template file)
    (h : renderFile header c template = .error e) : render kind c = .error e := by
  rw [render, hheader, hfiles]
  refine mapM_append_cons_of_error (fun template htemplate => ?_) h
  obtain ⟨file, hfile⟩ := hbefore template htemplate
  exact ⟨file, (renderFile_eq_ok_iff hheader).2 hfile⟩

theorem IsRendering.isProper_iff (h : IsRendering kind c template file)
    (hname : checkName c.name = .ok ()) (hpath : template.path.IsNormal) :
    IsProper kind c template file ↔ ¬ExpandsToDots c template.path := by
  obtain ⟨_, hgives, hout⟩ := outputPath_eq_ok_iff.1 h.path
  obtain ⟨piece, rfl, hempty⟩ := hgives.exists_piece hname
  rw [hgives.expandsToDots_iff hname]
  constructor
  · intro hproper hdots
    have hnormal := hproper.normal
    rw [← hout] at hnormal
    exact hpath.not_of_dots hdots hnormal (hout ▸ hproper.directory)
  · intro hdots
    obtain ⟨hnormal, hnames, hfile⟩ := hpath.withFileName hempty hdots
    rw [hout] at hnormal hnames hfile
    refine ⟨hnormal, ?_, piece, hempty, hfile, ?_⟩
    · rw [hnames, List.dropLast_concat]
    · rw [← Path.fileText_eq hfile]
      exact h.content

/-- A template with a refused name ends the rendering if those before it give files. -/
theorem render_of_isRefused {before after : List TemplateFile} {fileName : Piece}
    {text expanded : String} (hfiles : kind.files = before ++ template :: after)
    (hfile : template.path.fileName? = some fileName)
    (htext : templatedName? fileName = some text) (hexpand : expand text c = .ok expanded)
    (hrefused : IsRefused expanded) (hheader : ∃ header, Template.parse kind.header = .ok header)
    (hbefore : ∀ template ∈ before, ∃ file, IsRendering kind c template file) :
    render kind c = .error (.kindInvalid (.invalidFileName template.path expanded)) := by
  obtain ⟨header, hheader⟩ := hheader
  refine render_eq_error hheader hfiles hbefore ?_
  rw [renderFile, outputPath, hfile]
  simp only [outputName_of_isRefused htext hexpand hrefused]
  rfl

/-- Every rendered file is proper, except where a templated name expands to dots. What a templated
name must not expand to is refused. -/
theorem render_proper_iff (hname : checkName c.name = .ok ())
    (hpaths : ∀ template ∈ kind.files, template.path.IsNormal) :
    (∀ files, render kind c = .ok files → List.Forall₂
      (fun template file => IsProper kind c template file ↔ ¬ExpandsToDots c template.path)
      kind.files files) ∧
    ∀ before template after fileName text expanded, kind.files = before ++ template :: after →
      template.path.fileName? = some fileName → templatedName? fileName = some text →
      expand text c = .ok expanded → IsRefused expanded →
      (∃ header, Template.parse kind.header = .ok header) →
      (∀ template ∈ before, ∃ file, IsRendering kind c template file) →
      render kind c = .error (.kindInvalid (.invalidFileName template.path expanded)) := by
  refine ⟨fun files h => ?_, fun _ _ _ _ _ _ => render_of_isRefused⟩
  obtain ⟨-, hfiles⟩ := render_eq_ok_iff.1 h
  exact ((List.forall₂_and_left _ _).2 ⟨hpaths, hfiles⟩).imp
    fun _ _ ⟨hpath, hrendering⟩ => hrendering.isProper_iff hname hpath

/-- A kind with a plain and a templated file name. -/
def kindOfTwoNames : KindTemplates where
  name := "mine"
  header := "// {{ file_name }}\n"
  files := [⟨.ofString "View.swift", ""⟩, ⟨.ofString "Test/{{ x }}", ""⟩]

def contextOfName (x : String) : Template.Context where
  name := "Login"
  properties := []
  bindings := [("x", x)]

theorem render_proper_of_mock :
    (∃ files, render kindOfTwoNames (contextOfName "Mock.swift") = .ok files ∧
      List.Forall₂ (IsProper kindOfTwoNames (contextOfName "Mock.swift"))
        kindOfTwoNames.files files) ∧
    render kindOfTwoNames (contextOfName "a/b") =
      .error (.kindInvalid (.invalidFileName (.ofString "Test/{{ x }}") "a/b")) := by
  have hrender : render kindOfTwoNames (contextOfName "Mock.swift") = .ok
      [⟨.ofString "LoginView.swift", "// LoginView.swift\n"⟩,
        ⟨.ofString "Test/Mock.swift", "// Mock.swift\n"⟩] := by
    decide +kernel
  have hdots : ∀ template ∈ kindOfTwoNames.files,
      ¬ExpandsToDots (contextOfName "Mock.swift") template.path := by
    have hplain : GivesName (contextOfName "Mock.swift") (.ofString "View.swift")
        (Piece.of "LoginView.swift").bytes :=
      ⟨.of "View.swift", by decide +kernel, by decide +kernel⟩
    have htemplated : GivesName (contextOfName "Mock.swift") (.ofString "Test/{{ x }}")
        (Piece.of "Mock.swift").bytes :=
      ⟨.of "{{ x }}", by decide +kernel, by decide +kernel⟩
    refine List.forall_mem_cons.2 ⟨?_, List.forall_mem_singleton.2 ?_⟩
    · exact fun h => absurd ((hplain.expandsToDots_iff rfl).1 h) (by decide)
    · exact fun h => absurd ((htemplated.expandsToDots_iff rfl).1 h) (by decide)
  have hplain : ∃ file, IsRendering kindOfTwoNames (contextOfName "a/b")
      ⟨.ofString "View.swift", ""⟩ file :=
    ⟨⟨.ofString "LoginView.swift", "// LoginView.swift\n"⟩, by decide +kernel, by decide +kernel⟩
  have hname : checkName "Login" = .ok () := rfl
  have hpaths : ∀ template ∈ kindOfTwoNames.files, template.path.IsNormal := by decide +kernel
  constructor
  · have hiff := (render_proper_iff hname hpaths).1 _ hrender
    exact ⟨_, hrender, ((List.forall₂_and_left _ _).2 ⟨hdots, hiff⟩).imp
      fun _ _ ⟨hnot, hproper⟩ => hproper.2 hnot⟩
  · exact (render_proper_iff hname hpaths).2 [⟨.ofString "View.swift", ""⟩]
      ⟨.ofString "Test/{{ x }}", ""⟩ [] (.of "{{ x }}") "{{ x }}" "a/b" rfl (by decide +kernel)
      (by decide +kernel) (by decide +kernel) (.inr (.inl (by decide)))
      (render_eq_ok_iff.1 hrender).1 (List.forall_mem_singleton.2 hplain)

/-- A templated name that expands to dots is let through, and the file lies elsewhere. -/
theorem render_not_proper :
    ¬∀ (kind : KindTemplates) (c : Template.Context) (files : List RenderedFile),
      checkName c.name = .ok () → (∀ template ∈ kind.files, template.path.IsNormal) →
      render kind c = .ok files → List.Forall₂ (IsProper kind c) kind.files files := by
  intro h
  have hrender : render kindOfTwoNames (contextOfName "..") = .ok
      [⟨.ofString "LoginView.swift", "// LoginView.swift\n"⟩, ⟨.ofString "Test/..", "// \n"⟩] := by
    decide +kernel
  obtain ⟨-, hdots⟩ := List.forall₂_cons.1 (h _ _ _ rfl (by decide +kernel) hrender)
  obtain ⟨hdots, -⟩ := List.forall₂_cons.1 hdots
  exact absurd hdots.normal (by decide +kernel)

end Scene

end Scaffold
