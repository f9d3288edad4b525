import Scaffold.Proofs.Command.Generation
import Scaffold.Proofs.Kind.Texts
import Scaffold.Proofs.Scene.Distinctness
import Scaffold.Proofs.Swift.Declaration

/-!
The builtin kinds render. Each of their templates is closed under the names that the context of a
scene binds, those of the kind `list` with the names of a model. No two of their files have the same
path, since the names of the files in one directory end differently.
-/

namespace Scaffold

open Template Text

namespace Scene

variable {kind : KindTemplates} {c : Context} {files : List RenderedFile}

/-- There is one file for each template, in this order, with a proper name in the directory of the
template, and no two files have the same path. -/
structure IsComplete (kind : KindTemplates) (c : Context) (files : List RenderedFile) : Prop where
  each : List.Forall₂ (IsProper kind c) kind.files files
  apart : AreApart files

def Renders (kind : KindTemplates) (c : Context) : Prop :=
  ∃ files, render kind c = .ok files ∧ IsComplete kind c files

/-- A template is named so in this directory, and the name of its file ends so. -/
structure Slot where
  directory : List Path.Component
  fileName : Piece
  tail : List UInt8

namespace Slot

def components (slot : Slot) : List Path.Component :=
  slot.directory ++ [.name slot.fileName]

def GivesTail (c : Context) (slot : Slot) : Prop :=
  ∀ path, ∃ start, outputName path slot.fileName c = .ok (start ++ slot.tail)

/-- No name ends in the tails of both. -/
def EndApart (slot slot' : Slot) : Prop :=
  ¬slot.tail <:+ slot'.tail ∧ ¬slot'.tail <:+ slot.tail

/-- No name that ends so consists of dots, and within a directory all names end differently. -/
def AreTidy (slots : List Slot) : Prop :=
  (∀ slot ∈ slots, 2 < slot.tail.length) ∧
    slots.Pairwise fun slot slot' => slot.directory = slot'.directory → slot.EndApart slot'

instance (slot slot' : Slot) : Decidable (slot.EndApart slot') :=
  inferInstanceAs (Decidable (_ ∧ _))

instance (slots : List Slot) : Decidable (AreTidy slots) :=
  inferInstanceAs (Decidable (_ ∧ _))

variable {slot slot' : Slot} {path : Path}

theorem EndApart.append_ne (h : slot.EndApart slot') (start start' : List UInt8) :
    start ++ slot.tail ≠ start' ++ slot'.tail := by
  intro heq
  have hsuffix : slot.tail <:+ start' ++ slot'.tail := ⟨start, heq⟩
  rcases List.suffix_or_suffix_of_suffix hsuffix (List.suffix_append _ _) with hshort | hshort
  · exact h.1 hshort
  · exact h.2 hshort

theorem GivesTail.exists_givesName (h : slot.GivesTail c)
    (hpath : path.components = slot.components) :
    ∃ start, GivesName c path (start ++ slot.tail) := by
  obtain ⟨start, hout⟩ := h path
  refine ⟨start, slot.fileName, ?_, hout⟩
  rw [Path.fileName?_eq_some_iff, hpath, components, List.getLast?_concat]

/-- The template lies in the slot, which gives it a proper name. -/
structure Fits (c : Context) (template : TemplateFile) (slot : Slot) : Prop where
  isNormal : template.path.IsNormal
  components : template.path.components = slot.components
  tail : slot.GivesTail c
  long : 2 < slot.tail.length

/-- The file lies in the directory of the slot, and its name ends as the slot says. -/
def Holds (slot : Slot) (file : RenderedFile) : Prop :=
  ∃ start piece, piece.bytes = start ++ slot.tail ∧
    file.path.components = slot.directory ++ [.name piece]

theorem Fits.of_isRendering {template : TemplateFile} {file : RenderedFile}
    (h : Fits c template slot) (hname : checkName c.name = .ok ())
    (hrendering : IsRendering kind c template file) :
    IsProper kind c template file ∧ slot.Holds file := by
  obtain ⟨start, hgives⟩ := h.tail.exists_givesName h.components
  obtain ⟨piece, hpiece, -⟩ := hgives.exists_piece hname
  rw [← hpiece] at hgives
  have hdots : ¬ExpandsToDots c template.path := by
    have hlength : 2 < piece.bytes.length := by
      rw [hpiece, List.length_append]
      exact Nat.lt_add_left _ h.long
    rw [hgives.expandsToDots_iff hname]
    rintro (rfl | rfl) <;> revert hlength <;> decide
  refine ⟨(hrendering.isProper_iff hname h.isNormal).2 hdots, start, piece, hpiece, ?_⟩
  obtain ⟨piece', hgives', hfile⟩ := hrendering.exists_components hname hdots
  rw [hfile, h.components, Slot.components, List.dropLast_concat,
    Piece.eq_of_bytes (hgives.unique hgives')]

theorem Holds.ne_of_holds {file file' : RenderedFile} (h : slot.Holds file)
    (h' : slot'.Holds file') (hends : slot.directory = slot'.directory → slot.EndApart slot') :
    file.path.components ≠ file'.path.components := by
  obtain ⟨start, piece, hpiece, hfile⟩ := h
  obtain ⟨start', piece', hpiece', hfile'⟩ := h'
  intro hsame
  rw [hfile, hfile'] at hsame
  obtain ⟨hdirectory, hlast⟩ := List.append_inj' hsame rfl
  cases hlast
  exact (hends hdirectory).append_ne start start' (hpiece.symm.trans hpiece')

end Slot

/-- Pairs give a list each of whose elements is related to both. -/
theorem exists_forall₂ {α β γ : Type} {R : α → β → Prop} {S : α → γ → Prop} {T : β → γ → Prop}
    {as : List α} {bs : List β} (h : List.Forall₂ R as bs)
    (hstep : ∀ a b, R a b → ∃ c, S a c ∧ T b c) :
    ∃ cs, List.Forall₂ S as cs ∧ List.Forall₂ T bs cs := by
  induction h with
  | nil => exact ⟨[], .nil, .nil⟩
  | cons hab _ ih =>
    obtain ⟨c, hac, hbc⟩ := hstep _ _ hab
    obtain ⟨cs, hacs, hbcs⟩ := ih
    exact ⟨c :: cs, .cons hac hacs, .cons hbc hbcs⟩

section

variable {names : List String} {slots : List Slot} {template : TemplateFile}

/-- A template gives a file if it has a name and its text is closed under what the context binds. -/
theorem exists_rendering {name : List UInt8} (hgives : GivesName c template.path name)
    (hbinds : ∀ fileName, (c.bind "file_name" fileName).Binds names)
    (hheader : readsClosed names kind.header.toList = true)
    (hsource : readsClosed names template.source.toList = true) :
    ∃ file, IsRendering kind c template file := by
  let path := template.path.withFileName name
  obtain ⟨head, hhead⟩ := expand_of_readsClosed (hbinds path.fileText) hheader
  obtain ⟨rest, hrest⟩ := expand_of_readsClosed (hbinds path.fileText) hsource
  refine ⟨⟨path, head ++ rest⟩, outputPath_eq_ok_iff.2 ⟨_, hgives, rfl⟩, ?_⟩
  exact bind_eq_ok_iff.2 ⟨head, hhead, bind_eq_ok_iff.2 ⟨rest, hrest, rfl⟩⟩

/-- A kind renders completely if its texts are closed under what the context binds and its templates
lie in tidy slots. -/
theorem renders_of_areTidy (hname : checkName c.name = .ok ())
    (hbinds : ∀ fileName, (c.bind "file_name" fileName).Binds names)
    (hheader : readsClosed names kind.header.toList = true)
    (hsources : ∀ template ∈ kind.files, readsClosed names template.source.toList = true)
    (hpaths : ∀ template ∈ kind.files, template.path.IsNormal)
    (hslots : kind.files.map (·.path.components) = slots.map Slot.components)
    (htails : ∀ slot ∈ slots, slot.GivesTail c) (htidy : Slot.AreTidy slots) :
    Renders kind c := by
  rw [← List.forall₂_eq_eq_eq, List.forall₂_map_left_iff, List.forall₂_map_right_iff] at hslots
  have hfits : List.Forall₂ (fun template slot => Slot.Fits c template slot ∧
      readsClosed names template.source.toList = true) kind.files slots := by
    refine List.forall₂_iff_zip.2 ⟨hslots.length_eq, fun {template slot} hmem => ?_⟩
    obtain ⟨htemplate, hslot⟩ := List.of_mem_zip hmem
    exact ⟨⟨hpaths _ htemplate, List.forall₂_zip hslots hmem, htails _ hslot, htidy.1 _ hslot⟩,
      hsources _ htemplate⟩
  -- Slots are apart by themselves, so the files are compared through the slots that hold them.
  obtain ⟨files, hfiles, hholds⟩ : ∃ files, List.Forall₂ (fun template file =>
      IsRendering kind c template file ∧ IsProper kind c template file) kind.files files ∧
      List.Forall₂ Slot.Holds slots files := by
    refine exists_forall₂ hfits fun template slot ⟨hfit, hsource⟩ => ?_
    obtain ⟨start, hgives⟩ := hfit.tail.exists_givesName hfit.components
    obtain ⟨file, hrendering⟩ := exists_rendering hgives hbinds hheader hsource
    obtain ⟨hproper, hhold⟩ := hfit.of_isRendering hname hrendering
    exact ⟨file, ⟨hrendering, hproper⟩, hhold⟩
  refine ⟨files, render_eq_ok_iff.2 ⟨exists_parse_of_readsClosed hheader, ?_⟩, ?_, ?_⟩
  · exact hfiles.imp fun _ _ => And.left
  · exact hfiles.imp fun _ _ => And.right
  · exact pairwise_of_forall₂ (fun _ _ _ _ h h' hends => h.ne_of_holds h' hends) hholds htidy.2

end

end Scene

namespace Kind.Builtin

open Scene

variable {c : Context}

def plainSlot (directory : List Path.Component) (fileName : Piece) : Slot :=
  ⟨directory, fileName, fileName.bytes⟩

def rootSlots : List Slot :=
  [.of "ViewModel.swift", .of "Navigator.swift", .of "UseCaseType.swift", .of "UseCase.swift",
    .of "ViewController.swift"].map (plainSlot [])

def testSlots : List Slot :=
  [.of "ViewModelTests.swift", .of "UseCaseMock.swift", .of "NavigatorMock.swift",
    .of "ViewControllerTests.swift"].map (plainSlot [.name (.of "Test")])

/-- The slots of `base` and `detail`. -/
def plainSlots : List Slot :=
  rootSlots ++ testSlots

/-- The slots of `list`: the names of two files are templated. -/
def listSlots : List Slot :=
  rootSlots ++ ⟨[], .of "{{ model_name }}Cell.swift", bytes "Cell.swift"⟩ ::
    (testSlots ++ [⟨[.name (.of "Test")], .of "{{ name }}{{ model_name }}CellTests.swift",
      bytes "CellTests.swift"⟩])

theorem expand_cellName {model : String} (h : c.scalar? "model_name" = some model) :
    expand "{{ model_name }}Cell.swift" c = .ok (model ++ "Cell.swift") := by
  have hparse : Template.parse "{{ model_name }}Cell.swift" =
      .ok ⟨[.placeholder ⟨"model_name", []⟩ 1, .literal "Cell.swift"]⟩ := by
    cbv
  have hvalue : c.resolve? [] ⟨"model_name", []⟩ = some model := h
  rw [expand, hparse]
  change expandNodes c [] _ = _
  simp only [expandNodes_cons, expandNodes_nil, Node.expand, hvalue, joined_ok_ok,
    String.append_empty]

theorem expand_cellTestsName {model : String} (h : c.scalar? "model_name" = some model) :
    expand "{{ name }}{{ model_name }}CellTests.swift" c =
      .ok (c.name ++ model ++ "CellTests.swift") := by
  have hparse : Template.parse "{{ name }}{{ model_name }}CellTests.swift" =
      .ok ⟨[.placeholder ⟨"name", []⟩ 1, .placeholder ⟨"model_name", []⟩ 1,
        .literal "CellTests.swift"]⟩ := by
    cbv
  have hname : c.resolve? [] ⟨"name", []⟩ = some c.name := rfl
  have hvalue : c.resolve? [] ⟨"model_name", []⟩ = some model := h
  rw [expand, hparse]
  change expandNodes c [] _ = _
  simp only [expandNodes_cons, expandNodes_nil, Node.expand, hname, hvalue, joined_ok_ok,
    String.append_empty, String.append_assoc]

/-- Neither of the characters that a templated name must not expand to. -/
def HasNoSeparator (text : String) : Prop :=
  '/' ∉ text.toList ∧ '\\' ∉ text.toList

theorem HasNoSeparator.append {text text' : String} (h : HasNoSeparator text)
    (h' : HasNoSeparator text') : HasNoSeparator (text ++ text') := by
  simp only [HasNoSeparator, String.toList_append, List.mem_append, not_or]
  exact ⟨⟨h.1, h'.1⟩, h.2, h'.2⟩

theorem givesTail_of_plain {slot : Slot}
    (h : slot.tail = slot.fileName.bytes ∧ templatedName? slot.fileName = none) :
    slot.GivesTail c := by
  intro path
  rw [h.1]
  exact ⟨bytes c.name, outputName_of_plain h.2⟩

theorem givesTail_of_templated {slot : Slot} {text start tail : String}
    (htext : templatedName? slot.fileName = some text)
    (hexpand : expand text c = .ok (start ++ tail))
    (hstart : HasNoSeparator start) (htail : slot.tail = bytes tail) (hne : tail ≠ "")
    (hseparators : HasNoSeparator tail) : slot.GivesTail c := by
  refine fun path => ⟨bytes start, ?_⟩
  rw [htail, ← bytes_append]
  refine outputName_of_not_isRefused htext hexpand ?_
  rintro (hempty | hslash | hbackslash)
  · rw [String.append_eq_empty_iff] at hempty
    exact hne hempty.2
  · exact (hstart.append hseparators).1 hslash
  · exact (hstart.append hseparators).2 hbackslash

theorem givesTail_of_mem_plainSlots : ∀ slot ∈ plainSlots, slot.GivesTail c := by
  have hplain : ∀ slot ∈ plainSlots,
      slot.tail = slot.fileName.bytes ∧ templatedName? slot.fileName = none := by
    decide +kernel
  exact fun slot hslot => givesTail_of_plain (hplain slot hslot)

theorem givesTail_of_mem_listSlots {model : String} (hname : checkName c.name = .ok ())
    (hmodel : c.scalar? "model_name" = some model) (hseparators : HasNoSeparator model) :
    ∀ slot ∈ listSlots, slot.GivesTail c := by
  rw [checkName_eq_ok_iff] at hname
  have hscene : HasNoSeparator c.name :=
    ⟨not_mem_of_isIdentifier hname (by decide), not_mem_of_isIdentifier hname (by decide)⟩
  have hroot : ∀ slot ∈ rootSlots, slot.GivesTail c := fun slot hslot =>
    givesTail_of_mem_plainSlots slot (List.mem_append_left _ hslot)
  have htest : ∀ slot ∈ testSlots, slot.GivesTail c := fun slot hslot =>
    givesTail_of_mem_plainSlots slot (List.mem_append_right _ hslot)
  simp only [listSlots, List.forall_mem_append, List.forall_mem_cons]
  refine ⟨hroot, ?_, htest, ?_, nofun⟩
  · exact givesTail_of_templated (by decide +kernel) (expand_cellName hmodel) hseparators rfl
      (by decide) ⟨by decide, by decide⟩
  · exact givesTail_of_templated (by decide +kernel) (expand_cellTestsName hmodel)
      (hscene.append hseparators) rfl (by decide) ⟨by decide, by decide⟩

theorem areTidy_slots : Slot.AreTidy plainSlots ∧ Slot.AreTidy listSlots := by
  decide +kernel

theorem components_files :
    base.files.map (·.path.components) = plainSlots.map Slot.components ∧
    detail.files.map (·.path.components) = plainSlots.map Slot.components ∧
    list.files.map (·.path.components) = listSlots.map Slot.components := by
  decide +kernel

end Kind.Builtin

namespace Scene

open Kind.Builtin

variable {name : String} {properties : List Property} {config : Config} {now : Date.LocalTime}
  {c : Context} {m : Swift.Model}

theorem exists_context (name : String) (properties : List Property) (now : Date.LocalTime)
    (hformat : (Date.Format.parse? config.dateFormat.toList).isSome) :
    ∃ c, context name properties config now = .ok c := by
  obtain ⟨items, hitems⟩ := Option.isSome_iff_exists.1 hformat
  rw [context, Date.LocalTime.format?, hitems]
  exact ⟨_, rfl⟩

/-- The context of a scene binds its names, and no other. -/
theorem binds_of_context (h : context name properties config now = .ok c) :
    c.Binds sceneNames ∧ c.scalar? "model_name" = none := by
  rw [context] at h
  split at h
  · cases h
    constructor
    · have hempty : (⟨name, properties, []⟩ : Context).Binds [] := nofun
      exact ((((hempty.bind _ _).bind _ _).bind _ _).bind _ _).bind _ _
    · iterate 5 rw [Context.scalar?_bind (by decide), if_neg (by decide)]
      rfl
  · cases h

theorem binds_bindModel (h : c.Binds sceneNames) :
    (bindModel c m).Binds ("model_variable" :: "model_name" :: sceneNames) ∧
      (bindModel c m).scalar? "model_name" = some m.name := by
  refine ⟨(h.bind _ _).bind _ _, ?_⟩
  rw [bindModel, Context.scalar?_bind (by decide), if_neg (by decide),
    Context.scalar?_bind (by decide), if_pos rfl]

end Scene

namespace Kind

open Scene

variable {config : Config} {c : Context} {m : Swift.Model}

section

variable (hname : checkName c.name = .ok ())
include hname

theorem renders_base (hbinds : c.Binds Builtin.sceneNames) :
    Renders Builtin.base c := by
  obtain ⟨⟨hheader, hsources⟩, -⟩ := Builtin.areClosed_texts
  exact renders_of_areTidy hname (hbinds.bind "file_name") hheader hsources
    (isNormal_of_builtin? (show builtin? "base" = _ from rfl)) Builtin.components_files.1
    Builtin.givesTail_of_mem_plainSlots Builtin.areTidy_slots.1

theorem renders_detail (hbinds : c.Binds Builtin.sceneNames) :
    Renders Builtin.detail c := by
  obtain ⟨hheader, hsources⟩ := Builtin.areClosed_detail
  exact renders_of_areTidy hname (hbinds.bind "file_name") hheader hsources
    (isNormal_of_builtin? (show builtin? "detail" = _ from rfl)) Builtin.components_files.2.1
    Builtin.givesTail_of_mem_plainSlots Builtin.areTidy_slots.1

theorem renders_list (hbinds : c.Binds Builtin.sceneNames) {text : String}
    (hmodel : Swift.Model.parse? text = some m) :
    Renders Builtin.list (bindModel c m) := by
  obtain ⟨-, -, ⟨hheader, hsources⟩, -⟩ := Builtin.areClosed_texts
  obtain ⟨hbinds, hvalue⟩ := binds_bindModel (m := m) hbinds
  have hseparators : Builtin.HasNoSeparator m.name :=
    have hword := (Swift.isIdentifier_of_parse? hmodel).2
    ⟨fun hmem => absurd (hword _ hmem) (by decide +kernel),
      fun hmem => absurd (hword _ hmem) (by decide +kernel)⟩
  exact renders_of_areTidy hname (hbinds.bind "file_name") hheader hsources
    (isNormal_of_builtin? (show builtin? "list" = _ from rfl)) Builtin.components_files.2.2
    (Builtin.givesTail_of_mem_listSlots hname hvalue hseparators) Builtin.areTidy_slots.2

end

/-- Without a model the first text of `list` stops at the name of the model. -/
theorem render_list_of_unbound (hbinds : c.Binds Builtin.sceneNames)
    (hmodel : c.scalar? "model_name" = none) :
    render Builtin.list c = .error (.template "ViewModel.swift" (.unbound "model_name" 6)) := by
  obtain ⟨⟨hheader, -⟩, -, -, hopen⟩ := Builtin.areClosed_texts
  obtain ⟨header, hparse⟩ : ∃ header, Template.parse Builtin.list.header = .ok header :=
    exists_parse_of_readsClosed hheader
  let template := Builtin.file "ViewModel.swift" Builtin.Listing.viewModel
  let path := template.path.withFileName (bytes c.name ++ (Piece.of "ViewModel.swift").bytes)
  have hpath : outputPath template.path c = .ok path :=
    outputPath_eq_ok_iff.2
      ⟨_, ⟨.of "ViewModel.swift", by decide +kernel, outputName_of_plain (by decide +kernel)⟩, rfl⟩
  have hfile := hbinds.bind "file_name" path.fileText
  obtain ⟨head, hhead⟩ := expand_of_readsClosed hfile hheader
  have hrest := expand_of_readsOpen hfile hopen
    ((Context.scalar?_bind (by decide)).trans ((if_neg (by decide)).trans hmodel))
  have herror : renderFile header c template = _ :=
    renderFile_eq_error hparse hpath hhead hrest
  have htext : template.path.text = "ViewModel.swift" := by decide +kernel
  rw [htext] at herror
  exact render_eq_error hparse (show Builtin.list.files = [] ++ template :: _ from rfl) nofun herror

/-- In the context of a scene `base` and `detail` render, and `list` renders around a model, without
which it does not. -/
theorem builtin_renders {name : String} (properties : List Property) (now : Date.LocalTime)
    (hname : checkName name = .ok ())
    (hformat : (Date.Format.parse? config.dateFormat.toList).isSome) :
    ∃ c, context name properties config now = .ok c ∧
      Renders Builtin.base c ∧ Renders Builtin.detail c ∧
      (∀ text m, Swift.Model.parse? text = some m → Renders Builtin.list (bindModel c m)) ∧
      render Builtin.list c = .error (.template "ViewModel.swift" (.unbound "model_name" 6)) := by
  obtain ⟨c, hcontext⟩ := exists_context name properties now hformat
  obtain ⟨hbinds, hmodel⟩ := binds_of_context hcontext
  rw [← name_of_context hcontext] at hname
  exact ⟨c, hcontext, renders_base hname hbinds, renders_detail hname hbinds,
    fun _ _ => renders_list hname hbinds, render_list_of_unbound hbinds hmodel⟩

def configOfShop : Config where
  project := "Shop"
  developer := "Shop Team"
  company := ""
  templatesDirectory := "templates"
  dateFormat := "%d/%m/%Y"

def noon : Date.LocalTime where
  year := 2024
  month := 2
  day := 29
  hour := 12
  minute := 0
  second := 0
  nanosecond := 0
  offset := 0

theorem builtin_renders_of_user :
    checkName "Login" = .ok () ∧ (Date.Format.parse? configOfShop.dateFormat.toList).isSome ∧
    ∃ c m, context "Login" [⟨"avatarUrl", none⟩] configOfShop noon = .ok c ∧
      Swift.Model.parse? "struct User \x7b\n    let id: Int\n\x7d" = some m ∧
      Renders Builtin.base c ∧ Renders Builtin.detail c ∧ Renders Builtin.list (bindModel c m) := by
  have hname : checkName "Login" = .ok () := by decide +kernel
  have hformat : (Date.Format.parse? configOfShop.dateFormat.toList).isSome := by decide +kernel
  have hmodel : (Swift.Model.parse? "struct User \x7b\n    let id: Int\n\x7d").isSome := by
    decide +kernel
  obtain ⟨m, hm⟩ := Option.isSome_iff_exists.1 hmodel
  obtain ⟨c, hc, hbase, hdetail, hlist, -⟩ :=
    builtin_renders [⟨"avatarUrl", none⟩] noon hname hformat
  exact ⟨hname, hformat, c, m, hc, hm, hbase, hdetail, hlist _ m hm⟩

end Kind

end Scaffold
