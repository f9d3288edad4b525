import Scaffold.Proofs.Kind.Generated
import Scaffold.Proofs.Kind.Rendering

/-!
What the generated files list, read from their lines. In the view controller of `detail` the outlets
and the bindings follow the properties of the scene, as the fields of the output do in its view
model. In the cell of `list` what is declared, what is cleared and what its tests check are the same
outlets.
-/

namespace Scaffold.Kind.Builtin

open Template Text Scene

/-- What follows this text in the lines that begin with it. -/
def following (start : String) (ls : List String) : List String :=
  ls.filterMap fun l => (after? start.toList l.toList).map String.ofList

/-- The lines before the first one that is this. -/
def upTo (closing : String) (ls : List String) : List String :=
  ls.takeWhile (· ≠ closing)

/-- The lines between the first one that opens and the next one that closes. -/
def block (opening closing : String) (ls : List String) : List String :=
  upTo closing ((ls.dropWhile (· ≠ opening)).drop 1)

/-- A text without a line end. Lines that are such texts are the lines of the text they make up. -/
def IsLine (text : String) : Prop := '\n' ∉ text.toList

section

variable {start opening closing l : String} {ls ms : List String}

theorem following_nil (start : String) : following start [] = [] := rfl

theorem following_append (start : String) (ls ms : List String) :
    following start (ls ++ ms) = following start ls ++ following start ms :=
  List.filterMap_append

theorem following_flatMap {α : Type} (start : String) (items : List α)
    (written : α → List String) :
    following start (items.flatMap written) =
      items.flatMap fun item => following start (written item) :=
  List.filterMap_flatMap

theorem following_map {α : Type} (start : String) (items : List α) (line : α → String) :
    following start (items.map line) = items.flatMap fun item => following start [line item] := by
  rw [List.map_eq_flatMap, following_flatMap]

theorem following_cons_of_after?_none (h : after? start.toList l.toList = none) :
    following start (l :: ls) = following start ls :=
  List.filterMap_cons_none (by rw [h, Option.map_none])

theorem following_cons_append (start rest : String) (ls : List String) :
    following start ((start ++ rest) :: ls) = rest :: following start ls := by
  have hafter : after? start.toList (start ++ rest).toList = some rest.toList :=
    after?_eq_some_iff.2 String.toList_append
  refine List.filterMap_cons_some ?_
  rw [hafter, Option.map_some, String.ofList_toList]

theorem upTo_append (h : closing ∉ ms) : upTo closing (ms ++ ls) = ms ++ upTo closing ls := by
  refine List.takeWhile_append_of_pos fun l hl => decide_eq_true ?_
  rintro rfl
  exact h hl

theorem upTo_cons_of_ne (h : l ≠ closing) : upTo closing (l :: ls) = l :: upTo closing ls :=
  List.takeWhile_cons_of_pos (decide_eq_true h)

theorem upTo_cons_self (closing : String) (ls : List String) : upTo closing (closing :: ls) = [] :=
  List.takeWhile_cons_of_neg (by simp)

theorem block_append (h : opening ∉ ms) :
    block opening closing (ms ++ ls) = block opening closing ls := by
  have hdrop : (ms ++ ls).dropWhile (· ≠ opening) = ls.dropWhile (· ≠ opening) := by
    refine List.dropWhile_append_of_pos fun l hl => decide_eq_true ?_
    rintro rfl
    exact h hl
  rw [block, hdrop, block]

theorem block_cons_of_ne (h : l ≠ opening) :
    block opening closing (l :: ls) = block opening closing ls := by
  have hsingle : opening ∉ [l] := fun hmem => h (List.mem_singleton.1 hmem).symm
  exact block_append hsingle

theorem block_cons_self (opening closing : String) (ls : List String) :
    block opening closing (opening :: ls) = upTo closing ls := by
  rw [block, List.dropWhile_cons_of_neg (by simp), List.drop_one, List.tail_cons]

end

namespace Detail

/-- For each property in order the view controller declares and binds an outlet, and the output of
the view model has a field. -/
structure Agree (name : String) (properties : List Property)
    (viewModel viewController : List String) : Prop where
  outlets : following "    @IBOutlet weak var " viewController =
    properties.map (·.name ++ "Label: UILabel!")
  bindings : following "        output." viewController = properties.map (·.name)
  fields : following "        var " (block "    struct Output \x7b" "    \x7d" viewModel) =
    properties.map (·.name ++ " = Driver<String>.empty()")
  areLines : IsLine name → (∀ p ∈ properties, IsLine p.name) →
    ∀ l ∈ viewModel ++ viewController, IsLine l

variable (name : String) (properties : List Property)

theorem block_viewModelLines :
    block "    struct Output \x7b" "    \x7d" (viewModelLines name properties) =
      properties.flatMap (fun p => ["", "        var " ++ p.name ++ " = Driver<String>.empty()"]) ++
        [""] := by
  unfold viewModelLines
  simp (disch := simp [← String.toList_inj]) only [List.cons_append, List.nil_append,
    block_cons_of_ne, block_cons_self, upTo_append, upTo_cons_of_ne, upTo_cons_self]

theorem areLines_lines (hname : IsLine name) (hproperties : ∀ p ∈ properties, IsLine p.name) :
    ∀ l ∈ viewModelLines name properties ++ viewControllerLines name properties, IsLine l := by
  unfold viewModelLines viewControllerLines
  simp only [IsLine] at hname hproperties
  simp only [List.forall_mem_append, List.forall_mem_cons, List.forall_mem_flatMap]
  simp +contextual [IsLine, hname, hproperties]

theorem agree_lines :
    Agree name properties (viewModelLines name properties) (viewControllerLines name properties) where
  outlets := by
    unfold viewControllerLines
    simp (disch := simp [after?]) only [following_append, following_nil, following_flatMap,
      following_cons_of_after?_none, following_cons_append, String.append_assoc]
    simp [← List.map_eq_flatMap]
  bindings := by
    unfold viewControllerLines
    simp (disch := simp [after?]) only [following_append, following_nil, following_flatMap,
      following_cons_of_after?_none, following_cons_append, String.append_assoc]
    simp [← List.map_eq_flatMap]
  fields := by
    have hfield (p : Property) :
        following "        var " ["", "        var " ++ p.name ++ " = Driver<String>.empty()"] =
          [p.name ++ " = Driver<String>.empty()"] := by
      rw [following_cons_of_after?_none (by simp [after?]), String.append_assoc,
        following_cons_append, following_nil]
    have hblank : following "        var " [""] = [] :=
      following_cons_of_after?_none (by simp [after?])
    rw [block_viewModelLines, following_append, following_flatMap, hblank, List.append_nil,
      List.map_eq_flatMap]
    exact List.flatMap_congr fun p _ => hfield p
  areLines := areLines_lines name properties

end Detail

namespace Listing

/-- The cell declares the outlets of the displayed properties in order. It clears them when an item
is set and when it is reused, and its tests check them. -/
structure Agree (project model item : String) (properties : List Property)
    (cell cellTests : List String) : Prop where
  declared : following "    @IBOutlet weak var " cell =
    (Outlet.ofProperties properties).map (fun o => o.name ++ ": " ++ o.type ++ "!")
  clearedOnSet : block "        didSet \x7b" "        \x7d" cell =
    ("            guard let " ++ item ++ " = " ++ item ++ " else \x7b return \x7d") ::
      (Outlet.ofProperties properties).map (fun o => "            " ++ o.name ++ "." ++ o.reset)
  clearedOnReuse : block "    override func prepareForReuse() \x7b" "    \x7d" cell =
    "        super.prepareForReuse()" ::
      (Outlet.ofProperties properties).map (fun o => "        " ++ o.name ++ "." ++ o.reset)
  checked : block "    func test_iboutlets() \x7b" "    \x7d" cellTests =
    "//        XCTAssertNotNil(cell)" ::
      (Outlet.ofProperties properties).map
        (fun o => "//        XCTAssertNotNil(cell." ++ o.name ++ ")")
  areLines : IsLine project → IsLine model → IsLine item → (∀ p ∈ properties, IsLine p.name) →
    ∀ l ∈ cell ++ cellTests, IsLine l

variable {project model item : String} {outlets : List Outlet}

theorem areLines_lines (hproject : IsLine project) (hmodel : IsLine model) (hitem : IsLine item)
    (houtlets : ∀ o ∈ outlets, IsLine o.name ∧ IsLine o.type ∧ IsLine o.reset) :
    ∀ l ∈ cellLines model item outlets ++ cellTestsLines project model outlets, IsLine l := by
  unfold cellLines cellTestsLines
  simp only [IsLine] at hproject hmodel hitem houtlets
  simp only [List.forall_mem_append, List.forall_mem_cons, List.forall_mem_map]
  simp +contextual [IsLine, hproject, hmodel, hitem, houtlets]

variable (project model item) (properties : List Property)

theorem agree_lines :
    Agree project model item properties (cellLines model item (Outlet.ofProperties properties))
      (cellTestsLines project model (Outlet.ofProperties properties)) where
  declared := by
    unfold cellLines
    simp (disch := simp [after?]) only [following_append, following_nil, following_map,
      following_cons_of_after?_none, following_cons_append, String.append_assoc]
    simp [← List.map_eq_flatMap]
  clearedOnSet := by
    unfold cellLines
    simp (disch := simp [← String.toList_inj]) only [List.cons_append, List.nil_append,
      List.append_nil, block_append, block_cons_of_ne, block_cons_self, upTo_append,
      upTo_cons_of_ne, upTo_cons_self]
  clearedOnReuse := by
    unfold cellLines
    simp (disch := simp [← String.toList_inj]) only [List.cons_append, List.nil_append,
      List.append_nil, block_append, block_cons_of_ne, block_cons_self, upTo_append,
      upTo_cons_of_ne, upTo_cons_self]
  checked := by
    unfold cellTestsLines
    simp (disch := simp [← String.toList_inj]) only [List.cons_append, List.nil_append,
      List.append_nil, block_cons_of_ne, block_cons_self, upTo_append, upTo_cons_of_ne,
      upTo_cons_self]
  areLines hproject hmodel hitem hproperties := by
    refine areLines_lines hproject hmodel hitem fun o ho => ?_
    obtain ⟨p, hp, rfl⟩ := List.mem_map.1 ho
    have hname := hproperties p (List.mem_filter.1 hp).1
    rw [IsLine] at hname
    rw [Outlet.ofProperty_eq]
    cases p.showsImage <;> simp [IsLine, hname]

end Listing

end Builtin

open Template Text Scene

variable {kind : KindTemplates} {c : Context} {files : List RenderedFile}

/-- One of the files has the path of the template with this name, and a header and then these lines
as its text. -/
def HasFile (kind : KindTemplates) (c : Context) (files : List RenderedFile) (path name : String)
    (ls : List String) : Prop :=
  ∃ file ∈ files, file.path = (Path.ofString path).withFileName (bytes name) ∧
    ∃ head, expand kind.header (c.bind "file_name" file.path.fileText) = .ok head ∧
      file.content = head ++ Builtin.lines ls

section

variable {path : Path} {fileName : Piece} {name : List UInt8}

theorem eq_of_outputName_plain {tail : String}
    (hplain : fileName.bytes = bytes tail ∧ templatedName? fileName = none)
    (h : outputName path fileName c = .ok name) : name = bytes (c.name ++ tail) := by
  rw [outputName_of_plain hplain.2, hplain.1] at h
  rw [bytes_append, Except.ok.inj h]

theorem eq_of_outputName_templated {text expanded : String}
    (htemplated : templatedName? fileName = some text) (hexpand : expand text c = .ok expanded)
    (h : outputName path fileName c = .ok name) : name = bytes expanded := by
  rcases outputName_eq_ok_iff.1 h with
    ⟨text', expanded', htemplated', hexpand', -, rfl⟩ | ⟨hplain, -⟩
  · cases htemplated.symm.trans htemplated'
    rw [Except.ok.inj (hexpand.symm.trans hexpand')]
  · cases htemplated.symm.trans hplain

end

theorem hasFile_of_render {path name source : String} {fileName : Piece} {ls : List String}
    (hrender : render kind c = .ok files) (hmem : Builtin.file path source ∈ kind.files)
    (hfileName : (Path.ofString path).fileName? = some fileName)
    (hname : ∀ name', outputName (Path.ofString path) fileName c = .ok name' → name' = bytes name)
    (hsource : ∀ fileName, expand source (c.bind "file_name" fileName) = .ok (Builtin.lines ls)) :
    HasFile kind c files path name ls := by
  obtain ⟨-, hfiles⟩ := render_eq_ok_iff.1 hrender
  obtain ⟨file, hfile, hrendering⟩ := exists_of_mem_right hfiles.flip hmem
  obtain ⟨name', ⟨fileName', hfileName', hname'⟩, hpath⟩ :=
    outputPath_eq_ok_iff.1 hrendering.path
  cases hfileName.symm.trans hfileName'
  obtain ⟨head, hhead, hcontent⟩ := bind_eq_ok_iff.1 hrendering.content
  obtain ⟨rest, hrest, hcontent⟩ := bind_eq_ok_iff.1 hcontent
  refine ⟨file, hfile, ?_, head, hhead, ?_⟩
  · rw [← hpath, hname name' hname']
    rfl
  · cases (hsource _).symm.trans hrest
    exact (Except.ok.inj hcontent).symm

theorem exists_render_of_forall (hheader : ∃ header, Template.parse kind.header = .ok header)
    (h : ∀ template ∈ kind.files, ∃ file, IsRendering kind c template file) :
    ∃ files, render kind c = .ok files := by
  have hself : List.Forall₂ (fun template _ => ∃ file, IsRendering kind c template file)
      kind.files kind.files :=
    List.forall₂_same.2 h
  obtain ⟨files, hfiles, -⟩ : ∃ files, List.Forall₂ (IsRendering kind c) kind.files files ∧
      List.Forall₂ (fun _ _ => True) kind.files files :=
    exists_forall₂ hself fun _ _ ⟨file, hfile⟩ => ⟨file, hfile, trivial⟩
  exact ⟨files, render_eq_ok_iff.2 ⟨hheader, hfiles⟩⟩

/-- The names of the templates of `detail` are plain, so that a scene of any name has its files. -/
theorem exists_render_detail (hbinds : c.Binds Builtin.sceneNames) :
    ∃ files, render Builtin.detail c = .ok files := by
  obtain ⟨hheader, hsources⟩ := Builtin.areClosed_detail
  refine exists_render_of_forall (exists_parse_of_readsClosed hheader) fun template hmem => ?_
  have hcomponents : template.path.components ∈ Builtin.plainSlots.map Slot.components := by
    rw [← Builtin.components_files.2.1]
    exact List.mem_map_of_mem hmem
  obtain ⟨slot, hslot, hpath⟩ := List.mem_map.1 hcomponents
  obtain ⟨start, hgives⟩ :=
    (Builtin.givesTail_of_mem_plainSlots slot hslot).exists_givesName hpath.symm
  exact exists_rendering hgives (hbinds.bind "file_name") hheader (hsources template hmem)

theorem hasFile_detail (hrender : render Builtin.detail c = .ok files) :
    HasFile Builtin.detail c files "ViewModel.swift" (c.name ++ "ViewModel.swift")
      (Builtin.Detail.viewModelLines c.name c.properties) ∧
    HasFile Builtin.detail c files "ViewController.swift" (c.name ++ "ViewController.swift")
      (Builtin.Detail.viewControllerLines c.name c.properties) := by
  have hviewModel : Builtin.file "ViewModel.swift" Builtin.Detail.viewModel ∈
      Builtin.detail.files := by
    decide +kernel
  have hviewController : Builtin.file "ViewController.swift" Builtin.Detail.viewController ∈
      Builtin.detail.files := by
    decide +kernel
  constructor
  · exact hasFile_of_render hrender hviewModel
      (show Path.fileName? _ = some (.of "ViewModel.swift") by decide +kernel)
      (fun _ => eq_of_outputName_plain ⟨rfl, by decide +kernel⟩)
      fun fileName => Builtin.Detail.expand_viewModel (c.bind "file_name" fileName)
  · exact hasFile_of_render hrender hviewController
      (show Path.fileName? _ = some (.of "ViewController.swift") by decide +kernel)
      (fun _ => eq_of_outputName_plain ⟨rfl, by decide +kernel⟩)
      fun fileName => Builtin.Detail.expand_viewController (c.bind "file_name" fileName)

theorem hasFile_list {project model item : String} (hrender : render Builtin.list c = .ok files)
    (hproject : c.scalar? "project" = some project)
    (hmodel : c.scalar? "model_name" = some model)
    (hitem : c.scalar? "model_variable" = some item) :
    HasFile Builtin.list c files "{{ model_name }}Cell.swift" (model ++ "Cell.swift")
      (Builtin.Listing.cellLines model item (Builtin.Outlet.ofProperties c.properties)) ∧
    HasFile Builtin.list c files "Test/{{ name }}{{ model_name }}CellTests.swift"
      (c.name ++ model ++ "CellTests.swift")
      (Builtin.Listing.cellTestsLines project model
        (Builtin.Outlet.ofProperties c.properties)) := by
  have hcell : Builtin.file "{{ model_name }}Cell.swift" Builtin.Listing.cell ∈
      Builtin.list.files := by
    decide +kernel
  have htests : Builtin.file "Test/{{ name }}{{ model_name }}CellTests.swift"
      Builtin.Listing.cellTests ∈ Builtin.list.files := by
    decide +kernel
  have hbind {key value : String} (hkey : key ≠ "file_name" ∧ key ≠ "name")
      (hvalue : c.scalar? key = some value) (fileName : String) :
      (c.bind "file_name" fileName).scalar? key = some value := by
    rw [Context.scalar?_bind hkey.2, if_neg hkey.1.symm, hvalue]
  constructor
  · exact hasFile_of_render hrender hcell
      (show Path.fileName? _ = some (.of "{{ model_name }}Cell.swift") by decide +kernel)
      (fun _ => eq_of_outputName_templated (by decide +kernel) (Builtin.expand_cellName hmodel))
      fun fileName => Builtin.Listing.expand_cell (hbind (by decide) hmodel fileName)
        (hbind (by decide) hitem fileName)
  · exact hasFile_of_render hrender htests
      (show Path.fileName? _ = some (.of "{{ name }}{{ model_name }}CellTests.swift") by
        decide +kernel)
      (fun _ => eq_of_outputName_templated (by decide +kernel)
        (Builtin.expand_cellTestsName hmodel))
      fun fileName => Builtin.Listing.expand_cellTests (hbind (by decide) hproject fileName)
        (hbind (by decide) hmodel fileName)

theorem values_of_context {name : String} {properties : List Property} {config : Config}
    {now : Date.LocalTime} (h : context name properties config now = .ok c) :
    c.properties = properties ∧ c.scalar? "project" = some config.project := by
  rw [context] at h
  split at h
  · cases h
    refine ⟨rfl, ?_⟩
    iterate 4 rw [Context.scalar?_bind (by decide), if_neg (by decide)]
    rw [Context.scalar?_bind (by decide), if_pos rfl]
  · cases h

theorem values_of_bindModel {project : String} (h : c.scalar? "project" = some project)
    (m : Swift.Model) :
    (bindModel c m).scalar? "project" = some project ∧
    (bindModel c m).scalar? "model_name" = some m.name ∧
    (bindModel c m).scalar? "model_variable" = some m.variableName := by
  simp only [bindModel]
  refine ⟨?_, ?_, ?_⟩
  · iterate 2 rw [Context.scalar?_bind (by decide), if_neg (by decide)]
    exact h
  · rw [Context.scalar?_bind (by decide), if_neg (by decide), Context.scalar?_bind (by decide),
      if_pos rfl]
  · rw [Context.scalar?_bind (by decide), if_pos rfl]

/-- In the context of a scene `detail` renders, and its view model and view controller list the same
properties. What `list` renders around a model has a cell whose outlets are those that it clears and
that its tests check. The lines are those that the texts are made of, whatever the names are. -/
theorem rendered_agree {name : String} {properties : List Property} {config : Config}
    {now : Date.LocalTime} (hcontext : context name properties config now = .ok c) :
    (∃ files, render Builtin.detail c = .ok files ∧
      HasFile Builtin.detail c files "ViewModel.swift" (name ++ "ViewModel.swift")
        (Builtin.Detail.viewModelLines name properties) ∧
      HasFile Builtin.detail c files "ViewController.swift" (name ++ "ViewController.swift")
        (Builtin.Detail.viewControllerLines name properties)) ∧
    Builtin.Detail.Agree name properties (Builtin.Detail.viewModelLines name properties)
      (Builtin.Detail.viewControllerLines name properties) ∧
    ∀ m : Swift.Model,
      (∀ files, render Builtin.list (bindModel c m) = .ok files →
        HasFile Builtin.list (bindModel c m) files "{{ model_name }}Cell.swift"
          (m.name ++ "Cell.swift")
          (Builtin.Listing.cellLines m.name m.variableName
            (Builtin.Outlet.ofProperties properties)) ∧
        HasFile Builtin.list (bindModel c m) files "Test/{{ name }}{{ model_name }}CellTests.swift"
          (name ++ m.name ++ "CellTests.swift")
          (Builtin.Listing.cellTestsLines config.project m.name
            (Builtin.Outlet.ofProperties properties))) ∧
      (checkName name = .ok () → ∀ text, Swift.Model.parse? text = some m →
        ∃ files, render Builtin.list (bindModel c m) = .ok files) ∧
      Builtin.Listing.Agree config.project m.name m.variableName properties
        (Builtin.Listing.cellLines m.name m.variableName (Builtin.Outlet.ofProperties properties))
        (Builtin.Listing.cellTestsLines config.project m.name
          (Builtin.Outlet.ofProperties properties)) := by
  obtain ⟨hbinds, -⟩ := binds_of_context hcontext
  have hname : c.name = name := name_of_context hcontext
  obtain ⟨hproperties, hproject⟩ := values_of_context hcontext
  subst hname hproperties
  obtain ⟨files, hrender⟩ := exists_render_detail hbinds
  refine ⟨⟨files, hrender, hasFile_detail hrender⟩, Builtin.Detail.agree_lines _ _,
    fun m => ⟨fun files hlist => ?_, fun hname text hmodel => ?_,
      Builtin.Listing.agree_lines _ _ _ _⟩⟩
  · obtain ⟨hproject', hmodel, hitem⟩ := values_of_bindModel hproject m
    exact hasFile_list hlist hproject' hmodel hitem
  · obtain ⟨files, hlist, -⟩ := renders_list hname hbinds hmodel
    exact ⟨files, hlist⟩

def propertiesOfUser : List Property :=
  [⟨"id", some "Int"⟩, ⟨"avatarUrl", none⟩, ⟨"title", none⟩]

def user : Swift.Model where
  name := "User"
  properties := [⟨"id", ⟨"Int"⟩⟩]

theorem rendered_agree_of_user :
    checkName "Login" = .ok () ∧
    Swift.Model.parse? "struct User \x7b\n    let id: Int\n\x7d" = some user ∧
    ∃ c detailFiles listFiles, context "Login" propertiesOfUser configOfShop noon = .ok c ∧
      render Builtin.detail c = .ok detailFiles ∧
      HasFile Builtin.detail c detailFiles "ViewController.swift" "LoginViewController.swift"
        (Builtin.Detail.viewControllerLines "Login" propertiesOfUser) ∧
      Builtin.following "        output."
        (Builtin.Detail.viewControllerLines "Login" propertiesOfUser) =
        ["id", "avatarUrl", "title"] ∧
      render Builtin.list (bindModel c user) = .ok listFiles ∧
      HasFile Builtin.list (bindModel c user) listFiles "{{ model_name }}Cell.swift"
        "UserCell.swift"
        (Builtin.Listing.cellLines "User" "user" (Builtin.Outlet.ofProperties propertiesOfUser)) ∧
      Builtin.block "        didSet \x7b" "        \x7d"
        (Builtin.Listing.cellLines "User" "user" (Builtin.Outlet.ofProperties propertiesOfUser)) =
        ["            guard let user = user else \x7b return \x7d",
          "            avatarUrlImageView.image = nil", "            titleLabel.text = \"\""] := by
  have hname : checkName "Login" = .ok () := by decide +kernel
  have hmodel : Swift.Model.parse? "struct User \x7b\n    let id: Int\n\x7d" = some user := by
    decide +kernel
  have hformat : (Date.Format.parse? configOfShop.dateFormat.toList).isSome := by decide +kernel
  obtain ⟨c, hcontext⟩ := exists_context "Login" propertiesOfUser noon hformat
  obtain ⟨⟨detailFiles, hdetail, -, hcontroller⟩, hagree, hlist⟩ := rendered_agree hcontext
  obtain ⟨hrendered, hrenders, hcell⟩ := hlist user
  obtain ⟨listFiles, hfiles⟩ := hrenders hname _ hmodel
  have hvariable : user.variableName = "user" := by decide +kernel
  rw [hvariable] at hrendered hcell
  refine ⟨hname, hmodel, c, detailFiles, listFiles, hcontext, hdetail, hcontroller,
    hagree.bindings, hfiles, (hrendered listFiles hfiles).1, hcell.clearedOnSet.trans ?_⟩
  decide +kernel

end Scaffold.Kind
