import Scaffold.Kind.Builtin
import Scaffold.Proofs.Kind.Lines

/-!
The generated files that list the properties of a scene, line by line: the view model and the view
controller of `detail`, and the cell of `list` with its tests.
-/

namespace Scaffold.Kind.Builtin

open Template

namespace Detail

/-- The lines of the view model. -/
def viewModelLines (name : String) (properties : List Property) : List String :=
  ["struct " ++ name ++ "ViewModel: ViewModelType \x7b",
    "",
    "    struct Input \x7b",
    "        let loadTrigger: Driver<Void>",
    "    \x7d",
    "",
    "    struct Output \x7b"] ++
  (properties.flatMap (fun p => ["", "        var " ++ p.name ++ " = Driver<String>.empty()"]) ++
  ["",
    "    \x7d",
    "",
    "    let navigator: " ++ name ++ "NavigatorType",
    "    let useCase: " ++ name ++ "UseCaseType",
    "",
    "    func transform(_ input: Input) -> Output \x7b",
    "        return Output()",
    "    \x7d",
    "\x7d"])

/-- The lines of the view controller. -/
def viewControllerLines (name : String) (properties : List Property) : List String :=
  ["import UIKit",
    "import Reusable",
    "",
    "final class " ++ name ++ "ViewController: UITableViewController, BindableType \x7b",
    "    ",
    "    // MARK: - IBOutlets",
    "    "] ++
  (properties.flatMap (fun p => ["", "    @IBOutlet weak var " ++ p.name ++ "Label: UILabel!"]) ++
  (["",
    "",
    "    // MARK: - Properties",
    "    ",
    "    var viewModel: " ++ name ++ "ViewModel!",
    "",
    "    // MARK: - Life Cycle",
    "    ",
    "    override func viewDidLoad() \x7b",
    "        super.viewDidLoad()",
    "    \x7d",
    "",
    "    deinit \x7b",
    "        logDeinit()",
    "    \x7d",
    "    ",
    "    // MARK: - Methods",
    "",
    "    func bindViewModel() \x7b",
    "        let input = " ++ name ++ "ViewModel.Input(",
    "            loadTrigger: Driver.just(())",
    "        )",
    "        let output = viewModel.transform(input)"] ++
  (properties.flatMap (fun p =>
    ["    ",
      "        output." ++ p.name,
      "            .drive()",
      "            .disposed(by: rx.disposeBag)"]) ++
  ["    ",
    "    \x7d",
    "\x7d",
    "",
    "// MARK: - StoryboardSceneBased",
    "extension " ++ name ++ "ViewController: StoryboardSceneBased \x7b",
    "    static var sceneStoryboard = UIStoryboard()",
    "\x7d"])))

variable (c : Context)

theorem gives_outputs : Gives c
    ["{% for p in properties %}", "        var {{ p.name }} = Driver<String>.empty()",
      "{% endfor %}"]
    (c.properties.flatMap
      (fun p => ["", "        var " ++ p.name ++ " = Driver<String>.empty()"]) ++ [""]) := by
  have hbody (p : Property) : expandNodes c [⟨"p", p⟩]
      [.literal "\n        var ", .placeholder ⟨"p", ["name"]⟩ 2,
        .literal " = Driver<String>.empty()\n"] =
      .ok ("\n        var " ++ (p.name ++ " = Driver<String>.empty()\n")) :=
    rfl
  exact .loop "" "" (show c.collection? "properties" = _ from rfl) (.cons (.cons (.cons .nil)))
    (by decide +kernel) hbody
    fun p => String.toList_inj.1 (by simp [lines])

theorem expand_viewModel :
    expand viewModel c = .ok (lines (viewModelLines c.name c.properties)) := by
  have hname : c.scalar? "name" = some c.name := rfl
  unfold viewModel
  change Gives c _ _
  refine .filled hname (by decide +kernel) ?_
  iterate 6 refine .plain (by decide +kernel) ?_
  refine (gives_outputs c).append_concat ?_
  iterate 2 refine .plain (by decide +kernel) ?_
  iterate 2 refine .filled hname (by decide +kernel) ?_
  iterate 5 refine .plain (by decide +kernel) ?_
  exact .nil

theorem gives_labels : Gives c
    ["{% for p in properties %}", "    @IBOutlet weak var {{ p.name }}Label: UILabel!",
      "{% endfor %}"]
    (c.properties.flatMap
      (fun p => ["", "    @IBOutlet weak var " ++ p.name ++ "Label: UILabel!"]) ++ [""]) := by
  have hbody (p : Property) : expandNodes c [⟨"p", p⟩]
      [.literal "\n    @IBOutlet weak var ", .placeholder ⟨"p", ["name"]⟩ 2,
        .literal "Label: UILabel!\n"] =
      .ok ("\n    @IBOutlet weak var " ++ (p.name ++ "Label: UILabel!\n")) :=
    rfl
  exact .loop "" "" (show c.collection? "properties" = _ from rfl) (.cons (.cons (.cons .nil)))
    (by decide +kernel) hbody
    fun p => String.toList_inj.1 (by simp [lines])

theorem gives_bindings : Gives c
    ["    {% for p in properties %}", "        output.{{ p.name }}", "            .drive()",
      "            .disposed(by: rx.disposeBag)", "    {% endfor %}"]
    (c.properties.flatMap
      (fun p => ["    ", "        output." ++ p.name, "            .drive()",
        "            .disposed(by: rx.disposeBag)"]) ++ ["    "]) := by
  have hbody (p : Property) : expandNodes c [⟨"p", p⟩]
      [.literal "\n        output.", .placeholder ⟨"p", ["name"]⟩ 2,
        .literal "\n            .drive()\n            .disposed(by: rx.disposeBag)\n    "] =
      .ok ("\n        output." ++ (p.name ++
        "\n            .drive()\n            .disposed(by: rx.disposeBag)\n    ")) :=
    rfl
  exact .loop "    " "" (show c.collection? "properties" = _ from rfl)
    (.cons (.cons (.cons (.cons (.cons .nil))))) (by decide +kernel) hbody
    fun p => String.toList_inj.1 (by simp [lines])

theorem expand_viewController :
    expand viewController c = .ok (lines (viewControllerLines c.name c.properties)) := by
  have hname : c.scalar? "name" = some c.name := rfl
  unfold viewController
  change Gives c _ _
  iterate 3 refine .plain (by decide +kernel) ?_
  refine .filled hname (by decide +kernel) ?_
  iterate 3 refine .plain (by decide +kernel) ?_
  refine (gives_labels c).append_concat ?_
  iterate 3 refine .plain (by decide +kernel) ?_
  refine .filled hname (by decide +kernel) ?_
  iterate 14 refine .plain (by decide +kernel) ?_
  refine .filled hname (by decide +kernel) ?_
  iterate 3 refine .plain (by decide +kernel) ?_
  refine (gives_bindings c).append_concat ?_
  iterate 4 refine .plain (by decide +kernel) ?_
  refine .filled hname (by decide +kernel) ?_
  iterate 2 refine .plain (by decide +kernel) ?_
  exact .nil

end Detail

/-- An outlet of a cell, with the assignment that clears it. -/
structure Outlet where
  name : String
  type : String
  reset : String
  deriving DecidableEq, Repr

namespace Outlet

/-- An image view for a property that is shown as an image, and a label for any other. -/
def ofProperty (p : Property) : Outlet :=
  if p.showsImage then ⟨p.name ++ "ImageView", "UIImageView", "image = nil"⟩
  else ⟨p.name ++ "Label", "UILabel", "text = \"\""⟩

theorem ofProperty_eq (p : Property) : ofProperty p =
    ⟨p.name ++ (if p.showsImage then "ImageView" else "Label"),
      if p.showsImage then "UIImageView" else "UILabel",
      if p.showsImage then "image = nil" else "text = \"\""⟩ := by
  rw [ofProperty]
  cases p.showsImage <;> rfl

/-- The outlets of a cell: one for each property that does not identify the item. -/
def ofProperties (properties : List Property) : List Outlet :=
  (properties.filter (·.name ≠ "id")).map ofProperty

end Outlet

namespace Listing

/-- The lines of the cell. -/
def cellLines (model item : String) (outlets : List Outlet) : List String :=
  ["import UIKit",
    "",
    "final class " ++ model ++ "Cell: UITableViewCell, NibReusable \x7b"] ++
  (outlets.map (fun o => "    @IBOutlet weak var " ++ o.name ++ ": " ++ o.type ++ "!") ++
  (["",
    "    var " ++ item ++ ": " ++ model ++ "? \x7b",
    "        didSet \x7b",
    "            guard let " ++ item ++ " = " ++ item ++ " else \x7b return \x7d"] ++
  (outlets.map (fun o => "            " ++ o.name ++ "." ++ o.reset) ++
  (["        \x7d",
    "    \x7d",
    "",
    "    override func awakeFromNib() \x7b",
    "        super.awakeFromNib()",
    "    \x7d",
    "",
    "    override func prepareForReuse() \x7b",
    "        super.prepareForReuse()"] ++
  (outlets.map (fun o => "        " ++ o.name ++ "." ++ o.reset) ++
  ["    \x7d",
    "\x7d"])))))

/-- The lines of the tests of the cell. -/
def cellTestsLines (project model : String) (outlets : List Outlet) : List String :=
  ["import XCTest",
    "@testable import " ++ project,
    "",
    "final class " ++ model ++ "CellTests: XCTestCase \x7b",
    "    var cell: " ++ model ++ "Cell!",
    "",
    "    override func setUp() \x7b",
    "        super.setUp()",
    "//        cell = " ++ model ++ "Cell.loadFromNib()",
    "    \x7d",
    "",
    "    func test_iboutlets() \x7b",
    "//        XCTAssertNotNil(cell)"] ++
  (outlets.map (fun o => "//        XCTAssertNotNil(cell." ++ o.name ++ ")") ++
  ["    \x7d",
    "\x7d"])

variable {c : Context}

/-- A loop over the displayed properties writes a line for each of their outlets. -/
theorem gives_each {first second : List Char} {body : List Node} {text : Property → String}
    (line : Outlet → String) (last : String)
    (hread : IsReadAs (first ++ '\n' :: (second ++ ['\n']))
      [.loop "p" "display_properties" body 1, .literal (last ++ "\n")])
    (hbody : ∀ p, expandNodes c [⟨"p", p⟩] body = .ok (text p))
    (htext : ∀ p, text p = line (Outlet.ofProperty p) ++ "\n") :
    Gives c [String.ofList first, String.ofList second]
      ((Outlet.ofProperties c.properties).map line ++ [last]) := by
  have hloop : Gives c [String.ofList first, String.ofList second]
      ((c.properties.filter Property.isDisplayed).flatMap
        (fun p => [line (Outlet.ofProperty p)]) ++ ["" ++ last]) :=
    .loop "" last rfl (.cons (.cons .nil)) hread hbody fun p => by simp [lines, htext]
  rw [String.empty_append, ← List.map_eq_flatMap] at hloop
  rwa [Outlet.ofProperties, List.map_map]

theorem resolve?_fields (c : Context) (p : Property) :
    c.resolve? [⟨"p", p⟩] ⟨"p", ["name"]⟩ = some p.name ∧
    c.resolve? [⟨"p", p⟩] ⟨"p", ["outlet"]⟩ =
      some (if p.showsImage then "ImageView" else "Label") ∧
    c.resolve? [⟨"p", p⟩] ⟨"p", ["outlet_type"]⟩ =
      some (if p.showsImage then "UIImageView" else "UILabel") ∧
    c.resolve? [⟨"p", p⟩] ⟨"p", ["reset"]⟩ =
      some (if p.showsImage then "image = nil" else "text = \"\"") :=
  ⟨rfl, rfl, rfl, rfl⟩

theorem gives_declarations : Gives c
    ["{% for p in display_properties %}    @IBOutlet weak var {{ p.name }}{{ p.outlet }}: {{ p.outlet_type }}!",
      "{% endfor %}"]
    ((Outlet.ofProperties c.properties).map
      (fun o => "    @IBOutlet weak var " ++ o.name ++ ": " ++ o.type ++ "!") ++ [""]) := by
  have hbody (p : Property) : expandNodes c [⟨"p", p⟩]
      [.literal "    @IBOutlet weak var ", .placeholder ⟨"p", ["name"]⟩ 1,
        .placeholder ⟨"p", ["outlet"]⟩ 1, .literal ": ", .placeholder ⟨"p", ["outlet_type"]⟩ 1,
        .literal "!\n"] =
      .ok ("    @IBOutlet weak var " ++ (p.name ++
        ((if p.showsImage then "ImageView" else "Label") ++ (": " ++
          ((if p.showsImage then "UIImageView" else "UILabel") ++ "!\n"))))) := by
    simp only [expandNodes_cons, expandNodes_nil, Node.expand, resolve?_fields, joined_ok_ok,
      String.append_empty]
  refine gives_each _ "" (by decide +kernel) hbody fun p => ?_
  rw [Outlet.ofProperty_eq]
  simp only [String.append_assoc]
  rfl

/-- An outlet is cleared in a line with this indentation. -/
theorem gives_clearings {first second : List Char} (indent last : String)
    (hread : IsReadAs (first ++ '\n' :: (second ++ ['\n']))
      [.loop "p" "display_properties" [.literal indent, .placeholder ⟨"p", ["name"]⟩ 1,
        .placeholder ⟨"p", ["outlet"]⟩ 1, .literal ".", .placeholder ⟨"p", ["reset"]⟩ 1,
        .literal "\n"] 1, .literal (last ++ "\n")]) :
    Gives c [String.ofList first, String.ofList second] ((Outlet.ofProperties c.properties).map
      (fun o => indent ++ o.name ++ "." ++ o.reset) ++ [last]) := by
  have hbody (p : Property) : expandNodes c [⟨"p", p⟩]
      [.literal indent, .placeholder ⟨"p", ["name"]⟩ 1, .placeholder ⟨"p", ["outlet"]⟩ 1,
        .literal ".", .placeholder ⟨"p", ["reset"]⟩ 1, .literal "\n"] =
      .ok (indent ++ (p.name ++ ((if p.showsImage then "ImageView" else "Label") ++ ("." ++
        ((if p.showsImage then "image = nil" else "text = \"\"") ++ "\n"))))) := by
    simp only [expandNodes_cons, expandNodes_nil, Node.expand, resolve?_fields, joined_ok_ok,
      String.append_empty]
  refine gives_each _ last hread hbody fun p => ?_
  rw [Outlet.ofProperty_eq]
  simp only [String.append_assoc]

theorem gives_checks : Gives c
    ["{% for p in display_properties %}//        XCTAssertNotNil(cell.{{ p.name }}{{ p.outlet }})",
      "{% endfor %}    \x7d"]
    ((Outlet.ofProperties c.properties).map
      (fun o => "//        XCTAssertNotNil(cell." ++ o.name ++ ")") ++ ["    \x7d"]) := by
  have hbody (p : Property) : expandNodes c [⟨"p", p⟩]
      [.literal "//        XCTAssertNotNil(cell.", .placeholder ⟨"p", ["name"]⟩ 1,
        .placeholder ⟨"p", ["outlet"]⟩ 1, .literal ")\n"] =
      .ok ("//        XCTAssertNotNil(cell." ++ (p.name ++
        ((if p.showsImage then "ImageView" else "Label") ++ ")\n"))) := by
    simp only [expandNodes_cons, expandNodes_nil, Node.expand, resolve?_fields, joined_ok_ok,
      String.append_empty]
  refine gives_each _ "    \x7d" (by decide +kernel) hbody fun p => ?_
  rw [Outlet.ofProperty_eq]
  simp only [String.append_assoc]
  rfl

theorem expand_cell {model item : String} (hmodel : c.scalar? "model_name" = some model)
    (hitem : c.scalar? "model_variable" = some item) :
    expand cell c = .ok (lines (cellLines model item (Outlet.ofProperties c.properties))) := by
  have hset : Gives c
      ["{% for p in display_properties %}            {{ p.name }}{{ p.outlet }}.{{ p.reset }}",
        "{% endfor %}        \x7d"] _ :=
    gives_clearings "            " "        \x7d" (by decide +kernel)
  have hreuse : Gives c
      ["{% for p in display_properties %}        {{ p.name }}{{ p.outlet }}.{{ p.reset }}",
        "{% endfor %}    \x7d"] _ :=
    gives_clearings "        " "    \x7d" (by decide +kernel)
  unfold cell
  change Gives c _ _
  iterate 2 refine .plain (by decide +kernel) ?_
  refine .filled hmodel (by decide +kernel) ?_
  refine gives_declarations.append_concat ?_
  refine .filled₂ hitem hmodel (by decide +kernel) ?_
  refine .plain (by decide +kernel) ?_
  refine .filled₂ hitem hitem (by decide +kernel) ?_
  refine hset.append_concat ?_
  iterate 8 refine .plain (by decide +kernel) ?_
  refine hreuse.append_concat ?_
  refine .plain (by decide +kernel) ?_
  exact .nil

theorem expand_cellTests {project model : String} (hproject : c.scalar? "project" = some project)
    (hmodel : c.scalar? "model_name" = some model) :
    expand cellTests c =
      .ok (lines (cellTestsLines project model (Outlet.ofProperties c.properties))) := by
  have himport : expandNodes c [] [.literal "@testable import ", .placeholder ⟨"project", []⟩ 1] =
      .ok ("@testable import " ++ project) := by
    have hresolve : c.resolve? [] ⟨"project", []⟩ = some project := hproject
    simp only [expandNodes_cons, expandNodes_nil, Node.expand, hresolve, joined_ok_ok,
      String.append_empty]
  unfold cellTests
  change Gives c _ _
  refine .plain (by decide +kernel) ?_
  refine .read (by decide +kernel) himport ?_
  refine .plain (by decide +kernel) ?_
  iterate 2 refine .filled hmodel (by decide +kernel) ?_
  iterate 3 refine .plain (by decide +kernel) ?_
  refine .filled hmodel (by decide +kernel) ?_
  iterate 4 refine .plain (by decide +kernel) ?_
  refine gives_checks.append_concat ?_
  refine .plain (by decide +kernel) ?_
  exact .nil

end Listing

end Scaffold.Kind.Builtin
