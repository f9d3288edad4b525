import Scaffold.Kind.Builtin.Header

/-!
The texts that the kind `detail` has in place of those of `base`: one outlet and one output for each
property.
-/

namespace Scaffold.Kind.Builtin.Detail

/-- A view model with one output for each property. -/
def viewModel : String :=
  lines [
    "struct {{ name }}ViewModel: ViewModelType \x7b",
    "",
    "    struct Input \x7b",
    "        let loadTrigger: Driver<Void>",
    "    \x7d",
    "",
    "    struct Output \x7b",
    "{% for p in properties %}",
    "        var {{ p.name }} = Driver<String>.empty()",
    "{% endfor %}",
    "    \x7d",
    "",
    "    let navigator: {{ name }}NavigatorType",
    "    let useCase: {{ name }}UseCaseType",
    "",
    "    func transform(_ input: Input) -> Output \x7b",
    "        return Output()",
    "    \x7d",
    "\x7d"]

/-- A table view controller with one outlet for each property. -/
def viewController : String :=
  lines [
    "import UIKit",
    "import Reusable",
    "",
    "final class {{ name }}ViewController: UITableViewController, BindableType \x7b",
    "    ",
    "    // MARK: - IBOutlets",
    "    ",
    "{% for p in properties %}",
    "    @IBOutlet weak var {{ p.name }}Label: UILabel!",
    "{% endfor %}",
    "",
    "    // MARK: - Properties",
    "    ",
    "    var viewModel: {{ name }}ViewModel!",
    "",
    "    // MARK: - Life Cycle",
    "    ",
    "    override func viewDidLoad() \x7b",
    "        super.viewDidLoad()",
    "    \x7d",
    "",
    "    deinit \x7b",
    "        logDeinit()",
    "    \x7d",
    "    ",
    "    // MARK: - Methods",
    "",
    "    func bindViewModel() \x7b",
    "        let input = {{ name }}ViewModel.Input(",
    "            loadTrigger: Driver.just(())",
    "        )",
    "        let output = viewModel.transform(input)",
    "    {% for p in properties %}",
    "        output.{{ p.name }}",
    "            .drive()",
    "            .disposed(by: rx.disposeBag)",
    "    {% endfor %}",
    "    \x7d",
    "\x7d",
    "",
    "// MARK: - StoryboardSceneBased",
    "extension {{ name }}ViewController: StoryboardSceneBased \x7b",
    "    static var sceneStoryboard = UIStoryboard()",
    "\x7d"]

/-- Tests of the view model. -/
def viewModelTests : String :=
  lines [
    "@testable import {{ project }}",
    "import XCTest",
    "import RxSwift",
    "import RxBlocking",
    "import RxCocoa",
    "",
    "final class {{ name }}ViewModelTests: XCTestCase \x7b",
    "",
    "    private var viewModel: {{ name }}ViewModel!",
    "    private var navigator: {{ name }}NavigatorMock!",
    "    private var useCase: {{ name }}UseCaseMock!",
    "    private var disposeBag: DisposeBag!",
    "",
    "    override func setUp() \x7b",
    "        super.setUp()",
    "        navigator = {{ name }}NavigatorMock()",
    "        useCase = {{ name }}UseCaseMock()",
    "        viewModel = {{ name }}ViewModel(navigator: navigator, useCase: useCase)",
    "        disposeBag = DisposeBag()",
    "    \x7d",
    "",
    "    func test_triggerInvoked_() \x7b",
    "        // arrange",
    "        let input = {{ name }}ViewModel.Input(loadTrigger: Driver.just(()))",
    "        let output = viewModel.transform(input)",
    "",
    "        // act",
    "",
    "        // assert",
    "        XCTAssert(true)",
    "    \x7d",
    "\x7d"]

end Scaffold.Kind.Builtin.Detail
