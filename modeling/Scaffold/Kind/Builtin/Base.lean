import Scaffold.Kind.Builtin.Header

/-!
The texts of the kind `base`: a view model, a navigator and a use case around a view controller, and
their tests.
-/

namespace Scaffold.Kind.Builtin.Base

/-- A view model without input and output. -/
def viewModel : String :=
  lines [
    "struct {{ name }}ViewModel: ViewModelType \x7b",
    "",
    "    struct Input \x7b",
    "",
    "    \x7d",
    "",
    "    struct Output \x7b",
    "",
    "    \x7d",
    "",
    "    let navigator: {{ name }}NavigatorType",
    "    let useCase: {{ name }}UseCaseType",
    "",
    "    func transform(_ input: Input) -> Output \x7b",
    "        return Output()",
    "    \x7d",
    "\x7d"]

/-- A navigator and its protocol. -/
def navigator : String :=
  lines [
    "protocol {{ name }}NavigatorType \x7b",
    "",
    "\x7d",
    "",
    "struct {{ name }}Navigator: {{ name }}NavigatorType \x7b",
    "",
    "\x7d"]

/-- The protocol of the use case. -/
def useCaseType : String :=
  lines [
    "protocol {{ name }}UseCaseType \x7b",
    "",
    "\x7d",
    ""]

/-- The use case. -/
def useCase : String :=
  lines [
    "struct {{ name }}UseCase: {{ name }}UseCaseType \x7b",
    "",
    "\x7d"]

/-- A view controller bound to the view model. -/
def viewController : String :=
  lines [
    "import UIKit",
    "import Reusable",
    "",
    "final class {{ name }}ViewController: UIViewController, BindableType \x7b",
    "",
    "    var viewModel: {{ name }}ViewModel!",
    "",
    "    override func viewDidLoad() \x7b",
    "        super.viewDidLoad()",
    "    \x7d",
    "",
    "    deinit \x7b",
    "        logDeinit()",
    "    \x7d",
    "",
    "    func bindViewModel() \x7b",
    "        let input = {{ name }}ViewModel.Input()",
    "        let output = viewModel.transform(input)",
    "    \x7d",
    "",
    "\x7d",
    "",
    "// MARK: - StoryboardSceneBased",
    "extension {{ name }}ViewController: StoryboardSceneBased \x7b",
    "    static var sceneStoryboard = UIStoryboard()",
    "\x7d"]

/-- Tests of the view model. -/
def viewModelTests : String :=
  lines [
    "@testable import {{ project }}",
    "import XCTest",
    "import RxSwift",
    "import RxBlocking",
    "",
    "final class {{ name }}ViewModelTests: XCTestCase \x7b",
    "",
    "    private var viewModel: {{ name }}ViewModel!",
    "    private var navigator: {{ name }}NavigatorMock!",
    "    private var useCase: {{ name }}UseCaseMock!",
    "    private var disposeBag: DisposeBag!",
    "",
    "    override func setUp() \x7b",
    "        super.setUp()",
    "        navigator = {{ name }}NavigatorMock()",
    "        useCase = {{ name }}UseCaseMock()",
    "        viewModel = {{ name }}ViewModel(navigator: navigator, useCase: useCase)",
    "        disposeBag = DisposeBag()",
    "    \x7d",
    "",
    "    func test_triggerInvoked_() \x7b",
    "        // arrange",
    "        let input = {{ name }}ViewModel.Input()",
    "        let output = viewModel.transform(input)",
    "",
    "        // act",
    "",
    "        // assert",
    "        XCTAssert(true)",
    "    \x7d",
    "\x7d"]

/-- A use case for tests. -/
def useCaseMock : String :=
  lines [
    "@testable import {{ project }}",
    "import RxSwift",
    "",
    "final class {{ name }}UseCaseMock: {{ name }}UseCaseType \x7b",
    "",
    "\x7d"]

/-- A navigator for tests. -/
def navigatorMock : String :=
  lines [
    "@testable import {{ project }}",
    "",
    "final class {{ name }}NavigatorMock: {{ name }}NavigatorType \x7b",
    "",
    "\x7d"]

/-- Tests of the view controller. -/
def viewControllerTests : String :=
  lines [
    "@testable import {{ project }}",
    "import XCTest",
    "import Reusable",
    "",
    "final class {{ name }}ViewControllerTests: XCTestCase \x7b",
    "",
    "    var viewController: {{ name }}ViewController!",
    "",
    "    override func setUp() \x7b",
    "        super.setUp()",
    "        viewController = {{ name }}ViewController.instantiate()",
    "    \x7d",
    "",
    "    func test_ibOutlets() \x7b",
    "        _ = viewController.view",
    "        XCTAssert(true)",
    "//      XCTAssertNotNil(viewController.tableView)",
    "    \x7d",
    "\x7d"]

end Scaffold.Kind.Builtin.Base
