import Scaffold.Kind.Builtin.Header

/-!
The texts of the kind `list`: pages of a model in a table view, with one cell for each item.
-/

namespace Scaffold.Kind.Builtin.Listing

/-- A view model that loads the items page by page. -/
def viewModel : String :=
  lines [
    "struct {{ name }}ViewModel: ViewModelType \x7b",
    "    struct Input \x7b",
    "        let loadTrigger: Driver<Void>",
    "        let reloadTrigger: Driver<Void>",
    "        let loadMoreTrigger: Driver<Void>",
    "        let select{{ model_name }}Trigger: Driver<IndexPath>",
    "    \x7d",
    "",
    "    struct Output \x7b",
    "        let error: Driver<Error>",
    "        let loading: Driver<Bool>",
    "        let refreshing: Driver<Bool>",
    "        let loadingMore: Driver<Bool>",
    "        let fetchItems: Driver<Void>",
    "        let {{ model_variable }}List: Driver<[{{ model_name }}]>",
    "        let selected{{ model_name }}: Driver<Void>",
    "        let isEmptyData: Driver<Bool>",
    "    \x7d",
    "",
    "    let navigator: {{ name }}NavigatorType",
    "    let useCase: {{ name }}UseCaseType",
    "",
    "    func transform(_ input: Input) -> Output \x7b",
    "        let loadMoreOutput = setupLoadMorePaging(",
    "            loadTrigger: input.loadTrigger,",
    "            getItems: useCase.get{{ model_name }}List,",
    "            refreshTrigger: input.reloadTrigger,",
    "            refreshItems: useCase.get{{ model_name }}List,",
    "            loadmoreTrigger: input.loadMoreTrigger,",
    "            loadmoreItems: useCase.loadMore{{ model_name }}List)",
    "        let (page, fetchItems, loadError, loading, refreshing, loadingMore) = loadMoreOutput",
    "",
    "        let {{ model_variable }}List = page",
    "            .map \x7b $0.items.map \x7b $0 \x7d \x7d",
    "            .asDriverOnErrorJustComplete()",
    "",
    "        let selected{{ model_name }} = input.select{{ model_name }}Trigger",
    "            .withLatestFrom({{ model_variable }}List) \x7b",
    "                return ($0, $1)",
    "            \x7d",
    "            .map \x7b indexPath, {{ model_variable }}List in",
    "                return {{ model_variable }}List[indexPath.row]",
    "            \x7d",
    "            .do(onNext: \x7b {{ model_variable }} in",
    "                self.navigator.to{{ model_name }}Detail({{ model_variable }}: {{ model_variable }})",
    "            \x7d)",
    "            .mapToVoid()",
    "",
    "        let isEmptyData = Driver.combineLatest({{ model_variable }}List, loading)",
    "            .filter \x7b !$0.1 \x7d",
    "            .map \x7b $0.0.isEmpty \x7d",
    "",
    "        return Output(",
    "            error: loadError,",
    "            loading: loading,",
    "            refreshing: refreshing,",
    "            loadingMore: loadingMore,",
    "            fetchItems: fetchItems,",
    "            {{ model_variable }}List: {{ model_variable }}List,",
    "            selected{{ model_name }}: selected{{ model_name }},",
    "            isEmptyData: isEmptyData",
    "        )",
    "    \x7d",
    "\x7d"]

/-- A navigator to the list and to the details of an item. -/
def navigator : String :=
  lines [
    "protocol {{ name }}NavigatorType \x7b",
    "    func to{{ name }}()",
    "    func to{{ model_name }}Detail({{ model_variable }}: {{ model_name }})",
    "\x7d",
    "",
    "struct {{ name }}Navigator: {{ name }}NavigatorType \x7b",
    "    unowned let navigationController: UINavigationController",
    "    let useCaseProvider: UseCaseProviderType",
    "",
    "    func to{{ name }}() \x7b",
    "//        let vc = {{ name }}ViewController.instantiate()",
    "//        let vm = {{ name }}ViewModel(navigator: self, useCase: useCaseProvider.make{{ name }}UseCase())",
    "//        vc.bindViewModel(to: vm)",
    "//        navigationController.pushViewController(vc, animated: true)",
    "    \x7d",
    "",
    "    func to{{ model_name }}Detail({{ model_variable }}: {{ model_name }}) \x7b",
    "",
    "    \x7d",
    "\x7d"]

/-- The protocol of the use case. -/
def useCaseType : String :=
  lines [
    "protocol {{ name }}UseCaseType \x7b",
    "    func get{{ model_name }}List() -> Observable<PagingInfo<{{ model_name }}>>",
    "    func loadMore{{ model_name }}List(page: Int) -> Observable<PagingInfo<{{ model_name }}>>",
    "\x7d"]

/-- The use case. -/
def useCase : String :=
  lines [
    "struct {{ name }}UseCase: {{ name }}UseCaseType \x7b",
    "    func get{{ model_name }}List() -> Observable<PagingInfo<{{ model_name }}>> \x7b",
    "        return loadMore{{ model_name }}List(page: 1)",
    "    \x7d",
    "",
    "    func loadMore{{ model_name }}List(page: Int) -> Observable<PagingInfo<{{ model_name }}>> \x7b",
    "        return Observable.empty()",
    "    \x7d",
    "\x7d"]

/-- A view controller with a table of the items. -/
def viewController : String :=
  lines [
    "import UIKit",
    "import Reusable",
    "",
    "final class {{ name }}ViewController: UIViewController, BindableType \x7b",
    "    @IBOutlet weak var tableView: LoadMoreTableView!",
    "    var viewModel: {{ name }}ViewModel!",
    "",
    "    override func viewDidLoad() \x7b",
    "        super.viewDidLoad()",
    "        configView()",
    "    \x7d",
    "",
    "    private func configView() \x7b",
    "        tableView.do \x7b",
    "            $0.loadMoreDelegate = self",
    "            $0.estimatedRowHeight = 550",
    "            $0.rowHeight = UITableViewAutomaticDimension",
    "            $0.register(cellType: {{ model_name }}Cell.self)",
    "            $0.fixContentInset()",
    "        \x7d",
    "    \x7d",
    "",
    "    override func viewDidLayoutSubviews() \x7b",
    "        super.viewDidLayoutSubviews()",
    "        tableView.fixFooterFrame()",
    "    \x7d",
    "",
    "    deinit \x7b",
    "        logDeinit()",
    "    \x7d",
    "",
    "    func bindViewModel() \x7b",
    "        let input = {{ name }}ViewModel.Input(",
    "            loadTrigger: Driver.just(()),",
    "            reloadTrigger: tableView.refreshTrigger,",
    "            loadMoreTrigger: tableView.loadmoreTrigger,",
    "            select{{ model_name }}Trigger: tableView.rx.itemSelected.asDriver()",
    "        )",
    "        let output = viewModel.transform(input)",
    "        output.{{ model_variable }}List",
    "            .drive(tableView.rx.items) \x7b tableView, index, {{ model_variable }} in",
    "                return tableView.dequeueReusableCell(",
    "                    for: IndexPath(row: index, section: 0),",
    "                    cellType: {{ model_name }}Cell.self)",
    "                    .then \x7b",
    "                        $0.{{ model_variable }} = {{ model_variable }}",
    "                    \x7d",
    "            \x7d",
    "            .disposed(by: rx.disposeBag)",
    "        output.error",
    "            .drive(rx.error)",
    "            .disposed(by: rx.disposeBag)",
    "        output.loading",
    "            .drive(rx.isLoading)",
    "            .disposed(by: rx.disposeBag)",
    "        output.refreshing",
    "            .drive(tableView.refreshing)",
    "            .disposed(by: rx.disposeBag)",
    "        output.loadingMore",
    "            .drive(tableView.loadingMore)",
    "            .disposed(by: rx.disposeBag)",
    "        output.fetchItems",
    "            .drive()",
    "            .disposed(by: rx.disposeBag)",
    "        output.selected{{ model_name }}",
    "            .drive()",
    "            .disposed(by: rx.disposeBag)",
    "        output.isEmptyData",
    "            .drive()",
    "            .disposed(by: rx.disposeBag)",
    "    \x7d",
    "",
    "\x7d",
    "",
    "// MARK: - UITableViewDelegate",
    "extension {{ name }}ViewController: UITableViewDelegate \x7b",
    "    func tableView(_ tableView: UITableView, didSelectRowAt indexPath: IndexPath) \x7b",
    "        tableView.deselectRow(at: indexPath, animated: true)",
    "    \x7d",
    "\x7d",
    "",
    "// MARK: - StoryboardSceneBased",
    "extension {{ name }}ViewController: StoryboardSceneBased \x7b",
    "    static var sceneStoryboard = UIStoryboard()",
    "\x7d"]

/-- A cell with one outlet for each displayed property. -/
def cell : String :=
  lines [
    "import UIKit",
    "",
    "final class {{ model_name }}Cell: UITableViewCell, NibReusable \x7b",
    "{% for p in display_properties %}    @IBOutlet weak var {{ p.name }}{{ p.outlet }}: {{ p.outlet_type }}!",
    "{% endfor %}",
    "    var {{ model_variable }}: {{ model_name }}? \x7b",
    "        didSet \x7b",
    "            guard let {{ model_variable }} = {{ model_variable }} else \x7b return \x7d",
    "{% for p in display_properties %}            {{ p.name }}{{ p.outlet }}.{{ p.reset }}",
    "{% endfor %}        \x7d",
    "    \x7d",
    "",
    "    override func awakeFromNib() \x7b",
    "        super.awakeFromNib()",
    "    \x7d",
    "",
    "    override func prepareForReuse() \x7b",
    "        super.prepareForReuse()",
    "{% for p in display_properties %}        {{ p.name }}{{ p.outlet }}.{{ p.reset }}",
    "{% endfor %}    \x7d",
    "\x7d"]

/-- Tests of the view model. -/
def viewModelTests : String :=
  lines [
    "@testable import {{ project }}",
    "import XCTest",
    "import RxSwift",
    "import RxBlocking",
    "",
    "final class {{ name }}ViewModelTests: XCTestCase \x7b",
    "    private var viewModel: {{ name }}ViewModel!",
    "    private var navigator: {{ name }}NavigatorMock!",
    "    private var useCase: {{ name }}UseCaseMock!",
    "    private var disposeBag: DisposeBag!",
    "    private var input: {{ name }}ViewModel.Input!",
    "    private var output: {{ name }}ViewModel.Output!",
    "    private var loadTrigger = PublishSubject<Void>()",
    "    private var reloadTrigger = PublishSubject<Void>()",
    "    private var loadMoreTrigger = PublishSubject<Void>()",
    "    private var select{{ model_name }}Trigger = PublishSubject<IndexPath>()",
    "",
    "    override func setUp() \x7b",
    "        super.setUp()",
    "        navigator = {{ name }}NavigatorMock()",
    "        useCase = {{ name }}UseCaseMock()",
    "        viewModel = {{ name }}ViewModel(navigator: navigator, useCase: useCase)",
    "        disposeBag = DisposeBag()",
    "        input = {{ name }}ViewModel.Input(",
    "            loadTrigger: loadTrigger.asDriverOnErrorJustComplete(),",
    "            reloadTrigger: reloadTrigger.asDriverOnErrorJustComplete(),",
    "            loadMoreTrigger: loadMoreTrigger.asDriverOnErrorJustComplete(),",
    "            select{{ model_name }}Trigger: select{{ model_name }}Trigger.asDriverOnErrorJustComplete()",
    "        )",
    "        output = viewModel.transform(input)",
    "        output.error.drive().disposed(by: disposeBag)",
    "        output.loading.drive().disposed(by: disposeBag)",
    "        output.refreshing.drive().disposed(by: disposeBag)",
    "        output.loadingMore.drive().disposed(by: disposeBag)",
    "        output.fetchItems.drive().disposed(by: disposeBag)",
    "        output.{{ model_variable }}List.drive().disposed(by: disposeBag)",
    "        output.selected{{ model_name }}.drive().disposed(by: disposeBag)",
    "        output.isEmptyData.drive().disposed(by: disposeBag)",
    "    \x7d",
    "",
    "    func test_loadTriggerInvoked_get{{ model_name }}List() \x7b",
    "        // act",
    "        loadTrigger.onNext(())",
    "        let {{ model_variable }}List = try? output.{{ model_variable }}List.toBlocking(timeout: 1).first()",
    "",
    "        // assert",
    "        XCTAssert(useCase.get{{ model_name }}List_Called)",
    "        XCTAssertEqual({{ model_variable }}List??.count, 1)",
    "    \x7d",
    "",
    "    func test_loadTriggerInvoked_get{{ model_name }}List_failedShowError() \x7b",
    "        // arrange",
    "        let get{{ model_name }}List_ReturnValue = PublishSubject<PagingInfo<{{ model_name }}>>()",
    "        useCase.get{{ model_name }}List_ReturnValue = get{{ model_name }}List_ReturnValue",
    "",
    "        // act",
    "        loadTrigger.onNext(())",
    "        get{{ model_name }}List_ReturnValue.onError(TestError())",
    "        let error = try? output.error.toBlocking(timeout: 1).first()",
    "",
    "        // assert",
    "        XCTAssert(useCase.get{{ model_name }}List_Called)",
    "        XCTAssert(error is TestError)",
    "    \x7d",
    "",
    "    func test_reloadTriggerInvoked_get{{ model_name }}List() \x7b",
    "        // act",
    "        reloadTrigger.onNext(())",
    "        let {{ model_variable }}List = try? output.{{ model_variable }}List.toBlocking(timeout: 1).first()",
    "",
    "        // assert",
    "        XCTAssert(useCase.get{{ model_name }}List_Called)",
    "        XCTAssertEqual({{ model_variable }}List??.count, 1)",
    "    \x7d",
    "",
    "    func test_reloadTriggerInvoked_get{{ model_name }}List_failedShowError() \x7b",
    "        // arrange",
    "        let get{{ model_name }}List_ReturnValue = PublishSubject<PagingInfo<{{ model_name }}>>()",
    "        useCase.get{{ model_name }}List_ReturnValue = get{{ model_name }}List_ReturnValue",
    "",
    "        // act",
    "        reloadTrigger.onNext(())",
    "        get{{ model_name }}List_ReturnValue.onError(TestError())",
    "        let error = try? output.error.toBlocking(timeout: 1).first()",
    "",
    "        // assert",
    "        XCTAssert(useCase.get{{ model_name }}List_Called)",
    "        XCTAssert(error is TestError)",
    "    \x7d",
    "",
    "    func test_reloadTriggerInvoked_notGet{{ model_name }}ListIfStillLoading() \x7b",
    "        // arrange",
    "        let get{{ model_name }}List_ReturnValue = PublishSubject<PagingInfo<{{ model_name }}>>()",
    "        useCase.get{{ model_name }}List_ReturnValue = get{{ model_name }}List_ReturnValue",
    "",
    "        // act",
    "        loadTrigger.onNext(())",
    "        useCase.get{{ model_name }}List_Called = false",
    "        reloadTrigger.onNext(())",
    "",
    "        // assert",
    "        XCTAssertFalse(useCase.get{{ model_name }}List_Called)",
    "    \x7d",
    "",
    "    func test_reloadTriggerInvoked_notGet{{ model_name }}ListIfStillReloading() \x7b",
    "        // arrange",
    "        let get{{ model_name }}List_ReturnValue = PublishSubject<PagingInfo<{{ model_name }}>>()",
    "        useCase.get{{ model_name }}List_ReturnValue = get{{ model_name }}List_ReturnValue",
    "",
    "        // act",
    "        reloadTrigger.onNext(())",
    "        useCase.get{{ model_name }}List_Called = false",
    "        reloadTrigger.onNext(())",
    "",
    "        // assert",
    "        XCTAssertFalse(useCase.get{{ model_name }}List_Called)",
    "    \x7d",
    "",
    "    func test_loadMoreTriggerInvoked_loadMore{{ model_name }}List() \x7b",
    "        // act",
    "        loadTrigger.onNext(())",
    "        loadMoreTrigger.onNext(())",
    "        let {{ model_variable }}List = try? output.{{ model_variable }}List.toBlocking(timeout: 1).first()",
    "",
    "        // assert",
    "        XCTAssert(useCase.loadMore{{ model_name }}List_Called)",
    "        XCTAssertEqual({{ model_variable }}List??.count, 2)",
    "    \x7d",
    "",
    "    func test_loadMoreTriggerInvoked_loadMore{{ model_name }}List_failedShowError() \x7b",
    "        // arrange",
    "        let loadMore{{ model_name }}List_ReturnValue = PublishSubject<PagingInfo<{{ model_name }}>>()",
    "        useCase.loadMore{{ model_name }}List_ReturnValue = loadMore{{ model_name }}List_ReturnValue",
    "",
    "        // act",
    "        loadTrigger.onNext(())",
    "        loadMoreTrigger.onNext(())",
    "        loadMore{{ model_name }}List_ReturnValue.onError(TestError())",
    "        let error = try? output.error.toBlocking(timeout: 1).first()",
    "",
    "        // assert",
    "        XCTAssert(useCase.loadMore{{ model_name }}List_Called)",
    "        XCTAssert(error is TestError)",
    "    \x7d",
    "",
    "    func test_loadMoreTriggerInvoked_notLoadMore{{ model_name }}ListIfStillLoading() \x7b",
    "        // arrange",
    "        let get{{ model_name }}List_ReturnValue = PublishSubject<PagingInfo<{{ model_name }}>>()",
    "        useCase.get{{ model_name }}List_ReturnValue = get{{ model_name }}List_ReturnValue",
    "",
    "        // act",
    "        loadTrigger.onNext(())",
    "        useCase.get{{ model_name }}List_Called = false",
    "        loadMoreTrigger.onNext(())",
    "",
    "        // assert",
    "        XCTAssertFalse(useCase.loadMore{{ model_name }}List_Called)",
    "    \x7d",
    "",
    "    func test_loadMoreTriggerInvoked_notLoadMore{{ model_name }}ListIfStillReloading() \x7b",
    "        // arrange",
    "        let get{{ model_name }}List_ReturnValue = PublishSubject<PagingInfo<{{ model_name }}>>()",
    "        useCase.get{{ model_name }}List_ReturnValue = get{{ model_name }}List_ReturnValue",
    "",
    "        // act",
    "        reloadTrigger.onNext(())",
    "        useCase.get{{ model_name }}List_Called = false",
    "        loadMoreTrigger.onNext(())",
    "",
    "        // assert",
    "        XCTAssertFalse(useCase.loadMore{{ model_name }}List_Called)",
    "    \x7d",
    "",
    "    func test_loadMoreTriggerInvoked_notLoadMore{{ model_name }}ListIfStillLoadingMore() \x7b",
    "        // arrange",
    "        let loadMore{{ model_name }}List_ReturnValue = PublishSubject<PagingInfo<{{ model_name }}>>()",
    "        useCase.loadMore{{ model_name }}List_ReturnValue = loadMore{{ model_name }}List_ReturnValue",
    "",
    "        // act",
    "        loadMoreTrigger.onNext(())",
    "        useCase.loadMore{{ model_name }}List_Called = false",
    "        loadMoreTrigger.onNext(())",
    "",
    "        // assert",
    "        XCTAssertFalse(useCase.loadMore{{ model_name }}List_Called)",
    "    \x7d",
    "",
    "    func test_select{{ model_name }}TriggerInvoked_to{{ model_name }}Detail() \x7b",
    "        // act",
    "        loadTrigger.onNext(())",
    "        select{{ model_name }}Trigger.onNext(IndexPath(row: 0, section: 0))",
    "",
    "        // assert",
    "        XCTAssert(navigator.to{{ model_name }}Detail_Called)",
    "    \x7d",
    "\x7d"]

/-- A use case for tests. -/
def useCaseMock : String :=
  lines [
    "@testable import {{ project }}",
    "import RxSwift",
    "",
    "final class {{ name }}UseCaseMock: {{ name }}UseCaseType \x7b",
    "",
    "    // MARK: - get{{ model_name }}List",
    "    var get{{ model_name }}List_Called = false",
    "    var get{{ model_name }}List_ReturnValue: Observable<PagingInfo<{{ model_name }}>> = \x7b",
    "        let items = [",
    "            {{ model_name }}(builder: {{ model_name }}Builder().then \x7b",
    "                $0.id = 1",
    "            \x7d)",
    "        ]",
    "        let page = PagingInfo<{{ model_name }}>(page: 1, items: OrderedSet(sequence: items))",
    "        return Observable.just(page)",
    "    \x7d()",
    "    func get{{ model_name }}List() -> Observable<PagingInfo<{{ model_name }}>> \x7b",
    "        get{{ model_name }}List_Called = true",
    "        return get{{ model_name }}List_ReturnValue",
    "    \x7d",
    "",
    "    // MARK: - loadMore{{ model_name }}List",
    "    var loadMore{{ model_name }}List_Called = false",
    "    var loadMore{{ model_name }}List_ReturnValue: Observable<PagingInfo<{{ model_name }}>> = \x7b",
    "        let items = [",
    "            {{ model_name }}(builder: {{ model_name }}Builder().then \x7b",
    "                $0.id = 2",
    "            \x7d)",
    "        ]",
    "        let page = PagingInfo<{{ model_name }}>(page: 2, items: OrderedSet(sequence: items))",
    "        return Observable.just(page)",
    "    \x7d()",
    "    func loadMore{{ model_name }}List(page: Int) -> Observable<PagingInfo<{{ model_name }}>> \x7b",
    "        loadMore{{ model_name }}List_Called = true",
    "        return loadMore{{ model_name }}List_ReturnValue",
    "    \x7d",
    "\x7d"]

/-- A navigator for tests. -/
def navigatorMock : String :=
  lines [
    "@testable import {{ project }}",
    "",
    "final class {{ name }}NavigatorMock: {{ name }}NavigatorType \x7b",
    "",
    "    // MARK: - to{{ name }}",
    "    var to{{ name }}_Called = false",
    "    func to{{ name }}() \x7b",
    "        to{{ name }}_Called = true",
    "    \x7d",
    "",
    "    // MARK: - to{{ model_name }}Detail",
    "    var to{{ model_name }}Detail_Called = false",
    "    func to{{ model_name }}Detail({{ model_variable }}: {{ model_name }}) \x7b",
    "        to{{ model_name }}Detail_Called = true",
    "    \x7d",
    "\x7d"]

/-- Tests of the view controller. -/
def viewControllerTests : String :=
  lines [
    "@testable import {{ project }}",
    "import XCTest",
    "import Reusable",
    "",
    "final class {{ name }}ViewControllerTests: XCTestCase \x7b",
    "",
    "    private var viewController: {{ name }}ViewController!",
    "",
    "    override func setUp() \x7b",
    "        super.setUp()",
    "//        viewController = {{ name }}ViewController.instantiate()",
    "    \x7d",
    "",
    "    func test_ibOutlets() \x7b",
    "//        _ = viewController.view",
    "//        XCTAssertNotNil(viewController.tableView)",
    "    \x7d",
    "\x7d"]

/-- Tests of the cell. -/
def cellTests : String :=
  lines [
    "import XCTest",
    "@testable import {{ project }}",
    "",
    "final class {{ model_name }}CellTests: XCTestCase \x7b",
    "    var cell: {{ model_name }}Cell!",
    "",
    "    override func setUp() \x7b",
    "        super.setUp()",
    "//        cell = {{ model_name }}Cell.loadFromNib()",
    "    \x7d",
    "",
    "    func test_iboutlets() \x7b",
    "//        XCTAssertNotNil(cell)",
    "{% for p in display_properties %}//        XCTAssertNotNil(cell.{{ p.name }}{{ p.outlet }})",
    "{% endfor %}    \x7d",
    "\x7d"]

end Scaffold.Kind.Builtin.Listing
