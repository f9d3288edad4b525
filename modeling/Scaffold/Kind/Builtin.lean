import Scaffold.Kind.Builtin.Base
import Scaffold.Kind.Builtin.Detail
import Scaffold.Kind.Builtin.Listing
import Scaffold.Kind.Templates

/-!
The builtin scene kinds.
-/

namespace Scaffold.Kind

namespace Builtin

/-- The names of the builtin kinds, in the order in which they are listed. -/
def names : List String :=
  ["base", "detail", "list"]

def file (path source : String) : TemplateFile :=
  ⟨Path.ofString path, source⟩

def baseFiles : List TemplateFile :=
  [file "ViewModel.swift" Base.viewModel,
    file "Navigator.swift" Base.navigator,
    file "UseCaseType.swift" Base.useCaseType,
    file "UseCase.swift" Base.useCase,
    file "ViewController.swift" Base.viewController,
    file "Test/ViewModelTests.swift" Base.viewModelTests,
    file "Test/UseCaseMock.swift" Base.useCaseMock,
    file "Test/NavigatorMock.swift" Base.navigatorMock,
    file "Test/ViewControllerTests.swift" Base.viewControllerTests]

/-- A view model, a navigator and a use case. -/
def base : KindTemplates :=
  ⟨"base", header, baseFiles⟩

/-- The files of `base`, with one outlet and one output for each property. -/
def detail : KindTemplates :=
  [file "ViewModel.swift" Detail.viewModel,
    file "ViewController.swift" Detail.viewController,
    file "Test/ViewModelTests.swift" Detail.viewModelTests].foldl
    KindTemplates.withOverride ⟨"detail", header, baseFiles⟩

/-- A table of items. The files of the cell are named after the model. -/
def list : KindTemplates :=
  ⟨"list", header,
    [file "ViewModel.swift" Listing.viewModel,
      file "Navigator.swift" Listing.navigator,
      file "UseCaseType.swift" Listing.useCaseType,
      file "UseCase.swift" Listing.useCase,
      file "ViewController.swift" Listing.viewController,
      file "{{ model_name }}Cell.swift" Listing.cell,
      file "Test/ViewModelTests.swift" Listing.viewModelTests,
      file "Test/UseCaseMock.swift" Listing.useCaseMock,
      file "Test/NavigatorMock.swift" Listing.navigatorMock,
      file "Test/ViewControllerTests.swift" Listing.viewControllerTests,
      file "Test/{{ name }}{{ model_name }}CellTests.swift" Listing.cellTests]⟩

end Builtin

/-- The builtin kind of a name. -/
def builtin? : String → Option KindTemplates
  | "base" => some Builtin.base
  | "detail" => some Builtin.detail
  | "list" => some Builtin.list
  | _ => none

end Scaffold.Kind
