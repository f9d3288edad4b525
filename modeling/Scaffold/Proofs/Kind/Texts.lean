import Scaffold.Kind.Builtin
import Scaffold.Proofs.Template.Closed

/-!
The texts of the builtin kinds. The header and the texts of `base` and `detail` are closed under the
names that are bound while a file of a scene is rendered. Those of `list` are closed under these and
the names of a model. Without a model, its first text stops at the name of the model.
-/

namespace Scaffold.Kind

open Template

/-- The characters of some lines, each with a line end. -/
inductive Spells : List String → List Char → Prop where
  | nil : Spells [] []
  | cons {cs rest : List Char} {ls : List String} :
    Spells ls rest → Spells (String.ofList cs :: ls) (cs ++ '\n' :: rest)

theorem Spells.toList_lines {ls : List String} {cs : List Char} (h : Spells ls cs) :
    (Builtin.lines ls).toList = cs := by
  rw [Builtin.lines, String.toList_join]
  induction h with
  | nil => rfl
  | cons _ ih =>
    rw [List.map_cons, List.flatMap_cons, ih, String.toList_append, String.toList_ofList,
      List.append_assoc]
    rfl

/-- Whether lines are closed is evaluated on their characters. -/
theorem readsClosed_lines {names ls : List String} {cs : List Char} (h : Spells ls cs)
    (hcs : readsClosed names cs = true) : readsClosed names (Builtin.lines ls).toList = true := by
  rwa [h.toList_lines]

theorem readsOpen_lines {names ls : List String} {name : String} {line : Nat} {cs : List Char}
    (h : Spells ls cs) (hcs : readsOpen names name line cs = true) :
    readsOpen names name line (Builtin.lines ls).toList = true := by
  rwa [h.toList_lines]

theorem mem_override {file template : TemplateFile} {files : List TemplateFile}
    (h : template ∈ file.override files) : template = file ∨ template ∈ files := by
  induction files with
  | nil => exact .inl (List.mem_singleton.1 h)
  | cons first files ih =>
    rw [TemplateFile.override] at h
    split at h
    · rcases List.mem_cons.1 h with rfl | hmem
      · exact .inl rfl
      · exact .inr (List.mem_cons_of_mem _ hmem)
    · rcases List.mem_cons.1 h with rfl | hmem
      · exact .inr List.mem_cons_self
      · exact (ih hmem).imp_right (List.mem_cons_of_mem _)

namespace Builtin

/-- What the context of a scene binds. -/
def sceneNames : List String :=
  ["year", "date", "company", "developer", "project"]

/-- What is bound while a file of a scene is rendered. -/
def fileNames : List String :=
  "file_name" :: sceneNames

/-- With a model there are its names, too. -/
def modelFileNames : List String :=
  "file_name" :: "model_variable" :: "model_name" :: sceneNames

/-- The header can be read and is closed, as is the source of each template. -/
def AreClosed (names : List String) (kind : KindTemplates) : Prop :=
  readsClosed names kind.header.toList = true ∧
    ∀ template ∈ kind.files, readsClosed names template.source.toList = true

/-- All templates, those of `detail` that take the place of others apart. -/
theorem areClosed_texts :
    AreClosed fileNames base ∧
    (readsClosed fileNames Detail.viewModel.toList = true ∧
      readsClosed fileNames Detail.viewController.toList = true ∧
      readsClosed fileNames Detail.viewModelTests.toList = true) ∧
    AreClosed modelFileNames list ∧
    readsOpen fileNames "model_name" 6 Listing.viewModel.toList = true := by
  simp only [AreClosed, base, baseFiles, list, file, List.forall_mem_cons, List.not_mem_nil,
    IsEmpty.forall_iff, implies_true, and_true]
  and_intros
  all_goals first | apply readsClosed_lines | apply readsOpen_lines
  -- The characters are spelled out first, so that the evaluation starts from them.
  all_goals first | (repeat apply Spells.cons); exact Spells.nil | decide +kernel

/-- The files of `detail` are those of `base` and what overrides them. -/
theorem areClosed_detail : AreClosed fileNames detail := by
  obtain ⟨⟨hheader, hsources⟩, hdetail, -⟩ := areClosed_texts
  refine ⟨hheader, fun template hmem => ?_⟩
  rcases mem_override hmem with rfl | hmem
  · exact hdetail.2.2
  rcases mem_override hmem with rfl | hmem
  · exact hdetail.2.1
  rcases mem_override hmem with rfl | hmem
  · exact hdetail.1
  · exact hsources template hmem

end Builtin

end Scaffold.Kind
