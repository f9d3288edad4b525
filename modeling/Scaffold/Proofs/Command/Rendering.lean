import Scaffold.Proofs.Command.Action
import Scaffold.Proofs.Command.RenderArguments
import Scaffold.Proofs.Template.Visit

/-!
Expanding a template from the command line. The name, the properties and the variables come from up
to three places each, and which of them counts is the same for all inputs. What is printed is the
expansion in the context that they make up, and nothing is printed if there is none.
-/

namespace Scaffold

namespace Template.Context

/-- Of variables that are bound one after the other the last one of a name counts. -/
theorem find?_foldl_bind (key : String) (c : Context) (bs : List (String × String)) :
    Assoc.find? key (bs.foldl (fun c (key, value) => c.bind key value) c).bindings =
      (Assoc.find? key bs.reverse).or (Assoc.find? key c.bindings) := by
  induction bs generalizing c with
  | nil => rfl
  | cons b bs ih =>
    obtain ⟨k, value⟩ := b
    have hinsert : Assoc.find? key (c.bind k value).bindings =
        if k = key then some value else Assoc.find? key c.bindings := Assoc.find?_insert ..
    rw [List.foldl_cons, ih, hinsert, List.reverse_cons, Assoc.find?_append, Option.or_assoc,
      Assoc.find?_cons]
    congr 1
    by_cases hk : k = key <;> simp [hk]

theorem foldl_bind (c : Context) (bs : List (String × String)) :
    (bs.foldl (fun c (key, value) => c.bind key value) c).name = c.name ∧
      (bs.foldl (fun c (key, value) => c.bind key value) c).properties = c.properties := by
  induction bs generalizing c with
  | nil => exact ⟨rfl, rfl⟩
  | cons b bs ih => exact ih (c.bind b.1 b.2)

end Template.Context

namespace Command

variable {α : Type} {d : Disk} {given : List Given}

/-- What a file is read as. -/
def ReadsAs (d : Disk) (parse? : String → Option α) (p : Path) (a : α) : Prop :=
  ∃ text, d.readText p = .ok text ∧ parse? text = some a

/-- What a file is read as if its path is given. The path is not empty. -/
inductive ReadsFile (d : Disk) (parse? : String → Option α) : List String → Option α → Prop
  | absent : ReadsFile d parse? [] none
  | present {path : String} {a : α} : path ≠ "" → ReadsAs d parse? (.ofString path) a →
      ReadsFile d parse? [path] (some a)

/-- The value of a variable that is not assigned on the command line. That of a variable for the
model goes before the one in the context file. -/
def unassigned? (file? : Option Template.Context) (model? : Option Swift.Model) (key : String) :
    Option String :=
  match model?, key with
  | some m, "model_name" => some m.name
  | some m, "model_variable" => some (String.ofList (Text.camelCase m.name.toList))
  | _, _ => file?.bind fun file => Assoc.find? key file.bindings

/-- The template that is expanded with what is given, and the context that it is expanded in. The
context is determined up to the order of its variables. -/
structure Rendering (d : Disk) (given : List Given) where
  template : String
  source : String
  file? : Option Template.Context
  model? : Option Swift.Model
  context : Template.Context
  help : valuesOf "help" given = []
  verbose : (valuesOf "verbose" given).length ≤ 1
  operands : operandsOf given = [template]
  template_ne : template ≠ ""
  names : (valuesOf "name" given).length ≤ 1
  vars : ∀ text ∈ valuesOf "var" given, ∃ key value, key ≠ "" ∧ Sets text key value
  readText_template : d.readText (.ofString template) = .ok source
  readsFile_context : ReadsFile d Template.Context.parse? (valuesOf "context" given) file?
  readsFile_model : ReadsFile d Swift.Model.parse? (valuesOf "model" given) model?
  name_context : context.name =
    ((valuesOf "name" given).head?.or (file?.map (·.name))).getD ""
  properties_context : context.properties =
    (file?.map (·.properties)).getD [] ++
      (model?.map fun m => m.properties.map fun p => ⟨p.name, some p.type.text⟩).getD [] ++
      (valuesOf "property" given).map fun name => ⟨name, none⟩
  find?_context (key value : String) : Assoc.find? key context.bindings = some value ↔
    SetsLast (valuesOf "var" given) key value ∨
      (∀ text ∈ valuesOf "var" given, ∀ value, ¬Sets text key value) ∧
        unassigned? file? model? key = some value

theorem ReadsFile.unique {parse? : String → Option α} {values : List String} {a? b? : Option α}
    (ha : ReadsFile d parse? values a?) (hb : ReadsFile d parse? values b?) : a? = b? := by
  cases ha with
  | absent =>
    cases hb
    rfl
  | present _ ha =>
    cases hb with
    | present _ hb =>
      obtain ⟨text, hread, hparse⟩ := ha
      obtain ⟨text', hread', hparse'⟩ := hb
      cases Except.ok.inj (hread.symm.trans hread')
      exact hparse.symm.trans hparse'

/-- What is given determines what the template expands to. -/
theorem Rendering.unique (r r' : Rendering d given) :
    r.source = r'.source ∧ r.context.Agrees r'.context := by
  have htemplate : r.template = r'.template :=
    (List.cons.inj (r.operands.symm.trans r'.operands)).1
  have hfile := r.readsFile_context.unique r'.readsFile_context
  have hmodel := r.readsFile_model.unique r'.readsFile_model
  refine ⟨?_, ?_, ?_, fun _ => ?_⟩
  · have hread := r'.readText_template
    rw [← htemplate, r.readText_template] at hread
    exact Except.ok.inj hread
  · rw [r.name_context, r'.name_context, hfile]
  · rw [r.properties_context, r'.properties_context, hfile, hmodel]
  · ext value
    rw [r.find?_context, r'.find?_context, hfile, hmodel]

theorem readsFile_iff (name : String) {parse? : String → Option α} {values : List String}
    {a? : Option α} : ReadsFile d parse? values a? ↔
      ∃ path? : Option Path, Takes (path name) [] values path?.toList ∧
        Option.Rel (ReadsAs d parse?) path? a? := by
  constructor
  · rintro (_ | ⟨hne, hreads⟩)
    · exact ⟨none, takes_toList_iff.2 (.inl ⟨rfl, rfl⟩), .none⟩
    · exact ⟨some _, takes_toList_iff.2 (.inr ⟨_, _, rfl, path_eq_ok_iff.2 ⟨hne, rfl⟩, rfl⟩),
        .some hreads⟩
  · rintro ⟨path?, htakes, hrel⟩
    rcases takes_toList_iff.1 htakes with ⟨rfl, rfl⟩ | ⟨text, p, rfl, hp, rfl⟩
    · cases hrel
      exact .absent
    · obtain ⟨hne, rfl⟩ := path_eq_ok_iff.1 hp
      cases hrel with
      | some hreads => exact .present hne hreads

theorem readContext_eq_ok_iff {path? : Option Path} {c : Template.Context} :
    readContext d path? = .ok c ↔ ∃ file? : Option Template.Context,
      Option.Rel (ReadsAs d Template.Context.parse?) path? file? ∧ c = file?.getD .empty := by
  cases path? with
  | none =>
    constructor
    · rintro ⟨⟩
      exact ⟨none, .none, rfl⟩
    · rintro ⟨_, ⟨⟩, rfl⟩
      rfl
  | some p =>
    simp only [readContext, bind_eq_ok_iff, mapError_eq_ok_iff]
    constructor
    · rintro ⟨text, hread, h⟩
      split at h
      · next c' hparse =>
        cases h
        exact ⟨some c, .some ⟨text, hread, hparse⟩, rfl⟩
      · cases h
    · rintro ⟨_, ⟨text, hread, hparse⟩, rfl⟩
      refine ⟨text, hread, ?_⟩
      rw [hparse]
      rfl

theorem parse_eq_ok_iff {text : String} {m : Swift.Model} :
    ModelSource.read.parse text = .ok m ↔ Swift.Model.parse? text = some m := by
  rw [ModelSource.read.parse]
  cases Swift.Model.parse? text <;> simp

theorem readModel?_eq_ok_iff {path? : Option Path} {model? : Option Swift.Model} :
    readModel? d (path?.map .file) = .ok model? ↔
      Option.Rel (ReadsAs d Swift.Model.parse?) path? model? := by
  cases path? with
  | none => cases model? <;> simp [readModel?]
  | some p =>
    simp only [readModel?, Option.map_some, map_eq_ok_iff, ModelSource.read, bind_eq_ok_iff,
      mapError_eq_ok_iff, parse_eq_ok_iff]
    constructor
    · rintro ⟨m, h, rfl⟩
      exact .some h
    · rintro ⟨h⟩
      exact ⟨_, h, rfl⟩

/-- The context in which a template is expanded, from a context and a model that have been read. -/
def mergedContext (e : Expansion) (file : Template.Context) (model? : Option Swift.Model) :
    Template.Context :=
  let c : Template.Context :=
    ⟨e.name?.getD file.name, file.properties ++ withModelProperties model? e.properties,
      file.bindings⟩
  e.bindings.foldl (fun c (key, value) => c.bind key value)
    ((model?.map (Scene.bindModel c)).getD c)

theorem expansionContext_eq_ok_iff {e : Expansion} {c : Template.Context} :
    expansionContext d e = .ok c ↔ ∃ file model?, readContext d e.context? = .ok file ∧
      readModel? d e.model? = .ok model? ∧ c = mergedContext e file model? := by
  simp only [expansionContext, bind_eq_ok_iff]
  constructor
  · rintro ⟨file, hfile, model?, hmodel, h⟩
    exact ⟨file, model?, hfile, hmodel, (Except.ok.inj h).symm⟩
  · rintro ⟨file, model?, hfile, hmodel, rfl⟩
    exact ⟨file, hfile, model?, hmodel, rfl⟩

theorem find?_bindModel (key : String) (c : Template.Context) (file? : Option Template.Context)
    (model? : Option Swift.Model) (hc : c.bindings = (file?.getD .empty).bindings) :
    Assoc.find? key ((model?.map (Scene.bindModel c)).getD c).bindings =
      unassigned? file? model? key := by
  have hfile :
      Assoc.find? key c.bindings = file?.bind fun file => Assoc.find? key file.bindings := by
    rw [hc]
    cases file? <;> rfl
  have hbound (m : Swift.Model) : Assoc.find? key (Scene.bindModel c m).bindings =
      if "model_variable" = key then some m.variableName
      else if "model_name" = key then some m.name else Assoc.find? key c.bindings := by
    simp only [Scene.bindModel, Template.Context.bind, Assoc.find?_insert]
  unfold unassigned?
  split
  · simp [hbound]
  · simp [hbound, Swift.Model.variableName]
  · next hname hvariable =>
    cases model? with
    | none => exact hfile
    | some m =>
      rw [Option.map_some, Option.getD_some, hbound, if_neg fun h => hvariable m rfl h.symm,
        if_neg fun h => hname m rfl h.symm, hfile]

theorem mergedContext_name (e : Expansion) (file? : Option Template.Context)
    (model? : Option Swift.Model) : (mergedContext e (file?.getD .empty) model?).name =
      (e.name?.or (file?.map (·.name))).getD "" := by
  rw [mergedContext, (Template.Context.foldl_bind _ _).1]
  cases model? <;> cases e.name? <;> cases file? <;> rfl

theorem mergedContext_properties (e : Expansion) (file? : Option Template.Context)
    (model? : Option Swift.Model) : (mergedContext e (file?.getD .empty) model?).properties =
      (file?.map (·.properties)).getD [] ++
        (model?.map Swift.Model.sceneProperties).getD [] ++ e.properties := by
  rw [mergedContext, (Template.Context.foldl_bind _ _).2, List.append_assoc]
  cases model? <;> cases file? <;> rfl

/-- An assignment goes before what the model says, and that before the context file. -/
theorem find?_mergedContext {texts : List String} {e : Expansion}
    (hbindings : texts.mapM keyAndValue = .ok e.bindings) (file? : Option Template.Context)
    (model? : Option Swift.Model) (key value : String) :
    Assoc.find? key (mergedContext e (file?.getD .empty) model?).bindings = some value ↔
      SetsLast texts key value ∨ (∀ text ∈ texts, ∀ value, ¬Sets text key value) ∧
        unassigned? file? model? key = some value := by
  obtain ⟨hlast, hnone⟩ := setsLast_iff hbindings key value
  rw [mergedContext, Template.Context.find?_foldl_bind, find?_bindModel key _ file? model?,
    Option.or_eq_some_iff, hlast, hnone]
  rfl

/-- What the arguments ask for. -/
def RenderArguments.expansion (a : RenderArguments) (template : Path) : Expansion :=
  ⟨template, a.context?, a.name?, a.properties.map (⟨·, none⟩), a.model?.map .file, a.bindings⟩

variable {a : RenderArguments} {p : Path} {source : String} {c : Template.Context}

/-- The context that the command makes up is the one described. -/
theorem exists_rendering (hgains : RenderArguments.Gains given {} a) (hp : a.template? = some p)
    (hsource : d.readText p = .ok source) (hc : expansionContext d (a.expansion p) = .ok c) :
    ∃ r : Rendering d given, r.source = source ∧ r.context = c := by
  obtain ⟨file, model?, hfile, hmodel, rfl⟩ := expansionContext_eq_ok_iff.1 hc
  obtain ⟨file?, hreads, rfl⟩ := readContext_eq_ok_iff.1 hfile
  obtain ⟨template, hoperands, hne, rfl⟩ : ∃ template, operandsOf given = [template] ∧
      template ≠ "" ∧ p = .ofString template := by
    rcases takes_toList_iff.1 hgains.template? with ⟨-, hnone⟩ | ⟨text, p', hoperands, hpath, hsome⟩
    · cases hp.symm.trans hnone
    · cases hp.symm.trans hsome
      exact ⟨text, hoperands, path_eq_ok_iff.1 hpath⟩
  have hverbose : (valuesOf "verbose" given).length ≤ 1 :=
    (Nat.le_add_right _ _).trans (hgains.verbose.trans_le (Bool.toNat_le _))
  have hname : a.name?.toList = valuesOf "name" given := takes_anyText_iff.1 hgains.name?
  have hproperties : a.properties = valuesOf "property" given :=
    takes_anyText_iff.1 hgains.properties
  have hbindings : (valuesOf "var" given).mapM keyAndValue = .ok a.bindings := by
    obtain ⟨bindings, hbindings, hnew⟩ := hgains.bindings
    rw [hbindings, hnew]
    rfl
  refine ⟨{
    template, source, file?, model?
    context := mergedContext (a.expansion (.ofString template)) (file?.getD .empty) model?
    help := hgains.help
    verbose := hverbose
    operands := hoperands
    template_ne := hne
    names := ?_
    vars := ?_
    readText_template := hsource
    readsFile_context := (readsFile_iff "context").2 ⟨_, hgains.context?, hreads⟩
    readsFile_model := (readsFile_iff "model").2 ⟨_, hgains.model?, readModel?_eq_ok_iff.1 hmodel⟩
    name_context := ?_
    properties_context := ?_
    find?_context := find?_mergedContext hbindings file? model? }, rfl, rfl⟩
  · rw [← hname]
    cases a.name? <;> simp
  · intro text htext
    obtain ⟨⟨key, value⟩, -, hsets⟩ :=
      exists_of_mem_right (mapM_eq_ok_iff.1 hbindings).flip htext
    exact ⟨key, value, keyAndValue_eq_ok_iff.1 hsets⟩
  · rw [mergedContext_name, ← hname, RenderArguments.expansion]
    cases a.name? <;> rfl
  · rw [mergedContext_properties, ← hproperties]
    rfl

/-- What is described is what the command makes up. -/
theorem Rendering.exists_gains (r : Rendering d given) :
    ∃ a p source c, RenderArguments.Gains given {} a ∧ a.template? = some p ∧
      d.readText p = .ok source ∧ expansionContext d (a.expansion p) = .ok c := by
  obtain ⟨context?, hcontext, hfile⟩ := (readsFile_iff "context").1 r.readsFile_context
  obtain ⟨model?, hmodel, hread⟩ := (readsFile_iff "model").1 r.readsFile_model
  obtain ⟨bindings, hbindings⟩ : ∃ bs, (valuesOf "var" given).mapM keyAndValue = .ok bs := by
    refine exists_mapM_eq_ok fun text htext => ?_
    obtain ⟨key, value, hne, hsets⟩ := r.vars text htext
    exact ⟨(key, value), keyAndValue_eq_ok_iff.2 ⟨hne, hsets⟩⟩
  have htemplate : Takes (path "TEMPLATE") [] (operandsOf given)
      (some (Path.ofString r.template)).toList :=
    takes_toList_iff.2 (.inr ⟨_, _, r.operands, path_eq_ok_iff.2 ⟨r.template_ne, rfl⟩, rfl⟩)
  refine ⟨⟨some (.ofString r.template), (valuesOf "name" given).head?, valuesOf "property" given,
    model?, context?, bindings, !(valuesOf "verbose" given).isEmpty⟩, _, r.source, _,
    ⟨r.help, ?_, htemplate, takes_anyText_iff.2 ?_, takes_anyText_iff.2 rfl, hmodel, hcontext,
      bindings, hbindings, rfl⟩, rfl, r.readText_template,
    expansionContext_eq_ok_iff.2
      ⟨_, _, readContext_eq_ok_iff.2 ⟨_, hfile, rfl⟩, readModel?_eq_ok_iff.2 hread, rfl⟩⟩
  · have hverbose := r.verbose
    generalize valuesOf "verbose" given = values at hverbose ⊢
    rcases values with _ | ⟨value, _ | ⟨value', values⟩⟩
    · rfl
    · rfl
    · simp at hverbose
  · have hnames := r.names
    generalize valuesOf "name" given = names at hnames ⊢
    rcases names with _ | ⟨name, _ | ⟨name', names⟩⟩
    · rfl
    · rfl
    · simp at hnames

/-! ### From the command line to the output -/

/-- What a template expands to with all that is asked for. -/
def expansionText (d : Disk) (e : Expansion) : Except Error String := do
  let source ← (d.readText e.template).mapError (.templateUnreadable e.template)
  let c ← expansionContext d e
  (expand source c).mapError (.template e.template.text)

theorem text_eq_ok_iff {e : Expansion} {output : String} :
    expansionText d e = .ok output ↔ ∃ source c, d.readText e.template = .ok source ∧
      expansionContext d e = .ok c ∧ expand source c = .ok output := by
  simp only [expansionText, bind_eq_ok_iff, mapError_eq_ok_iff]
  constructor
  · rintro ⟨source, hsource, c, hc, h⟩
    exact ⟨source, c, hsource, hc, h⟩
  · rintro ⟨source, c, hsource, hc, h⟩
    exact ⟨source, hsource, c, hc, h⟩

/-- The command prints what the template expands to after all that can fail. -/
theorem outputs_runRender (verbose : Bool) (e : Expansion) :
    Outputs (runRender verbose e) d (expansionText d e) := by
  have hprint (x : Except Error String) : Outputs (lift x >>= print) d x := by
    have h : Outputs (lift x >>= print) d (x >>= pure) := Outputs.lift_bind Outputs.print
    rwa [bind_pure] at h
  intro console
  rw [runRender, carryOut_bind, carryOut_look]
  refine Outputs.lift_bind (fun source => Outputs.lift_bind fun c => ?_) console
  cases verbose with
  | false => exact hprint _
  | true => exact (hprint _).noteLine_bind

theorem exists_rendering_iff {arguments : List String} {output : String} :
    (∃ given, RenderArguments.grammar.given? none arguments = some given ∧
      ∃ r : Rendering d given, expand r.source r.context = .ok output) ↔
    ∃ a p, RenderArguments.grammar.read ⟨{}, none⟩ arguments = .ok a ∧ a.template? = some p ∧
      expansionText d (a.expansion p) = .ok output := by
  simp only [text_eq_ok_iff, RenderArguments.read_eq_ok_iff]
  constructor
  · rintro ⟨given, hgiven, r, h⟩
    obtain ⟨a, p, source, c, hgains, hp, hsource, hc⟩ := r.exists_gains
    obtain ⟨r', rfl, rfl⟩ := exists_rendering hgains hp hsource hc
    obtain ⟨hsame, hagrees⟩ := r.unique r'
    rw [Template.expand_of_agrees hagrees, hsame] at h
    exact ⟨a, p, ⟨given, hgiven, hgains⟩, hp, r'.source, r'.context, hsource, hc, h⟩
  · rintro ⟨a, p, ⟨given, hgiven, hgains⟩, hp, source, c, hsource, hc, h⟩
    obtain ⟨r, rfl, rfl⟩ := exists_rendering hgains hp hsource hc
    exact ⟨given, hgiven, r, h⟩

theorem RenderArguments.invocation_eq (a : RenderArguments) :
    a.invocation =
      (required "TEMPLATE" a.template?).map fun p => ⟨.render (a.expansion p), a.verbose⟩ := by
  rw [invocation]
  cases a.template? <;> rfl

theorem readArguments_render (r : Reading Bool) (arguments : List String)
    (environment : String → Option String) :
    readArguments environment r ("render" :: arguments) = do
      let a ← RenderArguments.grammar.read ⟨{}, none⟩ arguments
      let p ← required "TEMPLATE" a.template?
      return ⟨.render (a.expansion p), r.collected || a.verbose⟩ := by
  have hword : Word.ofString "render" = .plain "render" := by decide
  simp only [readArguments, hword, readCommand, RenderArguments.invocation_eq]
  cases RenderArguments.grammar.read ⟨{}, none⟩ arguments with
  | error h => rfl
  | ok a =>
    simp only [bind, Except.bind]
    cases required "TEMPLATE" a.template? <;> rfl

/-- The option in front of the command decides only whether notes are made. -/
theorem ofArguments_render {globals : List String}
    (hglobals : globals ∈ [[], ["-v"], ["--verbose"]]) (arguments : List String)
    (environment : String → Option String) :
    ∃ verbose, Invocation.ofArguments environment (globals ++ "render" :: arguments) = do
      let a ← RenderArguments.grammar.read ⟨{}, none⟩ arguments
      let p ← required "TEMPLATE" a.template?
      return ⟨.render (a.expansion p), verbose || a.verbose⟩ := by
  simp only [List.mem_cons, List.not_mem_nil, or_false] at hglobals
  rcases hglobals with rfl | rfl | rfl
  · exact ⟨false, readArguments_render ⟨false, none⟩ arguments environment⟩
  · exact ⟨true, readArguments_render ⟨true, none⟩ arguments environment⟩
  · exact ⟨true, readArguments_render ⟨true, none⟩ arguments environment⟩

/-- The command that expands a template. It prints what the template expands to in the context that
the files and the options make up, and nothing else, or the help text if that is asked for. If there
is no such expansion it prints nothing, with an exit code that says so. The disk stays as it is, and
a variable that is called `name` does not matter. -/
theorem execute_render_expands [TemporaryNames] {globals : List String}
    (hglobals : globals ∈ [[], ["-v"], ["--verbose"]]) (arguments : List String)
    (environment : String → Option String) (now : Date.LocalTime) (d : Disk) :
    (∃ outcome, (execute (globals ++ "render" :: arguments) environment now :
        StateM Disk Outcome).run d = (outcome, d) ∧
      (outcome.code ≠ 0 → outcome.console.output = "") ∧
      ∀ output, outcome.code = 0 ∧ outcome.console.output = output ↔
        (RenderArguments.grammar.read ⟨{}, none⟩ arguments = .error .help ∧ output = helpText) ∨
        ∃ given, RenderArguments.grammar.given? none arguments = some given ∧
          ∃ r : Rendering d given, expand r.source r.context = .ok output) ∧
    ∀ given (r : Rendering d given) c, c.Agrees r.context →
      expand r.source c = expand r.source r.context := by
  refine ⟨?_, fun given r c h => Template.expand_of_agrees h r.source⟩
  simp only [exists_rendering_iff]
  obtain ⟨verbose, hinvocation⟩ := ofArguments_render hglobals arguments environment
  cases hread : RenderArguments.grammar.read ⟨{}, none⟩ arguments with
  | error h =>
    have hfirst : Reading.IsOf ⟨{}, none⟩ RenderArguments.grammar := nofun
    have hversion := RenderArguments.endsFor_grammar.read hfirst arguments
    rw [hread] at hversion hinvocation
    obtain ⟨hfails, hsucceeds⟩ := Halt.outcome_code hversion
    refine ⟨h.outcome, execute_of_error hinvocation, hfails, fun output => ?_⟩
    simp [hsucceeds]
  | ok a =>
    rw [hread] at hinvocation
    simp only [bind, Except.bind] at hinvocation
    cases hp : a.template? with
    | none =>
      rw [hp] at hinvocation
      refine ⟨_, execute_of_error hinvocation, fun _ => rfl, fun output => ?_⟩
      simp [Halt.outcome, Outcome.code, hp]
    | some p =>
      rw [hp] at hinvocation
      obtain ⟨notes, hrun⟩ :=
        outputs_runRender (d := d) (verbose || a.verbose) (a.expansion p) ⟨"", ""⟩
      cases houtput : expansionText d (a.expansion p) with
      | error e =>
        rw [houtput] at hrun
        refine ⟨_, execute_of_ok hinvocation hrun, fun _ => rfl, fun output => ?_⟩
        have hcode := code_ne_zero_of_failure e ⟨"", notes⟩
        simp [Outcome.ofRun, hcode, hp, houtput]
      | ok text =>
        rw [houtput] at hrun
        refine ⟨_, execute_of_ok hinvocation hrun, fun hcode => absurd rfl hcode, fun output => ?_⟩
        simp [Outcome.ofRun, Outcome.code, hp, houtput]

/-- A disk with a template, a context and a model. -/
def diskOfSources : Disk where
  entries :=
    [(.of "view.txt", .file
        ("\x7b\x7b name \x7d\x7d \x7b\x7b key \x7d\x7d \x7b\x7b model_name \x7d\x7d" ++
          " \x7b\x7b model_variable \x7d\x7d\x7b% for p in properties %\x7d" ++
          " \x7b\x7b p.name \x7d\x7d\x7b% endfor %\x7d").toUTF8),
      (.of "view.toml", .file
        ("name = \"File\"\n[[properties]]\nname = \"id\"\n[vars]\nkey = \"file\"\n" ++
          "model_name = \"file\"\nmodel_variable = \"file\"\n").toUTF8),
      (.of "User.swift", .file "struct User \x7b\n  let email: String\n\x7d\n".toUTF8)]
  here := []

/-- The options go before the model, and the model before the context in the file. -/
theorem execute_render_expands_overlaid :
    ["-v"] ∈ [[], ["-v"], ["--verbose"]] ∧
    ∃ outcome, (execute ["-v", "render", "view.txt", "-c", "view.toml", "--model=User.swift",
        "-nMain", "-p", "age", "--var", "key=1", "--var=model_name=Given", "--var=name=Other",
        "--var", "key=2=3"] (fun _ => none) ⟨2024, 5, 6, 12, 0, 0, 0, 0⟩ :
          StateM Disk Outcome).run diskOfSources = (outcome, diskOfSources) ∧
      outcome.code = 0 ∧ outcome.console.output = "Main 2=3 Given user id email age" := by
  have hglobals : ["-v"] ∈ [[], ["-v"], ["--verbose"]] := by decide
  obtain ⟨⟨outcome, hrun, -, houtput⟩, -⟩ := execute_render_expands hglobals
    ["view.txt", "-c", "view.toml", "--model=User.swift", "-nMain", "-p", "age", "--var", "key=1",
      "--var=model_name=Given", "--var=name=Other", "--var", "key=2=3"]
    (fun _ => none) ⟨2024, 5, 6, 12, 0, 0, 0, 0⟩ diskOfSources
  refine ⟨hglobals, outcome, hrun, (houtput _).2 (.inr (exists_rendering_iff.2 ?_))⟩
  have hok (x : Except Error String) {text : String} (h : x.toOption = some text) :
      x = .ok text := by
    cases x <;> cases h
    rfl
  refine ⟨_, _, rfl, rfl, hok _ ?_⟩
  decide +kernel

end Command

end Scaffold
