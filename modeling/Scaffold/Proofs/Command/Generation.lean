import Scaffold.Proofs.Command.Action
import Scaffold.Proofs.Scene.Writing

/-!
Generating a scene from the command line. Nothing is written before all that is asked for has been
checked and all files are rendered, and nothing but printing follows the writing. So the command
leaves what the writing of the scene leaves.
-/

namespace Scaffold

open Disk DiskAction

namespace Scene

variable {d d' : Disk} {now : Date.LocalTime} {out : Path} {overwrite : Bool}

/-- A plan keeps the name that is asked for, which has been checked. -/
theorem name_of_plan {start : Path} {request : Request} {plan : Plan}
    (h : request.plan d start = .ok plan) :
    plan.name = request.name ∧ checkName request.name = .ok () := by
  obtain ⟨project?, -, h⟩ := bind_eq_ok_iff.1 h
  split at h
  · cases h
  · obtain ⟨_, hname, h⟩ := bind_eq_ok_iff.1 h
    obtain ⟨model?, -, h⟩ := bind_eq_ok_iff.1 h
    obtain ⟨_, -, h⟩ := bind_eq_ok_iff.1 h
    cases h
    exact ⟨rfl, hname⟩

theorem name_of_context {name : String} {properties : List Template.Property} {config : Config}
    {c : Template.Context} (h : context name properties config now = .ok c) : c.name = name := by
  rw [context] at h
  split at h
  · cases h
    rfl
  · cases h

/-- The files of a plan lie in the directory of its scene. -/
theorem descends_of_plan {plan : Plan} {files : List RenderedFile}
    (hname : checkName plan.name = .ok ()) (h : plan.render d now = .ok files) :
    ∀ file ∈ files, file.path.Descends := by
  obtain ⟨kind, hkind, h⟩ := bind_eq_ok_iff.1 h
  obtain ⟨c, hc, h⟩ := bind_eq_ok_iff.1 h
  refine descends_of_render ?_ (Kind.isNormal_of_resolve hkind) h
  have hmodel : ((plan.model?.map (bindModel c)).getD c).name = plan.name := by
    rw [← name_of_context hc]
    cases plan.model? <;> rfl
  rw [hmodel]
  exact not_mem_of_isIdentifier (checkName_eq_ok_iff.1 hname) (by decide)

variable [TemporaryNames]

/-- A plan is rendered, and then it is written. -/
theorem generate_eq {plan : Plan} {r : Except Error (Path × List RenderedFile)}
    (h : runOn (plan.generate now out overwrite) d = (r, d')) :
    (∃ e, r = .error e) ∧ d' = d ∨
    ∃ files r', plan.render d now = .ok files ∧
      runOn (write out plan.name files overwrite) d = (r', d') ∧ r = r'.map (·, files) := by
  rw [Plan.generate, runOn_bind, runOn_look] at h
  simp only [runOn_bind, runOn_ofExcept] at h
  cases hfiles : plan.render d now with
  | error e =>
    rw [hfiles] at h
    cases h
    exact .inl ⟨⟨e, rfl⟩, rfl⟩
  | ok files =>
    rw [hfiles] at h
    rcases hwrite : runOn (write out plan.name files overwrite) d with ⟨r', d''⟩
    simp only [hwrite] at h
    cases r' with
    | error e =>
      cases h
      exact .inr ⟨files, .error e, rfl, hwrite, rfl⟩
    | ok scene =>
      cases h
      exact .inr ⟨files, .ok scene, rfl, hwrite, rfl⟩

/-- Generating the scene of a plan puts its files in their place or changes nothing, and changes
nothing outside of the scene, but for directories on the way to it. -/
theorem generate_outcome {plan : Plan} {r : Except Error (Path × List RenderedFile)}
    (hwell : d.WellFormed) (hname : checkName plan.name = .ok ())
    (hpasses : ∀ scene : Name, scene.text? = some plan.name → ¬d.PassesThrough out scene)
    (h : runOn (plan.generate now out overwrite) d = (r, d')) :
    (∃ e, r = .error e) ∧ d.Grows out d' ∨
    (∃ result, r = .ok result) ∧ ∃ files, plan.render d now = .ok files ∧
      ∃ (scene : Name) (parent : List Name), scene.text? = some plan.name ∧ d.Leads out parent ∧
        ((∀ file ∈ files, file.path.IsNormal) → AreNamed files ∧
          ∀ rest, d'.item? (parent ++ scene :: rest) = contents files rest) ∧
        ∀ names, ¬parent ++ [scene] <+: names → d'.item? names = d.item? names ∨
          d.item? names = none ∧ d'.item? names = some .directory ∧ d.OnTheWay out names := by
  rcases generate_eq h with ⟨he, rfl⟩ | ⟨files, r', hfiles, hwrite, rfl⟩
  · exact .inl ⟨he, .refl d' out⟩
  · rcases write_outcome hwell hname (descends_of_plan hname hfiles) hpasses hwrite with
      ⟨⟨e, rfl⟩, hgrows⟩ | ⟨rfl, hplace⟩
    · exact .inl ⟨⟨e, rfl⟩, hgrows⟩
    · exact .inr ⟨⟨_, rfl⟩, files, hfiles, hplace⟩

end Scene

namespace Command

variable {d d' : Disk} {console : Console}

theorem onlyPrints_printPlan (plan : Scene.Plan) : OnlyPrints (printPlan plan) := by
  refine .bind (.printLine _) ?_
  cases plan.model? with
  | none => exact fun console d => ⟨console, rfl⟩
  | some model => exact .bind (.printLine _) (.forM fun _ _ => .printLine _)

section

variable [TemporaryNames] {now : Date.LocalTime} {verbose force json : Bool}
  {request : Scene.Request} {output? : Option Path}

theorem runNew_outcome {r : Except Error Unit} {console' : Console} (hwell : d.WellFormed)
    (hpasses : ∀ scene : Name, scene.text? = some request.name →
      ¬d.PassesThrough (output?.getD d.herePath) scene)
    (h : carryOut (runNew now verbose request output? force json) console d =
      ((r, console'), d')) :
    (∃ e, r = .error e) ∧ d.Grows (output?.getD d.herePath) d' ∨
    r = .ok () ∧ ∃ plan files, request.plan d d.herePath = .ok plan ∧
      plan.render d now = .ok files ∧
      ∃ (scene : Name) (parent : List Name), scene.text? = some request.name ∧
        d.Leads (output?.getD d.herePath) parent ∧
        ((∀ file ∈ files, file.path.IsNormal) → Scene.AreNamed files ∧
          ∀ rest, d'.item? (parent ++ scene :: rest) = Scene.contents files rest) ∧
        ∀ names, ¬parent ++ [scene] <+: names → d'.item? names = d.item? names ∨
          d.item? names = none ∧ d'.item? names = some .directory ∧
            d.OnTheWay (output?.getD d.herePath) names := by
  rw [runNew, carryOut_bind, carryOut_look] at h
  simp only [carryOut_bind, carryOut_lift] at h
  cases hplan : request.plan d d.herePath with
  | error e =>
    rw [hplan] at h
    cases h
    exact .inl ⟨⟨e, rfl⟩, .refl d _⟩
  | ok plan =>
    rw [hplan] at h
    obtain ⟨hname, hchecked⟩ := Scene.name_of_plan hplan
    rw [← hname] at hchecked hpasses ⊢
    obtain ⟨console₂, h⟩ := carryOut_if_bind (onlyPrints_printPlan plan) h
    obtain ⟨r', hgenerate, rfl⟩ := carryOut_silently_bind (fun result => by
      split
      · exact .printLine _
      · exact .bind (.forM fun _ _ => .printLine _) (.printLine _)) h
    rcases Scene.generate_outcome hwell hchecked hpasses hgenerate with
      ⟨⟨e, rfl⟩, hgrows⟩ | ⟨⟨result, rfl⟩, files, hfiles, hplace⟩
    · exact .inl ⟨⟨e, rfl⟩, hgrows⟩
    · exact .inr ⟨rfl, plan, files, rfl, hfiles, hplace⟩

/-- The command that generates a scene is all or nothing. If it fails at any stage, what stood on the
disk still stands there, and only the directory for the scene and the parents that it lacked may be
new. If it succeeds, the scene has the contents of the rendered files, if these have proper paths,
and nothing else has changed outside of the scene. -/
theorem execute_new_atomic {arguments : List String} {environment : String → Option String}
    (hwell : d.WellFormed)
    (harguments : Invocation.ofArguments environment arguments =
      .ok ⟨.new request output? force json, verbose⟩)
    (hpasses : ∀ out, output? = some out → ∀ scene : Name, scene.text? = some request.name →
      ¬d.PassesThrough out scene) :
    match (execute arguments environment now : StateM Disk Outcome).run d with
    | (outcome, d') =>
      (outcome.code ≠ 0 → d.Grows (output?.getD d.herePath) d') ∧
      (outcome.code = 0 → ∃ plan files, request.plan d d.herePath = .ok plan ∧
        plan.render d now = .ok files ∧
        ∃ (scene : Name) (parent : List Name), scene.text? = some request.name ∧
          d.Leads (output?.getD d.herePath) parent ∧
          ((∀ file ∈ files, file.path.IsNormal) → Scene.AreNamed files ∧
            ∀ rest, d'.item? (parent ++ scene :: rest) = Scene.contents files rest) ∧
          ∀ names, ¬parent ++ [scene] <+: names → d'.item? names = d.item? names ∨
            d.item? names = none ∧ d'.item? names = some .directory ∧
              d.OnTheWay (output?.getD d.herePath) names) := by
  have hout (scene : Name) (hscene : scene.text? = some request.name) :
      ¬d.PassesThrough (output?.getD d.herePath) scene := by
    cases output? with
    | none => exact not_passesThrough_herePath hwell scene
    | some out => exact hpasses out rfl scene hscene
  rw [execute, harguments]
  rcases hrun : carryOut (runNew now verbose request output? force json) ⟨"", ""⟩ d with
    ⟨⟨r, console⟩, d'⟩
  have hexecuted : ((run now ⟨.new request output? force json, verbose⟩).run.run ⟨"", ""⟩ :
      StateM Disk (Except Error Unit × Console)).run d = ((r, console), d') := hrun
  simp only [StateT.run_bind, hexecuted]
  rcases runNew_outcome hwell hout hrun with ⟨⟨e, rfl⟩, hgrows⟩ | ⟨rfl, hplace⟩
  · exact ⟨fun _ => hgrows, fun hcode => absurd hcode (code_ne_zero_of_failure e console)⟩
  · exact ⟨fun hcode => absurd rfl hcode, fun _ => hplace⟩

end

/-- A disk with a project and a kind of one file. -/
def diskOfProject : Disk where
  entries :=
    [(.of "scenegen.toml", .file
        ("[project]\nname = \"App\"\n[author]\ndeveloper = \"Ann\"\ncompany = \"Co\"\n").toUTF8),
      (.of "templates", .directory
        [(.of "header.swift", .file "".toUTF8),
          (.of "bare", .directory [(.of "View.swift", .file "view".toUTF8)])])]
  here := []

theorem execute_new_atomic_in_project :
    ∃ outcome d', (execute ["new", "Login", "-kbare", "-oScenes"] (fun _ => none)
        ⟨2024, 5, 6, 12, 0, 0, 0, 0⟩ : StateM Disk Outcome).run diskOfProject = (outcome, d') ∧
      outcome.code = 0 ∧ ∀ names, ¬[.of "Scenes", .of "Login"] <+: names →
        d'.item? names = diskOfProject.item? names ∨
          diskOfProject.item? names = none ∧ d'.item? names = some .directory ∧
            diskOfProject.OnTheWay (.ofString "Scenes") names := by
  have hlinks := Scene.not_link_of_prefix_scenes (d := diskOfProject) nofun
  have hcode : ((execute ["new", "Login", "-kbare", "-oScenes"] (fun _ => none)
      ⟨2024, 5, 6, 12, 0, 0, 0, 0⟩ : StateM Disk Outcome).run diskOfProject).1.code = 0 := by
    decide +kernel
  have hatomic := @execute_new_atomic diskOfProject _ ⟨2024, 5, 6, 12, 0, 0, 0, 0⟩ false false false
    ⟨"Login", "bare", [], none⟩ (some (.ofString "Scenes"))
    ["new", "Login", "-kbare", "-oScenes"] (fun _ => none) ⟨rfl⟩ rfl fun out hout _ _ => by
      cases hout
      exact not_passesThrough_of_names Scene.moves_scenes hlinks
  obtain ⟨plan, files, -, -, scene, parent, hscene, ⟨links, trail, hroute⟩, -, helsewhere⟩ :=
    hatomic.2 hcode
  obtain rfl := Scene.eq_of_text?_login hscene
  obtain ⟨rfl, -⟩ := eq_of_filled_route Scene.moves_scenes hlinks hroute
  exact ⟨_, _, rfl, hcode, helsewhere⟩

end Command

end Scaffold
