import Scaffold.Command.Run
import Scaffold.Proofs.Disk.Action

/-!
Actions of a command, run from a disk and what has been printed to a disk and what has then been
printed. What a command prints on the way does not change what it does to the disk.
-/

namespace Scaffold.Command

open DiskAction

variable {α β : Type} {d d' : Disk} {console : Console}

/-- What an action gives, what has then been printed, and the disk after it. -/
def carryOut (action : Action (StateM Disk) α) (console : Console) (d : Disk) :
    (Except Error α × Console) × Disk :=
  (action.run.run console).run d

theorem carryOut_look : carryOut MonadDisk.look console d = ((.ok d, console), d) :=
  rfl

theorem carryOut_lift (r : Except Error α) : carryOut (lift r) console d = ((r, console), d) := by
  cases r <;> rfl

theorem carryOut_silently (action : ExceptT Error (StateM Disk) α) :
    carryOut (silently action) console d =
      (((runOn action d).1, console), (runOn action d).2) :=
  rfl

theorem carryOut_bind (action : Action (StateM Disk) α) (next : α → Action (StateM Disk) β) :
    carryOut (action >>= next) console d =
      match carryOut action console d with
      | ((.ok a, console'), d') => carryOut (next a) console' d'
      | ((.error e, console'), d') => ((.error e, console'), d') := by
  simp only [carryOut, ExceptT.run_bind, StateT.run_bind]
  rcases (action.run.run console).run d with ⟨⟨r, console'⟩, d'⟩
  cases r <;> rfl

/-- An action that only prints. -/
def OnlyPrints (action : Action (StateM Disk) Unit) : Prop :=
  ∀ console d, ∃ console', carryOut action console d = ((.ok (), console'), d)

namespace OnlyPrints

variable {action next : Action (StateM Disk) Unit}

theorem printLine (line : String) : OnlyPrints (printLine line) :=
  fun _ _ => ⟨_, rfl⟩

theorem bind (h : OnlyPrints action) (hnext : OnlyPrints next) :
    OnlyPrints (action >>= fun _ => next) := by
  intro console d
  obtain ⟨console', hrun⟩ := h console d
  rw [carryOut_bind, hrun]
  exact hnext console' d

theorem forM {as : List α} {f : α → Action (StateM Disk) Unit} (h : ∀ a ∈ as, OnlyPrints (f a)) :
    OnlyPrints (as.forM f) := by
  induction as with
  | nil => exact fun console d => ⟨console, rfl⟩
  | cons a as ih =>
    obtain ⟨ha, has⟩ := List.forall_mem_cons.1 h
    exact ha.bind (ih has)

end OnlyPrints

/-- What is printed only if it is asked for does not change what is done next. -/
theorem carryOut_if_bind {action next : Action (StateM Disk) Unit} {asked : Bool}
    {result : (Except Error Unit × Console) × Disk} (hprints : OnlyPrints action)
    (h : carryOut (if asked = true then action >>= fun _ => next else next) console d = result) :
    ∃ console', carryOut next console' d = result := by
  split at h
  · obtain ⟨console', hrun⟩ := hprints console d
    rw [carryOut_bind, hrun] at h
    exact ⟨console', h⟩
  · exact ⟨console, h⟩

/-- What is printed after an action on the disk does not change what that has done. -/
theorem carryOut_silently_bind {action : ExceptT Error (StateM Disk) α}
    {report : α → Action (StateM Disk) Unit} {r : Except Error Unit} {console' : Console}
    (hreport : ∀ a, OnlyPrints (report a))
    (h : carryOut (silently action >>= report) console d = ((r, console'), d')) :
    ∃ r', runOn action d = (r', d') ∧ r = r'.map fun _ => () := by
  rw [carryOut_bind, carryOut_silently] at h
  rcases hrun : runOn action d with ⟨r', d''⟩
  rw [hrun] at h
  cases r' with
  | error e =>
    cases h
    exact ⟨_, rfl, rfl⟩
  | ok a =>
    obtain ⟨console'', hprinted⟩ := hreport a console d''
    cases h.symm.trans hprinted
    exact ⟨_, rfl, rfl⟩

/-- The output of an action is this text, and there is none if it fails. The disk stays as it is. -/
def Outputs (action : Action (StateM Disk) Unit) (d : Disk) (r : Except Error String) : Prop :=
  ∀ console, ∃ notes, carryOut action console d =
    match r with
    | .ok text => ((.ok (), ⟨console.output ++ text, notes⟩), d)
    | .error e => ((.error e, ⟨console.output, notes⟩), d)

namespace Outputs

theorem print (text : String) : Outputs (print text) d (.ok text) :=
  fun console => ⟨console.notes, rfl⟩

theorem lift_bind {x : Except Error α} {next : α → Action (StateM Disk) Unit}
    {f : α → Except Error String} (h : ∀ a, Outputs (next a) d (f a)) :
    Outputs (lift x >>= next) d (x >>= f) := by
  intro console
  rw [carryOut_bind, carryOut_lift]
  cases x with
  | error e => exact ⟨console.notes, rfl⟩
  | ok a => exact h a console

theorem noteLine_bind {line : String} {next : Action (StateM Disk) Unit} {r : Except Error String}
    (h : Outputs next d r) : Outputs (noteLine line >>= fun _ => next) d r :=
  fun console => h ⟨console.output, console.notes ++ line ++ "\n"⟩

end Outputs

/-- What is left when the reading of the command line has ended the program. -/
def Halt.outcome : Halt → Outcome
  | .help => ⟨.success, ⟨helpText, ""⟩⟩
  | .version => ⟨.success, ⟨versionText, ""⟩⟩
  | .misuse m => ⟨.misuse m, ⟨"", ""⟩⟩

/-- What is left after a command, from what it has given and printed. -/
def Outcome.ofRun (r : Except Error Unit) (console : Console) : Outcome :=
  match r with
  | .ok () => ⟨.success, console⟩
  | .error e => ⟨.failure e, console⟩

section

variable [TemporaryNames] {arguments : List String} {environment : String → Option String}
  {now : Date.LocalTime}

theorem execute_of_error {h : Halt}
    (hhalt : Invocation.ofArguments environment arguments = .error h) :
    (execute arguments environment now : StateM Disk Outcome).run d = (h.outcome, d) := by
  rw [execute, hhalt]
  cases h <;> rfl

theorem execute_of_ok {i : Invocation} {r : Except Error Unit} {console : Console} {d' : Disk}
    (hi : Invocation.ofArguments environment arguments = .ok i)
    (hrun : carryOut (run now i) ⟨"", ""⟩ d = ((r, console), d')) :
    (execute arguments environment now : StateM Disk Outcome).run d =
      (Outcome.ofRun r console, d') := by
  have hexecuted : ((run now i).run.run ⟨"", ""⟩ :
      StateM Disk (Except Error Unit × Console)).run d = ((r, console), d') := hrun
  rw [execute, hi]
  simp only [StateT.run_bind, hexecuted]
  rcases r with e | ⟨⟩ <;> rfl

end

/-- What ends the program before there is a command prints nothing, or is a success. -/
theorem Halt.outcome_code {h : Halt} (hversion : h ≠ .version) :
    (h.outcome.code ≠ 0 → h.outcome.console.output = "") ∧
      ∀ output, h.outcome.code = 0 ∧ h.outcome.console.output = output ↔
        h = .help ∧ output = helpText := by
  cases h with
  | help => exact ⟨nofun, fun output => by simp [outcome, Outcome.code, eq_comm]⟩
  | version => exact absurd rfl hversion
  | misuse m => exact ⟨fun _ => rfl, fun output => by simp [outcome, Outcome.code]⟩

/-- A failure has an exit code that says so. -/
theorem code_ne_zero_of_failure (e : Error) (console : Console) :
    Outcome.code ⟨.failure e, console⟩ ≠ 0 := by
  cases e <;> exact nofun

end Scaffold.Command
