import Mathlib.Tactic.MkIffOfInductiveProp
import Scaffold.Command.Invocation
import Scaffold.Proofs.Command.Arguments
import Scaffold.Proofs.Command.Parameter
import Scaffold.Proofs.Text.Run

/-!
The arguments of the command that expands a template. They are read successfully if and only if the
values of each option can be collected by themselves. Of several assignments to a key the last one
counts.
-/

namespace Scaffold.Command

theorem takes_anyText_iff {before values after : List String} :
    Takes anyText before values after ↔ after = before ++ values := by
  have hmapM : values.mapM anyText = .ok values := by
    induction values with
    | nil => rfl
    | cons value values ih =>
      rw [List.mapM_cons, ih]
      rfl
  simp [Takes, hmapM]

theorem path_eq_ok_iff {name text : String} {p : Path} :
    path name text = .ok p ↔ text ≠ "" ∧ p = .ofString text := by
  rw [path]
  split
  · next h => simp [h]
  · next h => simp [h, eq_comm]

namespace RenderArguments

open Grammar Parameter

theorem mem_parameters_iff {p : Parameter RenderArguments} : p ∈ grammar.parameters ↔
    p = .flag "verbose" (some 'v') (·.verbose) ({ · with verbose := true }) ∨
    p = .halting "help" 'h' .help ∨
    p = .once "name" (some 'n') anyText (·.name?) (fun s a => { a with name? := some s }) ∨
    p = .many "property" (some 'p') anyText
      (fun s a => { a with properties := a.properties ++ [s] }) ∨
    p = .once "model" (some 'm') (path "model") (·.model?)
      (fun q a => { a with model? := some q }) ∨
    p = .once "context" (some 'c') (path "context") (·.context?)
      (fun q a => { a with context? := some q }) ∨
    p = .many "var" none keyAndValue (fun v a => { a with bindings := a.bindings ++ [v] }) := by
  simp [grammar, commonParameters]

theorem lawful_grammar : grammar.Lawful where
  nodup_names := by decide
  isGiven_eq := by
    rintro p _ value a a' hp ⟨⟩ h
    rcases mem_parameters_iff.1 hp with rfl | rfl | rfl | rfl | rfl | rfl | rfl <;>
      simp only [flag_give_eq_ok_iff, once_give_eq_ok_iff, many_give_eq_ok_iff,
        halting_give_eq_ok_iff] at h <;>
      grind

theorem collect_operand_eq_ok_iff {text : String} {a a' : RenderArguments} :
    grammar.collect a (.operand text) = .ok a' ↔
      a.template? = none ∧
        ∃ p, path "TEMPLATE" text = .ok p ∧ a' = { a with template? := some p } := by
  obtain ⟨_ | p, _, _, _, _, _, _⟩ := a
  · simp only [collect, readOperand, grammar, Reading.settle]
    cases path "TEMPLATE" text <;> simp [bind, Except.bind, pure, Except.pure, eq_comm]
  · constructor
    · rintro ⟨⟩
    · rintro ⟨⟨⟩, -⟩

/-- The arguments after all that is given has been collected. -/
@[mk_iff]
structure Gains (given : List Given) (a a' : RenderArguments) : Prop where
  help : valuesOf "help" given = []
  verbose : (valuesOf "verbose" given).length + a.verbose.toNat = a'.verbose.toNat
  template? : Takes (path "TEMPLATE") a.template?.toList (operandsOf given) a'.template?.toList
  name? : Takes anyText a.name?.toList (valuesOf "name" given) a'.name?.toList
  properties : Takes anyText a.properties (valuesOf "property" given) a'.properties
  model? : Takes (path "model") a.model?.toList (valuesOf "model" given) a'.model?.toList
  context? : Takes (path "context") a.context?.toList (valuesOf "context" given) a'.context?.toList
  bindings : Takes keyAndValue a.bindings (valuesOf "var" given) a'.bindings

variable {a a' : RenderArguments} {given : List Given}

theorem gains_nil : Gains [] a a' ↔ a = a' := by
  constructor
  · intro h
    have hverbose : a.verbose = a'.verbose := by
      have htoNat := h.verbose
      cases hv : a.verbose <;> cases hv' : a'.verbose <;> simp_all
    have htemplate := takes_once_nil.1 h.template?
    have hname := takes_once_nil.1 h.name?
    have hproperties := takes_nil.1 h.properties
    have hmodel := takes_once_nil.1 h.model?
    have hcontext := takes_once_nil.1 h.context?
    have hbindings := takes_nil.1 h.bindings
    obtain ⟨_, _, _, _, _, _, _⟩ := a
    rw [mk.injEq]
    exact ⟨htemplate.symm, hname.symm, hproperties.symm, hmodel.symm, hcontext.symm,
      hbindings.symm, hverbose⟩
  · rintro rfl
    constructor <;> simp [takes_nil]

theorem gains_option {name value : String} (hname : name ∈ grammar.parameters.map Parameter.name) :
    Gains (.option name value :: given) a a' ↔
      ∃ a₁, grammar.collect a (.option name value) = .ok a₁ ∧ Gains given a₁ a' := by
  obtain ⟨p, hp, rfl⟩ := List.mem_map.1 hname
  rw [lawful_grammar.collect_option hp]
  simp only [gains_iff, valuesOf_option, operandsOf_option]
  rcases mem_parameters_iff.1 hp with rfl | rfl | rfl | rfl | rfl | rfl | rfl
  · have htoNat : (valuesOf "verbose" given).length + 1 + a.verbose.toNat = a'.verbose.toNat ↔
        a.verbose = false ∧ (valuesOf "verbose" given).length + 1 = a'.verbose.toNat := by
      cases a.verbose <;> cases a'.verbose <;> simp
    simp only [flag_give_eq_ok_iff, flag_name, String.reduceEq, if_true, if_false, List.length_cons,
      htoNat]
    grind
  · simp [halting]
  · simp only [once_give_eq_ok_iff, once_name, String.reduceEq, if_true, if_false, takes_once_cons]
    grind
  · simp only [many_give_eq_ok_iff, many_name, String.reduceEq, if_true, if_false, takes_cons]
    grind
  · simp only [once_give_eq_ok_iff, once_name, String.reduceEq, if_true, if_false, takes_once_cons]
    grind
  · simp only [once_give_eq_ok_iff, once_name, String.reduceEq, if_true, if_false, takes_once_cons]
    grind
  · simp only [many_give_eq_ok_iff, many_name, String.reduceEq, if_true, if_false, takes_cons]
    grind

theorem gains_operand {text : String} : Gains (.operand text :: given) a a' ↔
    ∃ a₁, grammar.collect a (.operand text) = .ok a₁ ∧ Gains given a₁ a' := by
  simp only [collect_operand_eq_ok_iff, gains_iff, operandsOf_operand, valuesOf_operand,
    takes_once_cons]
  grind

/-- All that is given can be collected if and only if it takes the arguments to others. -/
theorem foldlM_collect_eq_ok_iff (hgiven : grammar.Knows given) :
    given.foldlM grammar.collect a = .ok a' ↔ Gains given a a' := by
  induction given generalizing a with
  | nil =>
    rw [gains_nil]
    exact Except.ok.injEq a a' ▸ Iff.rfl
  | cons item given ih =>
    have hrest : grammar.Knows given := fun name value hmem =>
      hgiven name value (List.mem_cons_of_mem item hmem)
    have hcons : Gains (item :: given) a a' ↔
        ∃ a₁, grammar.collect a item = .ok a₁ ∧ Gains given a₁ a' := by
      cases item with
      | option name value => exact gains_option (hgiven name value List.mem_cons_self)
      | operand text => exact gains_operand
    rw [List.foldlM_cons, bind_eq_ok_iff, hcons]
    exact exists_congr fun _ => and_congr_right fun _ => ih hrest

theorem read_eq_ok_iff {arguments : List String} :
    grammar.read ⟨{}, none⟩ arguments = .ok a ↔
      ∃ given, grammar.given? none arguments = some given ∧ Gains given {} a := by
  rw [lawful_grammar.read_eq_ok_iff]
  exact exists_congr fun _ => and_congr_right fun hgiven =>
    foldlM_collect_eq_ok_iff (knows_of_given? hgiven nofun)

theorem endsFor_grammar : grammar.EndsFor (· ≠ .version) where
  misuse := nofun
  parameter := by
    rintro p value a _ hp h rfl
    rcases mem_parameters_iff.1 hp with rfl | rfl | rfl | rfl | rfl | rfl | rfl <;>
      simp only [flag, halting, once, many] at h <;>
      grind
  operand := by
    rintro operand text a _ hoperand h rfl
    cases hoperand
    grind

end RenderArguments

/-- An assignment of a value to a key. The key ends at the first equals sign. -/
def Sets (text key value : String) : Prop :=
  text = key ++ "=" ++ value ∧ '=' ∉ key.toList

/-- Of the assignments to a key this is the last one. -/
def SetsLast (texts : List String) (key value : String) : Prop :=
  ∃ before text after, texts = before ++ text :: after ∧ Sets text key value ∧
    ∀ text ∈ after, ∀ value, ¬Sets text key value

section

variable {text key value : String} {texts : List String} {b : String × String}
  {bs : List (String × String)}

theorem sets_iff : Sets text key value ↔
    text.toList.takeWhile (· ≠ '=') = key.toList ∧
      text.toList.dropWhile (· ≠ '=') = '=' :: value.toList := by
  constructor
  · rintro ⟨rfl, hkey⟩
    have htext : (key ++ "=" ++ value).toList = key.toList ++ '=' :: value.toList := by simp
    have hhead : ∀ c ∈ ('=' :: value.toList).head?, decide (c ≠ '=') = false := by simp
    rw [htext]
    exact ⟨Text.takeWhile_run (Text.ne_of_not_mem hkey) hhead,
      Text.dropWhile_run (Text.ne_of_not_mem hkey) hhead⟩
  · rintro ⟨hkey, hvalue⟩
    refine ⟨String.toList_inj.1 ?_, fun hmem => ?_⟩
    · have hsplit := List.takeWhile_append_dropWhile (p := (· ≠ '=')) (l := text.toList)
      rw [hkey, hvalue] at hsplit
      simpa using hsplit.symm
    · rw [← hkey] at hmem
      have hne := List.all_eq_true.1 List.all_takeWhile _ hmem
      exact of_decide_eq_true hne rfl

theorem keyAndValue_eq_ok_iff :
    keyAndValue text = .ok b ↔ b.1 ≠ "" ∧ Sets text b.1 b.2 := by
  obtain ⟨key, value⟩ := b
  rw [keyAndValue, sets_iff]
  cases hdrop : text.toList.dropWhile (· ≠ '=') with
  | nil => exact iff_of_false nofun (by simp)
  | cons c rest =>
    have hc : c = '=' := by
      have hhead := List.head?_dropWhile_not (· ≠ '=') text.toList
      rw [hdrop] at hhead
      simpa using hhead
    cases htake : text.toList.takeWhile (· ≠ '=') with
    | nil =>
      refine iff_of_false nofun ?_
      rintro ⟨hne, hkey, -⟩
      exact hne (String.toList_eq_nil_iff.1 hkey.symm)
    | cons first run =>
      simp only [Except.ok.injEq, Prod.mk.injEq, String.ext_iff, String.toList_ofList, hc]
      constructor
      · rintro ⟨hkey, hvalue⟩
        refine ⟨?_, hkey, by rw [hvalue]⟩
        rintro rfl
        cases hkey
      · rintro ⟨-, hkey, hvalue⟩
        exact ⟨hkey, (List.cons.inj hvalue).2⟩

theorem sets_iff_of_keyAndValue (h : keyAndValue text = .ok b) :
    Sets text key value ↔ b = (key, value) := by
  obtain ⟨hkey, hvalue⟩ := sets_iff.1 (keyAndValue_eq_ok_iff.1 h).2
  rw [sets_iff, hkey, hvalue, Prod.ext_iff, String.ext_iff, String.ext_iff, List.cons.injEq]
  simp

theorem setsLast_cons : SetsLast (text :: texts) key value ↔
    SetsLast texts key value ∨
      Sets text key value ∧ ∀ text ∈ texts, ∀ value, ¬Sets text key value := by
  constructor
  · rintro ⟨before, last, after, heq, hlast, hafter⟩
    rcases before with _ | ⟨first, before⟩
    · cases heq
      exact .inr ⟨hlast, hafter⟩
    · cases heq
      exact .inl ⟨before, last, after, rfl, hlast, hafter⟩
  · rintro (⟨before, last, after, rfl, h⟩ | h)
    · exact ⟨text :: before, last, after, rfl, h⟩
    · exact ⟨[], text, texts, rfl, h⟩

/-- The last assignment to a key is the first one that is found from the end, if there is any. -/
theorem setsLast_iff (h : texts.mapM keyAndValue = .ok bs) (key value : String) :
    (SetsLast texts key value ↔ Assoc.find? key bs.reverse = some value) ∧
      ((∀ text ∈ texts, ∀ value, ¬Sets text key value) ↔ Assoc.find? key bs.reverse = none) := by
  rw [mapM_eq_ok_iff] at h
  induction h with
  | nil => simp [SetsLast]
  | @cons text b texts bs hfirst _ ih =>
    simp only [setsLast_cons, List.forall_mem_cons, ih, sets_iff_of_keyAndValue hfirst,
      List.reverse_cons, Assoc.find?_append, Assoc.find?_cons, Assoc.find?_nil, Prod.ext_iff]
    by_cases hkey : b.1 = key <;> cases Assoc.find? key bs.reverse <;> simp [hkey]

end

end Scaffold.Command
