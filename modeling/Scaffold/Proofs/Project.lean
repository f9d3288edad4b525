import Scaffold.Project
import Scaffold.Proofs.Disk.Directory
import Scaffold.Proofs.Disk.Reading

/-!
The project that a directory is in. Of a path and its parents the nearest with a configuration file
counts, and it counts whatever is in that file. What the search gives therefore depends on nothing
that is further away.
-/

namespace Scaffold.Project

def configName : Name := .of Config.fileName

/-- In the directory the name of a configuration file stands for a file with this content, links
followed, and its path is not too long to be followed. -/
structure HasConfig (d : Disk) (root : Path) (content : ByteArray) : Prop where
  size : (configPath root).bytes.length ≤ Disk.longestPath
  holds : d.Holds root configName content

/-- The project that the content of a configuration file makes, or what is wrong with it. -/
def ofContent (root : Path) (content : ByteArray) : Except Error Project :=
  match String.fromUTF8? content with
  | none => .error (.configUnreadable .notText)
  | some text =>
    match Config.parse? text with
    | none => .error .configInvalid
    | some config => .ok ⟨root, config⟩

theorem ofContent_toUTF8 (root : Path) (text : String) : ofContent root text.toUTF8 =
    match Config.parse? text with
    | none => .error .configInvalid
    | some config => .ok ⟨root, config⟩ := by
  rw [ofContent, Disk.fromUTF8?_toUTF8]

variable {d d' : Disk} {start p : Path} {content : ByteArray}

theorem configPath_eq (root : Path) : configPath root = root.join ⟨[configName]⟩ := by
  have hname : Path.ofString Config.fileName = ⟨[configName.toPiece]⟩ := by decide
  rw [configPath, hname]

theorem look?_configPath_iff (habsolute : p.isAbsolute = true) :
    d.look? (configPath p) = some (.file content) ↔ HasConfig d p content := by
  rw [configPath_eq, Disk.look?_join_eq_file_iff (Path.bytes_ne_nil habsolute), ← configPath_eq]
  exact ⟨fun h => ⟨h.1, h.2⟩, fun h => ⟨h.size, h.holds⟩⟩

theorem isFile_iff (habsolute : p.isAbsolute = true) :
    d.isFile (configPath p) = true ↔ ∃ content, HasConfig d p content := by
  simp only [← look?_configPath_iff habsolute]
  rw [Disk.isFile]
  constructor
  · intro h
    split at h
    · next content hlook => exact ⟨content, hlook⟩
    · cases h
  · rintro ⟨content, hlook⟩
    rw [hlook]

/-- The file that is looked for is the file that is read. -/
theorem load_of_hasConfig (habsolute : p.isAbsolute = true) (h : HasConfig d p content) :
    load d p = ofContent p content := by
  obtain ⟨place, hresolve⟩ := Disk.look?_eq_some_iff.1 ((look?_configPath_iff habsolute).2 h)
  have hbytes : d.readBytes (configPath p) = .ok content := by
    rw [Disk.readBytes, Disk.get, hresolve]
    rfl
  rw [load, Config.read, Disk.readText, hbytes, ofContent]
  cases htext : String.fromUTF8? content with
  | none =>
    simp only [bind, Except.bind, htext]
    rfl
  | some text =>
    simp only [bind, Except.bind, htext, pure, Except.pure, Except.mapError]
    cases Config.parse? text <;> rfl

theorem isAbsolute_of_mem_ancestors (habsolute : start.isAbsolute = true)
    (h : p ∈ start.ancestors) : p.isAbsolute = true :=
  (Path.of_mem_ancestors h).2.trans habsolute

theorem find_eq_none_iff (habsolute : start.isAbsolute = true) :
    find d start = .ok none ↔ ∀ p ∈ start.ancestors, ∀ content, ¬HasConfig d p content := by
  have hfind : find d start = .ok none ↔
      (start.ancestors.find? fun p => d.isFile (configPath p)) = none := by
    rw [find]
    constructor
    · intro h
      split at h
      · next hnone => exact hnone
      · next root _ =>
        cases hload : load d root <;> rw [hload] at h <;> cases h
    · intro h
      rw [h]
  rw [hfind, List.find?_eq_none]
  refine forall₂_congr fun p hp => ?_
  rw [isFile_iff (isAbsolute_of_mem_ancestors habsolute hp), not_exists]

/-- What the nearest configuration file says is the result. -/
theorem find_of_nearest {nearer farther : List Path} (habsolute : start.isAbsolute = true)
    (hancestors : start.ancestors = nearer ++ p :: farther)
    (hnearer : ∀ q ∈ nearer, ∀ content, ¬HasConfig d q content) (h : HasConfig d p content) :
    find d start = (load d p).map some := by
  have hall : ∀ q ∈ nearer ++ p :: farther, q.isAbsolute = true := by
    rw [← hancestors]
    exact fun q => isAbsolute_of_mem_ancestors habsolute
  have hfirst : (start.ancestors.find? fun q => d.isFile (configPath q)) = some p := by
    rw [List.find?_eq_some_iff_append]
    refine ⟨?_, nearer, farther, hancestors, fun q hq => ?_⟩
    · exact (isFile_iff (hall p (by simp))).2 ⟨content, h⟩
    · rw [Bool.not_eq_true', ← Bool.not_eq_true, isFile_iff (hall q (by simp [hq])), not_exists]
      exact hnearer q hq
  rw [find, hfirst]

/-- A project is found by the nearest configuration file alone. Along a path and its parents, up to
the root, none is found iff there is no such file. The first one decides: it is loaded, what is
wrong with it is an error, and what stands in the directories behind it does not matter. The file is
an entry of its directory by that name, or what a link leads to that is one; a directory by that
name is no such file. -/
theorem find_nearest (d : Disk) {start : Path} (habsolute : start.isAbsolute = true) :
    (start.ancestors[0]? = some start ∧ ∀ i p, start.ancestors[i]? = some p →
      start.ancestors[i + 1]? = p.parent? ∧ (p.parent? = none ↔ p.components = [.root])) ∧
    (∀ p ∈ start.ancestors,
      (∀ content, HasConfig d p content → ∃ es, d.list p = .ok es ∧
        (Assoc.find? configName es = some (.file content) ∨
          ∃ target, Assoc.find? configName es = some (.link target))) ∧
      ∀ content es, d.list p = .ok es → Assoc.find? configName es = some (.file content) →
        (configPath p).bytes.length ≤ Disk.longestPath → HasConfig d p content) ∧
    (find d start = .ok none ↔ ∀ p ∈ start.ancestors, ∀ content, ¬HasConfig d p content) ∧
    ∀ nearer p farther content, start.ancestors = nearer ++ p :: farther →
      (∀ q ∈ nearer, ∀ content', ¬HasConfig d q content') → HasConfig d p content →
      find d start = (load d p).map some ∧ load d p = ofContent p content ∧
      ∀ d' : Disk, (∀ q ∈ nearer ++ [p], ∀ content', HasConfig d' q content' ↔
        HasConfig d q content') → find d' start = find d start := by
  refine ⟨⟨?_, ?_⟩, ?_, find_eq_none_iff habsolute, ?_⟩
  · rw [Path.ancestors, List.getElem?_cons_zero]
  · intro i p hp
    exact ⟨Path.getElem?_ancestors_succ hp, Path.parent?_eq_none_iff
      (isAbsolute_of_mem_ancestors habsolute (List.mem_of_getElem? hp))⟩
  · intro p hp
    exact ⟨fun content h => h.holds.exists_list,
      fun content es hlist hfind hsize => ⟨hsize, Disk.holds_of_list hlist hfind⟩⟩
  · intro nearer p farther content hancestors hnearer h
    have hp : p.isAbsolute = true :=
      isAbsolute_of_mem_ancestors habsolute
        (hancestors ▸ List.mem_append_right _ List.mem_cons_self)
    have hfind := find_of_nearest habsolute hancestors hnearer h
    refine ⟨hfind, load_of_hasConfig hp h, fun d' hsame => ?_⟩
    have h' := (hsame p (List.mem_append_right _ List.mem_cons_self) content).2 h
    have hnearer' : ∀ q ∈ nearer, ∀ content, ¬HasConfig d' q content := fun q hq content hconfig =>
      hnearer q hq content ((hsame q (List.mem_append_left _ hq) content).1 hconfig)
    rw [hfind, find_of_nearest habsolute hancestors hnearer' h', load_of_hasConfig hp h,
      load_of_hasConfig hp h']

/-- The nearest file lacks the author's table, and further away stands a complete one. By the name
of the nearest of all stands a directory. -/
theorem find_nearest_of_broken :
    let whole : ByteArray := "[project]\nname='a'\n[author]\ndeveloper='b'\ncompany='c'".toUTF8
    let broken : ByteArray := "[project]\nname='a'".toUTF8
    let inner : Entry := .directory [(.of "scenegen.toml", .file broken),
      (.of "c", .directory [(.of "scenegen.toml", .directory [])])]
    let d : Disk := ⟨[(.of "scenegen.toml", .file whole), (.of "b", inner)], []⟩
    let d' : Disk := ⟨[(.of "b", inner)], []⟩
    let start : Path := .ofString "/b/c"
    load d (.ofString "/") = .ok ⟨.ofString "/", "a", "b", "c", "templates", "%-m/%-d/%y"⟩ ∧
      find d start = .error .configInvalid ∧ find d' start = find d start := by
  intro whole broken inner d d' start
  have hwhole : HasConfig d (.ofString "/") whole := (look?_configPath_iff rfl).1 rfl
  have hbroken : HasConfig d (.ofString "/b") broken := (look?_configPath_iff rfl).1 rfl
  have hnearer : ∀ q ∈ [Path.ofString "/b/c"], ∀ content, ¬HasConfig d q content := by
    intro q hq content h
    cases List.mem_singleton.1 hq
    cases (look?_configPath_iff rfl).2 h
  have hsame : ∀ q ∈ [Path.ofString "/b/c"] ++ [.ofString "/b"], ∀ content,
      HasConfig d' q content ↔ HasConfig d q content := by
    intro q hq content
    rcases List.mem_append.1 hq with hq | hq <;> cases List.mem_singleton.1 hq <;>
      rw [← look?_configPath_iff rfl, ← look?_configPath_iff rfl] <;> rfl
  have hancestors : start.ancestors = [.ofString "/b/c"] ++ .ofString "/b" :: [.ofString "/"] := by
    decide +kernel
  have hparse : Config.parse? "[project]\nname='a'\n[author]\ndeveloper='b'\ncompany='c'" =
      some ⟨"a", "b", "c", "templates", "%-m/%-d/%y"⟩ := by decide +kernel
  have hparse' : Config.parse? "[project]\nname='a'" = none := by decide +kernel
  obtain ⟨hfind, hload, hnear⟩ :=
    (@find_nearest d start rfl).2.2.2 _ _ _ broken hancestors hnearer hbroken
  refine ⟨?_, ?_, hnear d' hsame⟩
  · rw [load_of_hasConfig rfl hwhole, ofContent_toUTF8, hparse]
  · rw [hfind, hload, ofContent_toUTF8, hparse']
    rfl

end Scaffold.Project
