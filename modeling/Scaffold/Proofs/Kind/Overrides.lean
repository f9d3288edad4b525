import Scaffold.Kind.Builtin

/-!
Overriding files of a kind. The files of a kind are a map from paths, by components, to files in the
order of first insertion: an override takes the place of the file with its path or is a new last
file. After a number of overrides each file is the last one given for its path.
-/

namespace Scaffold

variable {kind : KindTemplates} {file f g : TemplateFile} {files overrides : List TemplateFile}
  {path : List Path.Component}

/-- The paths of some files, as they are compared. -/
def pathsOf (files : List TemplateFile) : List (List Path.Component) :=
  files.map (·.path.components)

/-- The last of some files with this path. -/
def lastAt? (path : List Path.Component) (files : List TemplateFile) : Option TemplateFile :=
  files.reverse.find? (·.path.components = path)

@[simp] theorem pathsOf_cons (file : TemplateFile) (files : List TemplateFile) :
    pathsOf (file :: files) = file.path.components :: pathsOf files := rfl

theorem lastAt?_cons (path : List Path.Component) (file : TemplateFile)
    (files : List TemplateFile) : lastAt? path (file :: files) =
      (lastAt? path files).or (if file.path.components = path then some file else none) := by
  rw [lastAt?, List.reverse_cons, List.find?_append, lastAt?]
  by_cases h : file.path.components = path <;> simp [h]

/-- An override keeps the paths and their order, and a new path is the last one. -/
theorem pathsOf_override (file : TemplateFile) (files : List TemplateFile) :
    pathsOf (file.override files) =
      if file.path.components ∈ pathsOf files then pathsOf files
      else pathsOf files ++ [file.path.components] := by
  induction files with
  | nil => simp [TemplateFile.override, pathsOf]
  | cons first files ih =>
    rw [TemplateFile.override]
    by_cases hfirst : first.path.components = file.path.components
    · simp [hfirst]
    · rw [if_neg hfirst, pathsOf_cons, ih, pathsOf_cons]
      by_cases hmem : file.path.components ∈ pathsOf files
      · simp [hmem]
      · simp [hmem, Ne.symm hfirst]

theorem nodup_pathsOf_override (h : (pathsOf files).Nodup) :
    (pathsOf (file.override files)).Nodup := by
  rw [pathsOf_override]
  split
  · exact h
  · next hnew =>
    refine List.nodup_append.2 ⟨h, by simp, fun path hpath new hsingle => ?_⟩
    rw [List.mem_singleton.1 hsingle]
    exact fun heq => hnew (heq ▸ hpath)

/-- What is not replaced stays. -/
theorem mem_override_of_nodup (h : (pathsOf files).Nodup) (hmem : f ∈ file.override files) :
    f = file ∨ f ∈ files ∧ f.path.components ≠ file.path.components := by
  induction files with
  | nil => exact .inl (List.mem_singleton.1 hmem)
  | cons first files ih =>
    rw [pathsOf_cons, List.nodup_cons] at h
    rw [TemplateFile.override] at hmem
    split at hmem
    · next hfirst =>
      refine (List.mem_cons.1 hmem).imp_right fun hrest => ⟨List.mem_cons_of_mem _ hrest, ?_⟩
      intro hsame
      apply h.1
      rw [hfirst, ← hsame]
      exact List.mem_map_of_mem hrest
    · next hfirst =>
      rcases List.mem_cons.1 hmem with rfl | hrest
      · exact .inr ⟨List.mem_cons_self, hfirst⟩
      · exact (ih h.2 hrest).imp_right fun hkept => ⟨List.mem_cons_of_mem _ hkept.1, hkept.2⟩

/-- The same override a second time changes nothing. -/
theorem override_override (file : TemplateFile) (files : List TemplateFile) :
    file.override (file.override files) = file.override files := by
  induction files with
  | nil => simp [TemplateFile.override]
  | cons first files ih =>
    by_cases hfirst : first.path.components = file.path.components
    · simp [TemplateFile.override, hfirst]
    · simp [TemplateFile.override, hfirst, ih]

/-- Overrides of different paths may change places if they are not both new. -/
theorem override_comm (hne : f.path.components ≠ g.path.components)
    (h : f.path.components ∈ pathsOf files ∨ g.path.components ∈ pathsOf files) :
    g.override (f.override files) = f.override (g.override files) := by
  induction files with
  | nil => simp [pathsOf] at h
  | cons first files ih =>
    by_cases hf : first.path.components = f.path.components
    · simp [TemplateFile.override, hf, hne]
    · by_cases hg : first.path.components = g.path.components
      · simp [TemplateFile.override, hg, hne.symm]
      · have hrest : f.path.components ∈ pathsOf files ∨ g.path.components ∈ pathsOf files := by
          simpa [Ne.symm hf, Ne.symm hg] using h
        simp [TemplateFile.override, hf, hg, ih hrest]

theorem nodup_pathsOf_foldl (h : (pathsOf kind.files).Nodup) :
    (pathsOf (overrides.foldl KindTemplates.withOverride kind).files).Nodup := by
  induction overrides generalizing kind with
  | nil => exact h
  | cons file overrides ih => exact ih (nodup_pathsOf_override h)

/-- The new paths come behind the ones that were there, in the order in which they first appear. -/
theorem pathsOf_foldl (kind : KindTemplates) (overrides : List TemplateFile) :
    pathsOf (overrides.foldl KindTemplates.withOverride kind).files = pathsOf kind.files ++
      ((pathsOf overrides).filter (· ∉ pathsOf kind.files)).eraseDups := by
  induction overrides generalizing kind with
  | nil => simp [pathsOf]
  | cons file overrides ih =>
    rw [List.foldl_cons, ih, KindTemplates.withOverride, pathsOf_override]
    by_cases hmem : file.path.components ∈ pathsOf kind.files
    · simp [hmem]
    · have hfilter : (pathsOf overrides).filter
          (· ∉ pathsOf kind.files ++ [file.path.components]) =
            ((pathsOf overrides).filter (· ∉ pathsOf kind.files)).filter
              (!· == file.path.components) := by
        rw [List.filter_filter]
        refine List.filter_congr fun path _ => ?_
        by_cases hpath : path = file.path.components <;> simp [hpath]
      rw [if_neg hmem, hfilter, pathsOf_cons, List.filter_cons_of_pos (by simpa using hmem),
        List.eraseDups_cons, List.append_assoc, List.singleton_append]

/-- Each file is the last one that is given for its path, or was there if none is. -/
theorem lastAt?_of_mem_foldl (h : (pathsOf kind.files).Nodup)
    (hmem : f ∈ (overrides.foldl KindTemplates.withOverride kind).files) :
    lastAt? f.path.components overrides = some f ∨
      lastAt? f.path.components overrides = none ∧ f ∈ kind.files := by
  induction overrides generalizing kind with
  | nil => exact .inr ⟨rfl, hmem⟩
  | cons file overrides ih =>
    rw [lastAt?_cons]
    rcases ih (nodup_pathsOf_override h) hmem with hlast | ⟨hlast, hbefore⟩
    · exact .inl (by rw [hlast, Option.some_or])
    · rw [hlast, Option.none_or]
      rcases mem_override_of_nodup h hbefore with rfl | ⟨hkept, hne⟩
      · exact .inl (if_pos rfl)
      · exact .inr ⟨if_neg (Ne.symm hne), hkept⟩

theorem name_header_foldl (kind : KindTemplates) (overrides : List TemplateFile) :
    (overrides.foldl KindTemplates.withOverride kind).name = kind.name ∧
      (overrides.foldl KindTemplates.withOverride kind).header = kind.header := by
  induction overrides generalizing kind with
  | nil => exact ⟨rfl, rfl⟩
  | cons file overrides ih => exact ih (kind.withOverride file)

/-- After some overrides the files of a kind are those that were there, in their places, and behind
them one for each new path, in the order of first appearance; each is the last one given for its
path, as it is spelled there. So an override may be repeated, and two of different paths may change
places if they are not both new. -/
theorem foldl_withOverride (h : (pathsOf kind.files).Nodup) (overrides : List TemplateFile) :
    let result := overrides.foldl KindTemplates.withOverride kind
    result.name = kind.name ∧ result.header = kind.header ∧ (pathsOf result.files).Nodup ∧
    pathsOf result.files = pathsOf kind.files ++
      ((pathsOf overrides).filter (· ∉ pathsOf kind.files)).eraseDups ∧
    (∀ f ∈ result.files, lastAt? f.path.components overrides = some f ∨
      lastAt? f.path.components overrides = none ∧ f ∈ kind.files) ∧
    (∀ f, (result.withOverride f).withOverride f = result.withOverride f) ∧
    ∀ f g, f.path.components ≠ g.path.components →
      f.path.components ∈ pathsOf result.files ∨ g.path.components ∈ pathsOf result.files →
      (result.withOverride f).withOverride g = (result.withOverride g).withOverride f := by
  intro result
  obtain ⟨hname, hheader⟩ := name_header_foldl kind overrides
  refine ⟨hname, hheader, nodup_pathsOf_foldl h, pathsOf_foldl kind overrides,
    fun f hf => lastAt?_of_mem_foldl h hf, fun f => ?_, fun f g hne hmem => ?_⟩
  · simp only [KindTemplates.withOverride, override_override]
  · simp only [KindTemplates.withOverride, override_comm hne hmem]

/-- Spellings of one path count as one, but a dot at the start makes another path. -/
theorem foldl_withOverride_of_respelled :
    let kind : KindTemplates := ⟨"mine", "",
      [⟨.ofString "Test/Mock.swift", "a"⟩, ⟨.ofString "View.swift", "b"⟩]⟩
    let overrides : List TemplateFile := [⟨.ofString "Test//Mock.swift", "c"⟩,
      ⟨.ofString "Cell.swift", "d"⟩, ⟨.ofString "./View.swift", "e"⟩,
      ⟨.ofString "Test/./Mock.swift", "f"⟩, ⟨.ofString "Cell.swift/", "g"⟩]
    let result := overrides.foldl KindTemplates.withOverride kind
    (pathsOf kind.files).Nodup ∧
    result.files = [⟨.ofString "Test/./Mock.swift", "f"⟩, ⟨.ofString "View.swift", "b"⟩,
      ⟨.ofString "Cell.swift/", "g"⟩, ⟨.ofString "./View.swift", "e"⟩] ∧
    (∀ f ∈ result.files, lastAt? f.path.components overrides = some f ∨
      lastAt? f.path.components overrides = none ∧ f ∈ kind.files) := by
  intro kind overrides result
  have hdistinct : (pathsOf kind.files).Nodup := by decide
  obtain ⟨-, -, -, -, hfiles, -⟩ := foldl_withOverride hdistinct overrides
  exact ⟨hdistinct, by decide, hfiles⟩

/-- The files of `detail` take the places of those of `base`. -/
example : pathsOf Kind.Builtin.detail.files = pathsOf Kind.Builtin.baseFiles := by
  decide

end Scaffold
