import Scaffold.Proofs.Disk.Temporary
import Scaffold.Scene.Write

/-!
Staging a scene. The files of a scene are written below a new directory, the site, in which there
are no links; so every path of a file leads below the site, and nothing outside of it changes,
whichever file cannot be written.
-/

namespace Scaffold

open DiskAction

namespace Disk

variable {d₁ d d' : Disk} {parent names : List Name} {site : Name} {moves : List Step}
  {temporary p : Path}

/-- Below the site, a directory without links, anything may have been created. All else is as it
was before the site was there. -/
structure Staged (d₁ : Disk) (site : List Name) (d : Disk) : Prop where
  here : d.here = d₁.here
  outside (names : List Name) : ¬site <+: names → d.item? names = d₁.item? names
  directory : d.item? site = some .directory
  noLink (rest : List Name) (target : Path) : d.item? (site ++ rest) ≠ some (.link target)

namespace Staged

theorem kept (h : d₁.Staged (parent ++ [site]) d) (hvacant : d₁.Vacant temporary parent site)
    (names : List Name) (item : Item) (hitem : d₁.item? names = some item) :
    d.item? names = some item := by
  rw [h.outside names, hitem]
  rintro ⟨rest, rfl⟩
  rw [d₁.isTree_item?.eq_none_of_none hvacant.item] at hitem
  cases hitem

theorem points (h : d₁.Staged (parent ++ [site]) d) (hvacant : d₁.Vacant temporary parent site) :
    d.Points temporary parent site :=
  hvacant.points.mono h.here (h.kept hvacant)

/-- What is created strictly below the site leaves all else as it was. -/
theorem update {place : List Name} (h : d₁.Staged place d) {name : Name} {item : Item}
    (hhere : d'.here = d.here) (hlink : ∀ target, item ≠ .link target)
    (hitem : d'.item? = Function.update d.item? (place ++ names ++ [name]) (some item)) :
    d₁.Staged place d' where
  here := hhere.trans h.here
  outside other hother := by
    rw [hitem, Function.update_of_ne, h.outside other hother]
    rintro rfl
    exact hother (by rw [List.append_assoc]; exact List.prefix_append _ _)
  directory := by
    rw [hitem, Function.update_of_ne (by simp), h.directory]
  noLink rest target := by
    rw [hitem]
    by_cases hrest : place ++ rest = place ++ names ++ [name]
    · rw [hrest, Function.update_self]
      exact fun heq => hlink target (Option.some.inj heq)
    · rw [Function.update_of_ne hrest]
      exact h.noLink rest target

/-- What is missing on the way of a path into the site is below the site. -/
theorem exists_eq_append_of_onTheWay (h : d₁.Staged (parent ++ [site]) d)
    (hvacant : d₁.Vacant temporary parent site)
    (hmoves : p.moves = temporary.moves ++ moves) (hup : .up ∉ moves)
    (habsolute : p.isAbsolute = temporary.isAbsolute) {place : List Name}
    (hmissing : d.item? place = none) (hway : d.OnTheWay p place) :
    ∃ rest : List Name, rest.map .into <+: moves ∧ place = parent ++ [site] ++ rest := by
  have hpoints := h.points hvacant
  obtain ⟨steps, links, trail, hpre, hroute⟩ := hway
  obtain ⟨links', trail', -, hsite⟩ := hpoints.arrives_append h.directory
  have horigin := origin_congr habsolute d
  rw [horigin] at hroute
  rw [hmoves] at hpre
  rcases List.prefix_or_prefix_of_prefix hpre (List.prefix_append _ _) with hbefore | ⟨ms, rfl⟩
  · obtain ⟨rest, hrest⟩ := hbefore
    rw [← hrest] at hsite
    obtain ⟨links₁, trail₁, mid, -, -, hmid⟩ := hsite.split d.isTree_item? hpoints.starts.origin
    obtain ⟨-, -, rfl⟩ := hmid.filled.unique hroute
    cases hmissing.symm.trans hmid.last_eq_directory
  · rw [List.prefix_append_right_inj] at hpre
    obtain ⟨links₂, trail₂, -, -, hbelow⟩ := hsite.filled.suffix hroute
    obtain ⟨rest, rfl⟩ := hbelow.exists_eq_map_into fun hmem => hup (hpre.mem hmem)
    refine ⟨rest, hpre, (hbelow.of_names fun rest target _ hlink => ?_).1⟩
    rw [Layout.filled] at hlink
    cases hitem : d.item? (parent ++ [site] ++ rest) with
    | none =>
      rw [hitem] at hlink
      cases hlink
    | some item =>
      rw [hitem] at hlink
      cases hlink
      exact h.noLink rest target hitem

/-- Where a path into the site leads. -/
theorem exists_of_arrives (h : d₁.Staged (parent ++ [site]) d)
    (hvacant : d₁.Vacant temporary parent site) (hup : .up ∉ moves)
    (habsolute : p.isAbsolute = temporary.isAbsolute) {last : List Name}
    (harrives : d.Arrives p (temporary.moves ++ moves) last) :
    ∃ names : List Name, moves = names.map .into ∧ last = parent ++ [site] ++ names := by
  obtain ⟨links, trail, -, hroute⟩ := harrives
  obtain ⟨links', trail', -, hsite⟩ :=
    (h.points hvacant).arrives_append h.directory
  have horigin := origin_congr habsolute d
  rw [horigin] at hroute
  obtain ⟨links'', trail'', -, -, hbelow⟩ := hsite.suffix hroute
  obtain ⟨names, rfl⟩ := hbelow.exists_eq_map_into hup
  exact ⟨names, rfl, (hbelow.of_names fun rest target _ => h.noLink rest target).1⟩

end Staged

/-- A directory that has just been created is a site in which nothing stands. -/
theorem exists_staged_of_createDirectory (h : d₁.createDirectory p = .ok d) :
    ∃ parent site, d₁.Vacant p parent site ∧ d₁.Staged (parent ++ [site]) d ∧
      ∀ name rest, d.item? (parent ++ [site] ++ name :: rest) = none := by
  obtain ⟨parent, site, hvacant, hhere, hitem⟩ := createDirectory_eq_ok h
  have hbelow : ∀ name rest, d.item? (parent ++ [site] ++ name :: rest) = none := by
    intro name rest
    rw [hitem, Function.update_of_ne (by simp),
      d₁.isTree_item?.eq_none_of_none hvacant.item]
  have hsite : d.item? (parent ++ [site]) = some .directory := by
    rw [hitem, Function.update_self]
  refine ⟨parent, site, hvacant, ⟨hhere, fun names hnames => ?_, hsite, fun rest target => ?_⟩,
    hbelow⟩
  · rw [hitem, Function.update_of_ne]
    rintro rfl
    exact hnames List.prefix_rfl
  · cases rest with
    | nil =>
      rw [List.append_nil, hsite]
      exact nofun
    | cons name rest =>
      rw [hbelow]
      exact nofun

section

variable [TemporaryNames]

/-- As long as everything stays that stands somewhere, a temporary directory can be removed. -/
theorem Staged.exists_removeAll_of_kept {out : Path} (h : d₁.Staged (parent ++ [site]) d)
    (hvacant : d₁.Vacant (d₁.freshPath out) parent site) (hhere : d'.here = d.here)
    (hkept : ∀ names item, d.item? names = some item → d'.item? names = some item) :
    ∃ d₂, d'.removeAll (d₁.freshPath out) = .ok d₂ ∧ d₂.here = d'.here ∧
      d₂.item? = d'.item?.clear (parent ++ [site]) := by
  have hpoints := (h.points hvacant).mono hhere hkept
  exact removeAll_eq_ok_of_directory hpoints hpoints.endsIn_freshPath.1
    (hkept _ _ h.directory)

/-- If a scene is staged in it, nothing else is removed. -/
theorem Staged.exists_removeAll {out : Path} (h : d₁.Staged (parent ++ [site]) d)
    (hvacant : d₁.Vacant (d₁.freshPath out) parent site) :
    ∃ d', d.removeAll (d₁.freshPath out) = .ok d' ∧ d'.here = d₁.here ∧ d'.item? = d₁.item? := by
  obtain ⟨d', hremove, hhere, hlayout⟩ :=
    h.exists_removeAll_of_kept hvacant rfl fun _ _ hitem => hitem
  refine ⟨d', hremove, hhere.trans h.here, ?_⟩
  funext names
  rw [hlayout]
  exact hvacant.clear_eq (h.outside names)

end

/-- Directories on the way of these moves may have been created below a place. -/
def Deepens (d : Disk) (place : List Name) (moves : List Step) (d' : Disk) : Prop :=
  ∀ rest, d'.item? (place ++ rest) = d.item? (place ++ rest) ∨
    d.item? (place ++ rest) = none ∧ d'.item? (place ++ rest) = some .directory ∧
      rest.map .into <+: moves

namespace Staged

/-- Creating directories in the site. -/
theorem createDirectories {r : Except Error Unit} (h : d₁.Staged (parent ++ [site]) d)
    (hvacant : d₁.Vacant temporary parent site) (hmoves : p.moves = temporary.moves ++ moves)
    (hup : .up ∉ moves) (habsolute : p.isAbsolute = temporary.isAbsolute)
    (hrun : runOn (DiskAction.createDirectories p) d = (r, d')) :
    d₁.Staged (parent ++ [site]) d' ∧ d.Deepens (parent ++ [site]) moves d' := by
  obtain ⟨hgrows, -⟩ := runOn_createDirectories_eq hrun
  refine ⟨⟨hgrows.here.trans h.here, fun place hplace => ?_, hgrows.item_eq h.directory,
    fun rest target hlink => ?_⟩, fun rest => ?_⟩
  · rcases hgrows.item place with heq | ⟨hmissing, -, hway⟩
    · rw [heq, h.outside place hplace]
    · obtain ⟨rest, -, rfl⟩ :=
        h.exists_eq_append_of_onTheWay hvacant hmoves hup habsolute hmissing hway
      exact absurd (List.prefix_append _ _) hplace
  · rcases hgrows.item (parent ++ [site] ++ rest) with heq | ⟨-, hdirectory, -⟩
    · exact h.noLink rest target (heq ▸ hlink)
    · cases hdirectory.symm.trans hlink
  · rcases hgrows.item (parent ++ [site] ++ rest) with heq | ⟨hmissing, hdirectory, hway⟩
    · exact .inl heq
    · obtain ⟨rest', hrest', heq⟩ :=
        h.exists_eq_append_of_onTheWay hvacant hmoves hup habsolute hmissing hway
      rw [List.append_cancel_left heq]
      rw [heq] at hmissing hdirectory
      exact .inr ⟨hmissing, hdirectory, hrest'⟩

/-- Writing a file in the site. -/
theorem writeFile {r : Except Error Unit} {content : ByteArray}
    (h : d₁.Staged (parent ++ [site]) d) (hvacant : d₁.Vacant temporary parent site)
    (hmoves : p.moves.dropLast = temporary.moves ++ moves) (hup : .up ∉ moves)
    (habsolute : p.isAbsolute = temporary.isAbsolute)
    (hrun : runOn (DiskAction.writeFile p content) d = (r, d')) :
    d₁.Staged (parent ++ [site]) d' ∧ ∃ d₂, d.Deepens (parent ++ [site]) moves d₂ ∧
      ((∃ e, r = .error e) ∧ d' = d₂ ∨ ∃ (names : List Name) (name : Name),
        moves = names.map .into ∧ p.EndsIn name 0 ∧
        d₂.item? (parent ++ [site] ++ names) = some .directory ∧
        d₂.item? (parent ++ [site] ++ names ++ [name]) ≠ some .directory ∧
        d'.item? = Function.update d₂.item? (parent ++ [site] ++ names ++ [name])
          (some (.file content))) := by
  have hcreated : ∀ {q : Path} {r' : Except Error Unit} {d₂ : Disk}, p.parent? = some q →
      runOn (DiskAction.createDirectories q) d = (r', d₂) →
      d₁.Staged (parent ++ [site]) d₂ ∧ d.Deepens (parent ++ [site]) moves d₂ := by
    intro q r' d₂ hparent hcreate
    exact h.createDirectories hvacant ((Path.moves_parent? hparent).trans hmoves) hup
      ((Path.isAbsolute_parent? hparent).trans habsolute) hcreate
  rcases runOn_writeFile_eq hrun with ⟨q, e, hparent, hcreate, rfl⟩ | ⟨d₂, hcreate, hwrite⟩
  · obtain ⟨hstaged, hdeepens⟩ := hcreated hparent hcreate
    exact ⟨hstaged, d', hdeepens, .inl ⟨⟨e, rfl⟩, rfl⟩⟩
  · have hbefore : d₁.Staged (parent ++ [site]) d₂ ∧ d.Deepens (parent ++ [site]) moves d₂ := by
      rcases hcreate with rfl | ⟨q, hparent, hcreate⟩
      · exact ⟨h, fun rest => .inl rfl⟩
      · exact hcreated hparent hcreate
    obtain ⟨hstaged, hdeepens⟩ := hbefore
    rcases runOn_perform_eq hwrite with ⟨rfl, hwritten⟩ | ⟨⟨e, rfl⟩, rfl⟩
    · have hplace : ∀ parent' name, d₂.Points p parent' name →
          ∃ names : List Name, moves = names.map .into ∧ parent' = parent ++ [site] ++ names := by
        intro parent' name hpoints
        have harrives := hpoints.arrives
        rw [hmoves] at harrives
        exact hstaged.exists_of_arrives hvacant hup habsolute harrives
      obtain ⟨parent', name, hpoints, hends, hitem, hhere, hupdate⟩ :=
        writeBytes_eq_ok hwritten fun parent' name hpoints link hlink => by
          obtain ⟨names, -, hparent⟩ := hplace parent' name hpoints
          rw [hparent, List.append_assoc] at hlink
          exact hstaged.noLink _ link hlink
      obtain ⟨names, hnames, rfl⟩ := hplace parent' name hpoints
      have hfile : ∀ link, Item.file content ≠ .link link := fun _ heq => by cases heq
      exact ⟨hstaged.update hhere hfile hupdate, d₂, hdeepens,
        .inr ⟨names, name, hnames, hends, hpoints.eq_directory, hitem, hupdate⟩⟩
    · exact ⟨hstaged, d', hdeepens, .inl ⟨⟨e, rfl⟩, rfl⟩⟩

/-- A directory in the site stays while a file is written below it. -/
theorem writeFile_directory {r : Except Error Unit} {content : ByteArray}
    (h : d₁.Staged (parent ++ [site]) d) (hvacant : d₁.Vacant temporary parent site)
    (hmoves : p.moves.dropLast = temporary.moves ++ moves) (hup : .up ∉ moves)
    (habsolute : p.isAbsolute = temporary.isAbsolute)
    (hrun : runOn (DiskAction.writeFile p content) d = (r, d')) {rest : List Name}
    (hdirectory : d.item? (parent ++ [site] ++ rest) = some .directory) :
    d'.item? (parent ++ [site] ++ rest) = some .directory := by
  obtain ⟨-, d₂, hdeepens, hwritten⟩ := h.writeFile hvacant hmoves hup habsolute hrun
  have hstill : d₂.item? (parent ++ [site] ++ rest) = some .directory := by
    rcases hdeepens rest with heq | ⟨-, hnew, -⟩
    · rw [heq, hdirectory]
    · exact hnew
  rcases hwritten with ⟨-, rfl⟩ | ⟨_, _, -, -, -, hitem, hupdate⟩
  · exact hstill
  · rw [hupdate, Function.update_of_ne, hstill]
    rintro heq
    exact hitem (heq ▸ hstill)

end Staged

end Disk

namespace Scene

open Disk

/-- What these files bring to the place that the pieces lead to: the last content if it is a file,
or a directory that the files need. -/
def contentAt (files : List RenderedFile) (pieces : List Piece) : Option Item :=
  ((files.reverse.find? (·.path.names = pieces)).map fun file => .file file.content.toUTF8).or
    (if pieces = [] ∨ ∃ file ∈ files, pieces <+: file.path.names then some .directory else none)

/-- What stands at and below a scene of these files. -/
def contents (files : List RenderedFile) : Layout :=
  fun names => contentAt files (names.map Name.toPiece)

/-- The paths of the files are made of names, so that the contents show all of them. -/
def AreNamed (files : List RenderedFile) : Prop :=
  ∀ file ∈ files, ∃ names : List Name, file.path.names = names.map Name.toPiece

/-- One more file adds its content, and the directories on the way to it that are missing. -/
theorem contentAt_append (files : List RenderedFile) (file : RenderedFile) (pieces : List Piece) :
    contentAt (files ++ [file]) pieces =
      if pieces = file.path.names then some (.file file.content.toUTF8)
      else if contentAt files pieces = none ∧ pieces <+: file.path.names then some .directory
      else contentAt files pieces := by
  rw [contentAt, List.reverse_append, List.reverse_singleton, List.singleton_append]
  by_cases hpieces : pieces = file.path.names
  · rw [if_pos hpieces, List.find?_cons]
    simp only [decide_eq_true hpieces.symm]
    rfl
  · rw [if_neg hpieces, List.find?_cons, contentAt]
    simp only [decide_eq_false (Ne.symm hpieces)]
    have hneeded : (pieces = [] ∨ ∃ f ∈ files ++ [file], pieces <+: f.path.names) ↔
        (pieces = [] ∨ ∃ f ∈ files, pieces <+: f.path.names) ∨ pieces <+: file.path.names := by
      simp only [List.mem_append, List.mem_singleton, or_and_right, exists_or, exists_eq_left,
        or_assoc]
    cases files.reverse.find? (·.path.names = pieces) with
    | some last => simp
    | none =>
      simp only [Option.map_none, Option.none_or]
      rw [if_congr hneeded rfl rfl]
      by_cases hdirectory : pieces = [] ∨ ∃ f ∈ files, pieces <+: f.path.names
      · rw [if_pos hdirectory, if_pos (.inl hdirectory)]
        exact (if_neg fun h => Option.some_ne_none _ h.1).symm
      · rw [if_neg hdirectory, if_congr (or_iff_right hdirectory) rfl rfl]
        simp only [true_and]

variable {d₁ d d' : Disk} {parent : List Name} {site name : Name} {temporary q : Path}
  {files : List RenderedFile} {r : Except Error Unit}

/-- Where a file of the scene is written. -/
theorem moves_dropLast_file {staging : Path} {file : RenderedFile} {first : Name}
    (hstaging : staging.moves = temporary.moves ++ [.into first])
    (habsolute : staging.isAbsolute = temporary.isAbsolute) (hfile : file.path.Descends) :
    (staging.join file.path).isAbsolute = temporary.isAbsolute ∧
      ∃ moves, .up ∉ moves ∧
        (staging.join file.path).moves.dropLast = temporary.moves ++ moves := by
  obtain ⟨hrelative, hup⟩ := hfile
  have hne : staging.moves ≠ [] := by
    rw [hstaging]
    exact List.concat_ne_nil _ _
  refine ⟨(Path.isAbsolute_join hrelative (.inl hne)).trans habsolute, ?_⟩
  rw [Path.moves_join hrelative, hstaging]
  by_cases hnil : file.path.moves = []
  · rw [hnil, List.append_nil, List.dropLast_concat]
    exact ⟨[], List.not_mem_nil, (List.append_nil _).symm⟩
  · rw [List.dropLast_append_of_ne_nil hnil, List.append_assoc]
    exact ⟨.into first :: file.path.moves.dropLast,
      List.not_mem_cons_of_ne_of_not_mem (by exact nofun) hup, rfl⟩

/-- Writing the files of a scene in the site. Directories in it stay. -/
theorem forM_writeFile_staged {staging : Path} (hvacant : d₁.Vacant temporary parent site)
    (hfiles : ∀ file ∈ files, (staging.join file.path).isAbsolute = temporary.isAbsolute ∧
      ∃ moves, .up ∉ moves ∧
        (staging.join file.path).moves.dropLast = temporary.moves ++ moves)
    (h : d₁.Staged (parent ++ [site]) d)
    (hrun : runOn (files.forM fun file => writeFile (staging.join file.path) file.content.toUTF8)
      d = (r, d')) :
    d₁.Staged (parent ++ [site]) d' ∧ ∀ rest, d.item? (parent ++ [site] ++ rest) = some .directory →
      d'.item? (parent ++ [site] ++ rest) = some .directory := by
  induction files generalizing d with
  | nil =>
    cases hrun
    exact ⟨h, fun _ hplace => hplace⟩
  | cons file files ih =>
    obtain ⟨⟨habsolute, moves, hup, hmoves⟩, hrest⟩ := List.forall_mem_cons.1 hfiles
    rw [List.forM] at hrun
    rcases runOn_bind_eq hrun with ⟨e, hwrite, rfl⟩ | ⟨_, d₂, hwrite, hrun⟩
    · exact ⟨(h.writeFile hvacant hmoves hup habsolute hwrite).1,
        fun _ => h.writeFile_directory hvacant hmoves hup habsolute hwrite⟩
    · obtain ⟨hstaged, hstays⟩ := ih hrest (h.writeFile hvacant hmoves hup habsolute hwrite).1 hrun
      exact ⟨hstaged, fun rest hplace =>
        hstays rest (h.writeFile_directory hvacant hmoves hup habsolute hwrite hplace)⟩

/-- Where the directories on the way to a file have been made, putting the file there is all that its
contents take. -/
theorem update_eq_contents {look : Layout} {place before : List Name} {file : RenderedFile}
    (htree : look.IsTree) (hnames : file.path.names = (before ++ [name]).map Name.toPiece)
    (hdirectory : look (place ++ before) = some .directory)
    (hdeepens : ∀ rest, look (place ++ rest) = contents files rest ∨
      contents files rest = none ∧ look (place ++ rest) = some .directory ∧ rest <+: before)
    (rest : List Name) :
    Function.update look (place ++ (before ++ [name])) (some (.file file.content.toUTF8))
      (place ++ rest) = contents (files ++ [file]) rest := by
  rw [contents, contentAt_append, hnames]
  have hinjective := List.map_injective_iff.2 Name.toPiece_injective
  by_cases hrest : rest = before ++ [name]
  · rw [if_pos (congrArg _ hrest), hrest, Function.update_self]
  have hother : place ++ rest ≠ place ++ (before ++ [name]) :=
    fun heq => hrest (List.append_cancel_left heq)
  rw [if_neg fun h => hrest (hinjective h), Function.update_of_ne hother]
  have hbefore : rest.map Name.toPiece <+: (before ++ [name]).map Name.toPiece ↔
      rest <+: before := by
    rw [List.prefix_map_iff_of_injective Name.toPiece_injective, List.prefix_concat_iff,
      or_iff_right hrest]
  rcases hdeepens rest with heq | ⟨hnone, hnew, hpre⟩
  · split
    · next hboth =>
      obtain ⟨more, rfl⟩ := hbefore.1 hboth.2
      rw [← List.append_assoc] at hdirectory
      exact htree.eq_directory_of_append hdirectory
    · exact heq
  · rw [if_pos ⟨hnone, hbefore.2 hpre⟩, hnew]

/-- The way to a file of the scene, which nothing leads up on. -/
theorem moves_file {staging : Path} {first : Name} {file : RenderedFile} {pieces : List Piece}
    {last : Piece} (hstaging : staging.moves = temporary.moves ++ [.into first])
    (hfile : file.path.IsNormal) (hnames : file.path.names = pieces ++ [last]) :
    (staging.join file.path).moves =
        temporary.moves ++ .into first :: pieces.map Step.ofPiece ++ [.ofPiece last] ∧
      .up ∉ .into first :: pieces.map Step.ofPiece := by
  constructor
  · rw [Path.moves_join hfile.isAbsolute_eq, hstaging, hfile.moves_eq, hnames, List.map_append,
      List.append_assoc, List.append_assoc]
    rfl
  · have hup := hfile.descends.2
    rw [hfile.moves_eq, hnames, List.map_append, List.map_singleton, List.dropLast_concat] at hup
    exact List.not_mem_cons_of_ne_of_not_mem (by exact nofun) hup

/-- Where steps go into directories, the pieces that they stand for are names. -/
theorem exists_names_of_into {first : Name} {pieces : List Piece} {names : List Name}
    (h : .into first :: pieces.map Step.ofPiece = names.map Step.into) :
    ∃ before : List Name, pieces = before.map Name.toPiece ∧ names = first :: before := by
  cases names with
  | nil => cases h
  | cons head before =>
    obtain ⟨hhead, hrest⟩ := List.cons.inj h
    cases hhead
    exact ⟨before, Step.map_ofPiece_eq_iff.1 hrest, rfl⟩

theorem eq_toPiece_of_endsIn {before : List Step} {last : Piece} {slashes : Nat}
    (hmoves : q.moves = before ++ [.ofPiece last]) (h : q.EndsIn name slashes) :
    last = name.toPiece := by
  obtain ⟨_, -, hlast⟩ := h.lastStep_eq
  rw [hmoves] at hlast
  exact Step.ofPiece_eq_into_iff.1 (List.cons.inj (List.append_inj' hlast rfl).2).1

/-- A file that has been written adds to the scene what it adds to the contents. -/
theorem writeFile_contents {staging : Path} {first : Name} {file : RenderedFile}
    (hvacant : d₁.Vacant temporary parent site)
    (hstaging : staging.moves = temporary.moves ++ [.into first])
    (habsolute : staging.isAbsolute = temporary.isAbsolute) (hfile : file.path.IsNormal)
    (h : d₁.Staged (parent ++ [site]) d)
    (hcontents : ∀ rest, d.item? (parent ++ [site] ++ first :: rest) = contents files rest)
    (hrun : runOn (writeFile (staging.join file.path) file.content.toUTF8) d = (.ok (), d')) :
    (∃ names : List Name, file.path.names = names.map Name.toPiece) ∧
    ∀ rest, d'.item? (parent ++ [site] ++ first :: rest) = contents (files ++ [file]) rest := by
  obtain ⟨pieces, last, hnames⟩ : ∃ pieces last, file.path.names = pieces ++ [last] :=
    ⟨_, _, (List.dropLast_concat_getLast hfile.1).symm⟩
  obtain ⟨hmoves, hup⟩ := moves_file hstaging hfile hnames
  obtain ⟨habsolute', -⟩ := moves_dropLast_file hstaging habsolute hfile.descends
  obtain ⟨-, d₂, hdeepens,
      ⟨⟨e, he⟩, -⟩ | ⟨names, name, hinto, hends, hdirectory, -, hupdate⟩⟩ :=
    h.writeFile hvacant (by rw [hmoves, List.dropLast_concat]) hup habsolute' hrun
  · cases he
  obtain ⟨before, hbefore, rfl⟩ := exists_names_of_into hinto
  replace hnames : file.path.names = (before ++ [name]).map Name.toPiece := by
    rw [hnames, hbefore, eq_toPiece_of_endsIn hmoves hends, List.map_append, List.map_singleton]
  refine ⟨⟨_, hnames⟩, fun rest => ?_⟩
  have hplace : parent ++ [site] ++ first :: before ++ [name] =
      parent ++ [site] ++ [first] ++ (before ++ [name]) := by
    simp only [List.append_assoc, List.cons_append, List.nil_append]
  rw [hplace] at hupdate
  rw [List.append_cons] at hdirectory ⊢
  rw [hupdate]
  refine update_eq_contents d₂.isTree_item? hnames hdirectory (fun rest => ?_) rest
  rw [← List.append_cons, ← hcontents]
  refine (hdeepens (first :: rest)).imp_right fun hnew => ⟨hnew.1, hnew.2.1, ?_⟩
  have hpre := hnew.2.2
  rw [hinto, List.prefix_map_iff_of_injective fun _ _ => Step.into.inj] at hpre
  exact (List.cons_prefix_cons.1 hpre).2

/-- Once all files are written, the scene has its contents. -/
theorem forM_writeFile_contents {staging : Path} {first : Name} {written : List RenderedFile}
    (hvacant : d₁.Vacant temporary parent site)
    (hstaging : staging.moves = temporary.moves ++ [.into first])
    (habsolute : staging.isAbsolute = temporary.isAbsolute)
    (hfiles : ∀ file ∈ files, file.path.IsNormal) (h : d₁.Staged (parent ++ [site]) d)
    (hcontents : ∀ rest, d.item? (parent ++ [site] ++ first :: rest) = contents written rest)
    (hrun : runOn (files.forM fun file => writeFile (staging.join file.path) file.content.toUTF8)
      d = (.ok (), d')) :
    AreNamed files ∧
    ∀ rest, d'.item? (parent ++ [site] ++ first :: rest) = contents (written ++ files) rest := by
  induction files generalizing d written with
  | nil =>
    cases hrun
    exact ⟨nofun, by rwa [List.append_nil]⟩
  | cons file files ih =>
    obtain ⟨hfile, hrest⟩ := List.forall_mem_cons.1 hfiles
    rw [List.forM] at hrun
    rcases runOn_bind_eq hrun with ⟨e, -, he⟩ | ⟨_, d₂, hwrite, hrun⟩
    · cases he
    · obtain ⟨habsolute', moves, hup, hmoves⟩ :=
        moves_dropLast_file hstaging habsolute hfile.descends
      obtain ⟨hname, hstep⟩ :=
        writeFile_contents hvacant hstaging habsolute hfile h hcontents hwrite
      obtain ⟨hnamed, hall⟩ :=
        ih hrest (h.writeFile hvacant hmoves hup habsolute' hwrite).1 hstep hrun
      rw [List.append_assoc] at hall
      exact ⟨List.forall_mem_cons.2 ⟨hname, hnamed⟩, hall⟩

/-- The site is empty, so a directory for the staged scene that is created through it stands right in
it. -/
theorem createDirectory_in_site (hvacant : d₁.Vacant temporary parent site)
    (hmoves : temporary.moves ≠ []) (hrelative : q.isAbsolute = false)
    (hinside : q.moves.head? ≠ some .up) (h : d₁.Staged (parent ++ [site]) d)
    (hempty : ∀ name rest, d.item? (parent ++ [site] ++ name :: rest) = none)
    (hcreated : d.createDirectory (temporary.join q) = .ok d') :
    ∃ first, q.moves = [.into first] ∧ d.Vacant (temporary.join q) (parent ++ [site]) first ∧
      d'.here = d.here ∧
      d'.item? = Function.update d.item? (parent ++ [site] ++ [first]) (some .directory) := by
  have hjoin := Path.moves_join (p := temporary) hrelative
  have horigin := origin_congr (Path.isAbsolute_join hrelative (.inl hmoves)) d
  obtain ⟨parent', first, hplace, hhere, hupdate⟩ := createDirectory_eq_ok hcreated
  obtain ⟨links, trail, -, hroute⟩ := hplace.points.arrives
  have hlast := hplace.points.moves_eq
  have hsite := h.points hvacant
  rw [horigin] at hroute
  suffices hfirst : q.moves = [.into first] ∧ parent' = parent ++ [site] by
    obtain ⟨hq, rfl⟩ := hfirst
    exact ⟨first, hq, hplace, hhere, hupdate⟩
  rcases List.eq_nil_or_concat q.moves with hnil | ⟨before, last, hq⟩
  · rw [hnil, List.append_nil] at hjoin
    rw [hjoin] at hlast hroute
    obtain ⟨links', trail', -, hroute'⟩ := hsite.arrives
    obtain ⟨-, -, rfl⟩ := hroute'.unique hroute
    have hname := hlast.symm.trans hsite.moves_eq
    obtain ⟨-, hname⟩ := List.append_inj' hname rfl
    cases hname
    cases hplace.item.symm.trans h.directory
  · rw [List.concat_eq_append] at hq
    rw [hjoin, hq, ← List.append_assoc, List.dropLast_concat] at hlast hroute
    obtain ⟨-, hname⟩ := List.append_inj' hlast rfl
    cases hname
    obtain ⟨links', trail', -, hroute'⟩ := hsite.arrives_append h.directory
    obtain ⟨links'', trail'', -, -, hbelow⟩ := hroute'.suffix hroute
    cases before with
    | nil =>
      cases hbelow
      exact ⟨hq, rfl⟩
    | cons step before =>
      cases hbelow with
      | up _ =>
        rw [hq] at hinside
        exact absurd rfl hinside
      | into hitem _ => cases (hempty _ []).symm.trans hitem
      | link hitem _ => cases (hempty _ []).symm.trans hitem

/-- Staging changes nothing but the site. When all files are written, the path of the staged scene
points to a name in the site, and the scene stands there. -/
theorem stage_eq (hvacant : d₁.Vacant temporary parent site)
    (hmoves : temporary.moves ≠ []) (hrelative : q.isAbsolute = false)
    (hinside : q.moves.head? ≠ some .up) (hfiles : ∀ file ∈ files, file.path.Descends)
    (h : d₁.Staged (parent ++ [site]) d)
    (hempty : ∀ name rest, d.item? (parent ++ [site] ++ name :: rest) = none)
    (hrun : runOn (stage (temporary.join q) files) d = (r, d')) :
    d₁.Staged (parent ++ [site]) d' ∧ (r = .ok () → ∃ first, q.moves = [.into first] ∧
      d'.Points (temporary.join q) (parent ++ [site]) first ∧
      d'.item? (parent ++ [site] ++ [first]) = some .directory ∧
      ((∀ file ∈ files, file.path.IsNormal) → AreNamed files ∧
        ∀ rest, d'.item? (parent ++ [site] ++ first :: rest) = contents files rest)) := by
  rcases runOn_bind_eq hrun with ⟨e, hcreate, rfl⟩ | ⟨_, d₂, hcreate, hwrite⟩
  · rcases runOn_perform_eq hcreate with ⟨hok, -⟩ | ⟨-, rfl⟩
    · cases hok
    · exact ⟨h, fun hok => by cases hok⟩
  rcases runOn_perform_eq hcreate with ⟨-, hcreated⟩ | ⟨⟨e, he⟩, -⟩
  swap
  · cases he
  obtain ⟨first, hq, hfirst, hhere, hupdate⟩ :=
    createDirectory_in_site hvacant hmoves hrelative hinside h hempty hcreated
  have habsolute := Path.isAbsolute_join hrelative (.inl hmoves)
  have hstaging : (temporary.join q).moves = temporary.moves ++ [.into first] := by
    rw [Path.moves_join hrelative, hq]
  have hdirectory : ∀ target, Item.directory ≠ .link target := fun _ heq => by cases heq
  have hstaged : d₁.Staged (parent ++ [site]) d₂ :=
    h.update hhere hdirectory (by rw [List.append_nil]; exact hupdate)
  have hplace : d₂.item? (parent ++ [site] ++ [first]) = some .directory := by
    rw [hupdate, Function.update_self]
  obtain ⟨hstaged', hstays⟩ := forM_writeFile_staged hvacant
    (fun file hfile => moves_dropLast_file hstaging habsolute (hfiles file hfile)) hstaged hwrite
  have hplace' := hstays [first] hplace
  refine ⟨hstaged', fun hr => ⟨first, hq, ?_, hplace', fun hnormal => ?_⟩⟩
  · have hsite := hstaged'.points hvacant
    have horigin := origin_congr habsolute d'
    refine hfirst.points.of_arrives ?_ ?_
    · rw [horigin]
      exact hsite.starts.origin
    · rw [hstaging, List.dropLast_concat, Arrives, horigin]
      exact hsite.arrives_append hstaged'.directory
  · subst hr
    have hnew : ∀ rest, d₂.item? (parent ++ [site] ++ first :: rest) = contents [] rest := by
      intro rest
      rw [hupdate]
      cases rest with
      | nil =>
        rw [Function.update_self]
        rfl
      | cons name rest =>
        rw [Function.update_of_ne (by simp), hempty]
        simp [contents, contentAt]
    exact forM_writeFile_contents hvacant hstaging habsolute hnormal hstaged hnew hwrite

end Scene

end Scaffold
