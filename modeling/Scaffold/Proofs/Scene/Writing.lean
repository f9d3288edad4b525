import Scaffold.Proofs.Scene.Rendering
import Scaffold.Proofs.Scene.Replacement

/-!
Writing a scene. A write is refused, or it creates the directory of the scene's place and a
temporary directory in it, in which the scene is staged. If the path of the scene's directory does
not lead through the scene itself, the write puts the whole scene in its place or leaves everything
as it was.
-/

namespace Scaffold

open Disk DiskAction

namespace Disk

variable {d d₁ : Disk} {p : Path} {name : Name} {place : List Name}

/-- The path leads to a place, once the directories that are missing on its way are there. -/
def Leads (d : Disk) (p : Path) (place : List Name) : Prop :=
  ∃ links trail, Route d.item?.filled links (d.origin p) p.moves trail place

/-- The path leads to a directory through the place that a name has in it, or starts there or
below. -/
def PassesThrough (d : Disk) (p : Path) (name : Name) : Prop :=
  ∃ links trail place, Route d.item?.filled links (d.origin p) p.moves trail place ∧
    ∃ names ∈ d.origin p :: trail, place ++ [name] <+: names

/-- Where a path without detours leads. -/
theorem eq_of_filled_route {names : List Name} (hmoves : p.moves = names.map .into)
    (hlinks : ∀ (rest : List Name) (target : Path), rest <+: names →
      d.item? (d.origin p ++ rest) ≠ some (.link target)) {links : Nat} {trail : List (List Name)}
    (hroute : Route d.item?.filled links (d.origin p) p.moves trail place) :
    place = d.origin p ++ names ∧ ∀ other ∈ trail, other <+: place := by
  rw [hmoves] at hroute
  refine hroute.of_names fun rest target hrest hlink => ?_
  rw [Layout.filled] at hlink
  cases hitem : d.item? (d.origin p ++ rest) with
  | none =>
    rw [hitem] at hlink
    cases hlink
  | some item =>
    rw [hitem] at hlink
    cases hlink
    exact hlinks rest target hrest hitem

/-- A path without detours does not lead through any place in the directory that it leads to. -/
theorem not_passesThrough_of_names {names : List Name} (hmoves : p.moves = names.map .into)
    (hlinks : ∀ (rest : List Name) (target : Path), rest <+: names →
      d.item? (d.origin p ++ rest) ≠ some (.link target)) : ¬d.PassesThrough p name := by
  rintro ⟨links, trail, place, hroute, other, hother, hpre⟩
  obtain ⟨rfl, htrail⟩ := eq_of_filled_route hmoves hlinks hroute
  have hbefore : other <+: d.origin p ++ names := by
    rcases List.mem_cons.1 hother with rfl | hother
    · exact List.prefix_append _ _
    · exact htrail other hother
  exact not_prefix_of_concat _ _ (hpre.trans hbefore)

/-- The path of the working directory has no detours. -/
theorem not_passesThrough_herePath (hwell : d.WellFormed) (name : Name) :
    ¬d.PassesThrough d.herePath name := by
  refine not_passesThrough_of_names (moves_herePath d) fun rest target hrest hlink => ?_
  rw [origin, if_pos (isAbsolute_herePath d), List.nil_append] at hlink
  obtain ⟨more, hmore⟩ := hrest
  have hhere := hwell.directory
  rw [← hmore] at hhere
  cases (d.isTree_item?.eq_directory_of_append hhere).symm.trans hlink

theorem Grows.leads (h : d.Grows p d₁) {links : Nat} {trail : List (List Name)}
    (hroute : Route d₁.item? links (d₁.origin p) p.moves trail place) : d.Leads p place := by
  have hfilled := hroute.filled
  rw [h.filled_eq, h.origin_eq] at hfilled
  exact ⟨links, trail, hfilled⟩

/-- The directories that have been created do not change which places the path leads through. -/
theorem Grows.avoids_iff (h : d.Grows p d₁) {links : Nat} {trail : List (List Name)}
    (hroute : Route d₁.item? links (d₁.origin p) p.moves trail place) :
    d₁.Avoids p (place ++ [name]) ↔ ¬d.PassesThrough p name := by
  constructor
  · rintro havoids ⟨links', trail', place', hroute', names, hnames, hpre⟩
    have hfilled := hroute.filled
    rw [h.filled_eq, h.origin_eq] at hfilled
    obtain ⟨-, rfl, rfl⟩ := hfilled.unique hroute'
    rw [← h.origin_eq] at hnames
    exact havoids links trail' place' hroute names hnames hpre
  · rintro hpasses links' trail' place' hroute' names hnames hpre
    obtain ⟨-, rfl, rfl⟩ := hroute.unique hroute'
    have hfilled := hroute.filled
    rw [h.filled_eq, h.origin_eq] at hfilled
    rw [h.origin_eq] at hnames
    exact hpasses ⟨links, trail', place', hfilled, names, hnames, hpre⟩

end Disk

namespace Scene

section

variable [TemporaryNames] {d d₁ d₂ d₃ d' x : Disk} {out q : Path} {name : String}
  {files : List RenderedFile} {overwrite : Bool} {r : Except Error Unit}

/-- What a write does in its temporary directory. -/
def settle (out q : Path) (files : List RenderedFile) (temporary : Path) :
    ExceptT Error (StateM Disk) Unit := do
  stage (temporary.join q) files
  replace (temporary.join q) (out.join q) (parkedPath temporary)

/-- A run that comes to a temporary directory: the disk on which that is created, and the disk with
it. -/
structure Begins (d : Disk) (out : Path) (d₁ d₂ : Disk) : Prop where
  directories : runOn (createDirectories out) d = (.ok (), d₁)
  temporary : d₁.createDirectory (d₁.freshPath out) = .ok d₂

/-- A run in a temporary directory, with the disk before that is removed. -/
structure Settles (d : Disk) (out q : Path) (files : List RenderedFile) (d₁ d₂ x : Disk)
    (r : Except Error Unit) (d' : Disk) : Prop extends Begins d out d₁ d₂ where
  settled : runOn (settle out q files (d₁.freshPath out)) d₂ = (r, x)
  removed : x.removeAll (d₁.freshPath out) = .ok d' ∨
    (∀ d₃, x.removeAll (d₁.freshPath out) ≠ .ok d₃) ∧ d' = x

theorem write_eq {r : Except Error Path}
    (h : runOn (write out name files overwrite) d = (r, d')) :
    d.pathExists (out.join (.ofString name)) = true ∧ overwrite = false ∧
        r = .error (.sceneExists (out.join (.ofString name))) ∧ d' = d ∨
      (d.pathExists (out.join (.ofString name)) = true → overwrite = true) ∧
        ((∃ e, r = .error e) ∧ d.Grows out d' ∧ (∀ d₁ d₂, ¬Begins d out d₁ d₂) ∨
          ∃ d₁ d₂ x r', Settles d out (.ofString name) files d₁ d₂ x r' d' ∧
            r = r'.map fun _ => out.join (.ofString name)) := by
  rw [write, runOn_bind, runOn_look] at h
  by_cases hrefused : d.pathExists (out.join (.ofString name)) = true ∧ overwrite = false
  · obtain ⟨hexists, rfl⟩ := hrefused
    simp only [hexists, Bool.not_false, and_self, if_true] at h
    cases h
    exact .inl ⟨hexists, rfl, rfl, rfl⟩
  · refine .inr ⟨fun hexists => ?_, ?_⟩
    · rw [← Bool.not_eq_false]
      exact fun hoverwrite => hrefused ⟨hexists, hoverwrite⟩
    have hgoes : ¬(d.pathExists (out.join (.ofString name)) = true ∧ (!overwrite) = true) := by
      rwa [Bool.not_eq_true']
    simp only [if_neg hgoes] at h
    rcases runOn_bind_eq h with ⟨e, hcreate, rfl⟩ | ⟨_, d₁, hcreate, h⟩
    · refine .inl ⟨⟨e, rfl⟩, (runOn_createDirectories_eq hcreate).1, fun d₁ d₂ hbegins => ?_⟩
      cases hcreate.symm.trans hbegins.directories
    have hgrows := (runOn_createDirectories_eq hcreate).1
    rcases runOn_bind_eq h with ⟨e, htemporary, rfl⟩ | ⟨_, x, htemporary, h⟩
    · rcases runOn_withTemporary_eq htemporary with
        ⟨-, rfl, hfailed⟩ | ⟨d₂, x, hd₂, hx, hremoved⟩
      · refine .inl ⟨⟨e, rfl⟩, hgrows, fun d₂ d₃ hbegins => ?_⟩
        cases hcreate.symm.trans hbegins.directories
        exact hfailed d₃ hbegins.temporary
      · exact .inr ⟨d₁, d₂, x, .error e, ⟨⟨hcreate, hd₂⟩, hx, hremoved⟩, rfl⟩
    · cases h
      rcases runOn_withTemporary_eq htemporary with ⟨⟨e, he⟩, -⟩ | ⟨d₂, x, hd₂, hx, hremoved⟩
      · cases he
      · exact .inr ⟨d₁, d₂, x, .ok (), ⟨⟨hcreate, hd₂⟩, hx, hremoved⟩, rfl⟩

namespace Settles

theorem eq_of_removeAll (h : Settles d out q files d₁ d₂ x r d')
    (hremove : x.removeAll (d₁.freshPath out) = .ok d₃) : d' = d₃ := by
  rcases h.removed with hremoved | ⟨hstuck, -⟩
  · exact Except.ok.inj (hremoved.symm.trans hremove)
  · exact absurd hremove (hstuck d₃)

/-- A scene whose path leads into the temporary directory is staged there. Unless the old scene is
moved, a failure leaves nothing behind. -/
theorem outcome (h : Settles d out q files d₁ d₂ x r d') (hwell : d₁.WellFormed)
    (hrelative : q.isAbsolute = false) (hpieces : q.pieces ≠ []) (hinside : q.moves.head? ≠ some .up)
    (hfiles : ∀ file ∈ files, file.path.Descends) :
    ((∃ e, r = .error e) ∧ d'.item? = d₁.item? ∧ d'.here = d₁.here ∧
      ∀ d₃ d₄, runOn (stage ((d₁.freshPath out).join q) files) d₂ = (.ok (), d₃) →
        d₃.pathExists (out.join q) = true →
        d₃.rename (out.join q) (parkedPath (d₁.freshPath out)) ≠ .ok d₄) ∨
    ∃ parent site first d₃, Prepared d₁ out q parent site first d₃ ∧
      runOn (stage ((d₁.freshPath out).join q) files) d₂ = (.ok (), d₃) ∧
      ((∀ file ∈ files, file.path.IsNormal) → AreNamed files ∧
        ∀ rest, d₃.item? (parent ++ [site] ++ first :: rest) = contents files rest) ∧
      runOn (replace ((d₁.freshPath out).join q) (out.join q) (parkedPath (d₁.freshPath out))) d₃ =
        (r, x) ∧
      (r = .ok () ∨ d₃.pathExists (out.join q) = true ∧
        ∃ d₄, d₃.rename (out.join q) (parkedPath (d₁.freshPath out)) = .ok d₄) := by
  obtain ⟨parent, site, hvacant, hstaged, hempty⟩ := exists_staged_of_createDirectory h.temporary
  have hmoves : (d₁.freshPath out).moves ≠ [] := by
    rw [hvacant.points.moves_eq]
    exact List.concat_ne_nil _ _
  have hcleared : ∀ d₃, d₁.Staged (parent ++ [site]) d₃ → x = d₃ →
      d'.item? = d₁.item? ∧ d'.here = d₁.here := by
    rintro d₃ hstaged rfl
    obtain ⟨d₄, hremove, hhere, hitem⟩ := hstaged.exists_removeAll hvacant
    rw [h.eq_of_removeAll hremove]
    exact ⟨hitem, hhere⟩
  rcases runOn_bind_eq h.settled with ⟨e, hstage, rfl⟩ | ⟨_, d₃, hstage, hreplace⟩
  · obtain ⟨hstaged', -⟩ :=
      stage_eq hvacant hmoves hrelative hinside hfiles hstaged hempty hstage
    obtain ⟨hitem, hhere⟩ := hcleared x hstaged' rfl
    refine .inl ⟨⟨e, rfl⟩, hitem, hhere, fun d₃ d₄ hok => ?_⟩
    cases hstage.symm.trans hok
  · obtain ⟨hstaged', hplace⟩ :=
      stage_eq hvacant hmoves hrelative hinside hfiles hstaged hempty hstage
    obtain ⟨first, hq, hpoints, hitem, hcontents⟩ := hplace rfl
    have hprepared : Prepared d₁ out q parent site first d₃ :=
      ⟨hwell, hvacant, hstaged', hrelative, hpieces, hq, hpoints, hitem⟩
    rcases replace_eq hreplace with ⟨he, hsame, hstays⟩ | ⟨rfl, -, -⟩ | ⟨d₄, hstood, hmove, -⟩
    · obtain ⟨hitem, hhere⟩ := hcleared d₃ hstaged' hsame
      refine .inl ⟨he, hitem, hhere, fun d₃' d₄ hok => ?_⟩
      cases hstage.symm.trans hok
      exact hstays d₄
    · exact .inr ⟨parent, site, first, d₃, hprepared, hstage, hcontents, hreplace, .inl rfl⟩
    · exact .inr ⟨parent, site, first, d₃, hprepared, hstage, hcontents, hreplace,
        .inr ⟨hstood, d₄, hmove⟩⟩

/-- If the path to the scene's place does not lead through that place, the scene is put there or
everything is left as it was. -/
theorem outcome_of_not_passesThrough {piece : Piece}
    (h : Settles d out ⟨[piece]⟩ files d₁ d₂ x r d')
    (hwell : d.WellFormed) (hdot : piece.bytes.head? ≠ some 0x2E)
    (hfiles : ∀ file ∈ files, file.path.Descends)
    (hpasses : ∀ scene : Name, piece = scene.toPiece → ¬d.PassesThrough out scene) :
    (∃ e, r = .error e) ∧ d.Grows out d' ∨
    r = .ok () ∧ ∃ (scene : Name) (parent : List Name), piece = scene.toPiece ∧
      d.Leads out parent ∧
      ((∀ file ∈ files, file.path.IsNormal) → AreNamed files ∧
        ∀ rest, d'.item? (parent ++ scene :: rest) = contents files rest) ∧
      ∀ names, ¬parent ++ [scene] <+: names → d'.item? names = d.item? names ∨
        d.item? names = none ∧ d'.item? names = some .directory ∧ d.OnTheWay out names := by
  have hgrows := (runOn_createDirectories_eq h.directories).1
  rcases h.outcome (hgrows.wellFormed hwell) (Path.isAbsolute_singleton piece)
      (List.cons_ne_nil _ _) (Path.head?_moves_singleton_ne_up hdot) hfiles with
    ⟨he, hitem, hhere, -⟩ |
    ⟨parent, site, scene, d₃, hprepared, -, hcontents, hreplace, hmoved⟩
  · exact .inl ⟨he, hgrows.congr hhere hitem⟩
  have hpiece := Path.eq_of_moves_singleton hprepared.moves
  obtain ⟨links, -, trail, -, -, hroute, -⟩ := hprepared.exists_route
  have havoids := (hgrows.avoids_iff hroute).2 (hpasses scene hpiece)
  have hok : r = .ok () := by
    rcases hmoved with hok | ⟨hstood, d₄, hmove⟩
    · exact hok
    · exact hprepared.eq_ok_of_avoids havoids hstood hmove hreplace
  subst hok
  have hsite : scene ≠ site := by
    rintro rfl
    exact hdot (hpiece ▸ head?_of_front_prefix hprepared.vacant.points.endsIn_freshPath.2)
  have hparked : scene ≠ parkedName := by
    rintro rfl
    exact hdot (hpiece ▸ rfl)
  obtain ⟨d₄, hremove, helsewhere, hscene⟩ := hprepared.replaced havoids hsite hparked hreplace
  obtain rfl := h.eq_of_removeAll hremove
  refine .inr ⟨rfl, scene, parent, hpiece, hgrows.leads hroute, fun hnormal => ?_,
    fun names hnames => ?_⟩
  · obtain ⟨hnamed, hcontents⟩ := hcontents hnormal
    refine ⟨hnamed, fun rest => ?_⟩
    have hrest := hscene rest
    rw [List.append_assoc, List.append_assoc] at hrest
    rw [← hcontents rest]
    simpa using hrest
  · rw [helsewhere names hnames]
    exact hgrows.item names

/-- A run that puts the scene in its place does not pass through that place. -/
theorem not_passesThrough {piece : Piece} {scene : Name}
    (h : Settles d out ⟨[piece]⟩ files d₁ d₂ x (.ok ()) d') (hwell : d.WellFormed)
    (hdot : piece.bytes.head? ≠ some 0x2E) (hfiles : ∀ file ∈ files, file.path.Descends)
    (hpiece : piece = scene.toPiece) : ¬d.PassesThrough out scene := by
  have hgrows := (runOn_createDirectories_eq h.directories).1
  rcases h.outcome (hgrows.wellFormed hwell) (Path.isAbsolute_singleton piece)
      (List.cons_ne_nil _ _) (Path.head?_moves_singleton_ne_up hdot) hfiles with
    ⟨⟨e, he⟩, -⟩ | ⟨parent, site, first, d₃, hprepared, -, -, hreplace, -⟩
  · cases he
  obtain rfl : scene = first :=
    Name.eq_of_toPiece (hpiece.symm.trans (Path.eq_of_moves_singleton hprepared.moves))
  obtain ⟨links, -, trail, -, -, hroute, -⟩ := hprepared.exists_route
  exact (hgrows.avoids_iff hroute).1 (hprepared.avoids hreplace)

end Settles

/-- What a write leaves if its path does not lead through the scene. -/
theorem write_outcome {r : Except Error Path} (hwell : d.WellFormed)
    (hname : checkName name = .ok ()) (hfiles : ∀ file ∈ files, file.path.Descends)
    (hpasses : ∀ scene : Name, scene.text? = some name → ¬d.PassesThrough out scene)
    (h : runOn (write out name files overwrite) d = (r, d')) :
    (∃ e, r = .error e) ∧ d.Grows out d' ∨
    r = .ok (out.join (.ofString name)) ∧ ∃ (scene : Name) (parent : List Name),
      scene.text? = some name ∧ d.Leads out parent ∧
      ((∀ file ∈ files, file.path.IsNormal) → AreNamed files ∧
        ∀ rest, d'.item? (parent ++ scene :: rest) = contents files rest) ∧
      ∀ names, ¬parent ++ [scene] <+: names → d'.item? names = d.item? names ∨
        d.item? names = none ∧ d'.item? names = some .directory ∧ d.OnTheWay out names := by
  obtain ⟨piece, hpiece, hpath, hdot⟩ := exists_ofString_eq hname
  rcases write_eq h with ⟨-, -, rfl, rfl⟩ | ⟨-, ⟨he, hgrows, -⟩ | ⟨d₁, d₂, x, r', hsettles, rfl⟩⟩
  · exact .inl ⟨⟨_, rfl⟩, .refl d' out⟩
  · exact .inl ⟨he, hgrows⟩
  · rw [hpath] at hsettles
    have hpasses' (scene : Name) (hscene : piece = scene.toPiece) : ¬d.PassesThrough out scene :=
      hpasses scene (hscene ▸ hpiece)
    rcases hsettles.outcome_of_not_passesThrough hwell hdot hfiles hpasses' with
      ⟨⟨e, rfl⟩, hgrows⟩ | ⟨rfl, scene, parent, rfl, hplace⟩
    · exact .inl ⟨⟨e, rfl⟩, hgrows⟩
    · exact .inr ⟨rfl, scene, parent, hpiece, hplace⟩

/-- A write that succeeds has not passed through the scene, and leaves the contents of the files. -/
theorem contents_of_write {result : Path} (hwell : d.WellFormed) (hname : checkName name = .ok ())
    (hfiles : ∀ file ∈ files, file.path.IsNormal)
    (h : runOn (write out name files overwrite) d = (.ok result, d')) :
    ∃ (scene : Name) (parent : List Name), scene.text? = some name ∧ d.Leads out parent ∧
      AreNamed files ∧ ∀ rest, d'.item? (parent ++ scene :: rest) = contents files rest := by
  have hdescends : ∀ file ∈ files, file.path.Descends := fun file hfile =>
    (hfiles file hfile).descends
  obtain ⟨piece, hpiece, hpath, hdot⟩ := exists_ofString_eq hname
  have hpasses (scene : Name) (hscene : scene.text? = some name) : ¬d.PassesThrough out scene := by
    rcases write_eq h with ⟨-, -, he, -⟩ | ⟨-, ⟨⟨e, he⟩, -⟩ | ⟨d₁, d₂, x, r', hsettles, hr⟩⟩
    · cases he
    · cases he
    · cases r' with
      | error e => cases hr
      | ok _ =>
        rw [hpath] at hsettles
        exact hsettles.not_passesThrough hwell hdot hdescends (Piece.eq_of_text? hpiece hscene)
  rcases write_outcome hwell hname hdescends hpasses h with
    ⟨⟨e, he⟩, -⟩ | ⟨-, scene, parent, hscene, hleads, hall, -⟩
  · cases he
  · exact ⟨scene, parent, hscene, hleads, hall hfiles⟩

/-- A write whose path does not lead through the scene is all or nothing. If it succeeds, the scene
has the contents of the files, and if it fails, nothing has changed; in both cases the directories
on the way to the scene may have been created. A write that may not overwrite a scene that is there
changes nothing at all. -/
theorem write_atomic (hwell : d.WellFormed) (hname : checkName name = .ok ())
    (hfiles : ∀ file ∈ files, file.path.IsNormal)
    (hpasses : ∀ scene : Name, scene.text? = some name → ¬d.PassesThrough out scene) :
    (match runOn (write out name files overwrite) d with
      | (.ok result, d') => result = out.join (.ofString name) ∧
        ∃ (scene : Name) (parent : List Name), scene.text? = some name ∧ d.Leads out parent ∧
          AreNamed files ∧
          (∀ rest, d'.item? (parent ++ scene :: rest) = contents files rest) ∧
          ∀ names, ¬parent ++ [scene] <+: names → d'.item? names = d.item? names ∨
            d.item? names = none ∧ d'.item? names = some .directory ∧ d.OnTheWay out names
      | (.error _, d') => d.Grows out d') ∧
    (d.pathExists (out.join (.ofString name)) = true → overwrite = false →
      runOn (write out name files overwrite) d =
        (.error (.sceneExists (out.join (.ofString name))), d)) := by
  rcases hrun : runOn (write out name files overwrite) d with ⟨r, d'⟩
  constructor
  · rcases write_outcome hwell hname (fun file hfile => (hfiles file hfile).descends) hpasses hrun
      with ⟨⟨e, rfl⟩, hgrows⟩ | ⟨rfl, scene, parent, hscene, hleads, hcontents, helsewhere⟩
    · exact hgrows
    · obtain ⟨hnamed, hcontents⟩ := hcontents hfiles
      exact ⟨rfl, scene, parent, hscene, hleads, hnamed, hcontents, helsewhere⟩
  · intro hexists hkeep
    rcases write_eq hrun with ⟨-, -, rfl, rfl⟩ | ⟨hnew, -⟩
    · rfl
    · cases hkeep.symm.trans (hnew hexists)

end

/-- A disk with one scene in a directory of scenes. -/
def diskOfOneScene : Disk where
  entries := [(.of "Scenes", .directory [(.of "Login",
    .directory [(.of "Old.swift", .file "old".toUTF8)])])]
  here := []

theorem moves_scenes : (Path.ofString "Scenes").moves = [Name.of "Scenes"].map .into := by
  decide

/-- There is no link on the way to the scenes. -/
theorem not_link_of_prefix_scenes {d : Disk}
    (hitem : ∀ target, d.item? [.of "Scenes"] ≠ some (.link target)) (rest : List Name)
    (target : Path) (hrest : rest <+: [.of "Scenes"]) :
    d.item? ([] ++ rest) ≠ some (.link target) := by
  rcases List.prefix_concat_iff.1 (show rest <+: [] ++ [.of "Scenes"] from hrest) with rfl | hrest
  · exact hitem target
  · rw [List.prefix_nil.1 hrest, List.append_nil, d.isTree_item?.root]
    exact nofun

theorem eq_of_text?_login {scene : Name} (h : scene.text? = some "Login") :
    scene = .of "Login" :=
  Name.eq_of_toPiece (Piece.eq_of_text? h (by decide))

theorem write_atomic_over_one_scene :
    ∃ result d', runOn (write (.ofString "Scenes") "Login" [⟨.ofString "View.swift", "new"⟩] true)
        diskOfOneScene = (.ok result, d') ∧
      d'.item? [.of "Scenes", .of "Login", .of "View.swift"] = some (.file "new".toUTF8) ∧
      d'.item? [.of "Scenes", .of "Login", .of "Old.swift"] = none := by
  have hlinks := not_link_of_prefix_scenes (d := diskOfOneScene) nofun
  have hok : (runOn (write (.ofString "Scenes") "Login" [⟨.ofString "View.swift", "new"⟩] true)
      diskOfOneScene).1.toBool = true := by
    decide +kernel
  have hnormal : (Path.ofString "View.swift").IsNormal := by decide
  have hatomic := (@write_atomic _ diskOfOneScene (.ofString "Scenes") "Login"
    [⟨.ofString "View.swift", "new"⟩] true ⟨rfl⟩ rfl (List.forall_mem_singleton.2 hnormal)
    fun _ _ => not_passesThrough_of_names moves_scenes hlinks).1
  split at hatomic
  · next result d' hrun =>
    obtain ⟨-, scene, parent, hscene, ⟨links, trail, hroute⟩, -, hcontents, -⟩ := hatomic
    obtain rfl := eq_of_text?_login hscene
    obtain ⟨rfl, -⟩ := eq_of_filled_route moves_scenes hlinks hroute
    refine ⟨result, d', hrun, (hcontents [.of "View.swift"]).trans ?_,
      (hcontents [.of "Old.swift"]).trans ?_⟩ <;> rfl
  · next e d' hrun =>
    rw [hrun] at hok
    cases hok

end Scene

end Scaffold
