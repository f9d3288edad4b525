import Scaffold.Proofs.Disk.Temporary
import Scaffold.Proofs.Scene.Staging

/-!
Replacing a scene. If the path to the new scene's place does not lead through that place, moving the
old scene away cuts off no path, so the new scene can take its place. Otherwise the paths of the
staged and of the parked scene lead nowhere once the old scene has been moved, and neither can be
moved again.
-/

namespace Scaffold.Scene

open Disk DiskAction

variable {d₁ d d' : Disk} {out q staging target parked : Path} {parent : List Name}
  {site first : Name} {r : Except Error Unit}

/-- What replacing does: it fails and leaves the disk as it was, or it moves the staged scene to
where nothing is found, or it moves what stands there away first. -/
theorem replace_eq (h : runOn (replace staging target parked) d = (r, d')) :
    ((∃ e, r = .error e) ∧ d' = d ∧
      ∀ d₂, d.pathExists target = true → d.rename target parked ≠ .ok d₂) ∨
    (r = .ok () ∧ d.pathExists target = false ∧ d.rename staging target = .ok d') ∨
    ∃ d₂, d.pathExists target = true ∧ d.rename target parked = .ok d₂ ∧
      (r = .ok () ∧ d₂.rename staging target = .ok d' ∨
        (∃ e, r = .error e) ∧ (∀ d₃, d₂.rename staging target ≠ .ok d₃) ∧
        (d₂.rename parked target = .ok d' ∨
          (∀ d₃, d₂.rename parked target ≠ .ok d₃) ∧ d' = d₂)) := by
  rw [replace, runOn_bind, runOn_look] at h
  cases hstood : d.pathExists target with
  | false =>
    simp only [hstood, Bool.false_eq_true, if_false, runOn_tryCatch, runOn_perform,
      DiskOperation.apply] at h
    cases hrename : d.rename staging target with
    | ok d₂ =>
      rw [hrename] at h
      cases h
      exact .inr (.inl ⟨rfl, rfl, rfl⟩)
    | error e =>
      rw [hrename] at h
      cases h
      exact .inl ⟨⟨_, rfl⟩, rfl, fun _ hfound => by cases hfound⟩
  | true =>
    simp only [hstood, if_true, runOn_bind, runOn_tryCatch, runOn_perform,
      DiskOperation.apply] at h
    cases hmove : d.rename target parked with
    | error e =>
      rw [hmove] at h
      cases h
      exact .inl ⟨⟨_, rfl⟩, rfl, fun _ _ hok => by cases hok⟩
    | ok d₂ =>
      refine .inr (.inr ⟨d₂, rfl, rfl, ?_⟩)
      rw [hmove] at h
      cases hrename : d₂.rename staging target with
      | ok d₃ =>
        simp only [hrename] at h
        cases h
        exact .inl ⟨rfl, rfl⟩
      | error e =>
        simp only [hrename] at h
        cases hback : d₂.rename parked target with
        | ok d₃ =>
          simp only [hback] at h
          cases h
          exact .inr ⟨⟨_, rfl⟩, fun _ hok => (by cases hok), .inl rfl⟩
        | error e' =>
          simp only [hback] at h
          cases h
          exact .inr ⟨⟨_, rfl⟩, fun _ hok => (by cases hok),
            .inr ⟨fun _ hok => (by cases hok), rfl⟩⟩

/-- The path under which the old scene is kept. -/
def parkedPath (temporary : Path) : Path :=
  temporary.join (.ofNames [parkedName])

theorem moves_parkedPath (temporary : Path) :
    (parkedPath temporary).moves = temporary.moves ++ [.into parkedName] :=
  Path.moves_join (Path.isAbsolute_singleton _)

theorem origin_parkedPath (d : Disk) (temporary : Path) :
    d.origin (parkedPath temporary) = d.origin temporary :=
  origin_join d temporary parkedName

theorem name_of_parkedPath {temporary : Path} {parent' : List Name} {name : Name}
    (hpoints : d.Points (parkedPath temporary) parent' name) : name = parkedName := by
  have hmoves := hpoints.moves_eq
  rw [moves_parkedPath, List.dropLast_concat] at hmoves
  have hname := List.append_cancel_left hmoves
  cases hname
  rfl

/-- That path points into the temporary directory. -/
theorem points_parkedPath {temporary : Path} {parent' : List Name} {name : Name}
    (hpoints : d.Points (parkedPath temporary) parent' name)
    (hsite : d.Arrives temporary temporary.moves (parent ++ [site])) :
    parent' = parent ++ [site] ∧ name = parkedName := by
  have harrives := hpoints.arrives
  rw [moves_parkedPath, List.dropLast_concat, Arrives, origin_parkedPath] at harrives
  exact ⟨hsite.unique harrives, name_of_parkedPath hpoints⟩

variable [TemporaryNames]

/-- A scene is staged in the site of a temporary directory for `out`. Its name is the only move of
the path `q`, which is joined to the path of the site and to `out`. -/
structure Prepared (d₁ : Disk) (out q : Path) (parent : List Name) (site first : Name)
    (d : Disk) : Prop where
  wellFormed : d₁.WellFormed
  vacant : d₁.Vacant (d₁.freshPath out) parent site
  staged : d₁.Staged (parent ++ [site]) d
  relative : q.isAbsolute = false
  pieces : q.pieces ≠ []
  moves : q.moves = [.into first]
  points : d.Points ((d₁.freshPath out).join q) (parent ++ [site]) first
  item : d.item? (parent ++ [site] ++ [first]) = some .directory

namespace Prepared

variable {d₂ x : Disk}

theorem moves_target (h : Prepared d₁ out q parent site first d) :
    (out.join q).moves = out.moves ++ [.into first] := by
  rw [Path.moves_join h.relative, h.moves]

theorem origin_target (h : Prepared d₁ out q parent site first d) (x : Disk) :
    x.origin (out.join q) = x.origin out :=
  origin_congr (Path.isAbsolute_join h.relative (.inr h.pieces)) x

/-- The place of the scene is the only one that its path can point to. -/
theorem points_target (h : Prepared d₁ out q parent site first d) {links : Nat}
    {trail : List (List Name)} {parent' : List Name} {name : Name}
    (hroute : Route x.item? links (x.origin out) out.moves trail parent)
    (hpoints : x.Points (out.join q) parent' name) : parent' = parent ∧ name = first := by
  obtain ⟨links', trail', -, hroute'⟩ := hpoints.arrives
  have hmoves := hpoints.moves_eq
  rw [h.moves_target, List.dropLast_concat] at hmoves
  rw [h.moves_target, List.dropLast_concat, h.origin_target] at hroute'
  obtain ⟨-, -, rfl⟩ := hroute.unique hroute'
  have hname := List.append_cancel_left hmoves
  cases hname
  exact ⟨rfl, rfl⟩

/-- The way to the temporary directory, on the disk without it. -/
theorem exists_route (h : Prepared d₁ out q parent site first d) :
    ∃ links trail trail', links ≤ mostLinks ∧
      Route d₁.item? links [] (d₁.freshPath out).moves.dropLast trail parent ∧
      Route d₁.item? links (d₁.origin out) out.moves trail' parent ∧
      ∀ place, place ∈ trail ↔ place ≠ [] ∧ place <+: d₁.origin out ∨ place ∈ trail' :=
  exists_route_of_freshPath h.wellFormed h.vacant.points

theorem origin_eq (h : Prepared d₁ out q parent site first d) : d.origin out = d₁.origin out :=
  origin_eq_of_here h.staged.here out

/-- What stands anywhere is not below the site. -/
theorem not_below (h : Prepared d₁ out q parent site first d) {names : List Name}
    (hnames : d₁.item? names ≠ none) : ¬parent ++ [site] <+: names := by
  rintro ⟨rest, rfl⟩
  exact hnames (d₁.isTree_item?.eq_none_of_none h.vacant.item rest)

/-- Once the scene is staged, its path still points to its place. -/
theorem points_of_staged (h : Prepared d₁ out q parent site first d) {parent' : List Name}
    {name : Name} (hpoints : d.Points (out.join q) parent' name) :
    parent' = parent ∧ name = first := by
  obtain ⟨links, trail, trail', -, -, hroute, -⟩ := h.exists_route
  have hroute' := hroute.mono (h.staged.kept h.vacant)
  rw [← h.origin_eq] at hroute'
  exact h.points_target hroute' hpoints

/-- Moving the old scene away takes it from its place into the site. -/
theorem moved_away (h : Prepared d₁ out q parent site first d)
    (hmove : d.rename (out.join q) (parkedPath (d₁.freshPath out)) = .ok d₂) :
    d.Moves (out.join q) (parkedPath (d₁.freshPath out)) parent first (parent ++ [site]) parkedName
      d₂ := by
  obtain ⟨_, _, _, _, hmoves⟩ := rename_eq_ok hmove
  obtain ⟨rfl, rfl⟩ := h.points_of_staged hmoves.points
  obtain ⟨rfl, rfl⟩ := points_parkedPath hmoves.points'
    ((h.staged.points h.vacant).arrives_append h.staged.directory)
  exact hmoves

/-- Moving the staged scene to its place takes it out of the site. -/
theorem moved_in (h : Prepared d₁ out q parent site first d)
    (hrename : d.rename ((d₁.freshPath out).join q) (out.join q) = .ok x) :
    d.Moves ((d₁.freshPath out).join q) (out.join q) (parent ++ [site]) first parent first x := by
  obtain ⟨_, _, _, _, hmoves⟩ := rename_eq_ok hrename
  obtain ⟨rfl, rfl⟩ := h.points_of_staged hmoves.points'
  obtain ⟨rfl, rfl⟩ := h.points.unique hmoves.points
  exact hmoves

/-- As long as nothing has changed outside of the site and of the place of the scene, the paths that
do not lead through that place lead to where they led. -/
theorem exists_route_elsewhere (h : Prepared d₁ out q parent site first d)
    (havoids : d₁.Avoids out (parent ++ [first]))
    (hx : ∀ names, ¬parent ++ [first] <+: names → ¬parent ++ [site] <+: names →
      x.item? names = d₁.item? names) :
    ∃ links trail trail', links ≤ mostLinks ∧
      Route x.item? links [] (d₁.freshPath out).moves.dropLast trail parent ∧
      Route x.item? links (d₁.origin out) out.moves trail' parent := by
  obtain ⟨links, trail, trail', hlinks, hroute, hroute', htrail⟩ := h.exists_route
  have havoid := havoids links trail' parent hroute'
  have hparent : x.item? parent = some .directory := by
    have hdirectory := hroute.last_eq_directory
    rw [hx parent (not_prefix_of_concat _ _), hdirectory]
    · exact h.not_below (by rw [hdirectory]; exact Option.some_ne_none _)
  refine ⟨links, trail, trail', hlinks, hroute.congr hparent fun place hplace => ?_,
    hroute'.congr hparent fun place hplace => ?_⟩
  · refine hx place ?_ (h.not_below (hroute.ne_none_of_mem hplace))
    rcases (htrail place).1 hplace with ⟨-, hbefore⟩ | hplace
    · exact fun hpre => havoid _ List.mem_cons_self (hpre.trans hbefore)
    · exact havoid place (List.mem_cons_of_mem _ hplace)
  · exact hx place (havoid place (List.mem_cons_of_mem _ hplace))
      (h.not_below (hroute'.ne_none_of_mem hplace))

/-- Then the path of the temporary directory still points to it. -/
theorem points_freshPath (h : Prepared d₁ out q parent site first d)
    (havoids : d₁.Avoids out (parent ++ [first]))
    (hx : ∀ names, ¬parent ++ [first] <+: names → ¬parent ++ [site] <+: names →
      x.item? names = d₁.item? names)
    (hhere : d₁.here = [] → x.here = []) : x.Points (d₁.freshPath out) parent site := by
  obtain ⟨links, trail, trail', hlinks, hroute, -⟩ := h.exists_route_elsewhere havoids hx
  have horigin := origin_freshPath out hhere
  refine h.vacant.points.of_arrives ?_ ⟨links, trail, hlinks, ?_⟩
  · rw [horigin]
    exact x.isTree_item?.root
  · rwa [horigin]

/-- Then the temporary directory can be removed, and nothing else is. -/
theorem exists_removeAll (h : Prepared d₁ out q parent site first d)
    (havoids : d₁.Avoids out (parent ++ [first]))
    (hx : ∀ names, ¬parent ++ [first] <+: names → ¬parent ++ [site] <+: names →
      x.item? names = d₁.item? names)
    (hhere : d₁.here = [] → x.here = [])
    (hsite : x.item? (parent ++ [site]) = some .directory) :
    ∃ d', x.removeAll (d₁.freshPath out) = .ok d' ∧
      d'.item? = x.item?.clear (parent ++ [site]) := by
  obtain ⟨d', hremove, -, hlayout⟩ :=
    removeAll_eq_ok_of_directory (h.points_freshPath havoids hx hhere)
      h.vacant.points.endsIn_freshPath.1 hsite
  exact ⟨d', hremove, hlayout⟩

/-- The staged scene stands in the site. -/
theorem points_staging (h : Prepared d₁ out q parent site first d)
    (hpoints : x.Points (d₁.freshPath out) parent site)
    (hsite : x.item? (parent ++ [site]) = some .directory) :
    x.Points ((d₁.freshPath out).join q) (parent ++ [site]) first := by
  have horigin : x.origin ((d₁.freshPath out).join q) = x.origin (d₁.freshPath out) :=
    origin_congr (Path.isAbsolute_join h.relative (.inr h.pieces)) x
  obtain ⟨links, trail, hlinks, hroute⟩ := hpoints.arrives_append hsite
  refine h.points.of_arrives ?_ ⟨links, trail, hlinks, ?_⟩
  · rw [horigin]
    exact hpoints.starts.origin
  · rw [horigin, Path.moves_join h.relative, h.moves, List.dropLast_concat]
    exact hroute

theorem not_prefix_origin (h : Prepared d₁ out q parent site first d)
    (havoids : d₁.Avoids out (parent ++ [first])) : ¬parent ++ [first] <+: d₁.origin out := by
  obtain ⟨links, trail, trail', -, -, hroute, -⟩ := h.exists_route
  exact havoids links trail' parent hroute _ List.mem_cons_self

/-- Outside of its place and of the site nothing has changed, and the site is still there. -/
theorem moved_elsewhere (h : Prepared d₁ out q parent site first d)
    (hmove : d.rename (out.join q) (parkedPath (d₁.freshPath out)) = .ok d₂) :
    (∀ names, ¬parent ++ [first] <+: names → ¬parent ++ [site] <+: names →
      d₂.item? names = d₁.item? names) ∧
    d₂.item? (parent ++ [site]) = some .directory ∧ d₂.item? (parent ++ [first]) = none := by
  have hmoved := h.moved_away hmove
  have hapart := hmoved.outside
  have hlayout := hmoved.layout
  refine ⟨fun names hfirst hsite => ?_, ?_, ?_⟩
  · have hparked : ¬parent ++ [site] ++ [parkedName] <+: names :=
      fun hpre => hsite ((List.prefix_append _ _).trans hpre)
    rw [hlayout, Layout.move_outside hparked, Layout.clear_outside hfirst,
      h.staged.outside names hsite]
  · rw [hlayout, Layout.move_outside (not_prefix_of_concat _ _),
      Layout.clear_outside hapart, h.staged.directory]
  · have hshorter : ¬parent ++ [site] ++ [parkedName] <+: parent ++ [first] := by
      intro hpre
      have hlength := hpre.length_le
      simp only [List.length_append, List.length_singleton] at hlength
      omega
    rw [hlayout, Layout.move_outside hshorter, Layout.clear_below List.prefix_rfl]

/-- The working directory has not moved to or from the root, nor at all if the path starts there. -/
theorem moved_here (h : Prepared d₁ out q parent site first d)
    (hmove : d.rename (out.join q) (parkedPath (d₁.freshPath out)) = .ok d₂) :
    (d₁.here = [] → d₂.here = []) ∧
      (¬parent ++ [first] <+: d₁.origin out → d₂.origin out = d₁.origin out) := by
  have hhere := (h.moved_away hmove).here
  rw [h.staged.here] at hhere
  constructor
  · intro hnil
    rw [hhere, hnil]
    refine namesAfterMove_outside fun hpre => ?_
    exact List.append_ne_nil_of_right_ne_nil parent (List.cons_ne_nil first [])
      (List.prefix_nil.1 hpre)
  · intro hstart
    rw [origin, origin, hhere]
    split
    · rfl
    · next habsolute =>
      rw [origin, if_neg habsolute] at hstart
      exact namesAfterMove_outside hstart

theorem moved_target (h : Prepared d₁ out q parent site first d)
    (havoids : d₁.Avoids out (parent ++ [first]))
    (hmove : d.rename (out.join q) (parkedPath (d₁.freshPath out)) = .ok d₂) :
    d₂.Points (out.join q) parent first := by
  obtain ⟨helsewhere, -, -⟩ := h.moved_elsewhere hmove
  obtain ⟨-, horigin⟩ := h.moved_here hmove
  obtain ⟨links, -, trail, hlinks, -, hroute⟩ := h.exists_route_elsewhere havoids helsewhere
  have hstart := h.not_prefix_origin havoids
  have hdirectory := h.wellFormed.origin_eq_directory out
  refine (h.moved_away hmove).points.of_arrives ?_ ⟨links, trail, hlinks, ?_⟩
  · rw [h.origin_target, horigin hstart, helsewhere _ hstart, hdirectory]
    exact h.not_below (by rw [hdirectory]; exact Option.some_ne_none _)
  · rw [h.origin_target, horigin hstart, h.moves_target, List.dropLast_concat]
    exact hroute

/-- The staged scene is still in the site, or the old scene that has taken its place is. -/
theorem moved_staging (h : Prepared d₁ out q parent site first d)
    (hmove : d.rename (out.join q) (parkedPath (d₁.freshPath out)) = .ok d₂) :
    d₂.item? (parent ++ [site] ++ [first]) = some .directory := by
  have hmoved := h.moved_away hmove
  rw [hmoved.layout]
  by_cases hparked : first = parkedName
  · subst hparked
    rw [Layout.move_target, hmoved.kind h.item]
  · have hne : first ≠ site := by
      rintro rfl
      exact hmoved.outside List.prefix_rfl
    have hother : ¬parent ++ [site] ++ [parkedName] <+: parent ++ [site] ++ [first] := by
      rw [← List.append_nil (parent ++ [site] ++ [first])]
      exact not_prefix_append_of_ne (Ne.symm hparked) []
    rw [Layout.move_outside hother, Layout.clear_outside (not_prefix_append_of_ne hne [first]),
      h.item]

/-- Then the staged scene can take its place. -/
theorem exists_rename (h : Prepared d₁ out q parent site first d)
    (havoids : d₁.Avoids out (parent ++ [first]))
    (hmove : d.rename (out.join q) (parkedPath (d₁.freshPath out)) = .ok d₂) :
    ∃ d₃, d₂.rename ((d₁.freshPath out).join q) (out.join q) = .ok d₃ ∧
      d₂.Moves ((d₁.freshPath out).join q) (out.join q) (parent ++ [site]) first parent first
        d₃ := by
  obtain ⟨helsewhere, hsite, hvacant⟩ := h.moved_elsewhere hmove
  have hstaging := h.points_staging
    (h.points_freshPath havoids helsewhere (h.moved_here hmove).1) hsite
  have hitem := h.moved_staging hmove
  have hfound : d₂.item? (parent ++ [site] ++ [first]) ≠ none := by
    rw [hitem]
    exact Option.some_ne_none _
  have hbelow : ¬parent ++ [site] ++ [first] <+: parent := by
    intro hpre
    have hlength := hpre.length_le
    simp only [List.length_append, List.length_singleton] at hlength
    omega
  exact exists_rename_eq_ok hstaging (h.moved_target havoids hmove) hfound
    (.inl hitem) hvacant hbelow

/-- What has been moved away leaves room for the new scene, unless the path leads through it. -/
theorem eq_ok_of_avoids {r : Except Error Unit} (h : Prepared d₁ out q parent site first d)
    (havoids : d₁.Avoids out (parent ++ [first])) (hstood : d.pathExists (out.join q) = true)
    (hmove : d.rename (out.join q) (parkedPath (d₁.freshPath out)) = .ok d₂)
    (hrun : runOn (replace ((d₁.freshPath out).join q) (out.join q)
      (parkedPath (d₁.freshPath out))) d = (r, x)) : r = .ok () := by
  obtain ⟨d₃, hplace, -⟩ := h.exists_rename havoids hmove
  rcases replace_eq hrun with ⟨-, -, hstays⟩ | ⟨hok, -⟩ | ⟨d₂', -, hmove', hrest⟩
  · exact absurd hmove (hstays d₂ hstood)
  · exact hok
  · cases hmove.symm.trans hmove'
    rcases hrest with ⟨hok, -⟩ | ⟨-, hstays, -⟩
    · exact hok
    · exact absurd hplace (hstays d₃)

/-- If the path leads through the place of the scene, no way leads to the site any more. -/
theorem not_route (h : Prepared d₁ out q parent site first d)
    (havoids : ¬d₁.Avoids out (parent ++ [first]))
    (hmove : d.rename (out.join q) (parkedPath (d₁.freshPath out)) = .ok d₂) {links : Nat}
    {trail : List (List Name)} {last : List Name} :
    ¬Route d₂.item? links [] (d₁.freshPath out).moves.dropLast trail last := by
  obtain ⟨helsewhere, -, hvacant⟩ := h.moved_elsewhere hmove
  obtain ⟨links₁, trail₁, trail', -, hroute, hroute', htrail⟩ := h.exists_route
  have hne : parent ++ [first] ≠ [] :=
    List.append_ne_nil_of_right_ne_nil parent (List.cons_ne_nil _ _)
  have hmem : parent ++ [first] ∈ trail₁ := by
    rw [htrail]
    by_contra hnot
    rw [not_or, not_and] at hnot
    refine havoids fun links₂ trail₂ last₂ hroute₂ names hnames hpre => ?_
    obtain ⟨-, rfl, -⟩ := hroute'.unique hroute₂
    rcases List.mem_cons.1 hnames with rfl | hnames
    · exact hnot.1 hne hpre
    · exact hnot.2 (hroute'.mem_trail_of_prefix_of_mem hne (hnot.1 hne) hnames hpre)
  exact hroute.not_of_clear hne (fun hpre => hne (List.prefix_nil.1 hpre)) hmem
    (fun place hplace hapart => helsewhere place hapart (h.not_below (hroute.ne_none_of_mem hplace)))
    hvacant

/-- Then neither the staged nor the old scene can be moved, and the site cannot be removed. -/
theorem stuck (h : Prepared d₁ out q parent site first d)
    (havoids : ¬d₁.Avoids out (parent ++ [first]))
    (hmove : d.rename (out.join q) (parkedPath (d₁.freshPath out)) = .ok d₂) :
    (∀ d₃, d₂.rename ((d₁.freshPath out).join q) (out.join q) ≠ .ok d₃) ∧
      (∀ d₃, d₂.rename (parkedPath (d₁.freshPath out)) (out.join q) ≠ .ok d₃) ∧
      ∀ d₃, d₂.removeAll (d₁.freshPath out) ≠ .ok d₃ := by
  have horigin := origin_freshPath out (h.moved_here hmove).1
  have hbelow : ∀ (p : Path) (place : List Name) (name : Name),
      d₂.origin p = d₂.origin (d₁.freshPath out) → p.moves.dropLast = (d₁.freshPath out).moves →
      ¬d₂.Points p place name := by
    intro p place name hsame hmoves hpoints
    obtain ⟨links, trail, -, hroute⟩ := hpoints.arrives
    rw [hsame, horigin, hmoves, h.vacant.points.moves_eq] at hroute
    obtain ⟨_, _, _, -, -, hcut⟩ := hroute.split d₂.isTree_item? d₂.isTree_item?.root
    exact h.not_route havoids hmove hcut
  refine ⟨fun d₃ hrename => ?_, fun d₃ hrename => ?_, fun d₃ hremove => ?_⟩
  · obtain ⟨_, _, _, _, hmoves⟩ := rename_eq_ok hrename
    refine hbelow _ _ _ ?_ ?_ hmoves.points
    · exact origin_congr (Path.isAbsolute_join h.relative (.inr h.pieces)) d₂
    · rw [Path.moves_join h.relative, h.moves, List.dropLast_concat]
  · obtain ⟨_, _, _, _, hmoves⟩ := rename_eq_ok hrename
    refine hbelow _ _ _ (origin_parkedPath d₂ _) ?_ hmoves.points
    rw [moves_parkedPath, List.dropLast_concat]
  · obtain ⟨_, hpoints⟩ := exists_points_of_removeAll h.vacant.points.endsIn_freshPath.1 hremove
    obtain ⟨links, trail, -, hroute⟩ := hpoints.arrives
    rw [horigin] at hroute
    exact h.not_route havoids hmove hroute

/-- A disk on which the staged scene is moved to its place, and the site is removed. -/
theorem placed (h : Prepared d₁ out q parent site first d) {y : Disk}
    (havoids : d₁.Avoids out (parent ++ [first])) (hne : first ≠ site)
    (hy : ∀ names, ¬parent ++ [first] <+: names → ¬parent ++ [site] <+: names →
      y.item? names = d₁.item? names)
    (hsite : y.item? (parent ++ [site]) = some .directory) (hhere : d₁.here = [] → y.here = [])
    (hx : x.item? = y.item?.move (parent ++ [site] ++ [first]) (parent ++ [first]))
    (hmoved : x.here = namesAfterMove (parent ++ [site] ++ [first]) (parent ++ [first]) y.here) :
    ∃ d', x.removeAll (d₁.freshPath out) = .ok d' ∧
      (∀ names, ¬parent ++ [first] <+: names → d'.item? names = d₁.item? names) ∧
      ∀ rest, d'.item? (parent ++ [first] ++ rest) =
        y.item? (parent ++ [site] ++ [first] ++ rest) := by
  have hbelow : ∀ names, ¬parent ++ [site] <+: names → ¬parent ++ [site] ++ [first] <+: names :=
    fun names hnames hpre => hnames ((List.prefix_append _ _).trans hpre)
  have helsewhere : ∀ names, ¬parent ++ [first] <+: names → ¬parent ++ [site] <+: names →
      x.item? names = d₁.item? names := by
    intro names hfirst hnames
    rw [hx, Layout.move_outside hfirst, Layout.clear_outside (hbelow names hnames),
      hy names hfirst hnames]
  have hstill : x.item? (parent ++ [site]) = some .directory := by
    have hapart : ¬parent ++ [first] <+: parent ++ [site] := by
      rw [← List.append_nil (parent ++ [site])]
      exact not_prefix_append_of_ne hne []
    rw [hx, Layout.move_outside hapart, Layout.clear_outside (not_prefix_of_concat _ _),
      hsite]
  have hroot : d₁.here = [] → x.here = [] := by
    intro hnil
    rw [hmoved, hhere hnil]
    refine namesAfterMove_outside fun hpre => ?_
    exact List.append_ne_nil_of_right_ne_nil _ (List.cons_ne_nil first [])
      (List.prefix_nil.1 hpre)
  obtain ⟨d', hremove, hlayout⟩ := h.exists_removeAll havoids helsewhere hroot hstill
  refine ⟨d', hremove, fun names hfirst => ?_, fun rest => ?_⟩
  · rw [hlayout]
    exact h.vacant.clear_eq (helsewhere names hfirst)
  · rw [hlayout, Layout.clear_outside (not_prefix_append_of_ne (Ne.symm hne) rest), hx,
      Layout.move_append]

/-- If the path does not lead through the place of the scene and the scene has been replaced, it is
what has been staged, and nothing else has changed. -/
theorem replaced (h : Prepared d₁ out q parent site first d)
    (havoids : d₁.Avoids out (parent ++ [first])) (hne : first ≠ site)
    (hparked : first ≠ parkedName)
    (hrun : runOn (replace ((d₁.freshPath out).join q) (out.join q)
      (parkedPath (d₁.freshPath out))) d = (.ok (), x)) :
    ∃ d', x.removeAll (d₁.freshPath out) = .ok d' ∧
      (∀ names, ¬parent ++ [first] <+: names → d'.item? names = d₁.item? names) ∧
      ∀ rest, d'.item? (parent ++ [first] ++ rest) =
        d.item? (parent ++ [site] ++ [first] ++ rest) := by
  rcases replace_eq hrun with ⟨⟨e, he⟩, -⟩ | ⟨-, -, hrename⟩ | ⟨d₂, -, hmove, hrest⟩
  · cases he
  · have hmoves := h.moved_in hrename
    refine h.placed havoids hne (fun names _ hnames => h.staged.outside names hnames)
      h.staged.directory (fun hnil => ?_) hmoves.layout hmoves.here
    rw [h.staged.here, hnil]
  · obtain ⟨d₃, hrename, hmoves⟩ := h.exists_rename havoids hmove
    rcases hrest with ⟨-, hrename'⟩ | ⟨⟨e, he⟩, -⟩
    · cases hrename.symm.trans hrename'
      obtain ⟨helsewhere, hsite, -⟩ := h.moved_elsewhere hmove
      obtain ⟨d', hremove, hkept, hscene⟩ := h.placed havoids hne helsewhere hsite
        (h.moved_here hmove).1 hmoves.layout hmoves.here
      refine ⟨d', hremove, hkept, fun rest => ?_⟩
      rw [hscene, (h.moved_away hmove).layout,
        Layout.move_outside (not_prefix_append_of_ne (Ne.symm hparked) rest), Layout.clear_outside]
      rw [List.append_assoc]
      exact not_prefix_append_of_ne hne ([first] ++ rest)
    · cases he

/-- If the scene has been replaced, the path did not lead through its place: the old scene cannot
be moved away, and a directory or a link in its place is not taken for nothing. -/
theorem avoids (h : Prepared d₁ out q parent site first d)
    (hrun : runOn (replace ((d₁.freshPath out).join q) (out.join q)
      (parkedPath (d₁.freshPath out))) d = (.ok (), x)) : d₁.Avoids out (parent ++ [first]) := by
  by_contra havoids
  rcases replace_eq hrun with ⟨⟨e, he⟩, -⟩ | ⟨-, hvacant, hrename⟩ | ⟨d₂, -, hmove, hrest⟩
  · cases he
  · have hmoves := h.moved_in hrename
    obtain ⟨links, trail, trail', -, -, hroute, -⟩ := h.exists_route
    refine havoids fun links₂ trail₂ last₂ hroute₂ names hnames hpre => ?_
    obtain ⟨-, rfl, -⟩ := hroute.unique hroute₂
    have hfound : d₁.item? names ≠ none := by
      rcases List.mem_cons.1 hnames with rfl | hnames
      · rw [h.wellFormed.origin_eq_directory out]
        exact Option.some_ne_none _
      · exact hroute.ne_none_of_mem hnames
    obtain ⟨item, hitem⟩ := Option.ne_none_iff_exists'.1 hfound
    have hstands := h.staged.kept h.vacant _ _ hitem
    obtain ⟨rest, rfl⟩ := hpre
    cases rest with
    | nil =>
      rw [List.append_nil] at hstands
      rcases rename_onto hrename hmoves.points hmoves.points' h.item with hnone | hdirectory
      · cases hnone.symm.trans hstands
      · have harrives := hmoves.points'.arrives_append hdirectory
        have hexists := pathExists_of_isDirectory
          (isDirectory_iff.2 ⟨hmoves.points'.starts, _, harrives⟩)
        exact Bool.noConfusion (hexists.symm.trans hvacant)
    | cons next rest =>
      rcases hmoves.empty with hsame | hempty
      · have hlength := congrArg List.length hsame
        simp only [List.length_append, List.length_singleton] at hlength
        omega
      · cases (hempty next rest).symm.trans hstands
  · rcases hrest with ⟨-, hrename⟩ | ⟨⟨e, he⟩, -⟩
    · exact (h.stuck havoids hmove).1 _ hrename
    · cases he

end Prepared

end Scaffold.Scene
