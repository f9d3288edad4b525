import Scaffold.Proofs.Scene.Attempt

/-!
Failed writes. There are two ways in which a failed write can disturb what stood on the disk. The
name of the scene may be a path that leads out of the temporary directory, so that what has been
staged is not removed with it. And the path to the scene's place may lead through that place, so
that it leads nowhere once the old scene has been moved away, and nothing can be moved back.
-/

namespace Scaffold.Scene

open Disk DiskAction

/-- The path to the directory of the scene leads through the place of the scene. -/
def LeadsThroughScene (d : Disk) (out : Path) (name : String) : Prop :=
  ∃ first, (Path.ofString name).moves = [.into first] ∧ d.PassesThrough out first

section

variable [TemporaryNames] {d d₁ d₂ d₃ d₄ d' x : Disk} {out : Path} {name : String}
  {files : List RenderedFile} {overwrite : Bool} {r : Except Error Unit} {e : Error}
  {parent : List Name} {site : Name}

/-- The write is not refused, the scene is staged, and what stands in its place is moved away: the
disks with the temporary directory, with the staged scene and after the move. -/
structure Parks (d : Disk) (out : Path) (name : String) (files : List RenderedFile)
    (overwrite : Bool) (d₁ d₂ d₃ d₄ : Disk) : Prop extends Begins d out d₁ d₂ where
  wanted : d.pathExists (out.join (.ofString name)) = true → overwrite = true
  staged : runOn (stage ((d₁.freshPath out).join (.ofString name)) files) d₂ = (.ok (), d₃)
  stood : d₃.pathExists (out.join (.ofString name)) = true
  moved : d₃.rename (out.join (.ofString name)) (parkedPath (d₁.freshPath out)) = .ok d₄

/-- What stands in the place of the scene is moved away. -/
def MovesAway (d : Disk) (out : Path) (name : String) (files : List RenderedFile)
    (overwrite : Bool) : Prop :=
  ∃ d₁ d₂ d₃ d₄, Parks d out name files overwrite d₁ d₂ d₃ d₄

/-- What stands at a place is moved away, and then the path that led there, or the path to where it
has been moved, leads elsewhere or nowhere. -/
def MovesForGood (d : Disk) (out : Path) (name : String) (files : List RenderedFile)
    (overwrite : Bool) (place : List Name) : Prop :=
  ∃ d₁ d₂ d₃ d₄ parent first site, Parks d out name files overwrite d₁ d₂ d₃ d₄ ∧
    place = parent ++ [first] ∧ d₃.Points (out.join (.ofString name)) parent first ∧
    d₃.Points (parkedPath (d₁.freshPath out)) site parkedName ∧
    ¬(d₄.Points (out.join (.ofString name)) parent first ∧
      d₄.Points (parkedPath (d₁.freshPath out)) site parkedName)

/-- Something is moved for good that stood there before the write, or that is a directory on the
way to the scene. -/
def Loses (d : Disk) (out : Path) (name : String) (files : List RenderedFile)
    (overwrite : Bool) : Prop :=
  ∃ place, MovesForGood d out name files overwrite place ∧
    (d.item? place ≠ none ∨ d.OnTheWay out place)

/-- The write is not refused, and a directory for the staged scene is created outside of the
temporary directory and not moved away for good. -/
def Strays (d : Disk) (out : Path) (name : String) (files : List RenderedFile)
    (overwrite : Bool) : Prop :=
  (d.pathExists (out.join (.ofString name)) = true → overwrite = true) ∧
    ∃ d₁ d₂ d₃ parent site parent' name', Begins d out d₁ d₂ ∧
      d₁.Points (d₁.freshPath out) parent site ∧
      d₂.createDirectory ((d₁.freshPath out).join (.ofString name)) = .ok d₃ ∧
      d₂.Points ((d₁.freshPath out).join (.ofString name)) parent' name' ∧
      ¬parent ++ [site] <+: parent' ++ [name'] ∧
      ¬MovesForGood d out name files overwrite (parent' ++ [name'])

theorem Begins.unique {c₁ c₂ : Disk} (h : Begins d out d₁ d₂) (h' : Begins d out c₁ c₂) :
    c₁ = d₁ ∧ c₂ = d₂ := by
  have hfirst := h'.directories.symm.trans h.directories
  cases hfirst
  exact ⟨rfl, Except.ok.inj (h'.temporary.symm.trans h.temporary)⟩

theorem Parks.unique {c₁ c₂ c₃ c₄ : Disk} (h : Parks d out name files overwrite d₁ d₂ d₃ d₄)
    (h' : Parks d out name files overwrite c₁ c₂ c₃ c₄) :
    c₁ = d₁ ∧ c₂ = d₂ ∧ c₃ = d₃ ∧ c₄ = d₄ := by
  obtain ⟨rfl, rfl⟩ := h.toBegins.unique h'.toBegins
  have hstaged := h'.staged.symm.trans h.staged
  cases hstaged
  exact ⟨rfl, rfl, rfl, Except.ok.inj (h'.moved.symm.trans h.moved)⟩

theorem MovesForGood.movesAway {place : List Name}
    (h : MovesForGood d out name files overwrite place) :
    MovesAway d out name files overwrite := by
  obtain ⟨d₁, d₂, d₃, d₄, _, _, _, hparks, -⟩ := h
  exact ⟨d₁, d₂, d₃, d₄, hparks⟩

theorem Loses.movesAway (h : Loses d out name files overwrite) :
    MovesAway d out name files overwrite := by
  obtain ⟨_, hmoved, -⟩ := h
  exact hmoved.movesAway

theorem Parks.movesForGood_iff {first : Name} {above place : List Name}
    (h : Parks d out name files overwrite d₁ d₂ d₃ d₄)
    (hmoves : d₃.Moves (out.join (.ofString name)) (parkedPath (d₁.freshPath out)) above first
      (parent ++ [site]) parkedName d₄) :
    MovesForGood d out name files overwrite place ↔ place = above ++ [first] ∧
      ¬(d₄.Points (out.join (.ofString name)) above first ∧
        d₄.Points (parkedPath (d₁.freshPath out)) (parent ++ [site]) parkedName) := by
  constructor
  · rintro ⟨c₁, c₂, c₃, c₄, _, _, _, hparks, rfl, htarget, hparked, hlost⟩
    obtain ⟨rfl, rfl, rfl, rfl⟩ := h.unique hparks
    obtain ⟨rfl, rfl⟩ := hmoves.points.unique htarget
    obtain ⟨rfl, -⟩ := hmoves.points'.unique hparked
    exact ⟨rfl, hlost⟩
  · rintro ⟨rfl, hlost⟩
    exact ⟨d₁, d₂, d₃, d₄, above, first, _, h, rfl, hmoves.points, hmoves.points', hlost⟩

theorem Attempt.strays_iff {place : List Name}
    (h : Attempt d out (.ofString name) d₁ parent site d₂ place d₃) (hbegins : Begins d out d₁ d₂)
    (hwanted : d.pathExists (out.join (.ofString name)) = true → overwrite = true)
    (hcreated : d₂.createDirectory ((d₁.freshPath out).join (.ofString name)) = .ok d₄) :
    Strays d out name files overwrite ↔
      ¬parent ++ [site] <+: place ∧ ¬MovesForGood d out name files overwrite place := by
  obtain ⟨parent', name', rfl, hvacant⟩ := h.placeVacant
  constructor
  · rintro ⟨-, c₁, c₂, c₃, p, n, p', n', hbegins', hsite, -, hplace, hout⟩
    obtain ⟨rfl, rfl⟩ := hbegins.unique hbegins'
    obtain ⟨rfl, rfl⟩ := h.vacant.points.unique hsite
    obtain ⟨rfl, rfl⟩ := hvacant.points.unique hplace
    exact hout
  · intro hout
    exact ⟨hwanted, d₁, d₂, d₄, parent, site, parent', name', hbegins, h.vacant.points, hcreated,
      hvacant.points, hout⟩

/-- If nothing is moved away, only a staged scene can be left. -/
theorem Attempt.grows_iff_of_stays {place : List Name}
    (h : Attempt d out (.ofString name) d₁ parent site d₂ place d₃) (hbegins : Begins d out d₁ d₂)
    (hwanted : d.pathExists (out.join (.ofString name)) = true → overwrite = true)
    (hcreated : d₂.createDirectory ((d₁.freshPath out).join (.ofString name)) = .ok d₄)
    (hstays : ¬MovesAway d out name files overwrite)
    (hremoved : d₃.removeAll (d₁.freshPath out) = .ok d' ∨
      (∀ d₄, d₃.removeAll (d₁.freshPath out) ≠ .ok d₄) ∧ d' = d₃) :
    d.Grows out d' ↔ ¬Loses d out name files overwrite ∧ ¬Strays d out name files overwrite := by
  have hkept : ¬Loses d out name files overwrite := fun hloses => hstays hloses.movesAway
  have hplace : ¬MovesForGood d out name files overwrite place :=
    fun hmoved => hstays hmoved.movesAway
  have hstands : d₃.item? place ≠ none := by
    rw [h.staged.directory]
    exact Option.some_ne_none _
  rw [h.grows_iff h.spares hremoved, or_iff_left hstands, and_iff_right hkept,
    h.strays_iff hbegins hwanted hcreated, and_iff_left hplace, not_not]

/-- If something has been moved away, it is back unless the paths have been cut off. -/
theorem Attempt.grows_iff_of_parks {place : List Name}
    (h : Attempt d out (.ofString name) d₁ parent site d₂ place d₃) (hwell : d.WellFormed)
    (hcreated : d₂.createDirectory ((d₁.freshPath out).join (.ofString name)) = .ok x)
    (hparks : Parks d out name files overwrite d₁ d₂ d₃ d₄) {y : Disk}
    (hback : d₄.rename (parkedPath (d₁.freshPath out)) (out.join (.ofString name)) = .ok y ∨
      (∀ d₅, d₄.rename (parkedPath (d₁.freshPath out)) (out.join (.ofString name)) ≠ .ok d₅) ∧
        y = d₄)
    (hremoved : y.removeAll (d₁.freshPath out) = .ok d' ∨
      (∀ d₄, y.removeAll (d₁.freshPath out) ≠ .ok d₄) ∧ d' = y) :
    d.Grows out d' ↔ ¬Loses d out name files overwrite ∧ ¬Strays d out name files overwrite := by
  obtain ⟨above, first, hmoves⟩ := h.moved hparks.moved
  rw [h.strays_iff hparks.toBegins hparks.wanted hcreated, hparks.movesForGood_iff hmoves]
  have hloses : Loses d out name files overwrite ↔
      ¬(d₄.Points (out.join (.ofString name)) above first ∧
        d₄.Points (parkedPath (d₁.freshPath out)) (parent ++ [site]) parkedName) ∧
      d₂.item? (above ++ [first]) ≠ none := by
    simp only [Loses, hparks.movesForGood_iff hmoves, and_assoc, exists_eq_left, h.stood_iff hmoves]
  rw [hloses]
  by_cases hreturns : d₄.Points (out.join (.ofString name)) above first ∧
      d₄.Points (parkedPath (d₁.freshPath out)) (parent ++ [site]) parkedName
  · obtain ⟨hspares, hstands⟩ := h.spares_of_returns hmoves hreturns.1 hreturns.2 hback
    rw [h.grows_iff hspares hremoved]
    constructor
    · intro hgone
      refine ⟨fun hlost => hlost.1 hreturns, fun hstrays => ?_⟩
      exact hgone.elim hstrays.1 (hstands hstrays.1)
    · rintro ⟨-, hstrays⟩
      exact .inl (not_not.1 fun hout => hstrays ⟨hout, fun hmoved => hmoved.2 hreturns⟩)
  · by_cases hvacant : d₂.item? (above ++ [first]) = none
    · have hne := hmoves.ne_of_not_points hreturns
      obtain ⟨hspares, hgone⟩ := h.spares_of_vacant hmoves hne hvacant
      obtain rfl : y = d₄ := by
        rcases hback with hback | ⟨-, rfl⟩
        · exact absurd hback (h.stuck_of_lost hmoves hreturns (h.not_prefix_here hvacant) y)
        · rfl
      rw [h.grows_iff hspares hremoved, hgone, and_iff_right fun hlost => hlost.2 hvacant,
        and_iff_left hreturns, not_and_not_right, imp_iff_not_or, not_not]
    · have hstood := (h.stood_iff hmoves).2 hvacant
      exact iff_of_false (h.not_grows_of_lost hmoves hreturns hback hremoved hwell hstood)
        fun hkept => hkept.1 ⟨hreturns, hvacant⟩

/-- A run that fails disturbs the disk by straying or by losing something, and in no other way. -/
theorem Settles.grows_iff (h : Settles d out (.ofString name) files d₁ d₂ x (.error e) d')
    (hwell : d.WellFormed) (hfiles : ∀ file ∈ files, file.path.IsNormal)
    (hwanted : d.pathExists (out.join (.ofString name)) = true → overwrite = true) :
    d.Grows out d' ↔ ¬Loses d out name files overwrite ∧ ¬Strays d out name files overwrite := by
  have hgrows := (runOn_createDirectories_eq h.directories).1
  obtain ⟨parent, site, hvacant, hstaged, hempty⟩ := exists_staged_of_createDirectory h.temporary
  have hattempt : ∀ {parent' name'} {d₃ : Disk},
      d₂.Vacant ((d₁.freshPath out).join (.ofString name)) parent' name' →
      d₂.Staged (parent' ++ [name']) d₃ →
      Attempt d out (.ofString name) d₁ parent site d₂ (parent' ++ [name']) d₃ :=
    fun hplace hscene => ⟨hgrows.wellFormed hwell, hgrows, hvacant, hstaged, hempty,
      ⟨_, _, rfl, hplace⟩, hscene⟩
  rcases runOn_bind_eq h.settled with ⟨e', hstage, -⟩ | ⟨_, d₃, hstage, hreplace⟩
  · have hstays : ¬MovesAway d out name files overwrite := by
      rintro ⟨c₁, c₂, c₃, c₄, hparks⟩
      obtain ⟨rfl, rfl⟩ := h.toBegins.unique hparks.toBegins
      cases hstage.symm.trans hparks.staged
    rcases stage_anywhere hfiles hstage with
      ⟨-, rfl, hfailed⟩ | ⟨parent', name', hplace, hscene, d₄, hcreated⟩
    · have hnot : ¬Strays d out name files overwrite := by
        rintro ⟨-, c₁, c₂, c₃, _, _, _, _, hbegins, -, hcreated, -⟩
        obtain ⟨rfl, rfl⟩ := h.toBegins.unique hbegins
        exact hfailed c₃ hcreated
      obtain ⟨d₄, hremove, hhere, hitem⟩ := hstaged.exists_removeAll hvacant
      obtain rfl := h.eq_of_removeAll hremove
      exact iff_of_true (hgrows.congr hhere hitem)
        ⟨fun hloses => hstays hloses.movesAway, hnot⟩
    · exact (hattempt hplace hscene).grows_iff_of_stays h.toBegins hwanted hcreated hstays h.removed
  · rcases stage_anywhere hfiles hstage with
      ⟨⟨e', he⟩, -⟩ | ⟨parent', name', hplace, hscene, d₄, hcreated⟩
    · cases he
    have hrun := hattempt hplace hscene
    rcases replace_eq hreplace with ⟨-, rfl, hstays⟩ | ⟨hok, -⟩ | ⟨d₅, hstood, hmove, hrest⟩
    · refine hrun.grows_iff_of_stays h.toBegins hwanted hcreated ?_ h.removed
      rintro ⟨c₁, c₂, c₃, c₄, hparks⟩
      obtain ⟨rfl, rfl⟩ := h.toBegins.unique hparks.toBegins
      cases hstage.symm.trans hparks.staged
      exact hstays c₄ hparks.stood hparks.moved
    · cases hok
    · rcases hrest with ⟨hok, -⟩ | ⟨-, -, hback⟩
      · cases hok
      · exact hrun.grows_iff_of_parks hwell hcreated ⟨h.toBegins, hwanted, hstage, hstood, hmove⟩
          hback h.removed

/-- A run whose scene is staged in the temporary directory. If it moves the old scene away and fails
all the same, the path led through that scene, and everything is stuck. -/
theorem Settles.grows_iff_of_inside (h : Settles d out (.ofString name) files d₁ d₂ x (.error e) d')
    (hwell : d.WellFormed) (hfiles : ∀ file ∈ files, file.path.IsNormal)
    (hrelative : (Path.ofString name).isAbsolute = false)
    (hinside : (Path.ofString name).moves.head? ≠ some .up)
    (hwanted : d.pathExists (out.join (.ofString name)) = true → overwrite = true) :
    (d.Grows out d' ↔ ¬(MovesAway d out name files overwrite ∧ LeadsThroughScene d out name)) ∧
    (MovesAway d out name files overwrite → LeadsThroughScene d out name →
      ∃ parent first site, d.Leads out parent ∧ (Path.ofString name).moves = [.into first] ∧
        d'.item? (parent ++ [first]) = none ∧
        d.item? (parent ++ [site]) = none ∧ d'.item? (parent ++ [site]) = some .directory) := by
  have hgrows := (runOn_createDirectories_eq h.directories).1
  rcases h.outcome (hgrows.wellFormed hwell) hrelative (Piece.cut_ne_nil _) hinside
    (fun file hfile => (hfiles file hfile).descends) with
    ⟨-, hitem, hhere, hstays⟩ |
    ⟨parent, site, first, d₃, hprepared, hstage, -, hreplace, hok | ⟨hstood, d₄, hmove⟩⟩
  · have hnot : ¬MovesAway d out name files overwrite := by
      rintro ⟨c₁, c₂, c₃, c₄, hparks⟩
      obtain ⟨rfl, rfl⟩ := h.toBegins.unique hparks.toBegins
      exact hstays c₃ c₄ hparks.staged hparks.stood hparks.moved
    exact ⟨iff_of_true (hgrows.congr hhere hitem) fun hboth => hnot hboth.1,
      fun hmoves => absurd hmoves hnot⟩
  · cases hok
  obtain ⟨links, -, trail, -, -, hroute, -⟩ := hprepared.exists_route
  have hmoves : MovesAway d out name files overwrite :=
    ⟨d₁, d₂, d₃, d₄, h.toBegins, hwanted, hstage, hstood, hmove⟩
  have havoids : ¬d₁.Avoids out (parent ++ [first]) := by
    intro havoids
    cases hprepared.eq_ok_of_avoids havoids hstood hmove hreplace
  rcases replace_eq hreplace with ⟨-, -, hstays⟩ | ⟨hok, -⟩ | ⟨d₄', -, hmove', hrest⟩
  · exact absurd hmove (hstays d₄ hstood)
  · cases hok
  cases hmove.symm.trans hmove'
  rcases hrest with ⟨hok, -⟩ | ⟨-, -, hback⟩
  · cases hok
  have hleads : LeadsThroughScene d out name :=
    ⟨first, hprepared.moves, not_not.1 (mt (hgrows.avoids_iff hroute).2 havoids)⟩
  obtain ⟨-, hparked, hremove⟩ := hprepared.stuck havoids hmove
  obtain rfl : x = d₄ := by
    rcases hback with hback | ⟨-, hsame⟩
    · exact absurd hback (hparked x)
    · exact hsame
  obtain rfl : d' = x := by
    rcases h.removed with hremoved | ⟨-, hsame⟩
    · exact absurd hremoved (hremove d')
    · exact hsame
  obtain ⟨-, hsite, hscene⟩ := hprepared.moved_elsewhere hmove
  have hnew : d.item? (parent ++ [site]) = none := by
    by_contra hold
    obtain ⟨item, hitem⟩ := Option.ne_none_iff_exists'.1 hold
    cases hprepared.vacant.item.symm.trans (hgrows.item_eq hitem)
  refine ⟨iff_of_false (fun hgrows' => ?_) (not_not_intro ⟨hmoves, hleads⟩), fun _ _ =>
    ⟨parent, first, site, hgrows.leads hroute, hprepared.moves, hscene, hnew, hsite⟩⟩
  refine hgrows.ne_none hprepared.wellFormed hroute hgrows' ?_ hprepared.vacant.item
  rw [hsite]
  exact Option.some_ne_none _

/-- A failed write leaves everything as it was, but for directories on the way to the scene, unless
it moves something away for good or leaves a staged scene outside of the temporary directory. If the
name leads into the directory, that is to say unless it moves the old scene away from below its own
path; then the scene is gone from its place, and a temporary directory is left. -/
theorem write_failure (hwell : d.WellFormed) (hfiles : ∀ file ∈ files, file.path.IsNormal)
    (h : runOn (write out name files overwrite) d = (.error e, d')) :
    (d.Grows out d' ↔ ¬Loses d out name files overwrite ∧ ¬Strays d out name files overwrite) ∧
    ((Path.ofString name).isAbsolute = false → (Path.ofString name).moves.head? ≠ some .up →
      (d.Grows out d' ↔ ¬(MovesAway d out name files overwrite ∧ LeadsThroughScene d out name)) ∧
      (MovesAway d out name files overwrite → LeadsThroughScene d out name →
        ∃ parent first site, d.Leads out parent ∧ (Path.ofString name).moves = [.into first] ∧
          d'.item? (parent ++ [first]) = none ∧
          d.item? (parent ++ [site]) = none ∧ d'.item? (parent ++ [site]) = some .directory)) := by
  rcases write_eq h with ⟨hexists, hkeep, -, rfl⟩ |
    ⟨hwanted, ⟨-, hgrows, hnever⟩ | ⟨d₁, d₂, x, r', hsettles, hr⟩⟩
  · have hrefused : ¬(d'.pathExists (out.join (.ofString name)) = true → overwrite = true) :=
      fun hwanted => Bool.false_ne_true (hkeep.symm.trans (hwanted hexists))
    have hstays : ¬MovesAway d' out name files overwrite := by
      rintro ⟨d₁, d₂, d₃, d₄, hparks⟩
      exact hrefused hparks.wanted
    have hgrows : d'.Grows out d' := .refl d' out
    exact ⟨iff_of_true hgrows ⟨fun hloses => hstays hloses.movesAway,
      fun hstrays => hrefused hstrays.1⟩, fun _ _ =>
      ⟨iff_of_true hgrows fun hboth => hstays hboth.1, fun hmoves => absurd hmoves hstays⟩⟩
  · have hstays : ¬MovesAway d out name files overwrite := by
      rintro ⟨d₁, d₂, d₃, d₄, hparks⟩
      exact hnever d₁ d₂ hparks.toBegins
    have hkept : ¬Strays d out name files overwrite := by
      rintro ⟨-, d₁, d₂, _, _, _, _, _, hbegins, -⟩
      exact hnever d₁ d₂ hbegins
    exact ⟨iff_of_true hgrows ⟨fun hloses => hstays hloses.movesAway, hkept⟩, fun _ _ =>
      ⟨iff_of_true hgrows fun hboth => hstays hboth.1, fun hmoves => absurd hmoves hstays⟩⟩
  · cases r' with
    | ok _ => cases hr
    | error e' =>
      exact ⟨hsettles.grows_iff hwell hfiles hwanted, fun hrelative hinside =>
        hsettles.grows_iff_of_inside hwell hfiles hrelative hinside hwanted⟩

end

/-- Two files that cannot both be written leave the scene that is there. -/
theorem write_failure_of_clash :
    ∃ e d', runOn (write (.ofString "Scenes") "Login"
        [⟨.ofString "View", "new"⟩, ⟨.ofString "View/Model.swift", "new"⟩] true) diskOfOneScene =
        (.error e, d') ∧ diskOfOneScene.Grows (.ofString "Scenes") d' := by
  have hfailed : (runOn (write (.ofString "Scenes") "Login"
      [⟨.ofString "View", "new"⟩, ⟨.ofString "View/Model.swift", "new"⟩] true)
      diskOfOneScene).1.toBool = false := by
    decide +kernel
  rcases hrun : runOn (write (.ofString "Scenes") "Login"
    [⟨.ofString "View", "new"⟩, ⟨.ofString "View/Model.swift", "new"⟩] true) diskOfOneScene with
    ⟨e | scene, d'⟩
  swap
  · rw [hrun] at hfailed
    cases hfailed
  refine ⟨e, d', rfl, ?_⟩
  have hwell : diskOfOneScene.WellFormed := ⟨rfl⟩
  have hfiles : ∀ file ∈ ([⟨.ofString "View", "new"⟩, ⟨.ofString "View/Model.swift", "new"⟩] :
      List RenderedFile), file.path.IsNormal := by
    decide
  refine ((write_failure hwell hfiles hrun).2 (by decide) (by decide)).1.2 fun hboth => ?_
  obtain ⟨-, first, -, hpasses⟩ := hboth
  have hlinks := not_link_of_prefix_scenes (d := diskOfOneScene) nofun
  exact not_passesThrough_of_names moves_scenes hlinks hpasses

/-- A path through the scene that is there loses it. -/
theorem write_failure_through_scene :
    let result := runOn (write (.ofString "Scenes/Login/..") "Login"
      [⟨.ofString "View.swift", "new"⟩] true) diskOfOneScene
    result.1.toBool = false ∧ diskOfOneScene.isFile (.ofString "Scenes/Login/Old.swift") = true ∧
      result.2.pathExists (.ofString "Scenes/Login") = false ∧
      result.2.isDirectory (.ofString "Scenes/.tmp000000") = true := by
  decide +kernel

end Scaffold.Scene
