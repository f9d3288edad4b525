import Scaffold.Proofs.Scene.Writing

/-!
Attempts to write a scene under any name. The staged scene may stand outside of the temporary
directory, and the old scene may be moved away from anywhere. It is moved back, unless the path to
its place or to where it is kept has led through it; then it is gone from its place.
-/

namespace Scaffold

open Disk DiskAction

namespace Disk

variable {d d₁ d' : Disk} {p : Path} {names last : List Name} {links : Nat}
  {trail : List (List Name)}

/-- What is on the way of a path is where the first of its moves lead, once all of them lead
somewhere. -/
theorem Grows.exists_route_of_onTheWay (h : d.Grows p d₁) (hwell : d₁.WellFormed)
    (hroute : Route d₁.item? links (d₁.origin p) p.moves trail last) (hway : d.OnTheWay p names) :
    ∃ links' moves trail', trail' <+: trail ∧
      Route d₁.item? links' (d₁.origin p) moves trail' names := by
  obtain ⟨moves, _, _, ⟨rest, hrest⟩, hfilled⟩ := hway
  rw [← hrest] at hroute
  obtain ⟨links', trail', place, -, htrail, hcut⟩ :=
    hroute.split d₁.isTree_item? (hwell.origin_eq_directory p)
  have hcut' := hcut.filled
  rw [h.filled_eq, h.origin_eq] at hcut'
  obtain ⟨-, -, rfl⟩ := hcut'.unique hfilled
  exact ⟨links', moves, trail', htrail, hcut⟩

/-- Then no more can be added on its way. -/
theorem Grows.ne_none (h : d.Grows p d₁) (hwell : d₁.WellFormed)
    (hroute : Route d₁.item? links (d₁.origin p) p.moves trail last) (h' : d.Grows p d')
    (hnames : d'.item? names ≠ none) : d₁.item? names ≠ none := by
  rcases h'.item names with heq | ⟨-, -, hway⟩
  · rw [heq] at hnames
    obtain ⟨item, hitem⟩ := Option.ne_none_iff_exists'.1 hnames
    rw [h.item_eq hitem]
    exact Option.some_ne_none _
  · obtain ⟨_, _, _, -, hcut⟩ := h.exists_route_of_onTheWay hwell hroute hway
    rw [hcut.last_eq_directory]
    exact Option.some_ne_none _

/-- What has been created on the way of a path has been gone through. -/
theorem Grows.exists_mem_of_onTheWay (h : d.Grows p d₁) (hwell : d₁.WellFormed)
    (hroute : Route d₁.item? links (d₁.origin p) p.moves trail last) (hway : d.OnTheWay p names)
    (hnames : names ≠ []) (hstart : ¬names <+: d₁.origin p) :
    ∃ place ∈ trail, names <+: place := by
  obtain ⟨_, _, trail', htrail, hcut⟩ := h.exists_route_of_onTheWay hwell hroute hway
  by_contra hnone
  refine hcut.not_prefix_last hnames hstart (fun place hplace hbelow => ?_) List.prefix_rfl
  exact hnone ⟨place, htrail.subset hplace, hbelow⟩

end Disk

namespace Scene

variable {d d₁ d₂ d₃ d₄ d' x y : Disk} {out q : Path} {files : List RenderedFile}
  {r : Except Error Unit} {parent : List Name} {site : Name}

/-- Wherever the path of the staged scene leads, staging changes nothing outside of its place. -/
theorem stage_anywhere {staging : Path} (hfiles : ∀ file ∈ files, file.path.IsNormal)
    (hrun : runOn (stage staging files) d₂ = (r, d₃)) :
    (∃ e, r = .error e) ∧ d₃ = d₂ ∧ (∀ d₄, d₂.createDirectory staging ≠ .ok d₄) ∨
    ∃ parent name, d₂.Vacant staging parent name ∧ d₂.Staged (parent ++ [name]) d₃ ∧
      ∃ d₄, d₂.createDirectory staging = .ok d₄ := by
  rcases runOn_bind_eq hrun with ⟨e, hcreate, rfl⟩ | ⟨_, d₄, hcreate, hwrite⟩
  · rw [runOn_perform, DiskOperation.apply] at hcreate
    cases hfailed : d₂.createDirectory staging with
    | ok d₄ =>
      rw [hfailed] at hcreate
      cases hcreate
    | error cause =>
      rw [hfailed] at hcreate
      cases hcreate
      exact .inl ⟨⟨_, rfl⟩, rfl, fun _ hok => by cases hok⟩
  · rcases runOn_perform_eq hcreate with ⟨-, hcreated⟩ | ⟨⟨e, he⟩, -⟩
    swap
    · cases he
    obtain ⟨parent, name, hvacant, hstaged, -⟩ := exists_staged_of_createDirectory hcreated
    have hne : staging.moves ≠ [] := by
      rw [hvacant.points.moves_eq]
      exact List.concat_ne_nil _ _
    have hbelow : ∀ file ∈ files, (staging.join file.path).isAbsolute = staging.isAbsolute ∧
        ∃ moves, .up ∉ moves ∧
          (staging.join file.path).moves.dropLast = staging.moves ++ moves := by
      intro file hfile
      have hnormal := hfiles file hfile
      refine ⟨Path.isAbsolute_join hnormal.isAbsolute_eq (.inl hne), file.path.moves.dropLast,
        hnormal.descends.2, ?_⟩
      have hmoves : file.path.moves ≠ [] := by
        rw [hnormal.moves_eq]
        exact fun hnil => hnormal.1 (List.map_eq_nil_iff.1 hnil)
      rw [Path.moves_join hnormal.isAbsolute_eq, List.dropLast_append_of_ne_nil hmoves]
    exact .inr ⟨parent, name, hvacant, (forM_writeFile_staged hvacant hbelow hstaged hwrite).1,
      d₄, hcreated⟩

variable [TemporaryNames]

/-- A scene is staged in a place that may be in the site of the temporary directory or not. -/
structure Attempt (d : Disk) (out q : Path) (d₁ : Disk) (parent : List Name) (site : Name)
    (d₂ : Disk) (place : List Name) (d₃ : Disk) : Prop where
  wellFormed : d₁.WellFormed
  grows : d.Grows out d₁
  vacant : d₁.Vacant (d₁.freshPath out) parent site
  temporary : d₁.Staged (parent ++ [site]) d₂
  empty (name : Name) (rest : List Name) :
    d₂.item? (parent ++ [site] ++ name :: rest) = none
  placeVacant : ∃ parent' name', place = parent' ++ [name'] ∧
    d₂.Vacant ((d₁.freshPath out).join q) parent' name'
  staged : d₂.Staged place d₃

/-- What stands on a disk with an empty site still stands, and nothing else has changed outside of
the site and of a place. -/
structure Spares (d₂ : Disk) (site place : List Name) (x : Disk) : Prop where
  here : x.here = d₂.here
  kept (names : List Name) (item : Item) : d₂.item? names = some item → x.item? names = some item
  outside (names : List Name) : ¬site <+: names → ¬place <+: names →
    x.item? names = d₂.item? names

namespace Attempt

variable {place : List Name}

theorem place_eq_none (h : Attempt d out q d₁ parent site d₂ place d₃) : d₂.item? place = none := by
  obtain ⟨_, _, rfl, hvacant⟩ := h.placeVacant
  exact hvacant.item

theorem spares (h : Attempt d out q d₁ parent site d₂ place d₃) :
    Spares d₂ (parent ++ [site]) place d₃ where
  here := h.staged.here
  kept := by
    obtain ⟨_, _, rfl, hvacant⟩ := h.placeVacant
    exact h.staged.kept hvacant
  outside names _ hplace := h.staged.outside names hplace

/-- If the staged scene still stands in a place outside of the site, it stays when the site is
removed; otherwise nothing stays but what had been there before. -/
theorem grows_iff (h : Attempt d out q d₁ parent site d₂ place d₃)
    (hx : Spares d₂ (parent ++ [site]) place x)
    (hremoved : x.removeAll (d₁.freshPath out) = .ok d' ∨
      (∀ d₄, x.removeAll (d₁.freshPath out) ≠ .ok d₄) ∧ d' = x) :
    d.Grows out d' ↔ parent ++ [site] <+: place ∨ x.item? place = none := by
  obtain ⟨d₄, hremove, hhere, hitem⟩ :=
    h.temporary.exists_removeAll_of_kept h.vacant hx.here hx.kept
  obtain rfl : d' = d₄ := by
    rcases hremoved with hremoved | ⟨hstuck, -⟩
    · exact Except.ok.inj (hremoved.symm.trans hremove)
    · exact absurd hremove (hstuck d₄)
  obtain ⟨links, -, trail, -, -, hroute, -⟩ :=
    exists_route_of_freshPath h.wellFormed h.vacant.points
  constructor
  · intro hgrows
    by_contra hout
    obtain ⟨hout, hplace⟩ := not_or.1 hout
    have hstill : d'.item? place ≠ none := by
      rwa [hitem, Layout.clear_outside hout]
    refine h.grows.ne_none h.wellFormed hroute hgrows hstill ?_
    rw [← h.temporary.outside place hout, h.place_eq_none]
  · intro hgone
    refine h.grows.congr (hhere.trans (hx.here.trans h.temporary.here)) ?_
    funext names
    rw [hitem]
    refine h.vacant.clear_eq fun hnames => ?_
    rw [← h.temporary.outside names hnames]
    by_cases hbelow : place <+: names
    · obtain ⟨rest, rfl⟩ := hbelow
      have hnone : x.item? place = none :=
        hgone.resolve_left fun hin => hnames (hin.trans (List.prefix_append _ _))
      rw [x.isTree_item?.eq_none_of_none hnone, d₂.isTree_item?.eq_none_of_none h.place_eq_none]
    · rw [hx.outside names hnames hbelow]

/-! ### Moving what stands in the place of the scene -/

variable {target : Path} {above : List Name} {first : Name}

/-- Nothing that stands on the disk with an empty site is where the old scene is to be kept. -/
theorem not_parked_prefix (h : Attempt d out q d₁ parent site d₂ place d₃) {names : List Name}
    {item : Item} (hnames : d₂.item? names = some item) :
    ¬parent ++ [site] ++ [parkedName] <+: names := by
  rintro ⟨rest, rfl⟩
  cases hnames.symm.trans (d₂.isTree_item?.eq_none_of_none (h.empty parkedName []) rest)

/-- Where the old scene is to be kept there is nothing, or the staged scene. -/
theorem parked_eq (h : Attempt d out q d₁ parent site d₂ place d₃) :
    d₃.item? (parent ++ [site] ++ [parkedName]) = none ∨
      d₃.item? (parent ++ [site] ++ [parkedName]) = some .directory := by
  by_cases hbelow : place <+: parent ++ [site] ++ [parkedName]
  · rcases List.prefix_concat_iff.1 hbelow with heq | hbelow
    · rw [← heq]
      exact .inr h.staged.directory
    · obtain ⟨rest, hrest⟩ := hbelow
      have hdirectory := h.temporary.directory
      rw [← hrest, d₂.isTree_item?.eq_none_of_none h.place_eq_none] at hdirectory
      cases hdirectory
  · rw [h.staged.outside _ hbelow]
    exact .inl (h.empty parkedName [])

/-- Whatever is moved away comes to the site. -/
theorem moved (h : Attempt d out q d₁ parent site d₂ place d₃)
    (hmove : d₃.rename target (parkedPath (d₁.freshPath out)) = .ok d₄) :
    ∃ above first, d₃.Moves target (parkedPath (d₁.freshPath out)) above first (parent ++ [site])
      parkedName d₄ := by
  obtain ⟨above, first, parent', name', hmoves⟩ := rename_eq_ok hmove
  have hsite := (h.temporary.points h.vacant).mono h.spares.here h.spares.kept
  obtain ⟨rfl, rfl⟩ := points_parkedPath hmoves.points'
    (hsite.arrives_append (h.spares.kept _ _ h.temporary.directory))
  exact ⟨above, first, hmoves⟩

/-- What has not changed but where the old scene is kept spares the rest, and the staged scene is
still there. -/
theorem spares_of_eq (h : Attempt d out q d₁ parent site d₂ place d₃) (hhere : x.here = d₃.here)
    (hx : ∀ names, ¬parent ++ [site] ++ [parkedName] <+: names → x.item? names = d₃.item? names) :
    Spares d₂ (parent ++ [site]) place x ∧
      (¬parent ++ [site] <+: place → x.item? place ≠ none) := by
  have hside : ∀ names, ¬parent ++ [site] <+: names → ¬parent ++ [site] ++ [parkedName] <+: names :=
    fun names hnames hpre => hnames ((List.prefix_append _ _).trans hpre)
  refine ⟨⟨hhere.trans h.spares.here, fun names item hnames => ?_, fun names hsite hplace => ?_⟩,
    fun hout => ?_⟩
  · rw [hx names (h.not_parked_prefix hnames), h.spares.kept names item hnames]
  · rw [hx names (hside names hsite), h.spares.outside names hsite hplace]
  · rw [hx place (hside place hout), h.staged.directory]
    exact Option.some_ne_none _

theorem here_eq (h : Attempt d out q d₁ parent site d₂ place d₃) : d₃.here = d.here :=
  h.spares.here.trans (h.temporary.here.trans h.grows.here)

/-- The working directory stands on the disk with an empty site. -/
theorem not_prefix_here (h : Attempt d out q d₁ parent site d₂ place d₃) {names : List Name}
    (hnames : d₂.item? names = none) : ¬names <+: d₃.here := by
  rw [h.spares.here, h.temporary.here]
  rintro ⟨rest, hrest⟩
  have hdirectory := h.temporary.kept h.vacant _ _ h.wellFormed.directory
  rw [← hrest, d₂.isTree_item?.eq_none_of_none hnames] at hdirectory
  cases hdirectory

section Moved

variable (h : Attempt d out q d₁ parent site d₂ place d₃)
  (hmoves : d₃.Moves target (parkedPath (d₁.freshPath out)) above first (parent ++ [site])
    parkedName d₄)

include h hmoves

/-- As long as the paths still point to the same places, the old scene can be moved back. -/
theorem spares_of_returns (htarget : d₄.Points target above first)
    (hparked : d₄.Points (parkedPath (d₁.freshPath out)) (parent ++ [site]) parkedName)
    (hback : d₄.rename (parkedPath (d₁.freshPath out)) target = .ok x ∨
      (∀ d₅, d₄.rename (parkedPath (d₁.freshPath out)) target ≠ .ok d₅) ∧ x = d₄) :
    Spares d₂ (parent ++ [site]) place x ∧
      (¬parent ++ [site] <+: place → x.item? place ≠ none) := by
  have hhere := h.not_prefix_here (h.empty parkedName [])
  rcases hback with hback | ⟨hstuck, rfl⟩
  · obtain ⟨_, _, _, _, hreturned⟩ := rename_eq_ok hback
    obtain ⟨rfl, rfl⟩ := hparked.unique hreturned.points
    obtain ⟨rfl, rfl⟩ := htarget.unique hreturned.points'
    refine h.spares_of_eq ?_ fun names hnames => ?_
    · rw [hreturned.here, hmoves.here, namesAfterMove_back hhere]
    · rw [hreturned.layout, hmoves.layout, Layout.move_back hnames]
  · by_cases hsame : above ++ [first] = parent ++ [site] ++ [parkedName]
    · obtain ⟨hhere', hitem⟩ := hmoves.eq_of_eq hsame
      exact h.spares_of_eq hhere' fun names _ => by rw [hitem]
    · have hitem : x.item? (parent ++ [site] ++ [parkedName]) = d₃.item? (above ++ [first]) := by
        rw [hmoves.layout, Layout.move_target]
      have hfound : x.item? (parent ++ [site] ++ [parkedName]) ≠ none := by
        rw [hitem]
        exact hmoves.item
      have hslashes := hmoves.slashes.imp (fun hdirectory => hitem.trans hdirectory) And.symm
      have hbelow : ¬parent ++ [site] ++ [parkedName] <+: above :=
        fun hpre => hmoves.not_prefix hsame (hpre.trans (List.prefix_append _ _))
      obtain ⟨d₅, hback, -⟩ := exists_rename_eq_ok hparked htarget hfound hslashes
        (hmoves.eq_none hsame) hbelow
      exact absurd hback (hstuck d₅)

/-- What has been moved away was part of the staged scene if nothing stood there before. -/
theorem spares_of_vacant (hne : above ++ [first] ≠ parent ++ [site] ++ [parkedName])
    (hvacant : d₂.item? (above ++ [first]) = none) :
    Spares d₂ (parent ++ [site]) place d₄ ∧ (d₄.item? place = none ↔ place = above ++ [first]) := by
  have hoff : ∀ names item, d₂.item? names = some item → ¬above ++ [first] <+: names := by
    rintro _ item hitem ⟨rest, rfl⟩
    cases hitem.symm.trans (d₂.isTree_item?.eq_none_of_none hvacant rest)
  have hin : place <+: above ++ [first] := by
    by_contra hout
    exact hmoves.item ((h.staged.outside _ hout).trans hvacant)
  have hhere : d₄.here = d₃.here := by
    rw [hmoves.here, namesAfterMove_outside (h.not_prefix_here hvacant)]
  refine ⟨⟨hhere.trans h.spares.here, fun names item hnames => ?_, fun names hsite hplace => ?_⟩,
    fun hnone => ?_, fun heq => ?_⟩
  · exact hmoves.item_eq h.parked_eq (h.spares.kept names item hnames) (hoff names item hnames)
  · have hparked : ¬parent ++ [site] ++ [parkedName] <+: names :=
      fun hpre => hsite ((List.prefix_append _ _).trans hpre)
    rw [hmoves.layout, Layout.move_outside hparked,
      Layout.clear_outside fun hpre => hplace (hin.trans hpre), h.spares.outside names hsite hplace]
  · by_contra hdifferent
    have habove : ¬above ++ [first] <+: place :=
      fun hpre => hdifferent (hin.eq_of_length_le hpre.length_le)
    cases hnone.symm.trans (hmoves.item_eq h.parked_eq h.staged.directory habove)
  · rw [heq, hmoves.eq_none hne]

/-- Nothing else can be moved away but what stood there before, a directory on the way, or a part of
the staged scene. -/
theorem stood_iff :
    d.item? (above ++ [first]) ≠ none ∨ d.OnTheWay out (above ++ [first]) ↔
      d₂.item? (above ++ [first]) ≠ none := by
  obtain ⟨_, _, _, -, -, hroute, -⟩ := exists_route_of_freshPath h.wellFormed h.vacant.points
  have hkept : d₁.item? (above ++ [first]) ≠ none → d₂.item? (above ++ [first]) ≠ none := by
    intro hfound
    obtain ⟨item, hitem⟩ := Option.ne_none_iff_exists'.1 hfound
    rw [h.temporary.kept h.vacant _ _ hitem]
    exact Option.some_ne_none _
  constructor
  · rintro (hfound | hway)
    · obtain ⟨item, hitem⟩ := Option.ne_none_iff_exists'.1 hfound
      refine hkept ?_
      rw [h.grows.item_eq hitem]
      exact Option.some_ne_none _
    · obtain ⟨_, _, _, -, hcut⟩ := h.grows.exists_route_of_onTheWay h.wellFormed hroute hway
      refine hkept ?_
      rw [hcut.last_eq_directory]
      exact Option.some_ne_none _
  · intro hfound
    have hout : ¬parent ++ [site] <+: above ++ [first] := by
      rintro ⟨rest, hrest⟩
      cases rest with
      | nil =>
        rw [List.append_nil] at hrest
        exact hmoves.outside (hrest ▸ List.prefix_rfl)
      | cons next rest => exact hfound (by rw [← hrest, h.empty])
    rw [h.temporary.outside _ hout] at hfound
    rcases h.grows.item (above ++ [first]) with heq | ⟨-, -, hway⟩
    · exact .inl (heq ▸ hfound)
    · exact .inr hway

/-- If the working directory is in the old scene and is back where it was, the old scene is. -/
theorem points_of_here (hne : above ++ [first] ≠ parent ++ [site] ++ [parkedName])
    (hback : d₄.rename (parkedPath (d₁.freshPath out)) target = .ok x)
    (hinside : above ++ [first] <+: d₃.here) (hhere : x.here = d₃.here)
    (hstands : x.item? (above ++ [first]) ≠ none) :
    d₄.Points target above first ∧
      d₄.Points (parkedPath (d₁.freshPath out)) (parent ++ [site]) parkedName := by
  obtain ⟨below, hbelow⟩ := hinside
  obtain ⟨from', name, to', name', hreturned⟩ := rename_eq_ok hback
  obtain rfl := name_of_parkedPath hreturned.points
  have hhere₄ := hmoves.here
  rw [← hbelow, namesAfterMove_append] at hhere₄
  -- The move takes the working directory along, and its new place is where the scene was or above.
  have hmoved : from' ++ [parkedName] <+: d₄.here := by
    by_contra hout
    have hsame := hreturned.here
    rw [namesAfterMove_outside hout, hhere, hhere₄, ← hbelow] at hsame
    exact hne (List.append_cancel_right hsame)
  have hin : to' ++ [name'] <+: above ++ [first] := by
    by_contra hout
    rw [hreturned.layout, Layout.move_outside hout] at hstands
    by_cases hcleared : from' ++ [parkedName] <+: above ++ [first]
    · exact hstands (Layout.clear_below hcleared)
    · rw [Layout.clear_outside hcleared, hmoves.eq_none hne] at hstands
      exact hstands rfl
  obtain ⟨rest, hrest⟩ := hmoved
  obtain ⟨middle, hmiddle⟩ := hin
  have hhere' := hreturned.here
  rw [hhere, ← hrest, namesAfterMove_append, ← hbelow, ← hmiddle, List.append_assoc] at hhere'
  have hrest' := List.append_cancel_left hhere'
  subst hrest'
  rw [hhere₄, ← List.append_assoc] at hrest
  have hfrom := List.append_cancel_right hrest
  rcases List.eq_nil_or_concat middle with rfl | ⟨before, last, rfl⟩
  · rw [List.append_nil] at hmiddle hfrom
    obtain ⟨rfl, hname⟩ := List.append_inj' hmiddle rfl
    cases hname
    obtain ⟨rfl, -⟩ := List.append_inj' hfrom rfl
    exact ⟨hreturned.points', hreturned.points⟩
  · rw [List.concat_eq_append, ← List.append_assoc] at hmiddle hfrom
    obtain ⟨rfl, -⟩ := List.append_inj' hmiddle rfl
    have hsite := (List.append_inj' hfrom rfl).1
    cases before with
    | nil =>
      rw [List.append_nil] at hsite
      obtain ⟨-, hname⟩ := List.append_inj' hsite rfl
      have hfresh := ne_of_front_prefix h.vacant.points.endsIn_freshPath.2
        (show ¬TemporaryName.front <+: parkedName.bytes by decide)
      exact absurd (List.singleton_inj.1 hname) hfresh.symm
    | cons next before =>
      rcases hreturned.empty with hsame | hempty
      · rw [← hmiddle, ← hfrom, hsame] at hne
        exact absurd rfl hne
      · have habove := hmoves.item_eq h.parked_eq hmoves.points.eq_directory
          (not_prefix_of_concat _ _)
        cases (hempty next before).symm.trans habove

variable (hlost : ¬(d₄.Points target above first ∧
    d₄.Points (parkedPath (d₁.freshPath out)) (parent ++ [site]) parkedName))

include hlost

/-- If the working directory has not moved along, nothing can be moved back. -/
theorem stuck_of_lost (hhere : ¬above ++ [first] <+: d₃.here) (d₅ : Disk) :
    d₄.rename (parkedPath (d₁.freshPath out)) target ≠ .ok d₅ := by
  intro hback
  have hne := hmoves.ne_of_not_points hlost
  obtain ⟨_, _, _, _, hreturned⟩ := rename_eq_ok hback
  obtain ⟨rfl, rfl⟩ := hmoves.points_eq hne h.parked_eq hhere hmoves.points hreturned.points'
  obtain ⟨rfl, rfl⟩ := hmoves.points_eq hne h.parked_eq hhere hmoves.points' hreturned.points
  exact hlost ⟨hreturned.points', hreturned.points⟩

variable (hback : d₄.rename (parkedPath (d₁.freshPath out)) target = .ok x ∨
    (∀ d₅, d₄.rename (parkedPath (d₁.freshPath out)) target ≠ .ok d₅) ∧ x = d₄)
  (hremoved : x.removeAll (d₁.freshPath out) = .ok d' ∨
    (∀ d₄, x.removeAll (d₁.freshPath out) ≠ .ok d₄) ∧ d' = x)

include hback hremoved

/-- What stood at the place of the scene from the beginning is not there again. -/
theorem not_grows_of_stood (hstood : d.item? (above ++ [first]) ≠ none) : ¬d.Grows out d' := by
  intro hgrows
  have hne := hmoves.ne_of_not_points hlost
  have hkept : x.here = d'.here ∧ (x.item? (above ++ [first]) = none →
      d'.item? (above ++ [first]) = none) := by
    rcases hremoved with hremoved | ⟨-, rfl⟩
    · obtain ⟨hhere, hnone⟩ := removeAll_eq_ok hremoved
      exact ⟨hhere.symm, hnone _⟩
    · exact ⟨rfl, id⟩
  have hstands : x.item? (above ++ [first]) ≠ none := by
    intro hnone
    obtain ⟨item, hitem⟩ := Option.ne_none_iff_exists'.1 hstood
    cases (hgrows.item_eq hitem).symm.trans (hkept.2 hnone)
  rcases hback with hback | ⟨-, rfl⟩
  · by_cases hinside : above ++ [first] <+: d₃.here
    · have hhere : x.here = d₃.here := hkept.1.trans (hgrows.here.trans h.here_eq.symm)
      exact hlost (h.points_of_here hmoves hne hback hinside hhere hstands)
    · exact h.stuck_of_lost hmoves hlost hinside x hback
  · exact hstands (hmoves.eq_none hne)

/-- A directory that has been created on the way is gone, and the site cannot be removed. -/
theorem not_grows_of_created (hwell : d.WellFormed)
    (hnone : d.item? (above ++ [first]) = none) (hway : d.OnTheWay out (above ++ [first])) :
    ¬d.Grows out d' := by
  intro hgrows
  have hne := hmoves.ne_of_not_points hlost
  have hnil : above ++ [first] ≠ [] := List.append_ne_nil_of_right_ne_nil _ (List.cons_ne_nil _ _)
  have hoff : ∀ names, d.item? names = some .directory → ¬above ++ [first] <+: names := by
    rintro _ hdirectory ⟨rest, rfl⟩
    cases hdirectory.symm.trans (d.isTree_item?.eq_none_of_none hnone rest)
  have hinside : ¬above ++ [first] <+: d₃.here := by
    rw [h.here_eq]
    exact hoff _ hwell.directory
  have hhere : d₄.here = d₃.here := by
    rw [hmoves.here, namesAfterMove_outside hinside]
  obtain rfl : x = d₄ := by
    rcases hback with hback | ⟨-, rfl⟩
    · exact absurd hback (h.stuck_of_lost hmoves hlost hinside x)
    · rfl
  obtain ⟨links, trail, trail', -, hroute, hroute', htrail⟩ :=
    exists_route_of_freshPath h.wellFormed h.vacant.points
  obtain ⟨through, hmem, hthrough⟩ := h.grows.exists_mem_of_onTheWay h.wellFormed hroute' hway hnil
    (by rw [h.grows.origin_eq]; exact hoff _ (hwell.origin_eq_directory out))
  have hroot : ∀ {z : Disk}, z.here = d₃.here → z.origin (d₁.freshPath out) = [] := by
    intro z hz
    refine origin_freshPath out fun hfirst => ?_
    rw [hz, h.spares.here, h.temporary.here, hfirst]
  have hcut : ∀ place name, ¬x.Points (d₁.freshPath out) place name := by
    intro place name
    have hroute₃ := (hroute.mono (h.temporary.kept h.vacant)).mono h.spares.kept
    rw [← hroot rfl] at hroute₃
    refine hmoves.not_points hne h.parked_eq ?_ ?_ hroute₃ ((htrail through).2 (.inr hmem)) hthrough
    · rw [hroot rfl]
      exact fun hpre => hnil (List.prefix_nil.1 hpre)
    · rw [hroot hhere, hroot rfl]
  obtain rfl : d' = x := by
    rcases hremoved with hremoved | ⟨-, rfl⟩
    · obtain ⟨_, hpoints⟩ :=
        exists_points_of_removeAll h.vacant.points.endsIn_freshPath.1 hremoved
      exact absurd hpoints (hcut _ _)
    · rfl
  have hsite : d'.item? (parent ++ [site]) = some .directory :=
    hmoves.item_eq h.parked_eq (h.spares.kept _ _ h.temporary.directory) hmoves.outside
  refine h.grows.ne_none h.wellFormed hroute' hgrows ?_ h.vacant.item
  rw [hsite]
  exact Option.some_ne_none _

/-- An old scene that cannot be moved back is missing, unless it is a staged one. -/
theorem not_grows_of_lost (hwell : d.WellFormed)
    (hstood : d.item? (above ++ [first]) ≠ none ∨ d.OnTheWay out (above ++ [first])) :
    ¬d.Grows out d' := by
  by_cases hnone : d.item? (above ++ [first]) = none
  · exact h.not_grows_of_created hmoves hlost hback hremoved hwell hnone
      (hstood.resolve_left (not_not_intro hnone))
  · exact h.not_grows_of_stood hmoves hlost hback hremoved hnone

end Moved

end Attempt

end Scene

end Scaffold
