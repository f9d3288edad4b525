import Scaffold.Proofs.Disk.Action
import Scaffold.Proofs.Disk.Directory

/-!
Temporary directories. The path of a temporary directory starts at the root and leads through the
working directory if need be, and from there along the path of the directory that it is created in.
-/

namespace Scaffold

namespace Disk

/-- The working directory is a directory. -/
structure WellFormed (d : Disk) : Prop where
  directory : d.item? d.here = some .directory

variable {d d' : Disk} {out : Path} {parent : List Name} {site : Name}

theorem WellFormed.origin_eq_directory (h : d.WellFormed) (p : Path) :
    d.item? (d.origin p) = some .directory := by
  rw [origin]
  split
  · exact d.isTree_item?.root
  · exact h.directory

theorem Grows.wellFormed {p : Path} (h : d.Grows p d') (hwell : d.WellFormed) : d'.WellFormed where
  directory := by
    rw [h.here]
    exact h.item_eq hwell.directory

theorem moves_herePath (d : Disk) : d.herePath.moves = d.here.map .into := by
  rw [herePath]
  by_cases hhere : d.here = []
  · rw [if_pos hhere, hhere]
    rfl
  · rw [if_neg hhere]
    exact Path.moves_ofNames d.here

theorem isAbsolute_herePath (d : Disk) : d.herePath.isAbsolute = true := by
  rw [herePath]
  by_cases hhere : d.here = []
  · rw [if_pos hhere]
    rfl
  · obtain ⟨name, names, heq⟩ := List.exists_cons_of_ne_nil hhere
    rw [if_neg hhere, heq]
    rfl

theorem head?_of_front_prefix (h : TemporaryName.front <+: site.bytes) :
    site.bytes.head? = some 0x2E := by
  obtain ⟨rest, hrest⟩ := h
  rw [← hrest]
  rfl

theorem ne_of_front_prefix {name : Name} (h : TemporaryName.front <+: site.bytes)
    (hname : ¬TemporaryName.front <+: name.bytes) : site ≠ name := by
  rintro rfl
  exact hname h

/-- The directory that a temporary directory is created in, as a path from the root. -/
def basePath (d : Disk) (out : Path) : Path :=
  d.herePath.join out

theorem moves_basePath (d : Disk) (out : Path) : (d.basePath out).moves =
    if out.isAbsolute then out.moves else d.here.map .into ++ out.moves := by
  rw [basePath]
  cases habsolute : out.isAbsolute with
  | true =>
    rw [Path.join_of_isAbsolute habsolute]
    rfl
  | false =>
    rw [Path.moves_join habsolute, moves_herePath]
    rfl

variable [TemporaryNames]

/-- The name of a temporary directory begins with `.tmp`. -/
theorem exists_freshPath_eq (d : Disk) (out : Path) : ∃ name : Name,
    TemporaryName.front <+: name.bytes ∧ d.freshPath out = (d.basePath out).join ⟨[name]⟩ :=
  ⟨_, TemporaryNames.startsWith _, rfl⟩

theorem moves_freshPath (d : Disk) (out : Path) : ∃ name : Name,
    (d.freshPath out).moves = (d.basePath out).moves ++ [.into name] := by
  obtain ⟨name, -, hpath⟩ := exists_freshPath_eq d out
  exact ⟨name, by
    rw [hpath, Path.moves_join (Path.isAbsolute_singleton _), Path.moves_singleton]⟩

/-- Nothing stands at the path of a temporary directory, as long as not all names are taken. -/
theorem exists_vacant_freshPath {entries : Entries} (hlist : d.list (d.basePath out) = .ok entries)
    (hfew : entries.length < TemporaryName.spellings TemporaryName.length)
    (hshort : (d.freshPath out).bytes.length ≤ longestPath) :
    ∃ parent site, d.Vacant (d.freshPath out) parent site := by
  obtain ⟨hstarts, parent, harrives, hentries⟩ := list_eq_ok_iff.1 hlist
  have hfresh : d.freshPath out = (d.basePath out).join
      ⟨[TemporaryNames.choose (Assoc.keys entries)]⟩ := by
    have hlist' : d.list (d.herePath.join out) = .ok entries := hlist
    simp only [freshPath, hlist']
    rfl
  rw [hfresh] at hshort ⊢
  refine ⟨parent, TemporaryNames.choose (Assoc.keys entries), ⟨hstarts.join _ hshort,
    ⟨0, Path.EndsIn.join (Path.endsIn_singleton _)⟩, ?_⟩, ?_⟩
  · rw [Arrives, origin_join, Path.moves_join (Path.isAbsolute_singleton _), Path.moves_singleton,
      List.dropLast_concat]
    exact harrives
  · rw [item?_concat hentries, Option.map_eq_none_iff, Assoc.find?_eq_none_iff]
    exact TemporaryNames.unused _ (by rwa [Assoc.keys, List.length_map])

/-- A temporary path starts at the root, wherever the working directory has gone. -/
theorem origin_freshPath (out : Path) (hhere : d.here = [] → d'.here = []) :
    d'.origin (d.freshPath out) = [] := by
  obtain ⟨name, -, hpath⟩ := exists_freshPath_eq d out
  have hjoin := Path.isAbsolute_join (p := d.basePath out) (Path.isAbsolute_singleton name)
    (.inr (List.cons_ne_nil _ _))
  rw [origin, hpath, hjoin, basePath]
  cases habsolute : out.isAbsolute with
  | true =>
    rw [Path.join_of_isAbsolute habsolute, habsolute]
    rfl
  | false =>
    by_cases hnil : d.here = []
    · rw [hhere hnil, ite_self]
    · have hmoves : d.herePath.moves ≠ [] := by
        rw [moves_herePath]
        exact fun hmoves => hnil (List.map_eq_nil_iff.1 hmoves)
      rw [Path.isAbsolute_join habsolute (.inl hmoves), isAbsolute_herePath]
      rfl

/-- The last name of a temporary path is the fresh one, and no slash follows it. -/
theorem Points.endsIn_freshPath (hpoints : d'.Points (d.freshPath out) parent site) :
    (d.freshPath out).EndsIn site 0 ∧ TemporaryName.front <+: site.bytes := by
  obtain ⟨name, hfront, hpath⟩ := exists_freshPath_eq d out
  have hends : (d.freshPath out).EndsIn name 0 := by
    rw [hpath]
    exact Path.EndsIn.join (Path.endsIn_singleton name)
  obtain ⟨_, hlast, -⟩ := hends.lastStep_eq
  have hsite := hpoints.lastStep_eq
  rw [hlast] at hsite
  cases hsite
  exact ⟨hends, hfront⟩

/-- The way to a temporary directory goes through the working directory if the path that it is
created in is relative, and then along that path. -/
theorem exists_route_of_freshPath (h : d.WellFormed)
    (hpoints : d.Points (d.freshPath out) parent site) :
    ∃ links trail trail', links ≤ mostLinks ∧
      Route d.item? links [] (d.freshPath out).moves.dropLast trail parent ∧
      Route d.item? links (d.origin out) out.moves trail' parent ∧
      ∀ place, place ∈ trail ↔ place ≠ [] ∧ place <+: d.origin out ∨ place ∈ trail' := by
  obtain ⟨links, trail, hlinks, hroute⟩ := hpoints.arrives
  obtain ⟨names, hmoves⟩ := moves_freshPath d out
  rw [origin_freshPath out id] at hroute
  refine ⟨links, trail, ?_⟩
  rw [hmoves, List.dropLast_concat, moves_basePath] at hroute ⊢
  rw [origin]
  cases habsolute : out.isAbsolute with
  | true =>
    rw [habsolute] at hroute
    refine ⟨trail, hlinks, hroute, hroute, fun place => ⟨.inr, ?_⟩⟩
    rintro (⟨hne, hpre⟩ | hplace)
    · exact absurd (List.prefix_nil.1 hpre) hne
    · exact hplace
  | false =>
    simp only [habsolute, Bool.false_eq_true, if_false] at hroute ⊢
    have hhere : d.item? ([] ++ d.here) = some .directory := h.directory
    obtain ⟨trail', hroute', htrail⟩ := hroute.after_names d.isTree_item? hhere
    refine ⟨trail', hlinks, hroute, hroute', fun place => ?_⟩
    rw [htrail]
    refine or_congr_left ⟨?_, fun hbefore => ⟨place, hbefore.1, hbefore.2, rfl⟩⟩
    rintro ⟨_, hne, hpre, rfl⟩
    exact ⟨hne, hpre⟩

end Disk

namespace DiskAction

variable [TemporaryNames] {α : Type} {d d' : Disk} {out : Path} {r : Except Error α}

/-- After an action in a temporary directory, what stands at its path is removed if it is found. -/
theorem runOn_withTemporary_eq {action : Path → ExceptT Error (StateM Disk) α}
    (h : runOn (withTemporary out action) d = (r, d')) :
    (∃ e, r = .error e) ∧ d' = d ∧ (∀ d₁, d.createDirectory (d.freshPath out) ≠ .ok d₁) ∨
    ∃ d₁ d₂, d.createDirectory (d.freshPath out) = .ok d₁ ∧
      runOn (action (d.freshPath out)) d₁ = (r, d₂) ∧
      (d₂.removeAll (d.freshPath out) = .ok d' ∨
        (∀ d₃, d₂.removeAll (d.freshPath out) ≠ .ok d₃) ∧ d' = d₂) := by
  rw [withTemporary, runOn_bind, runOn_look] at h
  rcases runOn_bind_eq h with ⟨e, hcreate, rfl⟩ | ⟨_, d₁, hcreate, h⟩
  · rw [runOn_perform, DiskOperation.apply] at hcreate
    cases hfailed : d.createDirectory (d.freshPath out) with
    | ok d₁ =>
      rw [hfailed] at hcreate
      cases hcreate
    | error cause =>
      rw [hfailed] at hcreate
      cases hcreate
      exact .inl ⟨⟨_, rfl⟩, rfl, fun _ hok => by cases hok⟩
  rcases runOn_perform_eq hcreate with ⟨-, hcreated⟩ | ⟨⟨e, he⟩, -⟩
  swap
  · cases he
  rw [runOn_bind, runOn_lift] at h
  rcases haction : runOn (action (d.freshPath out)) d₁ with ⟨result, d₂⟩
  have hrun : (action (d.freshPath out)).run.run d₁ = (result, d₂) := haction
  simp only [hrun, runOn_bind, runOn_attempt, DiskOperation.apply] at h
  cases hremove : d₂.removeAll (d.freshPath out) with
  | ok d₃ =>
    rw [hremove] at h
    simp only [runOn_ofExcept] at h
    cases h
    exact .inr ⟨d₁, d₂, hcreated, haction, .inl hremove⟩
  | error e =>
    have hkept : ∀ d₃, d₂.removeAll (d.freshPath out) ≠ .ok d₃ := by
      rw [hremove]
      exact fun _ hok => by cases hok
    rw [hremove] at h
    simp only [runOn_ofExcept] at h
    cases h
    exact .inr ⟨d₁, d', hcreated, haction, .inr ⟨hkept, rfl⟩⟩

end DiskAction

end Scaffold
