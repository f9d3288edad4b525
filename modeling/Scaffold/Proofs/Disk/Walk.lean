import Scaffold.Proofs.Disk.Route
import Scaffold.Proofs.Result

/-!
Walks on a disk. A walk goes along a route as far as that leads, and takes the steps that are left
from there; a walk that comes to an end has gone along a route.
-/

namespace Scaffold

namespace Disk

variable {d : Disk} {follow : Bool} {links n : Nat} {place last : List Name} {name : Name}
  {steps rest : List Step} {trail : List (List Name)} {p : Path}

theorem walk_nil : d.walk follow n place [] =
    match d.entry? place with
    | some e => .ok (.found place e)
    | none => .error .notFound := by
  cases n <;> rfl

theorem walk_slash : d.walk follow n place (.slash :: steps) = d.walk follow n place steps := by
  cases n <;> rfl

theorem walk_stay : d.walk follow n place (.stay :: steps) = d.walk follow n place steps := by
  cases n <;> rfl

theorem walk_up :
    d.walk follow n place (.up :: steps) = d.walk follow n place.dropLast steps := by
  cases n <;> rfl

theorem walk_unfit : d.walk follow n place (.unfit :: steps) = .error .nameTooLong := by
  cases n <;> rfl

theorem walk_into_of_directory (hitem : d.item? (place ++ [name]) = some .directory) :
    d.walk follow n place (.into name :: steps) = d.walk follow n (place ++ [name]) steps := by
  obtain ⟨es, hes⟩ := item?_eq_directory_iff.1 hitem
  cases n <;> simp only [walk, descend, hes]

theorem walk_into_of_link {target : Path} (hitem : d.item? (place ++ [name]) = some (.link target))
    (hgo : ¬(steps = [] ∧ follow = false)) :
    d.walk follow (n + 1) place (.into name :: steps) =
      d.walk follow n (if target.isAbsolute then [] else place) (target.steps ++ steps) := by
  have hentry := item?_eq_link_iff.1 hitem
  simp only [walk, descend, hentry, Bool.not_eq_true']
  rw [if_neg hgo]

theorem walk_into_of_file {content : ByteArray}
    (hitem : d.item? (place ++ [name]) = some (.file content)) :
    d.walk follow n place [.into name] = .ok (.found (place ++ [name]) (.file content)) := by
  have hentry := item?_eq_file_iff.1 hitem
  cases n <;> simp only [walk, descend, hentry, if_true]

/-- What a walk that comes to an end does at a name. -/
theorem walk_into_eq_ok {result : Place}
    (h : d.walk follow n place (.into name :: steps) = .ok result) :
    (d.item? (place ++ [name]) = some .directory ∧
        d.walk follow n (place ++ [name]) steps = .ok result) ∨
      (∃ target m, d.item? (place ++ [name]) = some (.link target) ∧ n = m + 1 ∧
        d.walk follow m (if target.isAbsolute then [] else place) (target.steps ++ steps) =
          .ok result) ∨
      (steps = [] ∧ d.item? (place ++ [name]) = none ∧ result = .missing (place ++ [name])) ∨
      ∃ e, steps = [] ∧ d.entry? (place ++ [name]) = some e ∧ e.isDirectory = false ∧
        result = .found (place ++ [name]) e := by
  cases hentry : d.entry? (place ++ [name]) with
  | none =>
    refine .inr (.inr (.inl ?_))
    by_cases hsteps : steps = []
    · subst hsteps
      refine ⟨rfl, item?_eq_none_iff.2 hentry, ?_⟩
      cases n <;> simp [walk, descend, hentry] at h <;> exact h.symm
    · cases n <;> simp [walk, descend, hentry, hsteps] at h
  | some e =>
    cases e with
    | directory es =>
      refine .inl ⟨item?_eq_directory_iff.2 ⟨es, hentry⟩, ?_⟩
      cases n <;> simpa only [walk, descend, hentry] using h
    | file content =>
      refine .inr (.inr (.inr ⟨.file content, ?_⟩))
      by_cases hsteps : steps = []
      · subst hsteps
        refine ⟨rfl, rfl, rfl, ?_⟩
        cases n <;> simp [walk, descend, hentry] at h <;> exact h.symm
      · cases n <;> simp [walk, descend, hentry, hsteps] at h
    | link target =>
      by_cases hgo : steps = [] ∧ follow = false
      · refine .inr (.inr (.inr ⟨.link target, hgo.1, rfl, rfl, ?_⟩))
        cases n <;> simp [walk, descend, hentry, hgo] at h <;> exact h.symm
      · refine .inr (.inl ⟨target, ?_⟩)
        have hitem := item?_eq_link_iff.2 hentry
        cases n with
        | zero =>
          simp only [walk, descend, hentry, Bool.not_eq_true'] at h
          rw [if_neg hgo] at h
          cases h
        | succ m =>
          rw [walk_into_of_link hitem hgo] at h
          exact ⟨m, hitem, rfl, h⟩

/-- Steps that lead nowhere do not matter. -/
theorem walk_append_of_moves_nil (h : Step.moves steps = []) :
    d.walk follow n place (steps ++ rest) = d.walk follow n place rest := by
  induction steps with
  | nil => rfl
  | cons step steps ih =>
    cases step with
    | slash => rw [List.cons_append, walk_slash, ih h]
    | stay => rw [List.cons_append, walk_stay, ih h]
    | up => cases h
    | into name => cases h
    | unfit => cases h

theorem walk_append_of_route {moves : List Step} (h : Route d.item? links place moves trail last)
    (hmoves : Step.moves steps = moves) (hrest : rest ≠ [] ∨ follow = true) (hlinks : links ≤ n) :
    d.walk follow n place (steps ++ rest) = d.walk follow (n - links) last rest := by
  induction h generalizing n steps with
  | stop _ => rw [walk_append_of_moves_nil hmoves, Nat.sub_zero]
  | up _ ih =>
    obtain ⟨gap, steps', rfl, hgap, -, hmoves'⟩ := List.filter_eq_cons_iff.1 hmoves
    have hgap : Step.moves gap = [] := List.filter_eq_nil_iff.2 hgap
    rw [List.append_assoc, walk_append_of_moves_nil hgap, List.cons_append, walk_up,
      ih hmoves' hlinks]
  | into hitem _ ih =>
    obtain ⟨gap, steps', rfl, hgap, -, hmoves'⟩ := List.filter_eq_cons_iff.1 hmoves
    have hgap : Step.moves gap = [] := List.filter_eq_nil_iff.2 hgap
    rw [List.append_assoc, walk_append_of_moves_nil hgap, List.cons_append,
      walk_into_of_directory hitem, ih hmoves' hlinks]
  | @link links _ _ _ target _ _ hitem _ ih =>
    obtain ⟨gap, steps', rfl, hgap, -, hmoves'⟩ := List.filter_eq_cons_iff.1 hmoves
    have hgap : Step.moves gap = [] := List.filter_eq_nil_iff.2 hgap
    have hnext : Step.moves (target.steps ++ steps') = target.moves ++ Step.moves steps' := by
      rw [Step.moves_append, Path.moves_steps]
    have hgo : ¬(steps' ++ rest = [] ∧ follow = false) := by
      rintro ⟨hnil, hstop⟩
      rcases hrest with hrest | hfollow
      · exact hrest (List.append_eq_nil_iff.1 hnil).2
      · cases hstop.symm.trans hfollow
    obtain ⟨m, rfl⟩ : ∃ m, n = m + 1 := ⟨n - 1, by omega⟩
    rw [List.append_assoc, walk_append_of_moves_nil hgap, List.cons_append,
      walk_into_of_link hitem hgo, ← List.append_assoc,
      ih (hnext.trans (congrArg _ hmoves')) (Nat.le_of_succ_le_succ hlinks),
      Nat.add_sub_add_right]

/-- A walk has gone along a route as long as steps are left, and to its end if it leads to a
directory. -/
theorem exists_route_of_walk {result : Place} (hplace : d.item? place = some .directory)
    (h : d.walk follow n place (steps ++ rest) = .ok result)
    (hend : rest ≠ [] ∨ ∃ last es, result = .found last (.directory es)) :
    ∃ links trail last, links ≤ n ∧ Route d.item? links place (Step.moves steps) trail last ∧
      d.walk follow (n - links) last rest = .ok result := by
  -- The number of links that may follow bounds how often a link puts further steps in front.
  induction n using Nat.strongRecOn generalizing place steps with
  | _ n ihn =>
    induction steps generalizing place with
    | nil => exact ⟨0, [], place, Nat.zero_le n, .stop hplace, h⟩
    | cons step steps ih =>
      rw [List.cons_append] at h
      cases step with
      | slash => exact ih hplace (walk_slash ▸ h)
      | stay => exact ih hplace (walk_stay ▸ h)
      | up =>
        obtain ⟨links, trail, last, hlinks, hroute, hwalk⟩ :=
          ih (d.isTree_item?.dropLast_eq_directory hplace) (walk_up ▸ h)
        exact ⟨links, trail, last, hlinks, .up hroute, hwalk⟩
      | unfit =>
        rw [walk_unfit] at h
        cases h
      | into name =>
        obtain ⟨hitem, hnext⟩ | ⟨target, m, hitem, rfl, htarget⟩ | ⟨hnil, _, hresult⟩ |
          ⟨e, hnil, _, hleaf, hresult⟩ := walk_into_eq_ok h
        · obtain ⟨links, trail, last, hlinks, hroute, hwalk⟩ := ih hitem hnext
          exact ⟨links, _ :: trail, last, hlinks, .into hitem hroute, hwalk⟩
        · have hnext := d.isTree_item?.ite_eq_directory hplace target.isAbsolute
          rw [← List.append_assoc] at htarget
          obtain ⟨links, trail, last, hlinks, hroute, hwalk⟩ :=
            ihn m (Nat.lt_succ_self m) hnext htarget
          rw [Step.moves_append, Path.moves_steps] at hroute
          exact ⟨links + 1, _ :: trail, last, Nat.succ_le_succ hlinks,
            .link hitem hroute, by rwa [Nat.add_sub_add_right]⟩
        · rcases hend with hrest | ⟨_, _, hdirectory⟩
          · exact absurd (List.append_eq_nil_iff.1 hnil).2 hrest
          · cases hresult.symm.trans hdirectory
        · rcases hend with hrest | ⟨_, _, hdirectory⟩
          · exact absurd (List.append_eq_nil_iff.1 hnil).2 hrest
          · cases hresult.symm.trans hdirectory
            cases hleaf

/-- A walk that does not lead to a directory comes to a name with its last step. -/
theorem walk_eq_ok {result : Place} (hplace : d.item? place = some .directory)
    (h : d.walk follow n place steps = .ok result) :
    (∃ last es, result = .found last (.directory es)) ∨
    ∃ before name links trail last, steps = before ++ [.into name] ∧ links ≤ n ∧
      Route d.item? links place (Step.moves before) trail last ∧
      d.walk follow (n - links) last [.into name] = .ok result := by
  rcases List.eq_nil_or_concat steps with rfl | ⟨before, step, rfl⟩
  · obtain ⟨es, hes⟩ := item?_eq_directory_iff.1 hplace
    rw [walk_nil, hes] at h
    cases h
    exact .inl ⟨_, es, rfl⟩
  rw [List.concat_eq_append] at h ⊢
  obtain ⟨links, trail, last, hlinks, hroute, hrest⟩ :=
    exists_route_of_walk hplace h (.inl (List.cons_ne_nil _ _))
  have hlast := hroute.last_eq_directory
  obtain ⟨es, hes⟩ := item?_eq_directory_iff.1 hlast
  cases step with
  | slash =>
    rw [walk_slash, walk_nil, hes] at hrest
    cases hrest
    exact .inl ⟨_, es, rfl⟩
  | stay =>
    rw [walk_stay, walk_nil, hes] at hrest
    cases hrest
    exact .inl ⟨_, es, rfl⟩
  | up =>
    obtain ⟨es, hes⟩ := item?_eq_directory_iff.1 (d.isTree_item?.dropLast_eq_directory hlast)
    rw [walk_up, walk_nil, hes] at hrest
    cases hrest
    exact .inl ⟨_, es, rfl⟩
  | unfit =>
    rw [walk_unfit] at hrest
    cases hrest
  | into name => exact .inr ⟨before, name, links, trail, last, rfl, hlinks, hroute, hrest⟩

/-- The place where a path starts. -/
def origin (d : Disk) (p : Path) : List Name :=
  if p.isAbsolute then [] else d.here

theorem origin_congr {q : Path} (h : p.isAbsolute = q.isAbsolute) (d : Disk) :
    d.origin p = d.origin q := by
  unfold origin
  rw [h]

theorem origin_eq_of_here {d' : Disk} (h : d'.here = d.here) (p : Path) :
    d'.origin p = d.origin p := by
  unfold origin
  rw [h]

/-- A path that starts in the working directory or at the root does not start elsewhere. -/
theorem not_prefix_origin {below : List Name} (hne : below ≠ []) (hhere : ¬below <+: d.here)
    (p : Path) : ¬below <+: d.origin p := by
  unfold origin
  split
  · exact fun hpre => hne (List.prefix_nil.1 hpre)
  · exact hhere

/-- A walk along the path can start. -/
structure Starts (d : Disk) (p : Path) : Prop where
  nul : 0 ∉ p.bytes
  size : p.bytes.length ≤ longestPath
  nonempty : p.bytes ≠ []
  origin : d.item? (d.origin p) = some .directory

theorem walkFrom_eq_ok_iff {result : Place} :
    d.walkFrom follow p steps = .ok result ↔
      d.Starts p ∧ d.walk follow mostLinks (d.origin p) steps = .ok result := by
  have hroot := d.isTree_item?.root
  constructor
  · intro h
    rw [walkFrom] at h
    split at h
    · cases h
    split at h
    · cases h
    split at h
    · cases h
    next hnul hsize hbytes =>
      rw [List.contains_iff_mem] at hnul
      split at h
      · next habsolute =>
        have horigin : d.origin p = [] := if_pos habsolute
        exact ⟨⟨hnul, Nat.not_lt.1 hsize, hbytes, horigin ▸ hroot⟩, horigin ▸ h⟩
      · next habsolute =>
        have horigin : d.origin p = d.here := if_neg habsolute
        split at h
        · next es hes =>
          exact ⟨⟨hnul, Nat.not_lt.1 hsize, hbytes,
            horigin ▸ item?_eq_directory_iff.2 ⟨es, hes⟩⟩, horigin ▸ h⟩
        · cases h
  · rintro ⟨⟨hnul, hsize, hbytes, horigin⟩, h⟩
    rw [walkFrom, if_neg (List.contains_iff_mem.not.2 hnul), if_neg (Nat.not_lt.2 hsize),
      if_neg hbytes]
    rw [origin] at h horigin
    split
    · next habsolute => rwa [if_pos habsolute] at h
    · next habsolute =>
      rw [if_neg habsolute] at h horigin
      obtain ⟨es, hes⟩ := item?_eq_directory_iff.1 horigin
      rw [hes]
      exact h

/-- The moves lead from the start of the path to the directory. -/
def Arrives (d : Disk) (p : Path) (moves : List Step) (last : List Name) : Prop :=
  ∃ links trail, links ≤ mostLinks ∧ Route d.item? links (d.origin p) moves trail last

/-- The path does not start at or below a place, and does not lead through it. -/
def Avoids (d : Disk) (p : Path) (place : List Name) : Prop :=
  ∀ links trail last, Route d.item? links (d.origin p) p.moves trail last →
    ∀ names ∈ d.origin p :: trail, ¬place <+: names

theorem Arrives.eq_directory {moves : List Step} (h : d.Arrives p moves last) :
    d.item? last = some .directory := by
  obtain ⟨links, trail, -, hroute⟩ := h
  exact hroute.last_eq_directory

/-- A directory is found where the moves of a path lead. -/
theorem resolve_eq_directory_iff {es : Entries} :
    d.resolve true p = .ok (.found last (.directory es)) ↔
      d.Starts p ∧ d.Arrives p p.moves last ∧ d.entry? last = some (.directory es) := by
  rw [resolve, walkFrom_eq_ok_iff, ← List.append_nil p.steps]
  refine and_congr_right fun hstarts => ?_
  constructor
  · intro hwalk
    obtain ⟨links, trail, last', hlinks, hroute, hend⟩ :=
      exists_route_of_walk hstarts.origin hwalk (.inr ⟨_, _, rfl⟩)
    obtain ⟨es', hes⟩ := item?_eq_directory_iff.1 hroute.last_eq_directory
    rw [walk_nil, hes] at hend
    cases hend
    rw [Path.moves_steps] at hroute
    exact ⟨⟨links, trail, hlinks, hroute⟩, hes⟩
  · rintro ⟨⟨links, trail, hlinks, hroute⟩, hes⟩
    rw [walk_append_of_route hroute p.moves_steps (.inr rfl) hlinks, walk_nil, hes]

theorem look?_eq_some_iff {e : Entry} :
    d.look? p = some e ↔ ∃ place, d.resolve true p = .ok (.found place e) := by
  rw [look?]
  cases d.resolve true p with
  | error _ => simp
  | ok result => cases result <;> simp

theorem isDirectory_iff : d.isDirectory p = true ↔ d.Starts p ∧ ∃ last, d.Arrives p p.moves last := by
  rw [isDirectory]
  constructor
  · intro h
    split at h
    · next hlook =>
      obtain ⟨last, hresolve⟩ := look?_eq_some_iff.1 hlook
      obtain ⟨hstarts, hlast, -⟩ := resolve_eq_directory_iff.1 hresolve
      exact ⟨hstarts, last, hlast⟩
    · cases h
  · rintro ⟨hstarts, last, hlast⟩
    obtain ⟨es, hes⟩ := item?_eq_directory_iff.1 hlast.eq_directory
    rw [look?_eq_some_iff.2 ⟨last, resolve_eq_directory_iff.2 ⟨hstarts, hlast, hes⟩⟩]

theorem pathExists_of_isDirectory (h : d.isDirectory p = true) : d.pathExists p = true := by
  rw [isDirectory] at h
  rw [pathExists]
  split at h
  · next hlook => rw [hlook, Option.isSome_some]
  · cases h

/-- The directory from which the last step of a path is taken. -/
theorem parentDirectory_eq_ok_iff : d.parentDirectory p = .ok last ↔
    d.Starts p ∧ d.Arrives p (Step.moves (lastStep p).2.1) last := by
  have hstay : [Step.stay] ≠ [] := List.cons_ne_nil _ _
  constructor
  · intro h
    obtain ⟨result, hwalk, h⟩ := bind_eq_ok_iff.1 h
    obtain ⟨hstarts, hwalk⟩ := walkFrom_eq_ok_iff.1 hwalk
    obtain ⟨links, trail, last', hlinks, hroute, hrest⟩ :=
      exists_route_of_walk hstarts.origin hwalk (.inl hstay)
    obtain ⟨es, hes⟩ := item?_eq_directory_iff.1 hroute.last_eq_directory
    rw [walk_stay, walk_nil, hes] at hrest
    cases hrest
    cases h
    exact ⟨hstarts, links, trail, hlinks, hroute⟩
  · rintro ⟨hstarts, links, trail, hlinks, hroute⟩
    obtain ⟨es, hes⟩ := item?_eq_directory_iff.1 hroute.last_eq_directory
    have hwalk : d.walk true mostLinks (d.origin p) ((lastStep p).2.1 ++ [.stay]) =
        .ok (.found last (.directory es)) := by
      rw [walk_append_of_route hroute rfl (.inl hstay) hlinks, walk_stay, walk_nil, hes]
    rw [parentDirectory, walkFrom_eq_ok_iff.2 ⟨hstarts, hwalk⟩]
    rfl

end Disk

end Scaffold
