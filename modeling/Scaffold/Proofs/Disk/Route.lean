import Scaffold.Proofs.Disk.Item
import Scaffold.Proofs.Path

/-!
Routes. The moves of a path lead from directory to directory, through links that are followed. A
route is such a way in a layout, with the number of its links and the trail of all places that are
gone into. Walks on a disk are routes, and a route stays as it is in every layout in which the
places on its trail are as they were.
-/

namespace Scaffold

namespace Disk

/-- Moves that lead from a place to a directory. -/
inductive Route (look : Layout) :
    Nat → List Name → List Step → List (List Name) → List Name → Prop where
  | stop {place : List Name} : look place = some .directory → Route look 0 place [] [] place
  | up {links : Nat} {place last : List Name} {moves : List Step} {trail : List (List Name)} :
      Route look links place.dropLast moves trail last →
      Route look links place (.up :: moves) trail last
  | into {links : Nat} {place last : List Name} {name : Name} {moves : List Step}
      {trail : List (List Name)} : look (place ++ [name]) = some .directory →
      Route look links (place ++ [name]) moves trail last →
      Route look links place (.into name :: moves) ((place ++ [name]) :: trail) last
  | link {links : Nat} {place last : List Name} {name : Name} {target : Path}
      {moves : List Step} {trail : List (List Name)} :
      look (place ++ [name]) = some (.link target) →
      Route look links (if target.isAbsolute then [] else place) (target.moves ++ moves) trail
        last →
      Route look (links + 1) place (.into name :: moves) ((place ++ [name]) :: trail) last

namespace Route

variable {look look' : Layout} {links links' : Nat} {start last last' : List Name}
  {moves moves' : List Step} {trail trail' : List (List Name)}

theorem last_eq_directory (h : Route look links start moves trail last) :
    look last = some .directory := by
  induction h with
  | stop hstop => exact hstop
  | up _ ih => exact ih
  | into _ _ ih => exact ih
  | link _ _ ih => exact ih

/-- What stands on the trail of a route decides it. -/
theorem congr (h : Route look links start moves trail last)
    (hlast : look' last = some .directory) (htrail : ∀ place ∈ trail, look' place = look place) :
    Route look' links start moves trail last := by
  induction h with
  | stop _ => exact .stop hlast
  | up _ ih => exact .up (ih hlast htrail)
  | into hitem _ ih =>
    rw [List.forall_mem_cons] at htrail
    exact .into (htrail.1.trans hitem) (ih hlast htrail.2)
  | link hitem _ ih =>
    rw [List.forall_mem_cons] at htrail
    exact .link (htrail.1.trans hitem) (ih hlast htrail.2)

theorem eq_up_or_eq_into (h : Route look links start moves trail last) :
    ∀ move ∈ moves, move = .up ∨ ∃ name, move = .into name := by
  induction h with
  | stop _ => exact nofun
  | up _ ih => exact List.forall_mem_cons.2 ⟨.inl rfl, ih⟩
  | into _ _ ih => exact List.forall_mem_cons.2 ⟨.inr ⟨_, rfl⟩, ih⟩
  | link _ _ ih =>
    exact List.forall_mem_cons.2 ⟨.inr ⟨_, rfl⟩, fun move hmove =>
      ih move (List.mem_append_right _ hmove)⟩

/-- The moves of a route that never goes up are names. -/
theorem exists_eq_map_into (h : Route look links start moves trail last) (hup : .up ∉ moves) :
    ∃ names : List Name, moves = names.map .into := by
  have hmoves := h.eq_up_or_eq_into
  clear h
  induction moves with
  | nil => exact ⟨[], rfl⟩
  | cons move moves ih =>
    obtain ⟨hmove, hrest⟩ := List.forall_mem_cons.1 hmoves
    obtain ⟨hne, hnot⟩ := not_or.1 (List.mem_cons.not.1 hup)
    obtain ⟨name, rfl⟩ := hmove.resolve_left (Ne.symm hne)
    obtain ⟨names, rfl⟩ := ih hnot hrest
    exact ⟨name :: names, rfl⟩

/-- A route stays as long as everything stays that stands somewhere. -/
theorem mono (h : Route look links start moves trail last)
    (hkept : ∀ place item, look place = some item → look' place = some item) :
    Route look' links start moves trail last := by
  induction h with
  | stop hstop => exact .stop (hkept _ _ hstop)
  | up _ ih => exact .up ih
  | into hitem _ ih => exact .into (hkept _ _ hitem) ih
  | link hitem _ ih => exact .link (hkept _ _ hitem) ih

theorem append (h : Route look links start moves trail last)
    (h' : Route look links' last moves' trail' last') :
    Route look (links + links') start (moves ++ moves') (trail ++ trail') last' := by
  induction h with
  | stop _ => rwa [Nat.zero_add]
  | up _ ih => exact .up (ih h')
  | into hitem _ ih => exact .into hitem (ih h')
  | link hitem _ ih =>
    have hrest := ih h'
    rw [List.append_assoc] at hrest
    rw [Nat.add_right_comm]
    exact .link hitem hrest

/-- A route goes on from where a part of its moves leads. -/
theorem suffix (h : Route look links start moves trail last)
    (h' : Route look links' start (moves ++ moves') trail' last') :
    ∃ links'' trail'', links' = links + links'' ∧ trail' = trail ++ trail'' ∧
      Route look links'' last moves' trail'' last' := by
  induction h generalizing links' trail' with
  | stop _ => exact ⟨links', trail', (Nat.zero_add _).symm, rfl, h'⟩
  | up _ ih =>
    cases h' with
    | up h' => exact ih h'
  | into hitem _ ih =>
    cases h' with
    | into _ h' =>
      obtain ⟨links'', trail'', hlinks, htrail, hrest⟩ := ih h'
      exact ⟨links'', trail'', hlinks, by rw [htrail, List.cons_append], hrest⟩
    | link hitem' _ =>
      rw [hitem] at hitem'
      cases hitem'
  | link hitem _ ih =>
    cases h' with
    | into hitem' _ =>
      rw [hitem] at hitem'
      cases hitem'
    | link hitem' h' =>
      rw [hitem] at hitem'
      cases hitem'
      obtain ⟨links'', trail'', hlinks, htrail, hrest⟩ :=
        ih (by rw [List.append_assoc]; exact h')
      exact ⟨links'', trail'', by rw [hlinks]; omega, by rw [htrail, List.cons_append], hrest⟩

/-- There is one route at most. -/
theorem unique (h : Route look links start moves trail last)
    (h' : Route look links' start moves trail' last') :
    links' = links ∧ trail' = trail ∧ last' = last := by
  rw [← List.append_nil moves] at h'
  obtain ⟨links'', trail'', hlinks, htrail, hrest⟩ := h.suffix h'
  cases hrest with
  | stop _ => exact ⟨hlinks, by rw [htrail, List.append_nil], rfl⟩

/-- In a tree a route can be cut after some of its moves. -/
theorem split (htree : look.IsTree) (hstart : look start = some .directory)
    (h : Route look links start (moves ++ moves') trail last) :
    ∃ links₁ trail₁ place, links₁ ≤ links ∧ trail₁ <+: trail ∧
      Route look links₁ start moves trail₁ place := by
  generalize hall : moves ++ moves' = all at h
  induction h generalizing moves with
  | @stop place hstop =>
    obtain ⟨rfl, rfl⟩ := List.append_eq_nil_iff.1 hall
    exact ⟨0, [], place, Nat.le_refl 0, List.prefix_rfl, .stop hstop⟩
  | @up links place last rest trail hroute ih =>
    cases moves with
    | nil => exact ⟨0, [], place, Nat.zero_le _, List.nil_prefix, .stop hstart⟩
    | cons move moves =>
      rw [List.cons_append] at hall
      obtain ⟨rfl, hrest⟩ := List.cons.inj hall
      obtain ⟨links₁, trail₁, mid, hlinks, htrail, hmid⟩ :=
        ih (htree.dropLast_eq_directory hstart) hrest
      exact ⟨links₁, trail₁, mid, hlinks, htrail, .up hmid⟩
  | @into links place last name rest trail hitem hroute ih =>
    cases moves with
    | nil => exact ⟨0, [], place, Nat.zero_le _, List.nil_prefix, .stop hstart⟩
    | cons move moves =>
      rw [List.cons_append] at hall
      obtain ⟨rfl, hrest⟩ := List.cons.inj hall
      obtain ⟨links₁, trail₁, mid, hlinks, htrail, hmid⟩ := ih hitem hrest
      exact ⟨links₁, _ :: trail₁, mid, hlinks, List.cons_prefix_cons.2 ⟨rfl, htrail⟩,
        .into hitem hmid⟩
  | @link links place last name target rest trail hitem hroute ih =>
    cases moves with
    | nil => exact ⟨0, [], place, Nat.zero_le _, List.nil_prefix, .stop hstart⟩
    | cons move moves =>
      rw [List.cons_append] at hall
      obtain ⟨rfl, rfl⟩ := List.cons.inj hall
      have hnext := htree.ite_eq_directory hstart target.isAbsolute
      obtain ⟨links₁, trail₁, mid, hlinks, htrail, hmid⟩ :=
        ih hnext (List.append_assoc target.moves moves moves')
      exact ⟨links₁ + 1, _ :: trail₁, mid, Nat.succ_le_succ hlinks,
        List.cons_prefix_cons.2 ⟨rfl, htrail⟩, .link hitem hmid⟩

/-- A route that is not below a place is not below it behind a link either. -/
theorem not_prefix_of_link {below : List Name} (hne : below ≠ []) (hstart : ¬below <+: start)
    (target : Path) : ¬below <+: if target.isAbsolute then [] else start := by
  split
  · exact fun hpre => hne (List.prefix_nil.1 hpre)
  · exact hstart

/-- The next place on a trail is the one above what follows, or that one is met later. -/
theorem mem_cons_of_prefix {below place : List Name} {name : Name} (hstart : ¬below <+: start)
    (hplace : place ∈ (start ++ [name]) :: trail) (hbelow : below <+: place)
    (h : ¬below <+: start ++ [name] → place ∈ trail → below ∈ trail) :
    below ∈ (start ++ [name]) :: trail := by
  by_cases hnext : below <+: start ++ [name]
  · rw [List.prefix_concat_iff, or_iff_left hstart] at hnext
    exact hnext ▸ List.mem_cons_self
  · rcases List.mem_cons.1 hplace with rfl | hplace
    · exact absurd hbelow hnext
    · exact List.mem_cons_of_mem _ (h hnext hplace)

/-- What is gone into below a place has been reached through it. -/
theorem mem_trail_of_prefix_of_mem {below place : List Name} (hne : below ≠ [])
    (h : Route look links start moves trail last) (hstart : ¬below <+: start)
    (hplace : place ∈ trail) (hbelow : below <+: place) : below ∈ trail := by
  induction h with
  | stop _ => cases hplace
  | up _ ih =>
    exact ih (fun hpre => hstart <| hpre.trans <| List.dropLast_prefix _) hplace
  | into _ _ ih => exact mem_cons_of_prefix hstart hplace hbelow ih
  | link _ _ ih =>
    exact mem_cons_of_prefix hstart hplace hbelow fun _ => ih (not_prefix_of_link hne hstart _)

/-- A route that does not go below a place does not end there. -/
theorem not_prefix_last {below : List Name} (hne : below ≠ [])
    (h : Route look links start moves trail last) (hstart : ¬below <+: start)
    (htrail : ∀ place ∈ trail, ¬below <+: place) : ¬below <+: last := by
  induction h with
  | stop _ => exact hstart
  | up _ ih => exact ih (fun hpre => hstart <| hpre.trans <| List.dropLast_prefix _) htrail
  | into _ _ ih =>
    rw [List.forall_mem_cons] at htrail
    exact ih htrail.1 htrail.2
  | link _ _ ih =>
    rw [List.forall_mem_cons] at htrail
    exact ih (not_prefix_of_link hne hstart _) htrail.2

theorem not_into_of_none {name : Name} (hnone : look (start ++ [name]) = none) :
    ¬Route look links start (.into name :: moves) trail last := by
  intro h
  cases h with
  | into hitem _ => cases hnone.symm.trans hitem
  | link hitem _ => cases hnone.symm.trans hitem

/-- A route through a place is cut off when what stands there is taken away. -/
theorem not_of_clear {cleared : List Name} (hne : cleared ≠ [])
    (h : Route look links start moves trail last) (hstart : ¬cleared <+: start)
    (hmem : cleared ∈ trail)
    (hkept : ∀ place ∈ trail, ¬cleared <+: place → look' place = look place)
    (hcleared : look' cleared = none) : ¬Route look' links' start moves trail' last' := by
  induction h generalizing links' trail' with
  | stop _ => cases hmem
  | up _ ih =>
    intro h'
    cases h' with
    | up h' =>
      exact ih (fun hpre => hstart <| hpre.trans <| List.dropLast_prefix _) hmem hkept h'
  | @into _ start _ name _ _ hitem _ ih =>
    intro h'
    rw [List.forall_mem_cons] at hkept
    by_cases hnext : cleared <+: start ++ [name]
    · rw [List.prefix_concat_iff, or_iff_left hstart] at hnext
      exact not_into_of_none (hnext ▸ hcleared) h'
    · have hsame := (hkept.1 hnext).trans hitem
      rcases List.mem_cons.1 hmem with rfl | hmem
      · exact hnext List.prefix_rfl
      · cases h' with
        | into _ h' => exact ih hnext hmem hkept.2 h'
        | link hitem' _ => cases hsame.symm.trans hitem'
  | @link _ start _ name target _ _ hitem _ ih =>
    intro h'
    rw [List.forall_mem_cons] at hkept
    by_cases hnext : cleared <+: start ++ [name]
    · rw [List.prefix_concat_iff, or_iff_left hstart] at hnext
      exact not_into_of_none (hnext ▸ hcleared) h'
    · have hsame := (hkept.1 hnext).trans hitem
      rcases List.mem_cons.1 hmem with rfl | hmem
      · exact hnext List.prefix_rfl
      · cases h' with
        | into hitem' _ => cases hsame.symm.trans hitem'
        | link hitem' h' =>
          cases hsame.symm.trans hitem'
          exact ih (not_prefix_of_link hne hstart target) hmem hkept.2 h'

/-- What stands on the trail of a route is there. -/
theorem ne_none_of_mem {place : List Name} (h : Route look links start moves trail last)
    (hplace : place ∈ trail) : look place ≠ none := by
  induction h with
  | stop _ => cases hplace
  | up _ ih => exact ih hplace
  | into hitem _ ih =>
    rcases List.mem_cons.1 hplace with rfl | hplace
    · rw [hitem]
      exact Option.some_ne_none _
    · exact ih hplace
  | link hitem _ ih =>
    rcases List.mem_cons.1 hplace with rfl | hplace
    · rw [hitem]
      exact Option.some_ne_none _
    · exact ih hplace

/-- In a tree names lead straight to a directory, and a route goes on from there. -/
theorem after_names {names : List Name} (htree : look.IsTree)
    (hdirectory : look (start ++ names) = some .directory)
    (h : Route look links start (names.map .into ++ moves) trail last) :
    ∃ trail', Route look links (start ++ names) moves trail' last ∧
      ∀ place, place ∈ trail ↔
        (∃ before, before ≠ [] ∧ before <+: names ∧ place = start ++ before) ∨
          place ∈ trail' := by
  induction names generalizing start trail with
  | nil =>
    rw [List.append_nil]
    refine ⟨trail, h, fun place => ⟨.inr, ?_⟩⟩
    rintro (⟨before, hne, hbefore, -⟩ | hplace)
    · exact absurd (List.prefix_nil.1 hbefore) hne
    · exact hplace
  | cons name names ih =>
    have hnext : start ++ name :: names = start ++ [name] ++ names := by
      rw [List.append_assoc, List.singleton_append]
    have hitem := htree.eq_directory_of_append (hnext ▸ hdirectory)
    cases h with
    | into _ h =>
      obtain ⟨trail', hroute, htrail⟩ := ih (hnext ▸ hdirectory) h
      refine ⟨trail', hnext ▸ hroute, fun place => ?_⟩
      rw [List.mem_cons, htrail]
      constructor
      · rintro (rfl | ⟨before, _, hbefore, rfl⟩ | hplace)
        · exact .inl ⟨[name], by simp, by simp, rfl⟩
        · refine .inl ⟨name :: before, by simp, List.cons_prefix_cons.2 ⟨rfl, hbefore⟩, ?_⟩
          rw [List.append_assoc, List.singleton_append]
        · exact .inr hplace
      · rintro (⟨before, hne, hbefore, rfl⟩ | hplace)
        · obtain ⟨first, before, rfl⟩ := List.exists_cons_of_ne_nil hne
          obtain ⟨rfl, hrest⟩ := List.cons_prefix_cons.1 hbefore
          rcases List.eq_nil_or_concat before with rfl | ⟨_, _, hconcat⟩
          · exact .inl rfl
          · refine .inr (.inl ⟨before, ?_, hrest, ?_⟩)
            · rw [hconcat]
              simp
            · rw [List.append_assoc, List.singleton_append]
        · exact .inr (.inr hplace)
    | link hitem' _ => cases hitem.symm.trans hitem'

/-- Names lead straight below a place if there are no links on the way. -/
theorem of_names {names : List Name}
    (hlinks : ∀ (rest : List Name) (target : Path), rest <+: names →
      look (start ++ rest) ≠ some (.link target))
    (h : Route look links start (names.map .into) trail last) :
    last = start ++ names ∧ ∀ place ∈ trail, place <+: last := by
  induction names generalizing start links trail with
  | nil =>
    cases h
    exact ⟨(List.append_nil _).symm, nofun⟩
  | cons name names ih =>
    cases h with
    | into _ h =>
      obtain ⟨rfl, htrail⟩ := ih (fun rest target hrest => by
        rw [List.append_assoc]
        exact hlinks _ target (List.cons_prefix_cons.2 ⟨rfl, hrest⟩)) h
      refine ⟨by rw [List.append_assoc, List.singleton_append], ?_⟩
      exact List.forall_mem_cons.2 ⟨List.prefix_append _ _, htrail⟩
    | link hitem _ =>
      exact absurd hitem (hlinks [name] _ (List.prefix_append [name] names))

end Route

end Disk

end Scaffold
