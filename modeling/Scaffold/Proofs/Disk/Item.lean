import Mathlib.Logic.Function.Basic
import Scaffold.Disk.Operations

/-!
What stands where on a disk. A layout gives for every place what stands there: a file with its
bytes, a link with its target, or a directory, whose entries stand at places of their own. Two disks
with the same layout hold the same, in whatever order the entries of a directory are listed.
-/

namespace Scaffold

/-- What stands at a place, without what is below it. -/
inductive Item where
  | file (content : ByteArray)
  | link (target : Path)
  | directory

/-- What stands at the places that lists of names lead to. -/
abbrev Layout := List Name → Option Item

namespace Layout

/-- What stands below a place is in a directory. -/
structure IsTree (look : Layout) : Prop where
  root : look [] = some .directory
  parent {place : List Name} {name : Name} :
    look (place ++ [name]) ≠ none → look place = some .directory

/-- The layout in which nothing stands at a place and below it. -/
def clear (look : Layout) (place : List Name) : Layout :=
  fun names => if place <+: names then none else look names

/-- The layout in which what stood at `source` and below it stands at `target`. -/
def move (look : Layout) (source target : List Name) : Layout :=
  fun names =>
    if target <+: names then look (source ++ names.drop target.length)
    else look.clear source names

theorem clear_below {look : Layout} {place names : List Name} (h : place <+: names) :
    look.clear place names = none :=
  if_pos h

theorem clear_outside {look : Layout} {place names : List Name} (h : ¬place <+: names) :
    look.clear place names = look names :=
  if_neg h

theorem move_append {look : Layout} {source target : List Name} (rest : List Name) :
    look.move source target (target ++ rest) = look (source ++ rest) := by
  rw [move, if_pos (List.prefix_append target rest), List.drop_left]

theorem move_target {look : Layout} {source target : List Name} :
    look.move source target target = look source := by
  rw [move, if_pos List.prefix_rfl, List.drop_length, List.append_nil]

theorem move_outside {look : Layout} {source target names : List Name}
    (h : ¬target <+: names) : look.move source target names = look.clear source names :=
  if_neg h

theorem move_self (look : Layout) (place : List Name) : look.move place place = look := by
  funext names
  by_cases hnames : place <+: names
  · obtain ⟨rest, rfl⟩ := hnames
    rw [move_append]
  · rw [move_outside hnames, clear_outside hnames]

theorem move_back {look : Layout} {source target names : List Name} (h : ¬target <+: names) :
    (look.move source target).move target source names = look names := by
  by_cases hnames : source <+: names
  · obtain ⟨rest, rfl⟩ := hnames
    rw [move_append, move_append]
  · rw [move_outside hnames, clear_outside h, move_outside h, clear_outside hnames]

namespace IsTree

variable {look : Layout} {place : List Name}

theorem append_ne_nil (htree : look.IsTree) {rest : List Name} (hrest : rest ≠ [])
    (h : look (place ++ rest) ≠ none) : look place = some .directory := by
  induction rest generalizing place with
  | nil => exact absurd rfl hrest
  | cons name rest ih =>
    rw [← List.singleton_append, ← List.append_assoc] at h
    cases rest with
    | nil =>
      rw [List.append_nil] at h
      exact htree.parent h
    | cons next rest =>
      have hname := ih (List.cons_ne_nil next rest) h
      exact htree.parent (by rw [hname]; exact Option.some_ne_none _)

/-- Nothing stands below what is no directory. -/
theorem eq_none_of_ne_directory (htree : look.IsTree) {rest : List Name} (hrest : rest ≠ [])
    (h : look place ≠ some .directory) : look (place ++ rest) = none := by
  by_contra hne
  exact h (htree.append_ne_nil hrest hne)

theorem eq_none_of_none (htree : look.IsTree) (h : look place = none) (rest : List Name) :
    look (place ++ rest) = none := by
  cases rest with
  | nil => rw [List.append_nil, h]
  | cons name rest =>
    refine htree.eq_none_of_ne_directory (List.cons_ne_nil name rest) ?_
    rw [h]
    exact nofun

/-- What a directory is in is a directory. -/
theorem eq_directory_of_append (htree : look.IsTree) {rest : List Name}
    (h : look (place ++ rest) = some .directory) : look place = some .directory := by
  cases rest with
  | nil => rwa [List.append_nil] at h
  | cons name rest =>
    refine htree.append_ne_nil (List.cons_ne_nil name rest) ?_
    rw [h]
    exact Option.some_ne_none _

theorem dropLast_eq_directory (htree : look.IsTree) (h : look place = some .directory) :
    look place.dropLast = some .directory := by
  rcases List.eq_nil_or_concat place with rfl | ⟨parent, name, rfl⟩
  · exact h
  · rw [List.concat_eq_append] at h ⊢
    rw [List.dropLast_concat]
    exact htree.eq_directory_of_append h

/-- A link in a directory leads on from the directory or from the root. -/
theorem ite_eq_directory (htree : look.IsTree) (h : look place = some .directory)
    (isAbsolute : Bool) : look (if isAbsolute then [] else place) = some .directory := by
  cases isAbsolute with
  | true => exact htree.root
  | false => exact h

end IsTree

end Layout

def Entry.item : Entry → Item
  | .file content => .file content
  | .link target => .link target
  | .directory _ => .directory

/-- What stands at and below an entry. -/
def Entry.layout (e : Entry) : Layout :=
  fun names => (e.at? names).map item

namespace Entry

theorem at?_append (names rest : List Name) (e : Entry) :
    e.at? (names ++ rest) = (e.at? names).bind (at? rest) := by
  induction names generalizing e with
  | nil => rfl
  | cons name names ih =>
    cases e with
    | file content => rfl
    | link target => rfl
    | directory es =>
      rw [List.cons_append, at?, at?]
      cases Assoc.find? name es with
      | none => rfl
      | some child => exact ih child

theorem layout_cons (name : Name) (names : List Name) (es : Entries) :
    (directory es).layout (name :: names) =
      (Assoc.find? name es).bind fun e => e.layout names := by
  simp only [layout, at?, Option.map_bind]
  rfl

theorem layout_cons_of_ne_directory {e : Entry} (h : e.item ≠ .directory) (name : Name)
    (names : List Name) : e.layout (name :: names) = none := by
  cases e with
  | file content => rfl
  | link target => rfl
  | directory es => exact absurd rfl h

theorem isTree_layout (es : Entries) : (directory es).layout.IsTree where
  root := rfl
  parent {place name} h := by
    induction place generalizing es with
    | nil => rfl
    | cons first place ih =>
      rw [List.cons_append, layout_cons] at h
      rw [layout_cons]
      cases hfind : Assoc.find? first es with
      | none =>
        rw [hfind] at h
        exact absurd rfl h
      | some e =>
        rw [hfind, Option.bind_some] at h
        rw [Option.bind_some]
        cases e with
        | directory children => exact ih children h
        | file content =>
          cases place <;> exact absurd rfl h
        | link target =>
          cases place <;> exact absurd rfl h

end Entry

namespace Entries

variable {place names : List Name} {es : Entries}

theorem put_cons {name : Name} {e : Entry} (hplace : place ≠ []) :
    put (name :: place) e es =
      match Assoc.find? name es with
      | some (.directory children) => Assoc.insert name (.directory (put place e children)) es
      | _ => es := by
  cases place with
  | nil => exact absurd rfl hplace
  | cons next place =>
    rfl

theorem remove_cons {name : Name} (hplace : place ≠ []) :
    remove (name :: place) es =
      match Assoc.find? name es with
      | some (.directory children) => Assoc.insert name (.directory (remove place children)) es
      | _ => es := by
  cases place with
  | nil => exact absurd rfl hplace
  | cons next place =>
    rfl

/-- A change below one directory shows below that one only. -/
theorem layout_insert_directory {first name : Name} {children children' : Entries}
    (hfind : Assoc.find? first es = some (.directory children))
    (h : first = name →
      (Entry.directory children').layout names = (Entry.directory children).layout names) :
    (Entry.directory (Assoc.insert first (.directory children') es)).layout (name :: names) =
      (Entry.directory es).layout (name :: names) := by
  rw [Entry.layout_cons, Entry.layout_cons, Assoc.find?_insert]
  split
  · next heq =>
    rw [← heq, hfind, Option.bind_some, Option.bind_some]
    exact h heq
  · rfl

/-- A change that goes down to a place, and in the directory there concerns one name only, changes
nothing elsewhere. -/
theorem layout_outside (change : List Name → Entries → Entries)
    (hdown : ∀ (name : Name) {place : List Name} (es : Entries), place ≠ [] →
      change (name :: place) es =
        match Assoc.find? name es with
        | some (.directory children) => Assoc.insert name (.directory (change place children)) es
        | _ => es)
    (hlast : ∀ (name : Name) {other : Name} (es : Entries), name ≠ other →
      Assoc.find? other (change [name] es) = Assoc.find? other es)
    (h : ¬place <+: names) :
    (Entry.directory (change place es)).layout names = (Entry.directory es).layout names := by
  induction place generalizing names es with
  | nil => exact absurd List.nil_prefix h
  | cons first place ih =>
    cases names with
    | nil => rfl
    | cons name names =>
      rw [List.cons_prefix_cons, not_and] at h
      by_cases hplace : place = []
      · subst hplace
        have hne : first ≠ name := fun heq => h heq List.nil_prefix
        rw [Entry.layout_cons, Entry.layout_cons, hlast first es hne]
      · rw [hdown first es hplace]
        split
        · next children hfind => exact layout_insert_directory hfind fun heq => ih (h heq)
        · rfl

theorem layout_put_outside (e : Entry) (h : ¬place <+: names) :
    (Entry.directory (put place e es)).layout names = (Entry.directory es).layout names := by
  refine layout_outside (put · e) (fun _ _ _ => put_cons) (fun name other es hne => ?_) h
  rw [put, Assoc.find?_insert, if_neg hne]

/-- An entry that is put in a directory stands there with all that is below it. -/
theorem layout_put_append {parent : List Name} {name : Name} (e : Entry)
    (h : (Entry.directory es).layout parent = some .directory) (rest : List Name) :
    (Entry.directory (put (parent ++ [name]) e es)).layout (parent ++ name :: rest) =
      e.layout rest := by
  induction parent generalizing es with
  | nil => rw [List.nil_append, List.nil_append, put, Entry.layout_cons, Assoc.find?_insert_self,
      Option.bind_some]
  | cons first parent ih =>
    rw [Entry.layout_cons] at h
    obtain ⟨child, hfind, hchild⟩ := Option.bind_eq_some_iff.1 h
    cases child with
    | directory children =>
      rw [List.cons_append, put_cons (by simp), hfind, List.cons_append, Entry.layout_cons,
        Assoc.find?_insert_self, Option.bind_some]
      exact ih hchild
    | file content => cases parent <;> cases hchild
    | link target => cases parent <;> cases hchild

theorem layout_remove_outside (h : ¬place <+: names) :
    (Entry.directory (remove place es)).layout names = (Entry.directory es).layout names := by
  refine layout_outside remove (fun _ _ _ => remove_cons) (fun name other es hne => ?_) h
  rw [remove, Assoc.find?_erase, if_neg hne]

theorem layout_remove_append (hplace : place ≠ []) (rest : List Name) :
    (Entry.directory (remove place es)).layout (place ++ rest) = none := by
  induction place generalizing es with
  | nil => exact absurd rfl hplace
  | cons first place ih =>
    rw [List.cons_append, Entry.layout_cons]
    by_cases hnil : place = []
    · subst hnil
      rw [remove, Assoc.find?_erase, if_pos rfl, Option.bind_none]
    · obtain ⟨next, place', heq⟩ := List.exists_cons_of_ne_nil hnil
      rw [remove_cons hnil]
      split
      · rw [Assoc.find?_insert_self, Option.bind_some]
        exact ih hnil
      · next hfind =>
        cases hchild : Assoc.find? first es with
        | none => rfl
        | some child =>
          rw [Option.bind_some, heq, List.cons_append]
          refine Entry.layout_cons_of_ne_directory (fun hitem => ?_) next _
          cases child with
          | directory children => exact hfind children hchild
          | file content => cases hitem
          | link target => cases hitem

end Entries

/-! ### Disks -/

namespace Disk

theorem not_prefix_of_concat (place : List Name) (name : Name) : ¬place ++ [name] <+: place := by
  intro hpre
  have hlength := hpre.length_le
  rw [List.length_append, List.length_singleton] at hlength
  omega

/-- Two names in one directory stand for places apart. -/
theorem not_prefix_append_of_ne {place : List Name} {name name' : Name} (hne : name ≠ name')
    (rest : List Name) : ¬place ++ [name] <+: place ++ [name'] ++ rest := by
  rw [List.append_assoc, List.prefix_append_right_inj, List.singleton_append,
    List.cons_prefix_cons]
  exact fun h => hne h.1

/-- What stands at a place of a disk. -/
def item? (d : Disk) : Layout :=
  (Entry.directory d.entries).layout

variable {d : Disk} {place : List Name}

theorem item?_eq (d : Disk) (names : List Name) :
    d.item? names = Option.map Entry.item ( d.entry? names) :=
  rfl

theorem isTree_item? (d : Disk) : d.item?.IsTree :=
  Entry.isTree_layout d.entries

theorem item?_eq_none_iff {names : List Name} : d.item? names = none ↔ d.entry? names = none := by
  rw [item?_eq, Option.map_eq_none_iff]

theorem item?_eq_directory_iff {names : List Name} :
    d.item? names = some .directory ↔ ∃ es, d.entry? names = some (.directory es) := by
  rw [item?_eq, Option.map_eq_some_iff]
  constructor
  · rintro ⟨e, he, hitem⟩
    cases e with
    | directory es => exact ⟨es, he⟩
    | file content => cases hitem
    | link target => cases hitem
  · rintro ⟨es, he⟩
    exact ⟨_, he, rfl⟩

theorem item?_eq_file_iff {names : List Name} {content : ByteArray} :
    d.item? names = some (.file content) ↔ d.entry? names = some (.file content) := by
  rw [item?_eq, Option.map_eq_some_iff]
  constructor
  · rintro ⟨e, he, hitem⟩
    cases e with
    | file content' => rw [he]; cases hitem; rfl
    | directory es => cases hitem
    | link target => cases hitem
  · intro he
    exact ⟨_, he, rfl⟩

theorem item?_eq_link_iff {names : List Name} {target : Path} :
    d.item? names = some (.link target) ↔ d.entry? names = some (.link target) := by
  rw [item?_eq, Option.map_eq_some_iff]
  constructor
  · rintro ⟨e, he, hitem⟩
    cases e with
    | link target' => rw [he]; cases hitem; rfl
    | directory es => cases hitem
    | file content => cases hitem
  · intro he
    exact ⟨_, he, rfl⟩

/-- What is below an entry of a disk. -/
theorem layout_entry {e : Entry} (h : d.entry? place = some e) (rest : List Name) :
    e.layout rest = d.item? (place ++ rest) := by
  rw [item?_eq, Entry.layout, entry?, Entry.at?_append]
  rw [ entry?] at h
  rw [h, Option.bind_some]

theorem entry?_concat {es : Entries} (h : d.entry? place = some (.directory es)) (name : Name) :
    d.entry? (place ++ [name]) = Assoc.find? name es := by
  rw [ entry?] at h
  rw [ entry?, Entry.at?_append, h, Option.bind_some, Entry.at?]
  cases Assoc.find? name es <;> rfl

/-- An entry with nothing below it that is put in a directory, at a place below which there is
nothing, changes what stands there and no more. -/
theorem item?_put_leaf {name : Name} {e : Entry} (hparent : d.item? place = some .directory)
    (hplace : d.item? (place ++ [name]) ≠ some .directory)
    (hleaf : ∀ next rest, e.layout (next :: rest) = none) :
    (d.put (place ++ [name]) e).item? =
      Function.update d.item? (place ++ [name]) (some e.item) := by
  funext names
  by_cases hbelow : place ++ [name] <+: names
  · obtain ⟨rest, rfl⟩ := hbelow
    have hput : (d.put (place ++ [name]) e).item? (place ++ [name] ++ rest) = e.layout rest := by
      rw [List.append_assoc, List.singleton_append]
      exact Entries.layout_put_append e hparent rest
    rw [hput]
    cases rest with
    | nil =>
      rw [List.append_nil, Function.update_self]
      cases e <;> rfl
    | cons next rest =>
      rw [Function.update_of_ne (by simp), hleaf,
        d.isTree_item?.eq_none_of_ne_directory (List.cons_ne_nil next rest) hplace]
  · have hne : names ≠ place ++ [name] := fun heq => hbelow (heq ▸ List.prefix_rfl)
    rw [Function.update_of_ne hne]
    exact Entries.layout_put_outside e hbelow

theorem item?_remove (d : Disk) (hplace : place ≠ []) :
    (d.remove place).item? = d.item?.clear place := by
  funext names
  by_cases hbelow : place <+: names
  · rw [Layout.clear_below hbelow]
    obtain ⟨rest, rfl⟩ := hbelow
    exact Entries.layout_remove_append hplace rest
  · rw [Layout.clear_outside hbelow]
    exact Entries.layout_remove_outside hbelow

/-- Taking an entry away and putting it in a directory elsewhere moves it. -/
theorem item?_remove_put {source parent : List Name} {e : Entry} (hsource : source ≠ [])
    (he : d.entry? source = some e) (hparent : d.item? parent = some .directory)
    (houtside : ¬source <+: parent) (name : Name) :
    ((d.remove source).put (parent ++ [name]) e).item? =
      d.item?.move source (parent ++ [name]) := by
  funext names
  by_cases hbelow : parent ++ [name] <+: names
  · obtain ⟨rest, rfl⟩ := hbelow
    rw [Layout.move_append, ← layout_entry he]
    have hkept : (d.remove source).item? parent = some .directory := by
      rw [item?_remove d hsource, Layout.clear_outside houtside, hparent]
    rw [List.append_assoc, List.singleton_append]
    exact Entries.layout_put_append e hkept rest
  · rw [Layout.move_outside hbelow, ← item?_remove d hsource]
    exact Entries.layout_put_outside e hbelow

end Disk

end Scaffold
