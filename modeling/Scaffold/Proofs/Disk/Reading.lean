import Scaffold.Proofs.Disk.Change

/-!
What is read after writing. A file is written where a walk lands: at a name in a directory, under
which there is nothing or a file. The write changes nothing else that the walk has met, links
included, so the walk lands at the same place afterwards and finds the file there.
-/

namespace Scaffold

namespace Disk

variable {d d' : Disk} {follow : Bool} {n : Nat} {place target : List Name} {steps : List Step}
  {p : Path} {content : ByteArray}

/-- The walk has ended where a file can be written. -/
def LandsAt (target : List Name) : Place → Prop
  | .missing names => names = target
  | .found names (.file _) => names = target
  | .found _ _ => False

/-- Nothing stands at the place, or a file. -/
def IsFree (d : Disk) (place : List Name) : Prop :=
  d.item? place = none ∨ ∃ content, d.item? place = some (.file content)

theorem IsFree.ne_directory (h : d.IsFree place) : d.item? place ≠ some .directory := by
  rcases h with h | ⟨content, h⟩ <;> rw [h] <;> exact nofun

theorem IsFree.ne_link (h : d.IsFree place) (link : Path) : d.item? place ≠ some (.link link) := by
  rcases h with h | ⟨content, h⟩ <;> rw [h] <;> exact nofun

/-- A walk that lands goes from directory to directory until it comes to a name under which there is
nothing or a file. -/
@[elab_as_elim]
theorem landing_induction {result : Place} {motive : Nat → List Name → List Step → Prop}
    (slash : ∀ n place steps, motive n place steps → motive n place (.slash :: steps))
    (stay : ∀ n place steps, motive n place steps → motive n place (.stay :: steps))
    (up : ∀ n place steps, motive n place.dropLast steps → motive n place (.up :: steps))
    (into : ∀ n place name steps,
      d.item? (place ++ [name]) = some .directory → motive n (place ++ [name]) steps →
      motive n place (.into name :: steps))
    (link : ∀ n place name link steps,
      d.item? (place ++ [name]) = some (.link link) →
      motive n (if link.isAbsolute then [] else place) (link.steps ++ steps) →
      motive (n + 1) place (.into name :: steps))
    (lands : ∀ n place name, d.item? place = some .directory → target = place ++ [name] →
      d.IsFree target → motive n place [.into name])
    (hplace : d.item? place = some .directory) (h : d.walk follow n place steps = .ok result)
    (hlands : LandsAt target result) : motive n place steps := by
  induction n using Nat.strongRecOn generalizing place steps with
  | _ n ihn =>
    induction steps generalizing place with
    | nil =>
      obtain ⟨es, hes⟩ := item?_eq_directory_iff.1 hplace
      rw [walk_nil, hes] at h
      cases h
      cases hlands
    | cons step steps ih =>
      cases step with
      | slash => exact slash n place steps (ih hplace (walk_slash ▸ h))
      | stay => exact stay n place steps (ih hplace (walk_stay ▸ h))
      | up => exact up n place steps (ih (d.isTree_item?.dropLast_eq_directory hplace) (walk_up ▸ h))
      | unfit =>
        rw [walk_unfit] at h
        cases h
      | into name =>
        obtain ⟨hitem, hnext⟩ | ⟨target, m, hitem, rfl, htarget⟩ | ⟨rfl, hitem, rfl⟩ |
          ⟨e, rfl, hentry, hleaf, rfl⟩ := walk_into_eq_ok h
        · exact into n place name steps hitem (ih hitem hnext)
        · have hstart := d.isTree_item?.ite_eq_directory hplace target.isAbsolute
          exact link m place name target steps hitem
            (ihn m (Nat.lt_succ_self m) hstart htarget)
        · cases hlands
          exact lands n place name hplace rfl (.inl hitem)
        · cases e with
          | file content =>
            cases hlands
            exact lands n place name hplace rfl (.inr ⟨content, item?_eq_file_iff.2 hentry⟩)
          | link link => cases hlands
          | directory es => cases hlands

/-- A walk lands at a name in a directory. -/
theorem exists_parent_of_walk {result : Place} (hplace : d.item? place = some .directory)
    (h : d.walk follow n place steps = .ok result) (hlands : LandsAt target result) :
    ∃ parent name, target = parent ++ [name] ∧ d.item? parent = some .directory ∧
      d.IsFree target := by
  refine landing_induction ?slash ?stay ?up ?into ?link ?lands hplace h hlands
  case slash => exact fun n place steps ih => ih
  case stay => exact fun n place steps ih => ih
  case up => exact fun n place steps ih => ih
  case into => exact fun n place name steps hitem ih => ih
  case link => exact fun n place name link steps hitem ih => ih
  case lands =>
    exact fun n place name hplace htarget hfree => ⟨place, name, htarget, hplace, hfree⟩

/-- After a file has been written where a walk lands, the walk finds it there. -/
theorem walk_of_update {result : Place} (hplace : d.item? place = some .directory)
    (h : d.walk true n place steps = .ok result) (hlands : LandsAt target result)
    (hfree : d.IsFree target)
    (hitem : d'.item? = Function.update d.item? target (some (.file content))) :
    d'.walk true n place steps = .ok (.found target (.file content)) := by
  have hoff : ∀ names, names ≠ target → d'.item? names = d.item? names := by
    intro names hnames
    rw [hitem, Function.update_of_ne hnames]
  have hat : d'.item? target = some (.file content) := by
    rw [hitem, Function.update_self]
  refine landing_induction ?slash ?stay ?up ?into ?link ?lands hplace h hlands
  case slash => exact fun n place steps ih => walk_slash.trans ih
  case stay => exact fun n place steps ih => walk_stay.trans ih
  case up => exact fun n place steps ih => walk_up.trans ih
  case into =>
    intro n place name steps hdirectory ih
    have hne : place ++ [name] ≠ target := fun heq => hfree.ne_directory (heq ▸ hdirectory)
    rw [walk_into_of_directory ((hoff _ hne).trans hdirectory), ih]
  case link =>
    intro n place name link steps hlink ih
    have hne : place ++ [name] ≠ target := fun heq => hfree.ne_link link (heq ▸ hlink)
    rw [walk_into_of_link ((hoff _ hne).trans hlink) (by simp), ih]
  case lands =>
    intro n place name hplace htarget _
    subst htarget
    exact walk_into_of_file hat

/-- A file that has been written is read back, whatever links lead to it. -/
theorem readBytes_of_writeBytes (h : d.writeBytes p content = .ok d') :
    d'.readBytes p = .ok content := by
  obtain ⟨result, hresolve, hput⟩ := exists_resolve_of_writeBytes h
  obtain ⟨target, hlands, rfl⟩ : ∃ target, LandsAt target result ∧
      d' = d.put target (.file content) := by
    rcases hput with ⟨place, rfl, rfl⟩ | ⟨place, old, rfl, rfl⟩ <;> exact ⟨place, rfl, rfl⟩
  obtain ⟨hstarts, hwalk⟩ := walkFrom_eq_ok_iff.1 hresolve
  obtain ⟨parent, name, rfl, hparent, hfree⟩ :=
    exists_parent_of_walk hstarts.origin hwalk hlands
  have hitem : (d.put (parent ++ [name]) (.file content)).item? =
      Function.update d.item? (parent ++ [name]) (some (.file content)) :=
    item?_put_leaf hparent hfree.ne_directory fun _ _ => rfl
  have horigin : d.origin p ≠ parent ++ [name] :=
    fun heq => hfree.ne_directory (heq ▸ hstarts.origin)
  have hstarts' : (d.put (parent ++ [name]) (.file content)).Starts p := by
    refine ⟨hstarts.nul, hstarts.size, hstarts.nonempty, ?_⟩
    rw [hitem]
    exact (Function.update_of_ne horigin _ _).trans hstarts.origin
  have hresolve' : (d.put (parent ++ [name]) (.file content)).resolve true p =
      .ok (.found (parent ++ [name]) (.file content)) :=
    walkFrom_eq_ok_iff.2 ⟨hstarts', walk_of_update hstarts.origin hwalk hlands hfree hitem⟩
  rw [readBytes, get, hresolve']
  rfl

theorem fromUTF8?_toUTF8 (text : String) : String.fromUTF8? text.toUTF8 = some text := by
  rw [String.fromUTF8?]
  exact dif_pos text.isValidUTF8

theorem readText_of_writeBytes {text : String} (h : d.writeBytes p text.toUTF8 = .ok d') :
    d'.readText p = .ok text := by
  rw [readText, readBytes_of_writeBytes h]
  simp only [bind, Except.bind, fromUTF8?_toUTF8]
  rfl

end Disk

end Scaffold
