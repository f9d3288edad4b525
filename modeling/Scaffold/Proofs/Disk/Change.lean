import Scaffold.Proofs.Disk.Walk

/-!
What the operations on a disk change. Each one changes the layout at one place, or at two if an
entry is moved, and says where its paths lead.
-/

namespace Scaffold

namespace Disk

variable {d d' : Disk} {p source target : Path} {parent last : List Name} {name : Name}

/-- The path leads to a directory and from there to a name in it. -/
structure Points (d : Disk) (p : Path) (parent : List Name) (name : Name) : Prop where
  starts : d.Starts p
  endsIn : ∃ slashes, p.EndsIn name slashes
  arrives : d.Arrives p p.moves.dropLast parent

/-- The path points to a name under which nothing stands. -/
structure Vacant (d : Disk) (p : Path) (parent : List Name) (name : Name) : Prop where
  points : d.Points p parent name
  item : d.item? (parent ++ [name]) = none

/-- Where nothing stood, removing what has been put there since leaves what stood elsewhere. -/
theorem Vacant.clear_eq {look : Layout} {names : List Name} (h : d.Vacant p parent name)
    (hsame : ¬parent ++ [name] <+: names → look names = d.item? names) :
    look.clear (parent ++ [name]) names = d.item? names := by
  by_cases hnames : parent ++ [name] <+: names
  · obtain ⟨rest, rfl⟩ := hnames
    rw [Layout.clear_below (List.prefix_append _ _), d.isTree_item?.eq_none_of_none h.item]
  · rw [Layout.clear_outside hnames, hsame hnames]

theorem Arrives.unique {moves : List Step} {last' : List Name} (h : d.Arrives p moves last)
    (h' : d.Arrives p moves last') : last' = last := by
  obtain ⟨links, trail, -, hroute⟩ := h
  obtain ⟨links', trail', -, hroute'⟩ := h'
  exact (hroute.unique hroute').2.2

/-- A path that points to a name still does if its moves still lead somewhere. -/
theorem Points.of_arrives {parent' : List Name} (h : d.Points p parent name)
    (hstart : d'.item? (d'.origin p) = some .directory)
    (harrives : d'.Arrives p p.moves.dropLast parent') : d'.Points p parent' name :=
  ⟨⟨h.starts.nul, h.starts.size, h.starts.nonempty, hstart⟩, h.endsIn, harrives⟩

/-- Where a path leads does not change as long as everything stays that stands somewhere. -/
theorem Points.mono (h : d.Points p parent name) (hhere : d'.here = d.here)
    (hkept : ∀ names item, d.item? names = some item → d'.item? names = some item) :
    d'.Points p parent name := by
  have horigin := origin_eq_of_here hhere p
  obtain ⟨links, trail, hlinks, hroute⟩ := h.arrives
  refine h.of_arrives ?_ ⟨links, trail, hlinks, ?_⟩
  · rw [horigin]
    exact hkept _ _ h.starts.origin
  · rw [horigin]
    exact hroute.mono hkept

namespace Points

theorem eq_directory (h : d.Points p parent name) : d.item? parent = some .directory :=
  h.arrives.eq_directory

theorem lastStep_eq (h : d.Points p parent name) : (lastStep p).1 = some (.into name) := by
  obtain ⟨slashes, hends⟩ := h.endsIn
  obtain ⟨before, hlast, -⟩ := hends.lastStep_eq
  rw [hlast]

theorem parentDirectory_eq (h : d.Points p parent name) : d.parentDirectory p = .ok parent := by
  obtain ⟨slashes, hends⟩ := h.endsIn
  obtain ⟨before, hlast, hmoves⟩ := hends.lastStep_eq
  have harrives := h.arrives
  rw [hmoves, List.dropLast_concat] at harrives
  rw [parentDirectory_eq_ok_iff, hlast]
  exact ⟨h.starts, harrives⟩

theorem of_parentDirectory (hparent : d.parentDirectory p = .ok parent)
    (hlast : (lastStep p).1 = some (.into name)) : d.Points p parent name := by
  obtain ⟨slashes, hends⟩ := Path.EndsIn.of_lastStep hlast
  obtain ⟨before, hbefore, hmoves⟩ := hends.lastStep_eq
  obtain ⟨hstarts, harrives⟩ := parentDirectory_eq_ok_iff.1 hparent
  refine ⟨hstarts, ⟨slashes, hends⟩, ?_⟩
  rw [hmoves, List.dropLast_concat]
  rwa [hbefore] at harrives

theorem moves_eq (h : d.Points p parent name) : p.moves = p.moves.dropLast ++ [.into name] := by
  obtain ⟨slashes, hends⟩ := h.endsIn
  obtain ⟨before, -, hmoves⟩ := hends.lastStep_eq
  rw [hmoves, List.dropLast_concat]

theorem unique {parent' : List Name} {name' : Name} (h : d.Points p parent name)
    (h' : d.Points p parent' name') : parent' = parent ∧ name' = name := by
  refine ⟨h.arrives.unique h'.arrives, ?_⟩
  have hname := h.lastStep_eq.symm.trans h'.lastStep_eq
  cases hname
  rfl

/-- A directory at the end of a path is where its moves lead. -/
theorem arrives_append (h : d.Points p parent name)
    (hitem : d.item? (parent ++ [name]) = some .directory) :
    d.Arrives p p.moves (parent ++ [name]) := by
  obtain ⟨links, trail, hlinks, hroute⟩ := h.arrives
  rw [h.moves_eq]
  exact ⟨links + 0, _, hlinks, hroute.append (.into hitem (.stop hitem))⟩

end Points

theorem nameToCreate_eq_ok {place : List Name} {other : FileError}
    (h : d.nameToCreate p other = .ok place) : ∃ parent name, d.Points p parent name ∧
      place = parent ++ [name] := by
  obtain ⟨parent, hparent, h⟩ := bind_eq_ok_iff.1 h
  split at h
  · next name hlast =>
    cases h
    exact ⟨parent, name, .of_parentDirectory hparent hlast, rfl⟩
  · cases h
  · cases h

/-- A new directory stands where nothing stood, and is empty. -/
theorem createDirectory_eq_ok (h : d.createDirectory p = .ok d') : ∃ parent name,
    d.Vacant p parent name ∧ d'.here = d.here ∧
      d'.item? = Function.update d.item? (parent ++ [name]) (some .directory) := by
  obtain ⟨place, hplace, h⟩ := bind_eq_ok_iff.1 h
  obtain ⟨parent, name, hpoints, rfl⟩ := nameToCreate_eq_ok hplace
  split at h
  · cases h
  · next hentry =>
    cases h
    have hitem := item?_eq_none_iff.2 hentry
    refine ⟨parent, name, ⟨hpoints, hitem⟩, rfl, ?_⟩
    exact item?_put_leaf hpoints.eq_directory (by rw [hitem]; exact nofun) fun _ _ => rfl

/-- A path that leads to no directory ends in a name. -/
theorem resolve_eq_ok {result : Place} (h : d.resolve true p = .ok result) :
    (∃ last es, result = .found last (.directory es)) ∨
    ∃ parent name n, d.Points p parent name ∧ p.EndsIn name 0 ∧
      d.walk true n parent [.into name] = .ok result := by
  obtain ⟨hstarts, hwalk⟩ := walkFrom_eq_ok_iff.1 h
  refine (walk_eq_ok hstarts.origin hwalk).imp_right ?_
  rintro ⟨before, name, links, trail, parent, hsteps, hlinks, hroute, hrest⟩
  have hends : p.EndsIn name 0 := ⟨before, hsteps⟩
  have hmoves : p.moves.dropLast = Step.moves before := by
    rw [← p.moves_steps, hsteps, Step.moves_append, Step.moves_cons_of_isMove rfl]
    exact List.dropLast_concat
  exact ⟨parent, name, _, ⟨hstarts, ⟨0, hends⟩, links, trail, hlinks, hmoves ▸ hroute⟩, hends,
    hrest⟩

/-- A file is written where the walk along its path ends. -/
theorem exists_resolve_of_writeBytes {content : ByteArray} (h : d.writeBytes p content = .ok d') :
    ∃ result, d.resolve true p = .ok result ∧
      ((∃ place, result = .missing place ∧ d' = d.put place (.file content)) ∨
        ∃ place old, result = .found place (.file old) ∧ d' = d.put place (.file content)) := by
  rw [writeBytes] at h
  split at h
  · obtain ⟨_, _, h⟩ := bind_eq_ok_iff.1 h
    cases h
  · obtain ⟨_, _, h⟩ := bind_eq_ok_iff.1 h
    cases h
  · obtain ⟨result, hresolve, h⟩ := bind_eq_ok_iff.1 h
    refine ⟨result, hresolve, ?_⟩
    cases result with
    | missing place =>
      cases h
      exact .inl ⟨place, rfl, rfl⟩
    | found place e =>
      cases e with
      | file old =>
        cases h
        exact .inr ⟨place, old, rfl, rfl⟩
      | directory es => cases h
      | link link => cases h

/-- A file is written where its path points, unless a link stands there. -/
theorem writeBytes_eq_ok {content : ByteArray} (h : d.writeBytes p content = .ok d')
    (hlink : ∀ parent name, d.Points p parent name →
      ∀ link, d.item? (parent ++ [name]) ≠ some (.link link)) :
    ∃ parent name, d.Points p parent name ∧ p.EndsIn name 0 ∧
      d.item? (parent ++ [name]) ≠ some .directory ∧ d'.here = d.here ∧
      d'.item? = Function.update d.item? (parent ++ [name]) (some (.file content)) := by
  obtain ⟨result, hresolve, hput⟩ := exists_resolve_of_writeBytes h
  rcases resolve_eq_ok hresolve with ⟨last, es, rfl⟩ | ⟨parent, name, n, hpoints, hends, hwalk⟩
  · rcases hput with ⟨_, hmissing, _⟩ | ⟨_, _, hfound, _⟩
    · cases hmissing
    · cases hfound
  · obtain ⟨hitem, hwalk⟩ | ⟨link, _, hitem, _⟩ | ⟨_, hitem, rfl⟩ | ⟨e, _, hentry, hleaf, rfl⟩ :=
      walk_into_eq_ok hwalk
    · obtain ⟨es, hes⟩ := item?_eq_directory_iff.1 hitem
      rw [walk_nil, hes] at hwalk
      cases hwalk
      rcases hput with ⟨_, hmissing, _⟩ | ⟨_, _, hfound, _⟩
      · cases hmissing
      · cases hfound
    · exact absurd hitem (hlink parent name hpoints link)
    · have hitem' : d.item? (parent ++ [name]) ≠ some .directory := by
        rw [hitem]
        exact nofun
      rcases hput with ⟨_, hmissing, rfl⟩ | ⟨_, _, hfound, _⟩
      · cases hmissing
        exact ⟨parent, name, hpoints, hends, hitem', rfl,
          item?_put_leaf hpoints.eq_directory hitem' fun _ _ => rfl⟩
      · cases hfound
    · rcases hput with ⟨_, hmissing, _⟩ | ⟨_, old, hfound, rfl⟩
      · cases hmissing
      · cases hfound
        have hitem' : d.item? (parent ++ [name]) ≠ some .directory := by
          rw [item?_eq_file_iff.2 hentry]
          exact nofun
        exact ⟨parent, name, hpoints, hends, hitem', rfl,
          item?_put_leaf hpoints.eq_directory hitem' fun _ _ => rfl⟩

/-! ### Moving and removing -/

theorem namesAfterMove_outside {old new names : List Name} (h : ¬old <+: names) :
    namesAfterMove old new names = names :=
  if_neg fun hpre => h <| List.isPrefixOf_iff_prefix.1 hpre

theorem namesAfterMove_append (old new rest : List Name) :
    namesAfterMove old new (old ++ rest) = new ++ rest := by
  rw [namesAfterMove, if_pos <| List.isPrefixOf_iff_prefix.2 (List.prefix_append old rest),
    List.drop_left]

theorem namesAfterMove_self (place names : List Name) :
    namesAfterMove place place names = names := by
  by_cases hnames : place <+: names
  · obtain ⟨rest, rfl⟩ := hnames
    rw [namesAfterMove_append]
  · rw [namesAfterMove_outside hnames]

theorem namesAfterMove_back {old new names : List Name} (h : ¬new <+: names) :
    namesAfterMove new old (namesAfterMove old new names) = names := by
  by_cases hnames : old <+: names
  · obtain ⟨rest, rfl⟩ := hnames
    rw [namesAfterMove_append, namesAfterMove_append]
  · rw [namesAfterMove_outside hnames, namesAfterMove_outside h]

/-- What a move finds, and what it leaves: an entry that is not moved below itself stands at its new
place, with all that is below it. -/
structure Moves (d : Disk) (source target : Path) (parent : List Name) (name : Name)
    (parent' : List Name) (name' : Name) (d' : Disk) : Prop where
  points : d.Points source parent name
  points' : d.Points target parent' name'
  item : d.item? (parent ++ [name]) ≠ none
  slashes : d.item? (parent ++ [name]) = some .directory ∨
    (lastStep source).2.2 = false ∧ (lastStep target).2.2 = false
  outside : ¬parent ++ [name] <+: parent'
  kind : d.item? (parent' ++ [name']) = some .directory →
    d.item? (parent ++ [name]) = some .directory
  empty : parent ++ [name] = parent' ++ [name'] ∨
    ∀ next rest, d.item? (parent' ++ [name'] ++ next :: rest) = none
  here : d'.here = namesAfterMove (parent ++ [name]) (parent' ++ [name']) d.here
  layout : d'.item? = d.item?.move (parent ++ [name]) (parent' ++ [name'])

/-- Which entries may be moved onto which: a directory onto an empty directory, anything else onto
anything but a directory. -/
inductive Replaces : Entry → Entry → Prop where
  | directory (children : Entries) : Replaces (.directory children) (.directory [])
  | leaf {e old : Entry} (he : e.isDirectory = false) (hold : old.isDirectory = false) :
    Replaces e old

namespace Replaces

variable {e old : Entry}

theorem isDirectory_eq (h : Replaces e old) : old.isDirectory = e.isDirectory := by
  cases h with
  | directory children => rfl
  | leaf he hold => rw [he, hold]

/-- There is nothing below what is replaced. -/
theorem layout_cons (h : Replaces e old) (next : Name) (rest : List Name) :
    old.layout (next :: rest) = none := by
  cases h with
  | directory children => rfl
  | leaf he hold =>
    cases old with
    | directory es => cases hold
    | file content => rfl
    | link link => rfl

end Replaces

/-- The checks that a move passes, and the disk it leaves. Nothing is moved onto itself. -/
structure Renames (d : Disk) (source target : Path) (parent : List Name) (name : Name)
    (parent' : List Name) (name' : Name) (e : Entry) (d' : Disk) : Prop where
  points : d.Points source parent name
  points' : d.Points target parent' name'
  entry : d.entry? (parent ++ [name]) = some e
  slashes : e.isDirectory = true ∨ (lastStep source).2.2 = false ∧ (lastStep target).2.2 = false
  outside : ¬parent ++ [name] <+: parent'
  result : parent ++ [name] = parent' ++ [name'] ∧ d' = d ∨
    (∀ old, d.entry? (parent' ++ [name']) = some old → Replaces e old) ∧
      d' = { (d.remove (parent ++ [name])).put (parent' ++ [name']) e with
        here := namesAfterMove (parent ++ [name]) (parent' ++ [name']) d.here }

theorem exists_renames (h : d.rename source target = .ok d') :
    ∃ parent name parent' name' e, d.Renames source target parent name parent' name' e d' := by
  rw [rename, bind_eq_ok_iff] at h
  obtain ⟨parent, hparent, h⟩ := h
  rw [bind_eq_ok_iff] at h
  obtain ⟨parent', hparent', h⟩ := h
  split at h
  case h_2 => split at h <;> cases h
  case h_3 | h_4 | h_5 => cases h
  next name name' hlast hlast' =>
  dsimp only at h
  split at h
  · cases h
  next e hentry =>
  split at h
  · cases h
  next hslashes =>
  split at h
  · cases h
  next houtside =>
  split at h
  · cases h
  refine ⟨parent, name, parent', name', e, .of_parentDirectory hparent hlast,
    .of_parentDirectory hparent' hlast', hentry, ?_,
    fun hpre => houtside <| List.isPrefixOf_iff_prefix.2 hpre, ?_⟩
  · cases hdirectory : e.isDirectory with
    | true => exact .inl rfl
    | false => exact .inr (by simpa [hdirectory] using hslashes)
  · split at h
    · next hsame =>
      cases h
      exact .inl ⟨hsame, rfl⟩
    · refine .inr ?_
      split at h <;> cases h <;> refine ⟨fun old hnew => ?_, rfl⟩
      · next hvacant => cases hvacant.symm.trans hnew
      · next hkind hold =>
        cases hold.symm.trans hnew
        cases e with
        | directory children => exact .directory children
        | file content => cases hkind
        | link link => cases hkind
      · next other hleaf hkind hold =>
        cases hold.symm.trans hnew
        refine .leaf hkind ?_
        cases other with
        | directory es => exact (hleaf es rfl).elim
        | file content => rfl
        | link link => rfl

theorem Renames.moves {parent' : List Name} {name' : Name} {e : Entry}
    (h : d.Renames source target parent name parent' name' e d') :
    d.Moves source target parent name parent' name' d' := by
  have hitem : d.item? (parent ++ [name]) = some .directory ↔ e.isDirectory = true := by
    rw [item?_eq_directory_iff, h.entry]
    cases e <;> simp [Entry.isDirectory]
  have hfound : d.item? (parent ++ [name]) ≠ none := by
    rw [ne_eq, item?_eq_none_iff, h.entry]
    exact Option.some_ne_none e
  have hslashes := h.slashes.imp_left hitem.2
  rcases h.result with ⟨hsame, rfl⟩ | ⟨hreplaces, rfl⟩
  · refine ⟨h.points, h.points', hfound, hslashes, h.outside, hsame ▸ id, .inl hsame,
      ?_, ?_⟩
    · rw [hsame, namesAfterMove_self]
    · rw [hsame, Layout.move_self]
  · have hkind : d.item? (parent' ++ [name']) = some .directory →
        d.item? (parent ++ [name]) = some .directory := by
      intro hnew
      obtain ⟨es, hold⟩ := item?_eq_directory_iff.1 hnew
      exact hitem.2 (hreplaces _ hold).isDirectory_eq.symm
    have hempty : ∀ next rest, d.item? (parent' ++ [name'] ++ next :: rest) = none := by
      intro next rest
      cases hold : d.entry? (parent' ++ [name']) with
      | none => exact d.isTree_item?.eq_none_of_none (item?_eq_none_iff.2 hold) _
      | some old => rw [← layout_entry hold, (hreplaces old hold).layout_cons]
    have hmoved := item?_remove_put (List.append_ne_nil_of_right_ne_nil parent (by simp))
      h.entry h.points'.eq_directory h.outside name'
    exact ⟨h.points, h.points', hfound, hslashes, h.outside, hkind, .inr hempty,
      rfl, hmoved⟩

theorem rename_eq_ok (h : d.rename source target = .ok d') :
    ∃ parent name parent' name', d.Moves source target parent name parent' name' d' := by
  obtain ⟨parent, name, parent', name', e, hrenames⟩ := exists_renames h
  exact ⟨parent, name, parent', name', hrenames.moves⟩

namespace Moves

variable {parent' : List Name} {name' : Name}

/-- What is moved does not come from below the place that it is moved to. -/
theorem not_prefix (h : d.Moves source target parent name parent' name' d')
    (hne : parent ++ [name] ≠ parent' ++ [name']) : ¬parent' ++ [name'] <+: parent ++ [name] := by
  rintro ⟨rest, hrest⟩
  cases rest with
  | nil => exact hne (by rw [← hrest, List.append_nil])
  | cons next rest =>
    rcases h.empty with hsame | hempty
    · exact hne hsame
    · exact h.item (by rw [← hrest, hempty])

/-- Nothing stands any more at the place that an entry has been moved from. -/
theorem eq_none (h : d.Moves source target parent name parent' name' d')
    (hne : parent ++ [name] ≠ parent' ++ [name']) : d'.item? (parent ++ [name]) = none := by
  rw [h.layout, Layout.move_outside (h.not_prefix hne), Layout.clear_below List.prefix_rfl]

/-- A move from a place to itself changes nothing. -/
theorem eq_of_eq (h : d.Moves source target parent name parent' name' d')
    (hsame : parent ++ [name] = parent' ++ [name']) : d'.here = d.here ∧ d'.item? = d.item? := by
  rw [h.here, h.layout, hsame, namesAfterMove_self, Layout.move_self]
  exact ⟨rfl, rfl⟩

/-- So something has been moved if its paths do not point to the same places any more. -/
theorem ne_of_not_points (h : d.Moves source target parent name parent' name' d')
    (hlost : ¬(d'.Points source parent name ∧ d'.Points target parent' name')) :
    parent ++ [name] ≠ parent' ++ [name'] := by
  intro hsame
  obtain ⟨hhere, hitem⟩ := h.eq_of_eq hsame
  have hkept : ∀ names item, d.item? names = some item → d'.item? names = some item := by
    rw [hitem]
    exact fun _ _ hnames => hnames
  exact hlost ⟨h.points.mono hhere hkept, h.points'.mono hhere hkept⟩

/-- What stood anywhere else still stands there, if the entry has not taken the place of a file or
of a link. -/
theorem item_eq (h : d.Moves source target parent name parent' name' d')
    (hplain : d.item? (parent' ++ [name']) = none ∨
      d.item? (parent' ++ [name']) = some .directory) {names : List Name} {item : Item}
    (hitem : d.item? names = some item) (hoff : ¬parent ++ [name] <+: names) :
    d'.item? names = some item := by
  rw [h.layout]
  by_cases hnew : parent' ++ [name'] <+: names
  · obtain ⟨rest, rfl⟩ := hnew
    rw [Layout.move_append]
    cases rest with
    | nil =>
      rw [List.append_nil] at hitem ⊢
      rcases hplain with hnone | hdirectory
      · cases hnone.symm.trans hitem
      · rw [h.kind hdirectory, ← hdirectory, hitem]
    | cons next rest =>
      rcases h.empty with hsame | hempty
      · rw [hsame, hitem]
      · cases (hempty next rest).symm.trans hitem
  · rw [Layout.move_outside hnew, Layout.clear_outside hoff, hitem]

theorem item_eq_of_mem (h : d.Moves source target parent name parent' name' d')
    (hplain : d.item? (parent' ++ [name']) = none ∨
      d.item? (parent' ++ [name']) = some .directory) {links : Nat} {start : List Name}
    {moves : List Step} {trail : List (List Name)} {place : List Name}
    (hroute : Route d.item? links start moves trail last) (hplace : place ∈ trail)
    (hoff : ¬parent ++ [name] <+: place) : d'.item? place = d.item? place := by
  obtain ⟨item, hitem⟩ := Option.ne_none_iff_exists'.1 (hroute.ne_none_of_mem hplace)
  rw [h.item_eq hplain hitem hoff, hitem]

/-- A path that has led through the place leads nowhere, unless it starts at what has been moved. -/
theorem not_points (h : d.Moves source target parent name parent' name' d')
    (hne : parent ++ [name] ≠ parent' ++ [name'])
    (hplain : d.item? (parent' ++ [name']) = none ∨
      d.item? (parent' ++ [name']) = some .directory)
    (hstart : ¬parent ++ [name] <+: d.origin p) (horigin : d'.origin p = d.origin p) {links : Nat}
    {trail : List (List Name)} {place : List Name}
    (hroute : Route d.item? links (d.origin p) p.moves.dropLast trail last)
    (hplace : place ∈ trail) (hbelow : parent ++ [name] <+: place) {after : List Name}
    {name₁ : Name} : ¬d'.Points p after name₁ := by
  intro hpoints
  obtain ⟨links', trail', -, hroute'⟩ := hpoints.arrives
  rw [horigin] at hroute'
  have hnil : parent ++ [name] ≠ [] := List.append_ne_nil_of_right_ne_nil _ (List.cons_ne_nil _ _)
  have hmem := hroute.mem_trail_of_prefix_of_mem hnil hstart hplace hbelow
  exact hroute.not_of_clear hnil hstart hmem (fun _ => h.item_eq_of_mem hplain hroute)
    (h.eq_none hne) hroute'

/-- A path that pointed somewhere and still points somewhere points to the same place, unless it
starts at what has been moved. -/
theorem points_eq (h : d.Moves source target parent name parent' name' d')
    (hne : parent ++ [name] ≠ parent' ++ [name'])
    (hplain : d.item? (parent' ++ [name']) = none ∨
      d.item? (parent' ++ [name']) = some .directory)
    (hhere : ¬parent ++ [name] <+: d.here) {before after : List Name} {name₁ name₂ : Name}
    (hbefore : d.Points p before name₁) (hafter : d'.Points p after name₂) :
    after = before ∧ name₂ = name₁ := by
  have hnil : parent ++ [name] ≠ [] := List.append_ne_nil_of_right_ne_nil _ (List.cons_ne_nil _ _)
  have horigin := origin_eq_of_here (h.here.trans (namesAfterMove_outside hhere)) p
  have hstart := not_prefix_origin hnil hhere p
  obtain ⟨links, trail, hlinks, hroute⟩ := hbefore.arrives
  have hoff : ∀ place ∈ trail, ¬parent ++ [name] <+: place := fun place hplace hbelow =>
    h.not_points hne hplain hstart horigin hroute hplace hbelow hafter
  have hkept : d'.Arrives p p.moves.dropLast before := by
    refine ⟨links, trail, hlinks, ?_⟩
    rw [horigin]
    refine hroute.congr ?_ fun place hplace =>
      h.item_eq_of_mem hplain hroute hplace (hoff place hplace)
    exact h.item_eq hplain hroute.last_eq_directory (hroute.not_prefix_last hnil hstart hoff)
  refine ⟨hkept.unique hafter.arrives, ?_⟩
  have hname := hbefore.lastStep_eq.symm.trans hafter.lastStep_eq
  cases hname
  rfl

end Moves

/-- An entry can be moved to where nothing stands. -/
theorem exists_rename_eq_ok {parent' : List Name} {name' : Name}
    (hsource : d.Points source parent name) (htarget : d.Points target parent' name')
    (hitem : d.item? (parent ++ [name]) ≠ none)
    (hslashes : d.item? (parent ++ [name]) = some .directory ∨
      (lastStep source).2.2 = false ∧ (lastStep target).2.2 = false)
    (hvacant : d.item? (parent' ++ [name']) = none)
    (houtside : ¬parent ++ [name] <+: parent') :
    ∃ d', d.rename source target = .ok d' ∧ d.Moves source target parent name parent' name' d' := by
  obtain ⟨e, hentry⟩ := Option.ne_none_iff_exists'.1 (mt item?_eq_none_iff.2 hitem)
  have hnone := item?_eq_none_iff.1 hvacant
  have hkind : e.isDirectory = true ∨
      (lastStep source).2.2 = false ∧ (lastStep target).2.2 = false := by
    refine hslashes.imp_left fun hdirectory => ?_
    obtain ⟨es, hes⟩ := item?_eq_directory_iff.1 hdirectory
    cases hentry.symm.trans hes
    rfl
  have hdifferent : parent ++ [name] ≠ parent' ++ [name'] := by
    intro hsame
    rw [hsame] at hitem
    exact hitem hvacant
  have htarget' : ¬parent' ++ [name'] <+: parent := by
    rintro ⟨rest, rfl⟩
    rw [List.append_assoc] at hitem
    exact hitem (d.isTree_item?.eq_none_of_none hvacant _)
  have hplain : ¬((!e.isDirectory) = true ∧
      ((lastStep source).2.2 = true ∨ (lastStep target).2.2 = true)) := by
    rintro ⟨hleaf, hslash⟩
    rcases hkind with hdirectory | ⟨hbefore, hafter⟩
    · rw [hdirectory] at hleaf
      cases hleaf
    · rw [hbefore, hafter, or_self] at hslash
      cases hslash
  have hrenames : d.Renames source target parent name parent' name' e
      { (d.remove (parent ++ [name])).put (parent' ++ [name']) e with
        here := namesAfterMove (parent ++ [name]) (parent' ++ [name']) d.here } :=
    ⟨hsource, htarget, hentry, hkind, houtside,
      .inr ⟨fun old hold => (Option.some_ne_none old (hold.symm.trans hnone)).elim, rfl⟩⟩
  refine ⟨_, ?_, hrenames.moves⟩
  simp only [rename, hsource.parentDirectory_eq, htarget.parentDirectory_eq, hsource.lastStep_eq,
    htarget.lastStep_eq, bind, Except.bind, hentry, hnone, List.isPrefixOf_iff_prefix,
    if_neg houtside, if_neg htarget',
    if_neg hdifferent, if_neg hplain]
  rfl

/-- A directory does not take the place of a file or of a link. -/
theorem rename_onto {parent' : List Name} {name' : Name}
    (h : d.rename source target = .ok d') (hsource : d.Points source parent name)
    (htarget : d.Points target parent' name')
    (hitem : d.item? (parent ++ [name]) = some .directory) :
    d.item? (parent' ++ [name']) = none ∨ d.item? (parent' ++ [name']) = some .directory := by
  obtain ⟨_, _, _, _, e, hrenames⟩ := exists_renames h
  obtain ⟨rfl, rfl⟩ := hrenames.points.unique hsource
  obtain ⟨rfl, rfl⟩ := hrenames.points'.unique htarget
  obtain ⟨es, hes⟩ := item?_eq_directory_iff.1 hitem
  cases hrenames.entry.symm.trans hes
  rcases hrenames.result with ⟨hsame, -⟩ | ⟨hreplaces, -⟩
  · exact .inr (hsame ▸ hitem)
  · cases hold : d.entry? (parent' ++ [name']) with
    | none => exact .inl (item?_eq_none_iff.2 hold)
    | some old =>
      cases hreplaces old hold with
      | directory => exact .inr (item?_eq_directory_iff.2 ⟨[], hold⟩)
      | leaf he => cases he

/-- A directory is removed with all that is below it. -/
theorem removeAll_eq_ok_of_directory (h : d.Points p parent name) (hends : p.EndsIn name 0)
    (hitem : d.item? (parent ++ [name]) = some .directory) :
    ∃ d', d.removeAll p = .ok d' ∧ d'.here = d.here ∧
      d'.item? = d.item?.clear (parent ++ [name]) := by
  obtain ⟨before, hsteps, hmoves⟩ := hends.exists_steps_eq
  obtain ⟨links, trail, hlinks, hroute⟩ := h.arrives
  obtain ⟨es, hes⟩ := item?_eq_directory_iff.1 hitem
  have hresolve : d.resolve false p = .ok (.found (parent ++ [name]) (.directory es)) := by
    refine walkFrom_eq_ok_iff.2 ⟨h.starts, ?_⟩
    rw [hsteps, walk_append_of_route hroute hmoves (.inl (List.cons_ne_nil _ _)) hlinks,
      walk_into_of_directory hitem, walk_nil, hes]
  refine ⟨d.remove (parent ++ [name]), ?_, rfl, item?_remove d (by simp)⟩
  rw [removeAll, hresolve]
  rfl

/-- Whatever is removed, nothing stands where nothing stood. -/
theorem removeAll_eq_ok (h : d.removeAll p = .ok d') :
    d'.here = d.here ∧ ∀ names, d.item? names = none → d'.item? names = none := by
  obtain ⟨result, -, h⟩ := bind_eq_ok_iff.1 h
  cases result with
  | missing place => cases h
  | found place e =>
    cases h
    refine ⟨rfl, fun names hnames => ?_⟩
    by_cases hplace : place = []
    · subst hplace
      exact hnames
    · rw [item?_remove d hplace]
      by_cases hbelow : place <+: names
      · exact Layout.clear_below hbelow
      · rw [Layout.clear_outside hbelow, hnames]

theorem exists_points_of_removeAll (hends : p.EndsIn name 0) (h : d.removeAll p = .ok d') :
    ∃ parent, d.Points p parent name := by
  obtain ⟨result, hresolve, -⟩ := bind_eq_ok_iff.1 h
  obtain ⟨hstarts, hwalk⟩ := walkFrom_eq_ok_iff.1 hresolve
  obtain ⟨before, hsteps, hmoves⟩ := hends.exists_steps_eq
  rw [hsteps] at hwalk
  obtain ⟨links, trail, parent, hlinks, hroute, -⟩ :=
    exists_route_of_walk hstarts.origin hwalk (.inl (List.cons_ne_nil _ _))
  exact ⟨parent, hstarts, ⟨0, hends⟩, links, trail, hlinks, hmoves ▸ hroute⟩

end Disk

end Scaffold
