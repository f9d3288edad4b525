import Mathlib.Data.List.Nodup
import Scaffold.Proofs.Disk.Change

/-!
Directories and what they list. A path extended by a name leads to a directory if the path does and
the name stands there for a directory, or for a link that leads to one; in a listing of the
directory only the first is seen.
-/

namespace Scaffold

mutual

/-- In every directory at or below the entry no two names are the same. -/
def Entry.isProper : Entry → Bool
  | .file _ | .link _ => true
  | .directory entries => decide (Assoc.keys entries).Nodup && areProper entries

def areProper : Entries → Bool
  | [] => true
  | (_, e) :: es => e.isProper && areProper es

end

namespace Assoc

variable {κ α : Type} [DecidableEq κ] {key : κ} {value : α} {es : List (κ × α)}

theorem find?_eq_some_iff_of_nodup (h : (keys es).Nodup) :
    find? key es = some value ↔ (key, value) ∈ es := by
  induction es with
  | nil => simp
  | cons e es ih =>
    obtain ⟨k, a⟩ := e
    rw [keys, List.map_cons, List.nodup_cons] at h
    rw [find?_cons, List.mem_cons, Prod.mk.injEq]
    by_cases hk : k = key
    · subst hk
      have hnot : (k, value) ∉ es := fun hmem => h.1 (List.mem_map.2 ⟨_, hmem, rfl⟩)
      simp [hnot, eq_comm]
    · simp [hk, Ne.symm hk, ih h.2]

end Assoc

theorem isProper_of_find? {es : Entries} {name : Name} {e : Entry} (h : areProper es = true)
    (hfind : Assoc.find? name es = some e) : e.isProper = true := by
  induction es with
  | nil => cases hfind
  | cons head es ih =>
    obtain ⟨other, child⟩ := head
    rw [areProper, Bool.and_eq_true] at h
    rw [Assoc.find?] at hfind
    split at hfind
    · cases hfind
      exact h.1
    · exact ih h.2 hfind

/-- What passes from a directory to each entry in it passes to all that is below. -/
theorem Entry.of_at? {P : Entry → Prop}
    (hstep : ∀ es name child, P (.directory es) → Assoc.find? name es = some child → P child)
    {names : List Name} {e e' : Entry} (h : P e) (hat : e.at? names = some e') : P e' := by
  induction names generalizing e with
  | nil =>
    rw [Entry.at?] at hat
    cases hat
    exact h
  | cons name names ih =>
    cases e with
    | file _ => cases hat
    | link _ => cases hat
    | directory es =>
      rw [Entry.at?] at hat
      obtain ⟨child, hchild, hat⟩ := Option.bind_eq_some_iff.1 hat
      exact ih (hstep es name child h hchild) hat

theorem Entry.isProper_of_at? {names : List Name} {e e' : Entry} (h : e.isProper = true)
    (hat : e.at? names = some e') : e'.isProper = true := by
  refine Entry.of_at? (P := fun e => e.isProper = true) (fun es name child hes hchild => ?_) h hat
  rw [isProper, Bool.and_eq_true] at hes
  exact isProper_of_find? hes.2 hchild

namespace Path

/-- A path extended by a piece is written with a slash between them at most. -/
theorem bytes_join (p : Path) (piece : Piece) :
    ∃ between : List UInt8, (between = [] ∨ between = [slash]) ∧
      (p.join ⟨[piece]⟩).bytes = p.bytes ++ between ++ piece.bytes := by
  obtain ⟨between, hbetween, hjoin⟩ :=
    bytes_join_of_relative (p := p) (isAbsolute_singleton piece) (List.cons_ne_nil _ _)
  rw [bytes_singleton] at hjoin
  exact ⟨between, hbetween.elim .inr fun h => .inl h.1, hjoin⟩

theorem length_bytes_join (p : Path) (piece : Piece) :
    p.bytes.length + piece.bytes.length ≤ (p.join ⟨[piece]⟩).bytes.length ∧
    (p.join ⟨[piece]⟩).bytes.length ≤ p.bytes.length + 1 + piece.bytes.length := by
  obtain ⟨between, hbetween, hjoin⟩ := p.bytes_join piece
  have hlength : between.length ≤ 1 := by
    rcases hbetween with rfl | rfl <;> decide
  rw [hjoin, List.length_append, List.length_append]
  omega

/-- The path of names makes one move for each of them. -/
theorem moves_ofNames (names : List Name) : (ofNames names).moves = names.map .into := by
  rw [moves, ofNames, Step.map_ofPiece_toPiece, Step.moves_map_into]

/-- A single name is one move. -/
theorem moves_singleton (name : Name) : moves ⟨[name]⟩ = [.into name] :=
  moves_ofNames [name]

end Path

namespace Disk

variable {d : Disk} {p : Path} {name : Name} {place : List Name}

/-- No two names in a directory are the same. -/
def IsProper (d : Disk) : Prop :=
  (Entry.directory d.entries).isProper = true

instance : DecidablePred IsProper :=
  fun _ => inferInstanceAs (Decidable (_ = true))

theorem item?_concat {es : Entries} (h : d.entry? place = some (.directory es)) :
    d.item? (place ++ [name]) = (Assoc.find? name es).map Entry.item := by
  rw [item?_eq, entry?_concat h]

theorem IsProper.of_entry? {es : Entries} (hd : d.IsProper)
    (h : d.entry? place = some (.directory es)) :
    (Assoc.keys es).Nodup ∧ areProper es = true := by
  have hproper : (Entry.directory es).isProper = true := Entry.isProper_of_at? hd h
  rw [Entry.isProper, Bool.and_eq_true, decide_eq_true_iff] at hproper
  exact hproper

theorem get_eq_ok_iff {e : Entry} :
    d.get p = .ok e ↔ ∃ names, d.resolve true p = .ok (.found names e) := by
  rw [get, bind_eq_ok_iff]
  constructor
  · rintro ⟨result, hresolve, h⟩
    cases result with
    | missing names => cases h
    | found names found =>
      cases h
      exact ⟨names, hresolve⟩
  · rintro ⟨names, hresolve⟩
    exact ⟨_, hresolve, rfl⟩

/-- A directory is listed where its path leads. -/
theorem list_eq_ok_iff {es : Entries} : d.list p = .ok es ↔
    d.Starts p ∧ ∃ last, d.Arrives p p.moves last ∧ d.entry? last = some (.directory es) := by
  constructor
  · intro h
    obtain ⟨e, hget, h⟩ := bind_eq_ok_iff.1 h
    obtain ⟨last, hresolve⟩ := get_eq_ok_iff.1 hget
    cases e with
    | file _ => cases h
    | link _ => cases h
    | directory entries =>
      cases h
      obtain ⟨hstarts, hlast, hes⟩ := resolve_eq_directory_iff.1 hresolve
      exact ⟨hstarts, last, hlast, hes⟩
  · rintro ⟨hstarts, last, hlast, hes⟩
    have hresolve := resolve_eq_directory_iff.2 ⟨hstarts, hlast, hes⟩
    exact bind_eq_ok_iff.2 ⟨_, get_eq_ok_iff.2 ⟨last, hresolve⟩, rfl⟩

theorem isDirectory_iff_exists_list : d.isDirectory p = true ↔ ∃ es, d.list p = .ok es := by
  simp only [isDirectory_iff, list_eq_ok_iff]
  constructor
  · rintro ⟨hstarts, last, hlast⟩
    obtain ⟨es, hes⟩ := item?_eq_directory_iff.1 hlast.eq_directory
    exact ⟨es, hstarts, last, hlast, hes⟩
  · rintro ⟨es, hstarts, last, hlast, -⟩
    exact ⟨hstarts, last, hlast⟩

theorem origin_join (d : Disk) (p : Path) (piece : Piece) :
    d.origin (p.join ⟨[piece]⟩) = d.origin p :=
  origin_congr (Path.isAbsolute_join (Path.isAbsolute_singleton piece)
    (.inr (List.cons_ne_nil _ _))) d

/-- Where a walk to a name in a directory can start, one to the directory can. -/
theorem Starts.of_join {piece : Piece} (h : d.Starts (p.join ⟨[piece]⟩)) (hp : p.bytes ≠ []) :
    d.Starts p := by
  obtain ⟨between, -, hjoin⟩ := p.bytes_join piece
  have hnul := h.nul
  rw [hjoin, List.mem_append, List.mem_append, not_or, not_or] at hnul
  have hsize := (p.length_bytes_join piece).1.trans h.size
  exact ⟨hnul.1.1, by omega, hp, origin_join d p piece ▸ h.origin⟩

theorem Starts.join (h : d.Starts p) (name : Name)
    (hsize : (p.join ⟨[name]⟩).bytes.length ≤ longestPath) : d.Starts (p.join ⟨[name]⟩) := by
  obtain ⟨between, hbetween, hjoin⟩ := p.bytes_join name
  obtain ⟨hempty, -, -, hnul, -⟩ := Piece.isName_iff.1 name.isName
  refine ⟨?_, hsize, ?_, ?_⟩
  · have hbetween : 0 ∉ between := by
      rcases hbetween with rfl | rfl <;> decide
    rw [hjoin, List.mem_append, List.mem_append, not_or, not_or]
    exact ⟨⟨h.nul, hbetween⟩, hnul⟩
  · rw [hjoin]
    refine List.append_ne_nil_of_right_ne_nil _ fun hnil => hempty ?_
    exact Piece.eq_of_bytes hnil
  · rw [origin_join]
    exact h.origin

/-- A path that leads to a directory ends in a piece that an entry can have for its name, unless the
piece is empty or starts with a dot. -/
theorem Arrives.exists_eq_toPiece {piece : Piece} {last : List Name}
    (h : d.Arrives (p.join ⟨[piece]⟩) (p.join ⟨[piece]⟩).moves last) (hempty : piece.bytes ≠ [])
    (hvisible : piece.bytes.head? ≠ some 0x2E) : ∃ name : Name, piece = name.toPiece := by
  by_cases hname : piece.isName = true
  · exact ⟨⟨piece, hname⟩, rfl⟩
  have hne {other : Piece} (hother : other.bytes.head? = some 0x2E) : piece ≠ other :=
    fun heq => hvisible (heq ▸ hother)
  have hstep : Step.ofPiece piece = .unfit := by
    rw [Step.ofPiece, if_neg fun heq => hempty (congrArg Piece.bytes heq), if_neg (hne rfl),
      if_neg (hne rfl), dif_neg hname]
  obtain ⟨links, trail, -, hroute⟩ := h
  have hmem : Step.unfit ∈ (p.join ⟨[piece]⟩).moves := by
    rw [Path.moves_join (Path.isAbsolute_singleton piece), Path.moves, Path.moves,
      List.map_singleton, hstep]
    exact List.mem_append_right _ (List.mem_singleton_self _)
  rcases hroute.eq_up_or_eq_into _ hmem with hup | ⟨name, hinto⟩
  · cases hup
  · cases hinto

/-- The last name of a path that leads to a directory stands for a directory or a link. -/
theorem exists_of_arrives_join {last : List Name} (horigin : d.item? (d.origin p) = some .directory)
    (h : d.Arrives (p.join ⟨[name]⟩) (p.join ⟨[name]⟩).moves last) :
    ∃ parent, d.Arrives p p.moves parent ∧ (d.item? (parent ++ [name]) = some .directory ∨
      ∃ target, d.item? (parent ++ [name]) = some (.link target)) := by
  obtain ⟨links, trail, hlinks, hroute⟩ := h
  rw [origin_join, Path.moves_join (Path.isAbsolute_singleton name), Path.moves_singleton] at hroute
  obtain ⟨links₁, trail₁, parent, hle, -, hparent⟩ := hroute.split d.isTree_item? horigin
  obtain ⟨links₂, trail₂, -, -, hlast⟩ := hparent.suffix hroute
  refine ⟨parent, ⟨links₁, trail₁, hle.trans hlinks, hparent⟩, ?_⟩
  cases hlast with
  | into hitem _ => exact .inl hitem
  | @link _ _ _ _ target _ _ hitem _ => exact .inr ⟨target, hitem⟩

theorem Arrives.join {parent : List Name} (h : d.Arrives p p.moves parent)
    (hitem : d.item? (parent ++ [name]) = some .directory) :
    d.Arrives (p.join ⟨[name]⟩) (p.join ⟨[name]⟩).moves (parent ++ [name]) := by
  obtain ⟨links, trail, hlinks, hroute⟩ := h
  have hlast : Route d.item? 0 parent [.into name] [parent ++ [name]] (parent ++ [name]) :=
    .into hitem (.stop hitem)
  refine ⟨links, trail ++ [parent ++ [name]], hlinks, ?_⟩
  rw [origin_join, Path.moves_join (Path.isAbsolute_singleton name), Path.moves_singleton]
  exact hroute.append hlast

theorem exists_steps_join_name (p : Path) (name : Name) : ∃ before,
    (p.join ⟨[name]⟩).steps = before ++ [.into name] ∧ Step.moves before = p.moves := by
  have hrelative := Path.isAbsolute_singleton name
  obtain ⟨before, hbefore⟩ := Path.exists_steps_join (p := p) hrelative
  refine ⟨before, hbefore.trans (congrArg _ (Step.map_ofPiece_toPiece [name])), ?_⟩
  have hjoin := Path.moves_join (p := p) hrelative
  rw [← Path.moves_steps, hbefore, Step.moves_append, Path.moves_steps] at hjoin
  exact List.append_cancel_right hjoin

/-- A walk to a name in a directory goes to the directory first. -/
theorem Arrives.exists_walk_join {parent : List Name} (h : d.Arrives p p.moves parent) :
    ∃ n, d.walk true mostLinks (d.origin (p.join ⟨[name]⟩)) (p.join ⟨[name]⟩).steps =
      d.walk true n parent [.into name] := by
  obtain ⟨links, trail, hlinks, hroute⟩ := h
  obtain ⟨before, hbefore, hmoves⟩ := exists_steps_join_name p name
  refine ⟨mostLinks - links, ?_⟩
  rw [hbefore, origin_join, walk_append_of_route hroute hmoves (.inr rfl) hlinks]

/-- Where a path arrives at a directory that lacks a name, there is no file by that name. -/
theorem Arrives.isFile_join_of_none {parent : List Name} (h : d.Arrives p p.moves parent)
    (hitem : d.item? (parent ++ [name]) = none) : d.isFile (p.join ⟨[name]⟩) = false := by
  rw [isFile, look?]
  cases hresolve : d.resolve true (p.join ⟨[name]⟩) with
  | error e => rfl
  | ok result =>
    obtain ⟨-, hwalk⟩ := walkFrom_eq_ok_iff.1 hresolve
    obtain ⟨n, hjoin⟩ := h.exists_walk_join
    rw [hjoin] at hwalk
    obtain ⟨hdirectory, -⟩ | ⟨_, _, hlink, -⟩ | ⟨-, -, rfl⟩ | ⟨e, -, hentry, -⟩ :=
      walk_into_eq_ok hwalk
    · cases hitem.symm.trans hdirectory
    · cases hitem.symm.trans hlink
    · rfl
    · cases (item?_eq_none_iff.1 hitem).symm.trans hentry

/-- In a directory the name stands for a file with this content, after so many links have been
followed. -/
inductive StandsFor (look : Layout) : Nat → List Name → Name → ByteArray → Prop where
  | file {place : List Name} {name : Name} {content : ByteArray} :
      look (place ++ [name]) = some (.file content) → StandsFor look 0 place name content
  | link {links links' : Nat} {place last : List Name} {name next : Name} {target : Path}
      {trail : List (List Name)} {content : ByteArray} :
      look (place ++ [name]) = some (.link target) → target.EndsIn next 0 →
      Route look links (if target.isAbsolute then [] else place) target.moves.dropLast trail last →
      StandsFor look links' last next content →
      StandsFor look (links + links' + 1) place name content

theorem StandsFor.exists_walk_eq {links n : Nat} {content : ByteArray}
    (h : StandsFor d.item? links place name content) (hlinks : links ≤ n) :
    ∃ last, d.walk true n place [.into name] = .ok (.found last (.file content)) := by
  induction h generalizing n with
  | file hitem => exact ⟨_, walk_into_of_file hitem⟩
  | @link links links' place last name next target _ _ hitem hends hroute _ ih =>
    obtain ⟨before, hsteps, hmoves⟩ := hends.exists_steps_eq
    obtain ⟨m, rfl⟩ : ∃ m, n = m + 1 := ⟨n - 1, by omega⟩
    obtain ⟨found, hfound⟩ := ih (n := m - links) (by omega)
    refine ⟨found, ?_⟩
    rw [walk_into_of_link hitem (by simp), List.append_nil, hsteps,
      walk_append_of_route hroute hmoves (.inr rfl) (by omega), hfound]

theorem exists_standsFor_of_walk {n : Nat} {last : List Name} {content : ByteArray}
    (hplace : d.item? place = some .directory)
    (h : d.walk true n place [.into name] = .ok (.found last (.file content))) :
    ∃ links ≤ n, StandsFor d.item? links place name content := by
  induction n using Nat.strongRecOn generalizing place name with
  | _ n ih =>
    obtain ⟨hitem, hstop⟩ | ⟨target, m, hitem, rfl, htarget⟩ | ⟨-, -, heq⟩ |
        ⟨e, -, hentry, -, heq⟩ := walk_into_eq_ok h
    · obtain ⟨es, hes⟩ := item?_eq_directory_iff.1 hitem
      rw [walk_nil, hes] at hstop
      cases hstop
    · have hstart := d.isTree_item?.ite_eq_directory hplace target.isAbsolute
      rw [List.append_nil] at htarget
      rcases walk_eq_ok hstart htarget with ⟨_, _, heq⟩ |
        ⟨before, next, links, trail, parent, hsteps, hlinks, hroute, hrest⟩
      · cases heq
      obtain ⟨links', hlinks', hnext⟩ := ih (m - links) (by omega) hroute.last_eq_directory hrest
      have hmoves : target.moves.dropLast = Step.moves before := by
        rw [← target.moves_steps, hsteps, Step.moves_append, Step.moves_cons_of_isMove rfl]
        exact List.dropLast_concat
      exact ⟨links + links' + 1, by omega, .link hitem ⟨before, hsteps⟩ (hmoves ▸ hroute) hnext⟩
    · cases heq
    · cases heq
      exact ⟨0, Nat.zero_le n, .file (item?_eq_file_iff.2 hentry)⟩

/-- In the directory that the path leads to, the name stands for a file with this content. -/
structure Holds (d : Disk) (p : Path) (name : Name) (content : ByteArray) : Prop where
  starts : d.Starts p
  stands : ∃ links links' trail parent, links + links' ≤ mostLinks ∧
    Route d.item? links (d.origin p) p.moves trail parent ∧
    StandsFor d.item? links' parent name content

/-- A file is found under a name in a directory if the name stands for it there, and the path to the
name can be followed. -/
theorem look?_join_eq_file_iff {content : ByteArray} (hp : p.bytes ≠ []) :
    d.look? (p.join ⟨[name]⟩) = some (.file content) ↔
      (p.join ⟨[name]⟩).bytes.length ≤ longestPath ∧ d.Holds p name content := by
  obtain ⟨before, hbefore, hmoves⟩ := exists_steps_join_name p name
  rw [look?_eq_some_iff]
  constructor
  · rintro ⟨place, hresolve⟩
    obtain ⟨hstarts, hwalk⟩ := walkFrom_eq_ok_iff.1 hresolve
    have hstarts' := hstarts.of_join hp
    rw [origin_join, hbefore] at hwalk
    obtain ⟨links, trail, parent, hlinks, hroute, hrest⟩ :=
      exists_route_of_walk hstarts'.origin hwalk (.inl (List.cons_ne_nil _ _))
    obtain ⟨links', hlinks', hstands⟩ := exists_standsFor_of_walk hroute.last_eq_directory hrest
    exact ⟨hstarts.size, hstarts', links, links', trail, parent, by omega, hmoves ▸ hroute, hstands⟩
  · rintro ⟨hsize, hstarts, links, links', trail, parent, hlinks, hroute, hstands⟩
    obtain ⟨place, hplace⟩ := hstands.exists_walk_eq (n := mostLinks - links) (by omega)
    refine ⟨place, walkFrom_eq_ok_iff.2 ⟨hstarts.join name hsize, ?_⟩⟩
    rw [hbefore, origin_join, walk_append_of_route hroute hmoves (.inr rfl) (by omega), hplace]

/-- The file, or a link in its place, is an entry of the directory. -/
theorem Holds.exists_list {content : ByteArray} (h : d.Holds p name content) :
    ∃ es, d.list p = .ok es ∧ (Assoc.find? name es = some (.file content) ∨
      ∃ target, Assoc.find? name es = some (.link target)) := by
  obtain ⟨hstarts, links, links', trail, parent, hlinks, hroute, hstands⟩ := h
  obtain ⟨es, hes⟩ := item?_eq_directory_iff.1 hroute.last_eq_directory
  have harrives : d.Arrives p p.moves parent := ⟨links, trail, by omega, hroute⟩
  refine ⟨es, list_eq_ok_iff.2 ⟨hstarts, parent, harrives, hes⟩, ?_⟩
  rw [← entry?_concat hes]
  cases hstands with
  | file hfile => exact .inl (item?_eq_file_iff.1 hfile)
  | link hlink _ _ _ => exact .inr ⟨_, item?_eq_link_iff.1 hlink⟩

theorem holds_of_list {content : ByteArray} {es : Entries} (hlist : d.list p = .ok es)
    (hfind : Assoc.find? name es = some (.file content)) : d.Holds p name content := by
  obtain ⟨hstarts, parent, ⟨links, trail, hlinks, hroute⟩, hes⟩ := list_eq_ok_iff.1 hlist
  refine ⟨hstarts, links, 0, trail, parent, hlinks, hroute, .file (item?_eq_file_iff.2 ?_)⟩
  rw [ entry?_concat hes, hfind]

end Disk

end Scaffold
