import Mathlib.Data.List.Basic
import Mathlib.Data.List.Infix
import Mathlib.Data.List.TakeWhile
import Scaffold.Disk.Walk

/-!
Paths as moves. Of the steps of a path only those up and into a directory move; slashes and dots
stay where they are. A path relative to another one moves on from there, and the parent of a path
leaves out the last move.
-/

namespace Scaffold

theorem Piece.eq_of_bytes {piece piece' : Piece} (h : piece.bytes = piece'.bytes) :
    piece = piece' := by
  cases piece
  cases h
  rfl

theorem Name.eq_of_toPiece {name name' : Name} (h : name.toPiece = name'.toPiece) :
    name = name' := by
  cases name
  cases h
  rfl

theorem Name.toPiece_injective : Function.Injective Name.toPiece :=
  fun _ _ => Name.eq_of_toPiece

def Step.isMove : Step → Bool
  | .up | .into _ | .unfit => true
  | .slash | .stay => false

/-- The steps that lead elsewhere. -/
def Step.moves (steps : List Step) : List Step :=
  steps.filter Step.isMove

namespace Step

theorem moves_append (steps steps' : List Step) :
    moves (steps ++ steps') = moves steps ++ moves steps' :=
  List.filter_append steps steps'

theorem moves_cons_of_isMove {step : Step} (h : step.isMove) (steps : List Step) :
    moves (step :: steps) = step :: moves steps :=
  List.filter_cons_of_pos h

theorem moves_replicate_slash (n : Nat) : moves (List.replicate n .slash) = [] := by
  rw [moves, List.filter_replicate]
  rfl

theorem moves_map_into (names : List Name) : moves (names.map .into) = names.map .into := by
  rw [moves, List.filter_eq_self]
  intro step hstep
  obtain ⟨name, _, rfl⟩ := List.mem_map.1 hstep
  rfl

/-- A name is a step into the entry. -/
theorem ofPiece_toPiece (name : Name) : ofPiece name.toPiece = .into name := by
  obtain ⟨hempty, hdot, hdots, -⟩ := Piece.isName_iff.1 name.isName
  rw [ofPiece, if_neg hempty, if_neg hdot, if_neg hdots, dif_pos name.isName]

theorem ofPiece_eq_into_iff {piece : Piece} {name : Name} :
    ofPiece piece = .into name ↔ piece = name.toPiece := by
  refine ⟨fun h => ?_, fun h => h ▸ ofPiece_toPiece name⟩
  unfold ofPiece at h
  split at h
  · cases h
  split at h
  · cases h
  split at h
  · cases h
  split at h
  · cases h
    rfl
  · cases h

theorem eq_dots_of_ofPiece {piece : Piece} (h : ofPiece piece = .up) : piece = .dots := by
  unfold ofPiece at h
  split at h
  · cases h
  split at h
  · cases h
  split at h
  · assumption
  split at h <;> cases h

theorem map_ofPiece_toPiece (names : List Name) :
    (names.map Name.toPiece).map ofPiece = names.map .into := by
  rw [List.map_map]
  exact List.map_congr_left fun name _ => ofPiece_toPiece name

theorem map_ofPiece_eq_iff {pieces : List Piece} {names : List Name} :
    pieces.map ofPiece = names.map .into ↔ pieces = names.map Name.toPiece := by
  refine ⟨fun h => ?_, fun h => h ▸ map_ofPiece_toPiece names⟩
  induction pieces generalizing names with
  | nil =>
    rw [List.map_nil, eq_comm, List.map_eq_nil_iff] at h
    rw [h, List.map_nil]
  | cons piece pieces ih =>
    cases names with
    | nil => cases h
    | cons name names =>
      obtain ⟨hstep, hsteps⟩ := List.cons.inj h
      rw [ofPiece_eq_into_iff.1 hstep, ih hsteps, List.map_cons]

end Step

namespace Path

open Step

/-- The moves of a path. -/
def moves (p : Path) : List Step :=
  Step.moves (p.pieces.map Step.ofPiece)

theorem exists_of_isAbsolute {p : Path} (h : p.isAbsolute = true) :
    ∃ second rest, p = ⟨.empty :: second :: rest⟩ := by
  obtain ⟨pieces⟩ := p
  rw [isAbsolute] at h
  split at h
  · next first second rest heq =>
    cases heq
    exact ⟨second, rest, by rw [of_decide_eq_true h]⟩
  · cases h

theorem moves_steps (p : Path) : Step.moves p.steps = p.moves := by
  rw [steps, moves]
  split
  · next h =>
    obtain ⟨second, rest, rfl⟩ := exists_of_isAbsolute h
    rfl
  · rfl

/-- A relative path leads on from where the path before it leads. -/
theorem moves_join {p q : Path} (hq : q.isAbsolute = false) :
    (p.join q).moves = p.moves ++ q.moves := by
  rw [join, hq]
  simp only [Bool.false_eq_true, if_false]
  split
  · next hlast =>
    have hpieces := List.dropLast_append_getLast? Piece.empty hlast
    have hslash : Step.moves ([Piece.empty].map Step.ofPiece) = [] := rfl
    rw [moves, moves, moves, ← hpieces, List.dropLast_concat, List.map_append, List.map_append,
      Step.moves_append, Step.moves_append, hslash, List.append_nil]
  · rw [moves, List.map_append, Step.moves_append]
    rfl

theorem isAbsolute_cons_cons (first second : Piece) (rest : List Piece) :
    isAbsolute ⟨first :: second :: rest⟩ = decide (first = .empty) :=
  rfl

theorem isAbsolute_singleton (piece : Piece) : isAbsolute ⟨[piece]⟩ = false :=
  rfl

theorem isAbsolute_join {p q : Path} (hq : q.isAbsolute = false)
    (h : p.moves ≠ [] ∨ q.pieces ≠ []) : (p.join q).isAbsolute = p.isAbsolute := by
  obtain ⟨pieces⟩ := p
  obtain ⟨pieces'⟩ := q
  rw [join, hq]
  simp only [Bool.false_eq_true, if_false]
  -- The slash that ends a path is left out, so the cases are those of its first two pieces.
  match pieces, pieces' with
  | [], _ => exact hq
  | [first], [] =>
    split
    · next hlast =>
      obtain rfl : first = .empty := by simpa using hlast
      rfl
    · rfl
  | [first], piece :: rest =>
    by_cases hfirst : first = .empty
    · subst hfirst
      exact hq
    · rw [if_neg (by simpa using hfirst), List.singleton_append, isAbsolute_cons_cons,
        decide_eq_false hfirst, isAbsolute_singleton]
  | [first, second], [] =>
    split
    · next hlast =>
      obtain rfl : second = .empty := by simpa using hlast
      by_cases hfirst : first = .empty
      · subst hfirst
        rcases h with hmoves | hpieces
        · exact absurd rfl hmoves
        · exact absurd rfl hpieces
      · rw [isAbsolute_cons_cons, decide_eq_false hfirst]
        exact isAbsolute_singleton first
    · rfl
  | [first, second], piece :: rest =>
    split <;> rfl
  | first :: second :: third :: more, _ =>
    split <;> rfl

theorem join_of_isAbsolute {p q : Path} (hq : q.isAbsolute = true) : p.join q = q :=
  if_pos hq

theorem bytes_singleton (piece : Piece) : bytes ⟨[piece]⟩ = piece.bytes :=
  List.intercalate_singleton

theorem bytes_cons (piece : Piece) {pieces : List Piece} (h : pieces ≠ []) :
    bytes ⟨piece :: pieces⟩ = piece.bytes ++ slash :: bytes ⟨pieces⟩ := by
  rw [bytes, List.map_cons, List.intercalate_cons_of_ne_nil (List.map_eq_nil_iff.not.2 h),
    List.append_assoc, List.singleton_append, bytes]

theorem bytes_append {pieces pieces' : List Piece} (h : pieces ≠ []) (h' : pieces' ≠ []) :
    bytes ⟨pieces ++ pieces'⟩ = bytes ⟨pieces⟩ ++ slash :: bytes ⟨pieces'⟩ := by
  induction pieces with
  | nil => exact absurd rfl h
  | cons piece pieces ih =>
    cases pieces with
    | nil => rw [List.singleton_append, bytes_cons piece h', bytes_singleton]
    | cons next rest =>
      have hne : next :: rest ≠ [] := List.cons_ne_nil _ _
      rw [List.cons_append, bytes_cons piece (List.append_ne_nil_of_left_ne_nil hne _), ih hne,
        bytes_cons piece hne, List.append_assoc, List.cons_append]

theorem bytes_ne_nil {p : Path} (h : p.isAbsolute = true) : p.bytes ≠ [] := by
  obtain ⟨second, rest, rfl⟩ := exists_of_isAbsolute h
  rw [bytes_cons _ (List.cons_ne_nil _ _)]
  exact List.append_ne_nil_of_right_ne_nil _ (List.cons_ne_nil _ _)

/-- A relative path behind another path is written with a slash between them, unless the other one
is empty or ends with a slash. -/
theorem bytes_join_of_relative {p q : Path} (hq : q.isAbsolute = false) (hpieces : q.pieces ≠ []) :
    ∃ between : List UInt8,
      (between = [slash] ∨ between = [] ∧ (p.bytes = [] ∨ p.bytes.getLast? = some slash)) ∧
      (p.join q).bytes = p.bytes ++ between ++ q.bytes := by
  obtain ⟨pieces⟩ := p
  rw [join, hq]
  simp only [Bool.false_eq_true, if_false]
  rcases List.eq_nil_or_concat pieces with rfl | ⟨first, last, rfl⟩
  · exact ⟨[], .inr ⟨rfl, .inl rfl⟩, rfl⟩
  · rw [List.concat_eq_append, List.getLast?_concat, List.dropLast_concat]
    by_cases hlast : last = .empty
    · subst hlast
      rw [if_pos rfl]
      rcases List.eq_nil_or_concat first with rfl | ⟨init, piece, rfl⟩
      · exact ⟨[], .inr ⟨rfl, .inl rfl⟩, rfl⟩
      · have hslash : bytes ⟨init.concat piece ++ [.empty]⟩ =
            bytes ⟨init.concat piece⟩ ++ [slash] := by
          rw [bytes_append (by simp) (by simp)]
          rfl
        rw [hslash, bytes_append (by simp) hpieces]
        exact ⟨[], .inr ⟨rfl, .inr (by simp)⟩, by simp⟩
    · rw [if_neg (by simpa using hlast), bytes_append (by simp) hpieces]
      exact ⟨[slash], .inl rfl, by simp⟩

end Path

namespace Piece

theorem cut_ne_nil (bs : List UInt8) : cut bs ≠ [] := by
  cases bs with
  | nil => exact List.cons_ne_nil _ _
  | cons b bs =>
    rw [cut]
    split
    · exact List.cons_ne_nil _ _
    · split <;> exact List.cons_ne_nil _ _

theorem cut_of_not_mem {bs : List UInt8} (h : slash ∉ bs) : cut bs = [⟨bs, h⟩] := by
  induction bs with
  | nil => rfl
  | cons b bs ih =>
    obtain ⟨hb, hbs⟩ := not_or.1 (List.mem_cons.not.1 h)
    rw [cut, dif_neg (Ne.symm hb), ih hbs]
    rfl

/-- Bytes with a slash in front are cut behind it. -/
theorem cut_slash (bs : List UInt8) : cut (slash :: bs) = empty :: cut bs := by
  rw [cut, dif_pos rfl]

theorem cut_cons {b : UInt8} (h : b ≠ slash) (bs : List UInt8) :
    ∃ piece pieces, cut bs = piece :: pieces ∧ cut (b :: bs) = cons b h piece :: pieces := by
  obtain ⟨piece, pieces, hcut⟩ := List.exists_cons_of_ne_nil (cut_ne_nil bs)
  refine ⟨piece, pieces, hcut, ?_⟩
  rw [cut, dif_neg h, hcut]

end Piece

namespace Path

open Step

/-- The pieces of bytes, with a slash between each two of them, are the bytes. -/
theorem bytes_ofBytes (bs : List UInt8) : (ofBytes bs).bytes = bs := by
  induction bs with
  | nil => rfl
  | cons b bs ih =>
    by_cases hb : b = slash
    · rw [hb, ofBytes, Piece.cut_slash, bytes_cons _ (Piece.cut_ne_nil bs)]
      exact congrArg (slash :: ·) ih
    · obtain ⟨piece, pieces, hcut, hcons⟩ := Piece.cut_cons hb bs
      rw [ofBytes, hcut] at ih
      rw [ofBytes, hcons]
      cases pieces with
      | nil =>
        rw [bytes_singleton] at ih
        rw [bytes_singleton]
        exact congrArg (b :: ·) ih
      | cons next rest =>
        rw [bytes_cons piece (List.cons_ne_nil _ _)] at ih
        rw [bytes_cons _ (List.cons_ne_nil _ _)]
        exact congrArg (b :: ·) ih

theorem ofBytes_of_not_mem {bs : List UInt8} (h : slash ∉ bs) : ofBytes bs = ⟨[⟨bs, h⟩]⟩ :=
  congrArg Path.mk (Piece.cut_of_not_mem h)

theorem isAbsolute_ofBytes_iff (bs : List UInt8) :
    (ofBytes bs).isAbsolute = true ↔ bs.head? = some slash := by
  cases bs with
  | nil => exact iff_of_false (by decide) nofun
  | cons b bs =>
    rw [List.head?_cons, Option.some.injEq, ofBytes]
    by_cases hb : b = slash
    · obtain ⟨piece, pieces, hcut⟩ := List.exists_cons_of_ne_nil (Piece.cut_ne_nil bs)
      rw [hb, Piece.cut_slash, hcut]
      exact iff_of_true rfl rfl
    · obtain ⟨piece, pieces, -, hcut⟩ := Piece.cut_cons hb bs
      rw [hcut]
      refine iff_of_false ?_ hb
      cases pieces with
      | nil => exact Bool.false_ne_true
      | cons next rest =>
        rw [isAbsolute_cons_cons, decide_eq_true_iff]
        intro hempty
        cases congrArg Piece.bytes hempty

/-! ### Components -/

/-- The move of a component. -/
def Component.move? : Component → Option Step
  | .up => some .up
  | .name piece => some (.ofPiece piece)
  | .root | .here => none

/-- A piece that is neither empty nor dots is a name, fit or not. -/
theorem ofPiece?_eq_name {piece : Piece} (hslash : piece ≠ .empty) (hstay : piece ≠ .dot)
    (hup : piece ≠ .dots) :
    (Step.ofPiece piece).isMove = true ∧ Component.ofPiece? piece = some (.name piece) := by
  constructor
  · rw [Step.ofPiece, if_neg hslash, if_neg hstay, if_neg hup]
    split <;> rfl
  · rw [Component.ofPiece?, if_neg (not_or.2 ⟨hslash, hstay⟩), if_neg hup]

theorem moves_pieces (pieces : List Piece) :
    Step.moves (pieces.map Step.ofPiece) =
      (pieces.filterMap Component.ofPiece?).filterMap Component.move? := by
  induction pieces with
  | nil => rfl
  | cons piece pieces ih =>
    rw [List.map_cons]
    by_cases hslash : piece = .empty
    · subst hslash
      exact ih
    by_cases hstay : piece = .dot
    · subst hstay
      exact ih
    by_cases hup : piece = .dots
    · subst hup
      exact congrArg (Step.up :: ·) ih
    · obtain ⟨hmove, hcomponent⟩ := ofPiece?_eq_name hslash hstay hup
      rw [List.filterMap_cons_some hcomponent, Step.moves_cons_of_isMove hmove]
      exact congrArg (Step.ofPiece piece :: ·) ih

/-- The components of a path are the steps of its pieces, behind the first one if it starts with a
slash or with a dot. -/
theorem components_cases (p : Path) :
    p.isAbsolute = true ∧ p.components = .root :: p.pieces.filterMap Component.ofPiece? ∨
      p.isAbsolute = false ∧ (p.components = .here :: p.pieces.filterMap Component.ofPiece? ∨
        p.components = p.pieces.filterMap Component.ofPiece?) := by
  obtain ⟨_ | ⟨first, rest⟩⟩ := p
  · exact .inr ⟨rfl, .inr rfl⟩
  cases rest with
  | nil =>
    refine .inr ⟨rfl, ?_⟩
    by_cases hhere : first = .dot
    · subst hhere
      exact .inl rfl
    · exact .inr (components_of_plain (fun h => h.2 rfl) hhere)
  | cons second rest =>
    rw [isAbsolute_cons_cons]
    by_cases hroot : first = .empty
    · subst hroot
      exact .inl ⟨rfl, components_root (List.cons_ne_nil _ _)⟩
    · refine .inr ⟨decide_eq_false hroot, ?_⟩
      by_cases hhere : first = .dot
      · subst hhere
        exact .inl (components_here _)
      · exact .inr (components_of_plain (fun h => hroot h.1) hhere)

theorem Component.of_ofPiece? {piece : Piece} {c : Component} (h : ofPiece? piece = some c) :
    c = .up ∨ c = .name piece ∧ piece ≠ .empty ∧ piece ≠ .dot ∧ piece ≠ .dots := by
  unfold ofPiece? at h
  split at h
  · cases h
  next hnone =>
    split at h
    · exact .inl (Option.some.inj h).symm
    next hup =>
      rw [not_or] at hnone
      exact .inr ⟨(Option.some.inj h).symm, hnone.1, hnone.2, hup⟩

/-- A name in a path is neither empty nor dots. -/
theorem ne_of_name_mem {p : Path} {piece : Piece} (h : .name piece ∈ p.components) :
    piece ≠ .empty ∧ piece ≠ .dot ∧ piece ≠ .dots := by
  have hpieces : .name piece ∈ p.pieces.filterMap Component.ofPiece? →
      piece ≠ .empty ∧ piece ≠ .dot ∧ piece ≠ .dots := by
    intro hmem
    obtain ⟨other, -, hother⟩ := List.mem_filterMap.1 hmem
    rcases Component.of_ofPiece? hother with hup | ⟨hname, hne⟩
    · cases hup
    · cases hname
      exact hne
  rcases p.components_cases with ⟨-, hroot⟩ | ⟨-, hhere | hplain⟩
  · rw [hroot, List.mem_cons, or_iff_right (by exact nofun)] at h
    exact hpieces h
  · rw [hhere, List.mem_cons, or_iff_right (by exact nofun)] at h
    exact hpieces h
  · exact hpieces (hplain ▸ h)

theorem moves_eq (p : Path) : p.moves = p.components.filterMap Component.move? := by
  rw [moves, moves_pieces]
  rcases p.components_cases with ⟨-, hroot⟩ | ⟨-, hhere | hplain⟩
  · rw [hroot]
    rfl
  · rw [hhere]
    rfl
  · rw [hplain]

theorem isAbsolute_iff (p : Path) : p.isAbsolute = true ↔ .root ∈ p.components := by
  have hpieces : .root ∉ p.pieces.filterMap Component.ofPiece? := by
    intro hroot
    obtain ⟨piece, -, hpiece⟩ := List.mem_filterMap.1 hroot
    rcases Component.of_ofPiece? hpiece with h | ⟨h, -⟩ <;> cases h
  rcases p.components_cases with ⟨habsolute, hroot⟩ | ⟨hrelative, hhere | hplain⟩
  · rw [hroot]
    exact iff_of_true habsolute List.mem_cons_self
  · rw [hhere, hrelative, List.mem_cons, or_iff_right (by exact nofun)]
    exact iff_of_false Bool.false_ne_true hpieces
  · rw [hplain, hrelative]
    exact iff_of_false Bool.false_ne_true hpieces

/-- Only the first component may be no move. -/
theorem move?_of_mem_tail {p : Path} {c : Component} (h : c ∈ p.components.tail) :
    c.move?.isSome := by
  have hpieces : c ∈ p.pieces.filterMap Component.ofPiece? → c.move?.isSome := by
    intro hc
    obtain ⟨piece, -, hpiece⟩ := List.mem_filterMap.1 hc
    rcases Component.of_ofPiece? hpiece with rfl | ⟨rfl, -⟩ <;> rfl
  rcases p.components_cases with ⟨-, hroot⟩ | ⟨-, hhere | hplain⟩
  · rw [hroot] at h
    exact hpieces h
  · rw [hhere] at h
    exact hpieces h
  · rw [hplain] at h
    exact hpieces (List.mem_of_mem_tail h)

/-- The parent of a path leaves out its last move. -/
theorem moves_parent? {p q : Path} (h : p.parent? = some q) : q.moves = p.moves.dropLast := by
  rw [moves_eq, moves_eq, components_parent? h]
  have hne := components_ne_nil_of_parent? h
  rcases List.eq_nil_or_concat p.components with hnil | ⟨init, last, hlast⟩
  · exact absurd hnil hne
  · rw [List.concat_eq_append] at hlast
    rw [hlast, List.dropLast_concat, List.filterMap_append]
    cases init with
    | nil => cases last <;> rfl
    | cons first init =>
      have hmem : last ∈ p.components.tail := by
        rw [hlast]
        exact List.mem_append_right init (List.mem_singleton_self last)
      obtain ⟨move, hmove⟩ := Option.isSome_iff_exists.1 (move?_of_mem_tail hmem)
      rw [List.filterMap_cons_some hmove, List.filterMap_nil, List.dropLast_concat]

theorem isAbsolute_parent? {p q : Path} (h : p.parent? = some q) :
    q.isAbsolute = p.isAbsolute := by
  rw [Bool.eq_iff_iff]
  constructor
  · intro hq
    rw [isAbsolute_iff, components_parent? h] at hq
    exact (isAbsolute_iff p).2 (List.mem_of_mem_dropLast hq)
  · intro hp
    obtain ⟨second, rest, rfl⟩ := exists_of_isAbsolute hp
    obtain ⟨kept, -, rfl⟩ := Option.map_eq_some_iff.1 h
    cases kept <;> rfl

/-- The parents of a path start as it does, and leave out some of its last moves. -/
theorem of_mem_ancestors {p q : Path} (h : q ∈ p.ancestors) :
    q.moves <+: p.moves ∧ q.isAbsolute = p.isAbsolute := by
  induction p using ancestors.induct with
  | case1 p ih =>
    rw [ancestors] at h
    rcases List.mem_cons.1 h with rfl | h
    · exact ⟨List.prefix_rfl, rfl⟩
    · split at h
      · cases h
      · next parent hparent =>
        obtain ⟨hmoves, habsolute⟩ := ih parent hparent h
        rw [moves_parent? hparent] at hmoves
        exact ⟨hmoves.trans <| List.dropLast_prefix _, habsolute.trans (isAbsolute_parent? hparent)⟩

/-- Each of the parents is followed by its own parent. -/
theorem getElem?_ancestors_succ {p q : Path} {i : Nat} (h : p.ancestors[i]? = some q) :
    p.ancestors[i + 1]? = q.parent? := by
  induction p using ancestors.induct generalizing i with
  | case1 p ih =>
    rw [ancestors, List.getElem?_cons_succ]
    rw [ancestors] at h
    cases i with
    | zero =>
      cases h
      split
      · next hparent => exact hparent.symm
      · next parent hparent => rw [hparent, ancestors, List.getElem?_cons_zero]
    | succ i =>
      rw [List.getElem?_cons_succ] at h
      split at h
      · cases h
      · next parent hparent => exact ih parent hparent h

/-- The parents of an absolute path end at the root. -/
theorem parent?_eq_none_iff {p : Path} (h : p.isAbsolute = true) :
    p.parent? = none ↔ p.components = [.root] := by
  obtain ⟨second, rest, rfl⟩ := exists_of_isAbsolute h
  have hroot : second :: rest ≠ [] := List.cons_ne_nil _ _
  have hparent : parent? ⟨.empty :: second :: rest⟩ = (beforeLastStep? (second :: rest)).map
      fun kept => ⟨.empty :: if kept = [] then [.empty] else kept⟩ :=
    rfl
  rw [hparent, components_root hroot, Option.map_eq_none_iff, beforeLastStep?_eq_none_iff,
    List.cons.injEq, and_iff_right rfl]

def Component.name? : Component → Option Piece
  | .name piece => some piece
  | .root | .here | .up => none

/-- The names in a path. -/
def names (p : Path) : List Piece :=
  p.components.filterMap Component.name?

/-- The path is relative, and its components are names, one at least. -/
def IsNormal (p : Path) : Prop :=
  p.names ≠ [] ∧ p.components = p.names.map .name

/-- The path is relative, and none of its moves but the last one goes up. -/
def Descends (p : Path) : Prop :=
  p.isAbsolute = false ∧ .up ∉ p.moves.dropLast

theorem isNormal_of_components {p : Path} {names : List Piece} (hne : names ≠ [])
    (h : p.components = names.map .name) : p.IsNormal ∧ p.names = names := by
  have hnames : p.names = names := by
    have hsome : Component.name? ∘ Component.name = some := rfl
    rw [Path.names, h, List.filterMap_map, hsome, List.filterMap_some]
  exact ⟨⟨by rwa [hnames], by rw [hnames, h]⟩, hnames⟩

namespace IsNormal

variable {p : Path}

theorem moves_eq (h : p.IsNormal) : p.moves = p.names.map Step.ofPiece := by
  have hmove : Component.move? ∘ Component.name = some ∘ Step.ofPiece := rfl
  rw [Path.moves_eq, h.2, List.filterMap_map, hmove, List.filterMap_eq_map]

theorem isAbsolute_eq (h : p.IsNormal) : p.isAbsolute = false := by
  rw [← Bool.not_eq_true, isAbsolute_iff, h.2, List.mem_map]
  rintro ⟨_, _, hroot⟩
  cases hroot

theorem up_not_mem_moves (h : p.IsNormal) : .up ∉ p.moves := by
  intro hup
  rw [Path.moves_eq, h.2, List.mem_filterMap] at hup
  obtain ⟨c, hc, hmove⟩ := hup
  obtain ⟨piece, hpiece, rfl⟩ := List.mem_map.1 hc
  rw [h.2.symm] at hc
  exact (ne_of_name_mem hc).2.2 (Step.eq_dots_of_ofPiece (Option.some.inj hmove))

theorem descends (h : p.IsNormal) : p.Descends :=
  ⟨h.isAbsolute_eq, fun hup => h.up_not_mem_moves (List.mem_of_mem_dropLast hup)⟩

end IsNormal

/-- The last step of a path goes into a directory by this name, and so many slashes follow it. -/
def EndsIn (p : Path) (name : Name) (slashes : Nat) : Prop :=
  ∃ before, p.steps = before ++ .into name :: List.replicate slashes .slash

theorem endsIn_singleton (name : Name) : EndsIn ⟨[name]⟩ name 0 :=
  ⟨[], Step.map_ofPiece_toPiece [name]⟩

theorem exists_steps_join {p q : Path} (hq : q.isAbsolute = false) :
    ∃ before, (p.join q).steps = before ++ q.steps := by
  have hsteps : q.steps = q.pieces.map Step.ofPiece := by
    rw [steps, hq]
    rfl
  obtain ⟨first, hfirst⟩ : ∃ first, (p.join q).pieces = first ++ q.pieces := by
    rw [join, hq]
    simp only [Bool.false_eq_true, if_false]
    split
    · exact ⟨_, rfl⟩
    · exact ⟨_, rfl⟩
  rw [steps, hfirst, hsteps]
  split
  · cases first with
    | nil =>
      have hsame : p.join q = q := congrArg Path.mk hfirst
      next habsolute =>
        rw [hsame, hq] at habsolute
        cases habsolute
    | cons piece first =>
      rw [List.cons_append, List.tail_cons, List.map_append]
      exact ⟨_, rfl⟩
  · rw [List.map_append]
    exact ⟨_, rfl⟩

namespace EndsIn

variable {p q : Path} {name : Name} {slashes : Nat}

theorem join (h : q.EndsIn name slashes) : (p.join q).EndsIn name slashes := by
  cases hq : q.isAbsolute with
  | true => rwa [join_of_isAbsolute hq]
  | false =>
    obtain ⟨before, hbefore⟩ := h
    obtain ⟨first, hfirst⟩ := exists_steps_join (p := p) hq
    exact ⟨first ++ before, by rw [hfirst, hbefore, List.append_assoc]⟩

theorem lastStep_eq (h : p.EndsIn name slashes) :
    ∃ before, Disk.lastStep p = (some (.into name), before, decide (slashes ≠ 0)) ∧
      p.moves = Step.moves before ++ [.into name] := by
  obtain ⟨before, hsteps⟩ := h
  have hreverse : p.steps.reverse.dropWhile (· = .slash) = .into name :: before.reverse := by
    rw [hsteps, List.reverse_append, List.reverse_cons, List.reverse_replicate, List.append_assoc,
      List.dropWhile_append, List.dropWhile_replicate]
    simp
  refine ⟨before, ?_, ?_⟩
  · rw [Disk.lastStep, hreverse]
    refine Prod.ext rfl (Prod.ext (List.reverse_reverse before) ?_)
    rw [hsteps]
    cases slashes with
    | zero => simp
    | succ n =>
      rw [List.replicate_succ', ← List.cons_append, ← List.append_assoc, List.getLast?_concat]
      rfl
  · rw [← moves_steps, hsteps, Step.moves_append, Step.moves_cons_of_isMove rfl,
      Step.moves_replicate_slash]

theorem exists_steps_eq (h : p.EndsIn name 0) :
    ∃ before, p.steps = before ++ [.into name] ∧ Step.moves before = p.moves.dropLast := by
  obtain ⟨before, hsteps⟩ := h
  refine ⟨before, hsteps, ?_⟩
  rw [← moves_steps, hsteps, Step.moves_append, Step.moves_cons_of_isMove rfl]
  exact List.dropLast_concat.symm

theorem of_lastStep (h : (Disk.lastStep p).1 = some (.into name)) :
    ∃ slashes, p.EndsIn name slashes := by
  have hsplit := List.takeWhile_append_dropWhile (p := (· = Step.slash)) (l := p.steps.reverse)
  rw [Disk.lastStep] at h
  split at h
  · cases h
  · next step steps hreverse =>
    obtain rfl : step = .into name := Option.some.inj h
    have hslashes : p.steps.reverse.takeWhile (· = .slash) =
        List.replicate (p.steps.reverse.takeWhile (· = .slash)).length .slash := by
      refine List.eq_replicate_of_mem fun step hstep => ?_
      have hslash := List.mem_takeWhile_imp hstep
      exact of_decide_eq_true hslash
    refine ⟨(p.steps.reverse.takeWhile (· = .slash)).length, steps.reverse, ?_⟩
    rw [hreverse, hslashes] at hsplit
    have hsteps := congrArg List.reverse hsplit
    rw [List.reverse_reverse, List.reverse_append, List.reverse_cons, List.reverse_replicate,
      List.append_assoc, List.singleton_append] at hsteps
    exact hsteps.symm

end EndsIn

end Path

end Scaffold
