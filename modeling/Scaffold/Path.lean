import Scaffold.Text.Encoding

/-!
Paths as bytes: names separated by slashes, absolute if the first byte is a slash. The spelling of a
path is kept, so `a//b` and `a/b` differ as written; they are equal by components. A path need not
be text, and is read as such where it is shown.
-/

namespace Scaffold

def slash : UInt8 := 0x2F

/-- What stands between two slashes. -/
structure Piece where
  bytes : List UInt8
  slash_not_mem : slash ∉ bytes
  deriving DecidableEq, Repr

namespace Piece

/-- A text without a slash as a piece, which is found out by evaluation. -/
def of (text : String) (h : true = decide (slash ∉ Text.bytes text) := by rfl) : Piece :=
  ⟨Text.bytes text, of_decide_eq_true h.symm⟩

def empty : Piece := ⟨[], List.not_mem_nil⟩

/-- The piece `.`. -/
def dot : Piece := ⟨[0x2E], by decide⟩

/-- The piece `..`. -/
def dots : Piece := ⟨[0x2E, 0x2E], by decide⟩

instance : LT Piece := ⟨fun a b => a.bytes < b.bytes⟩

/-- The piece as it is shown. -/
def text (piece : Piece) : String :=
  Text.decode piece.bytes

/-- The piece as a text, if it is one. -/
def text? (piece : Piece) : Option String :=
  Text.decode? piece.bytes

/-- The piece with a byte in front. -/
def cons (b : UInt8) (h : b ≠ slash) (piece : Piece) : Piece :=
  ⟨b :: piece.bytes, List.not_mem_cons_of_ne_of_not_mem h.symm piece.slash_not_mem⟩

/-- Cuts bytes at every slash. There is one piece more than there are slashes. -/
def cut : List UInt8 → List Piece
  | [] => [empty]
  | b :: bs =>
    if h : b = slash then empty :: cut bs
    else
      match cut bs with
      | [] => [cons b h empty]
      | piece :: pieces => cons b h piece :: pieces

end Piece

/-- A path, as its pieces. The path `/a` has the empty piece and the piece `a`, and the empty path
has the one empty piece. -/
structure Path where
  pieces : List Piece
  deriving DecidableEq, Repr

namespace Path

def ofBytes (bs : List UInt8) : Path :=
  ⟨Piece.cut bs⟩

def ofString (text : String) : Path :=
  ofBytes (Text.bytes text)

/-- The path as it is written. -/
def bytes (p : Path) : List UInt8 :=
  [slash].intercalate (p.pieces.map Piece.bytes)

/-- The path as it is shown. -/
def text (p : Path) : String :=
  Text.decode p.bytes

def isAbsolute (p : Path) : Bool :=
  match p.pieces with
  | first :: _ :: _ => first = .empty
  | _ => false

/-- A step of a path. The step `here` counts only where a path starts with it. -/
inductive Component where
  | root
  | here
  | up
  | name (piece : Piece)
  deriving DecidableEq, Repr

/-- The step that a piece stands for after the first one. -/
def Component.ofPiece? (piece : Piece) : Option Component :=
  if piece = .empty ∨ piece = .dot then none
  else if piece = .dots then some .up
  else some (.name piece)

/-- The step that the first piece of a path stands for. -/
def Component.ofFirst? (piece : Piece) (isLast : Bool) : Option Component :=
  if piece = .empty then if isLast then none else some .root
  else if piece = .dot then some .here
  else ofPiece? piece

/-- The steps of a path. Repeated slashes, dots that are not at the start, and a slash at the end
do not count. -/
def components (p : Path) : List Component :=
  match p.pieces with
  | [] => []
  | first :: rest =>
    (Component.ofFirst? first rest.isEmpty).toList ++ rest.filterMap Component.ofPiece?

/-- The last name of a path, unless the path ends in another step. -/
def fileName? (p : Path) : Option Piece :=
  match p.components.getLast? with
  | some (.name piece) => some piece
  | _ => none

/-- The last name of a path as it is shown; empty if there is none. -/
def fileText (p : Path) : String :=
  (p.fileName?.map Piece.text).getD ""

/-- The pieces of a list up to its last step but one; none if there is no step at all. -/
def beforeLastStep? : List Piece → Option (List Piece)
  | [] => none
  | piece :: pieces =>
    match beforeLastStep? pieces with
    | some [] => some (if (Component.ofPiece? piece).isSome then [piece] else [])
    | some kept => some (piece :: kept)
    | none => if (Component.ofPiece? piece).isSome then some [] else none

/-- The path without its last step. The root and the empty path have no parent. -/
def parent? (p : Path) : Option Path :=
  match p.pieces with
  | [] => none
  | first :: rest =>
    if first = .empty ∧ rest ≠ [] then
      (beforeLastStep? rest).map fun kept => ⟨.empty :: if kept = [] then [.empty] else kept⟩
    else if first = .dot then
      match beforeLastStep? rest with
      | some kept => some ⟨.dot :: kept⟩
      | none => some ⟨[.empty]⟩
    else (beforeLastStep? (first :: rest)).map fun kept => ⟨if kept = [] then [.empty] else kept⟩

/-- A path relative to a directory. An absolute path stands for itself. -/
def join (p q : Path) : Path :=
  if q.isAbsolute then q
  else if p.pieces.getLast? = some .empty then ⟨p.pieces.dropLast ++ q.pieces⟩
  else ⟨p.pieces ++ q.pieces⟩

/-- The path with its last name replaced, or extended if it does not end in a name. -/
def withFileName (p : Path) (name : List UInt8) : Path :=
  match p.fileName?, p.parent? with
  | some _, some parent => parent.join (ofBytes name)
  | _, _ => p.join (ofBytes name)

theorem components_cons (first : Piece) (rest : List Piece) : components ⟨first :: rest⟩ =
    (Component.ofFirst? first rest.isEmpty).toList ++ rest.filterMap Component.ofPiece? :=
  rfl

theorem components_root {rest : List Piece} (h : rest ≠ []) :
    components ⟨.empty :: rest⟩ = .root :: rest.filterMap Component.ofPiece? := by
  rw [components_cons, List.isEmpty_eq_false_iff.2 h]
  rfl

theorem components_here (rest : List Piece) :
    components ⟨.dot :: rest⟩ = .here :: rest.filterMap Component.ofPiece? :=
  rfl

/-- A path that starts neither with a slash nor with a dot has the steps of its pieces. -/
theorem components_of_plain {first : Piece} {rest : List Piece}
    (hroot : ¬(first = .empty ∧ rest ≠ [])) (hhere : first ≠ .dot) :
    components ⟨first :: rest⟩ = (first :: rest).filterMap Component.ofPiece? := by
  rw [components_cons, Component.ofFirst?, if_neg hhere]
  by_cases hempty : first = .empty
  · subst hempty
    obtain rfl : rest = [] := by simpa using hroot
    rfl
  · rw [if_neg hempty]
    cases hstep : Component.ofPiece? first with
    | none => exact (List.filterMap_cons_none hstep).symm
    | some step => exact (List.filterMap_cons_some hstep).symm

theorem beforeLastStep?_eq_none_iff (pieces : List Piece) :
    beforeLastStep? pieces = none ↔ pieces.filterMap Component.ofPiece? = [] := by
  induction pieces with
  | nil => simp [beforeLastStep?]
  | cons piece pieces ih =>
    simp only [beforeLastStep?, List.filterMap_cons]
    cases hstep : Component.ofPiece? piece <;> cases hrest : beforeLastStep? pieces with
    | none => simp_all
    | some kept => cases kept <;> simp_all

theorem filterMap_ne_nil_of_beforeLastStep? {pieces kept : List Piece}
    (h : beforeLastStep? pieces = some kept) : pieces.filterMap Component.ofPiece? ≠ [] := by
  intro hnil
  rw [(beforeLastStep?_eq_none_iff pieces).2 hnil] at h
  cases h

theorem filterMap_of_beforeLastStep? {pieces kept : List Piece}
    (h : beforeLastStep? pieces = some kept) :
    kept.filterMap Component.ofPiece? = (pieces.filterMap Component.ofPiece?).dropLast := by
  induction pieces generalizing kept with
  | nil => cases h
  | cons piece pieces ih =>
    simp only [beforeLastStep?] at h
    cases hrest : beforeLastStep? pieces with
    | none =>
      have hnone := (beforeLastStep?_eq_none_iff pieces).1 hrest
      rw [hrest] at h
      cases hstep : Component.ofPiece? piece with
      | none => simp [hstep] at h
      | some step =>
        simp only [hstep, Option.isSome_some, if_true, Option.some.injEq] at h
        simp [← h, List.filterMap_cons_some hstep, hnone]
    | some kept' =>
      have hkept := ih hrest
      have hne := filterMap_ne_nil_of_beforeLastStep? hrest
      rw [hrest] at h
      have hcons : kept.filterMap Component.ofPiece? =
          ([piece] ++ kept').filterMap Component.ofPiece? := by
        cases kept' with
        | nil =>
          simp only [Option.some.injEq] at h
          rw [← h]
          cases hstep : Component.ofPiece? piece <;> simp [hstep]
        | cons k ks =>
          simp only [Option.some.injEq] at h
          rw [← h, List.singleton_append]
      rw [hcons, List.filterMap_append, hkept]
      cases hstep : Component.ofPiece? piece with
      | none => simp [List.filterMap_cons_none hstep]
      | some step => simp [List.filterMap_cons_some hstep, List.dropLast_cons_of_ne_nil hne]

theorem head_of_beforeLastStep? {piece k : Piece} {pieces ks : List Piece}
    (h : beforeLastStep? (piece :: pieces) = some (k :: ks)) : k = piece := by
  simp only [beforeLastStep?] at h
  split at h
  · simp only [Option.some.injEq] at h
    split at h
    · exact (List.cons.inj h).1.symm
    · cases h
  · exact (List.cons.inj (Option.some.inj h)).1.symm
  · split at h <;> cases h

/-- The steps of the parent are the steps of the path without the last one. -/
theorem components_parent? {p q : Path} (h : p.parent? = some q) :
    q.components = p.components.dropLast := by
  obtain ⟨_ | ⟨first, rest⟩⟩ := p
  · cases h
  simp only [parent?] at h
  split at h
  · next hroot =>
    obtain ⟨kept, hkept, rfl⟩ := Option.map_eq_some_iff.1 h
    obtain ⟨rfl, hrest⟩ := hroot
    have hne := filterMap_ne_nil_of_beforeLastStep? hkept
    rw [components_root hrest, List.dropLast_cons_of_ne_nil hne,
      ← filterMap_of_beforeLastStep? hkept]
    cases kept <;> rfl
  · split at h
    · next hhere =>
      subst hhere
      rw [components_here]
      cases hkept : beforeLastStep? rest with
      | none =>
        rw [hkept] at h
        cases h
        rw [(beforeLastStep?_eq_none_iff _).1 hkept]
        rfl
      | some kept =>
        rw [hkept] at h
        cases h
        rw [components_here, filterMap_of_beforeLastStep? hkept,
          List.dropLast_cons_of_ne_nil (filterMap_ne_nil_of_beforeLastStep? hkept)]
    · next hroot hhere =>
      obtain ⟨kept, hkept, rfl⟩ := Option.map_eq_some_iff.1 h
      rw [components_of_plain hroot hhere, ← filterMap_of_beforeLastStep? hkept]
      cases kept with
      | nil => rfl
      | cons k ks =>
        have hk := head_of_beforeLastStep? hkept
        subst hk
        rw [if_neg (List.cons_ne_nil _ _), components_of_plain ?_ hhere]
        rintro ⟨rfl, -⟩
        obtain rfl : rest = [] := by simpa using hroot
        simp [beforeLastStep?, Component.ofPiece?] at hkept

theorem components_ne_nil_of_parent? {p q : Path} (h : p.parent? = some q) :
    p.components ≠ [] := by
  obtain ⟨_ | ⟨first, rest⟩⟩ := p
  · cases h
  simp only [parent?] at h
  split at h
  · next hroot =>
    obtain ⟨kept, hkept, _⟩ := Option.map_eq_some_iff.1 h
    rw [components_cons]
    exact List.append_ne_nil_of_right_ne_nil _ (filterMap_ne_nil_of_beforeLastStep? hkept)
  · next hroot =>
    split at h
    · next hhere =>
      subst hhere
      exact List.cons_ne_nil _ _
    · next hhere =>
      obtain ⟨kept, hkept, _⟩ := Option.map_eq_some_iff.1 h
      rw [components_of_plain hroot hhere]
      exact filterMap_ne_nil_of_beforeLastStep? hkept

/-- A path and its successive parents, the path first. -/
def ancestors (p : Path) : List Path :=
  p :: match _hparent : p.parent? with
    | none => []
    | some parent => parent.ancestors
termination_by p.components.length
decreasing_by
  rw [components_parent? _hparent, List.length_dropLast]
  have := List.length_pos_iff.2 (components_ne_nil_of_parent? _hparent)
  omega

end Path

end Scaffold
