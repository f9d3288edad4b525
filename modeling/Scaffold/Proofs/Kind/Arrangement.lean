import Mathlib.Data.List.Nodup
import Scaffold.Kind.Resolution
import Scaffold.Proofs.Path
import Scaffold.Proofs.Text.ByteOrder
import Scaffold.Proofs.Text.Encoding

/-!
How the kinds are put in order. Each entry of the user's templates marks a builtin kind or adds a
name behind them, and the names that have been added are sorted at the end. What comes of it does
not depend on the order of the entries: the builtin kinds in their order, each for the user if a
directory is shown by its name, and all other names that directories are shown by, in the order of
their bytes.
-/

namespace Scaffold.Kind

open Text

variable {name : String} {n : Name} {entries : Entries} {users names : List String}
  {kept kept' : List Name} {source source' : String → Source} {others others' : List String}

/-- The names of the directories among the entries that are not hidden. -/
def visibleDirectories (entries : Entries) : List Name :=
  (entries.filter fun entry => entry.2.isDirectory && !entry.1.isHidden).map Prod.fst

/-- The names as they are shown. Two of them may be shown alike. -/
def shown (kept : List Name) : List String :=
  kept.map fun n => n.text

theorem mem_shown_iff : name ∈ shown kept ↔ ∃ n ∈ kept, n.text = name :=
  List.mem_map

/-- The kinds of these names, taken for the user's where the user has the name. -/
def marked (users names : List String) : Listed :=
  names.map fun name => (name, if name ∈ users then .user else .builtin)

/-- What is known once the user's names have been met, in this order. -/
def Listing.of (users : List String) : Listing :=
  ⟨marked users Builtin.names, users.filter (· ∉ Builtin.names)⟩

theorem marked_append_of_not_mem (users : List String) (h : name ∉ names) :
    marked (users ++ [name]) names = marked users names := by
  refine List.map_congr_left fun other hother => ?_
  have hne : other ≠ name := fun heq => h (heq ▸ hother)
  simp [hne]

theorem shadow?_marked (users : List String) (hnames : names.Nodup) :
    shadow? name (marked users names) =
      if name ∈ names then some (marked (users ++ [name]) names) else none := by
  induction names with
  | nil => rfl
  | cons other names ih =>
    obtain ⟨hother, hnames⟩ := List.nodup_cons.1 hnames
    have hcons (users : List String) : marked users (other :: names) =
        (other, if other ∈ users then .user else .builtin) :: marked users names := rfl
    rw [hcons, hcons, shadow?, ih hnames]
    by_cases heq : other = name
    · subst heq
      simp [marked_append_of_not_mem users hother]
    · by_cases hname : name ∈ names
      · simp [heq, hname]
      · simp [heq, hname, Ne.symm heq]

theorem Listing.add_of (users : List String) (n : Name) (e : Entry) :
    (Listing.of users).add (n, e) =
      .of (if e.isDirectory && !n.isHidden then users ++ [n.text] else users) := by
  rw [add]
  cases e.isDirectory with
  | false => rfl
  | true =>
    cases n.isHidden with
    | true => rfl
    | false =>
      have hnames : Builtin.names.Nodup := by decide
      have hshadow := @shadow?_marked n.text _ users hnames
      by_cases hbuiltin : n.text ∈ Builtin.names
      · simp [Listing.of, hshadow, hbuiltin]
      · simp [Listing.of, hshadow, hbuiltin, marked_append_of_not_mem users hbuiltin]

theorem Listing.foldl_add_of (users : List String) (entries : Entries) :
    entries.foldl add (.of users) = .of (users ++ shown (visibleDirectories entries)) := by
  induction entries generalizing users with
  | nil => rw [visibleDirectories, shown, List.filter_nil, List.map_nil, List.map_nil,
      List.append_nil, List.foldl_nil]
  | cons entry entries ih =>
    obtain ⟨n, e⟩ := entry
    rw [List.foldl_cons, add_of, ih, visibleDirectories, visibleDirectories, List.filter_cons]
    split
    · simp only [shown, List.map_cons, List.append_assoc, List.singleton_append]
    · rfl

/-- The builtin kinds in their order, each with its source, and other kinds of the user. -/
def arranged (source : String → Source) (others : List String) : Listed :=
  Builtin.names.map (fun name => (name, source name)) ++ others.map fun name => (name, .user)

/-- The source is the user for what the kept names are shown as, and the others are as many of these
as are no builtin names, in the order of their bytes. -/
structure IsArrangement (kept : List Name) (source : String → Source) (others : List String) :
    Prop where
  source_eq_user : ∀ name, source name = .user ↔ name ∈ shown kept
  others_perm : others.Perm ((shown kept).filter (· ∉ Builtin.names))
  sorted : others.Pairwise fun name name' => bytes name ≤ bytes name'

theorem keys_arranged : Assoc.keys (arranged source others) = Builtin.names ++ others := by
  simp only [Assoc.keys, arranged, List.map_append, List.map_map, Function.comp_def, List.map_id']

/-- Names that are shown alike without a replacement character are the same. -/
theorem eq_of_text_eq {n n' : Name} (h : n.text = n'.text) (hread : '\uFFFD' ∉ n.text.toList) :
    n = n' := by
  have hread' : '\uFFFD' ∉ n'.text.toList := h ▸ hread
  refine Name.eq_of_toPiece (Piece.eq_of_bytes ?_)
  calc n.bytes
      = bytes n.text := (bytes_decode hread).symm
    _ = bytes n'.text := congrArg bytes h
    _ = n'.bytes := bytes_decode hread'

namespace IsArrangement

theorem mem_others_iff (h : IsArrangement kept source others) :
    name ∈ others ↔ name ∈ shown kept ∧ name ∉ Builtin.names := by
  rw [h.others_perm.mem_iff, List.mem_filter, decide_eq_true_iff]

theorem mem_user_iff (h : IsArrangement kept source others) :
    (name, .user) ∈ arranged source others ↔ name ∈ shown kept := by
  simp only [arranged, List.mem_append, List.mem_map, Prod.mk.injEq, and_true]
  constructor
  · rintro (⟨other, -, rfl, hsource⟩ | ⟨other, hother, rfl⟩)
    · exact (h.source_eq_user other).1 hsource
    · exact (h.mem_others_iff.1 hother).1
  · intro hkept
    by_cases hbuiltin : name ∈ Builtin.names
    · exact .inl ⟨name, hbuiltin, rfl, (h.source_eq_user name).2 hkept⟩
    · exact .inr ⟨name, h.mem_others_iff.2 ⟨hkept, hbuiltin⟩, rfl⟩

theorem mem_builtin_iff (h : IsArrangement kept source others) :
    (name, .builtin) ∈ arranged source others ↔ name ∈ Builtin.names ∧ name ∉ shown kept := by
  rw [← h.source_eq_user]
  simp only [arranged, List.mem_append, List.mem_map, Prod.mk.injEq, reduceCtorEq, and_false,
    exists_false, or_false]
  constructor
  · rintro ⟨other, hother, rfl, hsource⟩
    exact ⟨hother, by simp [hsource]⟩
  · rintro ⟨hbuiltin, hsource⟩
    refine ⟨name, hbuiltin, rfl, ?_⟩
    cases hcase : source name with
    | builtin => rfl
    | user => exact absurd hcase hsource

/-- There is one arrangement only. -/
theorem unique (h : IsArrangement kept source others) (h' : IsArrangement kept source' others') :
    source = source' ∧ others = others' := by
  constructor
  · funext name
    have hiff := (h.source_eq_user name).trans (h'.source_eq_user name).symm
    cases hsource : source name with
    | user => exact (hiff.1 hsource).symm
    | builtin =>
      cases hsource' : source' name with
      | user => rw [hiff.2 hsource'] at hsource; cases hsource
      | builtin => rfl
  · refine List.Perm.eq_of_pairwise (fun name name' _ _ hle hge => ?_) h.sorted h'.sorted
      (h.others_perm.trans h'.others_perm.symm)
    exact bytes_injective (List.le_antisymm hle hge)

theorem of_perm (h : IsArrangement kept source others) (hperm : kept.Perm kept') :
    IsArrangement kept' source others := by
  have hshown : (shown kept).Perm (shown kept') := hperm.map _
  exact ⟨fun name => (h.source_eq_user name).trans hshown.mem_iff,
    h.others_perm.trans (hshown.filter _), h.sorted⟩

/-- A name in which nothing has been replaced is listed once. -/
theorem nodup_read (h : IsArrangement kept source others) (hkept : kept.Nodup) :
    ((Assoc.keys (arranged source others)).filter fun name => '\uFFFD' ∉ name.toList).Nodup := by
  have hothers : (others.filter fun name => '\uFFFD' ∉ name.toList).Nodup := by
    rw [(h.others_perm.filter _).nodup_iff, List.filter_filter, shown, List.filter_map]
    refine List.Nodup.map_on (fun n hn n' _ heq => ?_) (hkept.filter _)
    simp only [Function.comp_apply, List.mem_filter, Bool.and_eq_true, decide_eq_true_iff] at hn
    exact eq_of_text_eq heq hn.2.1
  rw [keys_arranged, List.filter_append]
  refine List.nodup_append'.2 ⟨by decide, hothers, fun name hbuiltin hother => ?_⟩
  exact (h.mem_others_iff.1 (List.mem_of_mem_filter hother)).2 (List.mem_of_mem_filter hbuiltin)

/-- The names are listed once each if and only if no two directories are shown alike. -/
theorem nodup_keys_iff (h : IsArrangement kept source others) (hkept : kept.Nodup) :
    (Assoc.keys (arranged source others)).Nodup ↔ (shown kept).Nodup := by
  rw [keys_arranged, List.nodup_append', h.others_perm.nodup_iff]
  constructor
  · rintro ⟨-, hothers, -⟩
    refine List.Nodup.map_on (fun n hn n' hn' heq => ?_) hkept
    by_cases hbuiltin : n.text ∈ Builtin.names
    · have hread : ∀ name ∈ Builtin.names, '\uFFFD' ∉ name.toList := by decide
      exact eq_of_text_eq heq (hread _ hbuiltin)
    · rw [shown, List.filter_map] at hothers
      refine List.inj_on_of_nodup_map hothers (List.mem_filter.2 ⟨hn, ?_⟩)
        (List.mem_filter.2 ⟨hn', ?_⟩) heq
      · simpa using hbuiltin
      · simpa [← heq] using hbuiltin
  · intro hshown
    refine ⟨by decide, hshown.filter _, fun name hbuiltin hother => ?_⟩
    exact (h.mem_others_iff.1 hother).2 hbuiltin

/-- Names that are not repeated are listed in strict order. -/
theorem pairwise_lt (h : IsArrangement kept source others) (hshown : (shown kept).Nodup) :
    others.Pairwise fun name name' => bytes name < bytes name' := by
  have hnodup : others.Nodup := h.others_perm.nodup_iff.2 (hshown.filter _)
  refine (h.sorted.and hnodup).imp fun ⟨hle, hne⟩ => ?_
  exact Std.lt_of_le_of_ne hle (bytes_injective.ne hne)

end IsArrangement

theorem pairwise_bytes_mergeSort (names : List String) :
    (names.mergeSort (· ≤ ·)).Pairwise fun name name' => bytes name ≤ bytes name' := by
  have hsorted : (names.mergeSort (· ≤ ·)).Pairwise fun name name' => decide (name ≤ name') := by
    refine List.pairwise_mergeSort (fun a b c hab hbc => ?_) (fun a b => ?_) names
    · rw [decide_eq_true_iff] at hab hbc ⊢
      exact hab.trans hbc
    · rw [Bool.or_eq_true, decide_eq_true_iff, decide_eq_true_iff]
      exact le_total a b
  refine hsorted.imp fun hle => ?_
  rcases (of_decide_eq_true hle).lt_or_eq with hlt | rfl
  · exact List.le_of_lt (bytes_lt_bytes hlt)
  · exact List.le_refl _

/-- Going through the entries arranges the names of the directories among them. -/
theorem exists_listing_eq_arranged (entries : Entries) :
    ∃ source others, listing entries = arranged source others ∧
      IsArrangement (visibleDirectories entries) source others := by
  have hrun := Listing.foldl_add_of [] entries
  have hstart : Listing.of [] = ⟨Builtin.listed, []⟩ := rfl
  rw [hstart, List.nil_append] at hrun
  refine ⟨fun name => if name ∈ shown (visibleDirectories entries) then .user else .builtin,
    ((shown (visibleDirectories entries)).filter (· ∉ Builtin.names)).mergeSort (· ≤ ·), ?_, ?_,
    List.mergeSort_perm _ _, pairwise_bytes_mergeSort _⟩
  · rw [listing, hrun]
    rfl
  · intro name
    split
    · next h => simp [h]
    · next h => simp [h]

theorem mem_listing_user_iff :
    (name, .user) ∈ listing entries ↔ name ∈ shown (visibleDirectories entries) := by
  obtain ⟨source, others, hlisting, harranged⟩ := exists_listing_eq_arranged entries
  rw [hlisting, harranged.mem_user_iff]

theorem mem_listing_builtin_iff : (name, .builtin) ∈ listing entries ↔
    name ∈ Builtin.names ∧ name ∉ shown (visibleDirectories entries) := by
  obtain ⟨source, others, hlisting, harranged⟩ := exists_listing_eq_arranged entries
  rw [hlisting, harranged.mem_builtin_iff]

/-- The order of the entries does not matter. -/
theorem listing_perm {entries' : Entries} (h : entries.Perm entries') :
    listing entries' = listing entries := by
  obtain ⟨source, others, hlisting, harranged⟩ := exists_listing_eq_arranged entries
  obtain ⟨source', others', hlisting', harranged'⟩ := exists_listing_eq_arranged entries'
  have hkept : (visibleDirectories entries).Perm (visibleDirectories entries') :=
    (h.filter _).map _
  obtain ⟨rfl, rfl⟩ := (harranged.of_perm hkept).unique harranged'
  rw [hlisting, hlisting']

end Scaffold.Kind
