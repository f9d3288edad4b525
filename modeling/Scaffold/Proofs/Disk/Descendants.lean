import Mathlib.Data.List.Perm.Basic
import Scaffold.Proofs.Disk.Directory
import Scaffold.Proofs.Text.Encoding

/-!
What a walk meets. A walk through a directory goes into its entries by name, and so into theirs. It
meets all that names lead to which are not hidden, each once, and in the order of these names, in
whatever order the directories hold their entries.
-/

namespace Scaffold

variable {entries : Entries} {name : Name} {names : List Name} {e e' : Entry}

theorem Name.isHidden_eq_false_iff : name.isHidden = false ↔ name.bytes.head? ≠ some 0x2E := by
  have hdot : name.isHidden = true ↔ name.text.toList.head? = some '.' := by
    rw [isHidden]
    cases name.text.toList with
    | nil => simp [List.isPrefixOf]
    | cons c cs => simp [List.isPrefixOf, eq_comm (a := '.')]
  rw [← Bool.not_eq_true, hdot, Piece.text, Text.head?_decode_eq_iff (by decide)]
  rfl

theorem walksInto_eq (entries : Entries) : walksInto entries =
    (entries.filter fun child => !child.1.isHidden).map fun child =>
      (child.1, ([child.1], child.2) ::
        child.2.descendants.map fun below => (child.1 :: below.1, below.2)) := by
  induction entries with
  | nil => rfl
  | cons child entries ih =>
    obtain ⟨name, e⟩ := child
    rw [walksInto, List.filter_cons, ih]
    cases name.isHidden <;> rfl

theorem nil_not_mem_descendants : ([], e') ∉ e.descendants := by
  cases e with
  | file content => exact List.not_mem_nil
  | link target => exact List.not_mem_nil
  | directory entries =>
    simp [Entry.descendants, walksInto_eq]

/-- A walk meets the entries of a directory that are not hidden, and what is below these. -/
theorem mem_descendants_directory_iff :
    (name :: names, e') ∈ (Entry.directory entries).descendants ↔
      name.bytes.head? ≠ some 0x2E ∧ ∃ e, (name, e) ∈ entries ∧
        (names = [] ∧ e = e' ∨ (names, e') ∈ e.descendants) := by
  rw [← Name.isHidden_eq_false_iff]
  simp only [Entry.descendants, walksInto_eq, List.mem_flatMap, List.mem_mergeSort, List.mem_map,
    List.mem_filter, Bool.not_eq_true']
  constructor
  · rintro ⟨-, ⟨⟨other, e⟩, ⟨hmem, hvisible⟩, rfl⟩, hbelow⟩
    rcases List.mem_cons.1 hbelow with heq | hbelow
    · cases heq
      exact ⟨hvisible, e, hmem, .inl ⟨rfl, rfl⟩⟩
    · obtain ⟨⟨rest, _⟩, hrest, heq⟩ := List.mem_map.1 hbelow
      cases heq
      exact ⟨hvisible, e, hmem, .inr hrest⟩
  · rintro ⟨hvisible, e, hmem, hbelow⟩
    refine ⟨_, ⟨(name, e), ⟨hmem, hvisible⟩, rfl⟩, ?_⟩
    rcases hbelow with ⟨rfl, rfl⟩ | hbelow
    · exact List.mem_cons_self
    · exact List.mem_cons_of_mem _ (List.mem_map.2 ⟨_, hbelow, rfl⟩)

/-- Names that are not hidden, one at least, lead from the directory with these entries to an
entry. They lead through directories only, as a link has nothing below it. -/
structure IsVisible (entries : Entries) (names : List Name) (e : Entry) : Prop where
  ne_nil : names ≠ []
  visible : ∀ name ∈ names, name.bytes.head? ≠ some 0x2E
  leads : Entry.at? names (.directory entries) = some e

theorem mem_descendants_iff (h : (Entry.directory entries).isProper = true) :
    (names, e') ∈ (Entry.directory entries).descendants ↔ IsVisible entries names e' := by
  induction names generalizing entries with
  | nil => exact iff_of_false nil_not_mem_descendants fun h => h.ne_nil rfl
  | cons name names ih =>
    rw [Entry.isProper, Bool.and_eq_true, decide_eq_true_iff] at h
    have hstep {e : Entry} (he : (name, e) ∈ entries) :
        names = [] ∧ e = e' ∨ (names, e') ∈ e.descendants ↔
          (∀ name ∈ names, name.bytes.head? ≠ some 0x2E) ∧ e.at? names = some e' := by
      have hproper := isProper_of_find? h.2 ((Assoc.find?_eq_some_iff_of_nodup h.1).2 he)
      cases names with
      | nil => simp [nil_not_mem_descendants, Entry.at?]
      | cons next names =>
        cases e with
        | file content => simp [Entry.descendants, Entry.at?]
        | link target => simp [Entry.descendants, Entry.at?]
        | directory children =>
          rw [ih hproper]
          constructor
          · rintro (⟨hnil, -⟩ | hvisible)
            · cases hnil
            · exact ⟨hvisible.visible, hvisible.leads⟩
          · rintro ⟨hvisible, hleads⟩
            exact .inr ⟨List.cons_ne_nil _ _, hvisible, hleads⟩
    rw [mem_descendants_directory_iff]
    constructor
    · rintro ⟨hname, e, he, hbelow⟩
      obtain ⟨hvisible, hleads⟩ := (hstep he).1 hbelow
      refine ⟨List.cons_ne_nil _ _, List.forall_mem_cons.2 ⟨hname, hvisible⟩, ?_⟩
      rw [Entry.at?, (Assoc.find?_eq_some_iff_of_nodup h.1).2 he]
      exact hleads
    · rintro ⟨-, hvisible, hleads⟩
      obtain ⟨hname, hvisible⟩ := List.forall_mem_cons.1 hvisible
      rw [Entry.at?] at hleads
      obtain ⟨e, he, hleads⟩ := Option.bind_eq_some_iff.1 hleads
      rw [Assoc.find?_eq_some_iff_of_nodup h.1] at he
      exact ⟨hname, e, he, (hstep he).2 ⟨hvisible, hleads⟩⟩

/-- The walks into a directory are taken in the order of its names, no two by the same. -/
theorem pairwise_mergeSort_walksInto (h : (Assoc.keys entries).Nodup) :
    ((walksInto entries).mergeSort fun a b => a.1 ≤ b.1).Pairwise
      fun a b => a.1.toPiece < b.1.toPiece := by
  have hsorted : ((walksInto entries).mergeSort fun a b => a.1 ≤ b.1).Pairwise
      fun a b => a.1 ≤ b.1 := by
    refine List.Pairwise.imp of_decide_eq_true
      (List.pairwise_mergeSort (fun _ _ _ hab hbc => ?_) (fun _ _ => ?_) _)
    · exact decide_eq_true (List.le_trans (of_decide_eq_true hab) (of_decide_eq_true hbc))
    · rw [Bool.or_eq_true, decide_eq_true_iff, decide_eq_true_iff]
      exact List.le_total _ _
  have hapart : ((walksInto entries).mergeSort fun a b => a.1 ≤ b.1).Pairwise
      fun a b => a.1 ≠ b.1 := by
    refine ((List.mergeSort_perm _ _).pairwise_iff fun h => Ne.symm h).2 ?_
    rw [walksInto_eq, List.pairwise_map]
    exact (List.pairwise_map.1 h).filter _
  refine (hsorted.and hapart).imp fun {a b} ⟨hle, hne⟩ => ?_
  have hbytes : a.1.bytes ≠ b.1.bytes := fun h => hne (Name.eq_of_toPiece (Piece.eq_of_bytes h))
  have hlt : a.1.bytes < b.1.bytes := Std.lt_of_le_of_ne hle hbytes
  exact hlt

theorem head?_of_mem_walksInto {walk : Name × List (List Name × Entry)}
    (h : walk ∈ walksInto entries) : ∀ met ∈ walk.2, met.1.head? = some walk.1 := by
  rw [walksInto_eq] at h
  obtain ⟨child, -, rfl⟩ := List.mem_map.1 h
  intro met hmet
  rcases List.mem_cons.1 hmet with rfl | hmet
  · rfl
  · obtain ⟨below, -, rfl⟩ := List.mem_map.1 hmet
    rfl

mutual

/-- A walk goes on in the order of the names that lead to what it meets. -/
theorem Entry.pairwise_descendants (e : Entry) (h : e.isProper = true) :
    e.descendants.Pairwise fun a b => a.1.map Name.toPiece < b.1.map Name.toPiece := by
  cases e with
  | file content => exact .nil
  | link target => exact .nil
  | directory entries =>
    rw [Entry.isProper, Bool.and_eq_true, decide_eq_true_iff] at h
    rw [Entry.descendants, List.pairwise_flatMap]
    have hwalks := pairwise_of_mem_walksInto entries h.2
    refine ⟨fun walk hwalk => hwalks walk (List.mem_mergeSort.1 hwalk),
      List.Pairwise.imp_of_mem ?_ (pairwise_mergeSort_walksInto h.1)⟩
    intro first second hfirst hsecond hlt a ha b hb
    have hhead := head?_of_mem_walksInto (List.mem_mergeSort.1 hfirst) a ha
    have hhead' := head?_of_mem_walksInto (List.mem_mergeSort.1 hsecond) b hb
    obtain ⟨rest, hrest⟩ := List.head?_eq_some_iff.1 hhead
    obtain ⟨rest', hrest'⟩ := List.head?_eq_some_iff.1 hhead'
    rw [hrest, hrest', List.map_cons, List.map_cons, List.cons_lt_cons_iff]
    exact .inl hlt

theorem pairwise_of_mem_walksInto (entries : Entries) (h : areProper entries = true) :
    ∀ walk ∈ walksInto entries,
      walk.2.Pairwise fun a b => a.1.map Name.toPiece < b.1.map Name.toPiece := by
  cases entries with
  | nil => exact nofun
  | cons child entries =>
    obtain ⟨name, e⟩ := child
    rw [areProper, Bool.and_eq_true] at h
    have htail := pairwise_of_mem_walksInto entries h.2
    rw [walksInto]
    split
    · exact htail
    · refine List.forall_mem_cons.2 ⟨List.pairwise_cons.2 ⟨?_, ?_⟩, htail⟩
      · intro met hmet
        obtain ⟨⟨names, e'⟩, hbelow, rfl⟩ := List.mem_map.1 hmet
        cases names with
        | nil => exact absurd hbelow nil_not_mem_descendants
        | cons next names => exact List.cons_lt_cons_iff.2 (.inr ⟨rfl, List.nil_lt_cons _ _⟩)
      · rw [List.pairwise_map]
        exact (Entry.pairwise_descendants e h.1).imp fun hlt =>
          List.cons_lt_cons_iff.2 (.inr ⟨rfl, hlt⟩)

end

end Scaffold
