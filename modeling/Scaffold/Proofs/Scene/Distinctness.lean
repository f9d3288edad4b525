import Mathlib.Data.List.Pairwise
import Scaffold.Proofs.Scene.Output
import Scaffold.Proofs.Scene.Writing

/-!
Whether the files of a scene get in each other's way. The name of the scene in front of different
names keeps them different, but a templated name can expand to a name that another template gives.
Without such a clash every template has a file of its own, and they all stand once the scene is
written.
-/

namespace Scaffold.Scene

open Disk DiskAction Text

variable {kind : KindTemplates} {c : Template.Context} {files : List RenderedFile}

def IsTemplated (path : Path) : Prop :=
  ∃ fileName text, path.fileName? = some fileName ∧ templatedName? fileName = some text

/-- Two templates of one directory, not both with a plain name, give files by the same name. -/
structure Clash (c : Template.Context) (path path' : Path) : Prop where
  directory : path.components.dropLast = path'.components.dropLast
  templated : IsTemplated path ∨ IsTemplated path'
  name : ∃ name, GivesName c path name ∧ GivesName c path' name

/-- No two of the files have the same path, compared by components. -/
def AreApart (files : List RenderedFile) : Prop :=
  files.Pairwise fun file file' => file.path.components ≠ file'.path.components

section

variable {template template' : TemplateFile} {file file' : RenderedFile}

theorem IsRendering.exists_components (h : IsRendering kind c template file)
    (hname : checkName c.name = .ok ()) (hdots : ¬ExpandsToDots c template.path) :
    ∃ piece : Piece, GivesName c template.path piece.bytes ∧
      file.path.components = template.path.components.dropLast ++ [.name piece] := by
  obtain ⟨_, hgives, hout⟩ := outputPath_eq_ok_iff.1 h.path
  obtain ⟨piece, rfl, hempty⟩ := hgives.exists_piece hname
  rw [hgives.expandsToDots_iff hname, not_or] at hdots
  obtain ⟨fileName, hfile, -⟩ := id hgives
  refine ⟨piece, hgives, ?_⟩
  rw [← hout, Path.components_withFileName hfile
    (Path.ofPiece?_eq_name hempty hdots.1 hdots.2).2]

/-- The name of the scene in front of two names does not make them equal. -/
theorem components_eq_of_plain {path path' : Path} {name : List UInt8}
    (hdirectory : path.components.dropLast = path'.components.dropLast)
    (h : GivesName c path name) (h' : GivesName c path' name) (hplain : ¬IsTemplated path)
    (hplain' : ¬IsTemplated path') : path.components = path'.components := by
  obtain ⟨fileName, hfile, hout⟩ := h
  obtain ⟨fileName', hfile', hout'⟩ := h'
  have hsame : fileName = fileName' := by
    rcases outputName_eq_ok_iff.1 hout with ⟨text, -, htext, -⟩ | ⟨-, rfl⟩
    · exact absurd ⟨fileName, text, hfile, htext⟩ hplain
    rcases outputName_eq_ok_iff.1 hout' with ⟨text, -, htext, -⟩ | ⟨-, heq⟩
    · exact absurd ⟨fileName', text, hfile', htext⟩ hplain'
    exact Piece.eq_of_bytes (List.append_cancel_left heq).symm
  subst hsame
  rw [Path.fileName?_eq_some_iff] at hfile hfile'
  rw [← List.dropLast_append_getLast? _ hfile, ← List.dropLast_append_getLast? _ hfile',
    hdirectory]

/-- Files with one path come from templates that clash, if these have different paths. -/
theorem IsRendering.clash (h : IsRendering kind c template file)
    (h' : IsRendering kind c template' file') (hname : checkName c.name = .ok ())
    (hdots : ¬ExpandsToDots c template.path) (hdots' : ¬ExpandsToDots c template'.path)
    (hne : template.path.components ≠ template'.path.components)
    (hsame : file.path.components = file'.path.components) :
    Clash c template.path template'.path := by
  obtain ⟨piece, hgives, hfile⟩ := h.exists_components hname hdots
  obtain ⟨piece', hgives', hfile'⟩ := h'.exists_components hname hdots'
  rw [hfile, hfile'] at hsame
  obtain ⟨hdirectory, hlast⟩ := List.append_inj' hsame rfl
  cases hlast
  refine ⟨hdirectory, ?_, piece.bytes, hgives, hgives'⟩
  by_contra hplain
  rw [not_or] at hplain
  exact hne (components_eq_of_plain hdirectory hgives hgives' hplain.1 hplain.2)

theorem IsRendering.components_eq (h : IsRendering kind c template file)
    (h' : IsRendering kind c template' file') (hname : checkName c.name = .ok ())
    (hdots : ¬ExpandsToDots c template.path) (hdots' : ¬ExpandsToDots c template'.path)
    (hclash : Clash c template.path template'.path) :
    file.path.components = file'.path.components := by
  obtain ⟨piece, hgives, hfile⟩ := h.exists_components hname hdots
  obtain ⟨piece', hgives', hfile'⟩ := h'.exists_components hname hdots'
  obtain ⟨hdirectory, -, shared, hshared, hshared'⟩ := hclash
  have hpiece : piece = piece' :=
    Piece.eq_of_bytes ((hgives.unique hshared).trans (hgives'.unique hshared').symm)
  rw [hfile, hfile', hpiece, hdirectory]

end

/-- What holds between the elements of a list holds in this way between those of another list that
belong to them one by one. -/
theorem pairwise_of_forall₂ {α β : Type} {R : α → β → Prop} {S : α → α → Prop} {Q : β → β → Prop}
    (hpair : ∀ a b a' b', R a b → R a' b' → S a a' → Q b b') {as : List α} {bs : List β}
    (h : List.Forall₂ R as bs) (hpairs : as.Pairwise S) : bs.Pairwise Q := by
  induction h with
  | nil => exact .nil
  | @cons a b as bs hab hrest ih =>
    obtain ⟨hfirst, hlater⟩ := List.pairwise_cons.1 hpairs
    refine List.pairwise_cons.2 ⟨fun b' hb' => ?_, ih hlater⟩
    obtain ⟨a', ha', hab'⟩ := exists_of_mem_right hrest hb'
    exact hpair a b a' b' hab hab' (hfirst a' ha')

/-- If no two templates have the same path, their files are apart unless two templates clash. -/
theorem areApart_iff (hname : checkName c.name = .ok ())
    (hdots : ∀ template ∈ kind.files, ¬ExpandsToDots c template.path)
    (hapart : kind.files.Pairwise fun t t' => t.path.components ≠ t'.path.components)
    (h : List.Forall₂ (IsRendering kind c) kind.files files) :
    AreApart files ↔ kind.files.Pairwise fun t t' => ¬Clash c t.path t'.path := by
  have hboth := (List.forall₂_and_left _ _).2 ⟨hdots, h⟩
  constructor
  · refine pairwise_of_forall₂ (fun f t f' t' hfirst hsecond hne hclash => hne ?_) hboth.flip
    exact hfirst.2.components_eq hsecond.2 hname hfirst.1 hsecond.1 hclash
  · intro hclash
    refine pairwise_of_forall₂ (fun t f t' f' hfirst hsecond hnot hsame => hnot.2 ?_) hboth
      (hapart.and hclash)
    exact hfirst.2.clash hsecond.2 hname hfirst.1 hsecond.1 hnot.1 hsame

theorem contentAt_of_mem {file : RenderedFile} (hnormal : ∀ file ∈ files, file.path.IsNormal)
    (hapart : AreApart files) (hfile : file ∈ files) :
    contentAt files file.path.names = some (.file file.content.toUTF8) := by
  have hsymm : Std.Symm fun file file' : RenderedFile =>
      file.path.components ≠ file'.path.components := ⟨fun _ _ h => h.symm⟩
  have hfound : files.reverse.find? (·.path.names = file.path.names) = some file := by
    cases hfind : files.reverse.find? (·.path.names = file.path.names) with
    | none =>
      rw [List.find?_eq_none] at hfind
      exact absurd (decide_eq_true rfl) (hfind file (List.mem_reverse.2 hfile))
    | some found =>
      have hsame := List.find?_some hfind
      have hnames : found.path.names = file.path.names := of_decide_eq_true hsame
      have hmem := List.mem_reverse.1 (List.mem_of_find?_eq_some hfind)
      by_contra hne
      refine List.Pairwise.forall hapart hmem hfile (fun heq => hne (congrArg some heq)) ?_
      rw [(hnormal found hmem).2, (hnormal file hfile).2, hnames]
  rw [contentAt, hfound]
  rfl

/-- Unless a templated name expands to dots, the rendered files are apart if and only if no two
templates clash. If the templates have proper paths, a written scene then holds all the files, one
for each template. -/
theorem render_apart_iff [TemporaryNames] (hname : checkName c.name = .ok ())
    (hdots : ∀ template ∈ kind.files, ¬ExpandsToDots c template.path)
    (hapart : kind.files.Pairwise fun t t' => t.path.components ≠ t'.path.components)
    (h : render kind c = .ok files) :
    files.length = kind.files.length ∧
    (AreApart files ↔ kind.files.Pairwise fun t t' => ¬Clash c t.path t'.path) ∧
    ((∀ template ∈ kind.files, template.path.IsNormal) → AreApart files →
      ∀ (d d' : Disk) (out result : Path) (overwrite : Bool), d.WellFormed →
        runOn (write out c.name files overwrite) d = (.ok result, d') →
        ∃ (scene : Name) (parent : List Name), scene.text? = some c.name ∧ d.Leads out parent ∧
          ∀ file ∈ files, ∃ names : List Name, file.path.names = names.map Name.toPiece ∧
            d'.item? (parent ++ scene :: names) = some (.file file.content.toUTF8)) := by
  obtain ⟨-, hfiles⟩ := render_eq_ok_iff.1 h
  refine ⟨hfiles.length_eq.symm, ?_,
    fun hnormal hdistinct d d' out result overwrite hwell hrun => ?_⟩
  · exact areApart_iff hname hdots hapart hfiles
  · have hproper : ∀ file ∈ files, file.path.IsNormal := by
      intro file hfile
      obtain ⟨template, htemplate, hrendering⟩ := exists_of_mem_right hfiles hfile
      exact ((hrendering.isProper_iff hname (hnormal _ htemplate)).2 (hdots _ htemplate)).normal
    obtain ⟨scene, parent, hscene, hleads, hnamed, hcontents⟩ :=
      contents_of_write hwell hname hproper hrun
    refine ⟨scene, parent, hscene, hleads, fun file hfile => ?_⟩
    obtain ⟨names, hnames⟩ := hnamed file hfile
    refine ⟨names, hnames, ?_⟩
    rw [hcontents, contents, ← hnames, contentAt_of_mem hproper hdistinct hfile]

/-- A kind with two templates. -/
def kindOfPair (first second : String) : KindTemplates where
  name := "mine"
  header := ""
  files := [⟨.ofString first, "old"⟩, ⟨.ofString second, "new"⟩]

def contextOfLogin : Template.Context where
  name := "Login"
  properties := []
  bindings := []

theorem not_expandsToDots_of_cell :
    ∀ template ∈ (kindOfPair "View.swift" "{{ name }}Cell.swift").files,
      ¬ExpandsToDots contextOfLogin template.path := by
  have hplain : GivesName contextOfLogin (.ofString "View.swift")
      (Piece.of "LoginView.swift").bytes :=
    ⟨.of "View.swift", by decide +kernel, by decide +kernel⟩
  have htemplated : GivesName contextOfLogin (.ofString "{{ name }}Cell.swift")
      (Piece.of "LoginCell.swift").bytes :=
    ⟨.of "{{ name }}Cell.swift", by decide +kernel, by decide +kernel⟩
  refine List.forall_mem_cons.2 ⟨fun h => ?_, List.forall_mem_singleton.2 fun h => ?_⟩
  · exact absurd ((hplain.expandsToDots_iff rfl).1 h) (by decide)
  · exact absurd ((htemplated.expandsToDots_iff rfl).1 h) (by decide)

theorem render_apart_of_cell :
    ∃ files result d', render (kindOfPair "View.swift" "{{ name }}Cell.swift") contextOfLogin =
        .ok files ∧ AreApart files ∧
      (kindOfPair "View.swift" "{{ name }}Cell.swift").files.Pairwise
        (fun t t' => ¬Clash contextOfLogin t.path t'.path) ∧
      runOn (write (.ofString "Scenes") "Login" files true) diskOfOneScene = (.ok result, d') ∧
      d'.item? [.of "Scenes", .of "Login", .of "LoginView.swift"] = some (.file "old".toUTF8) ∧
      d'.item? [.of "Scenes", .of "Login", .of "LoginCell.swift"] = some (.file "new".toUTF8) := by
  let files : List RenderedFile :=
    [⟨.ofString "LoginView.swift", "old"⟩, ⟨.ofString "LoginCell.swift", "new"⟩]
  have hrender : render (kindOfPair "View.swift" "{{ name }}Cell.swift") contextOfLogin =
      .ok files := by
    decide +kernel
  have hname : checkName contextOfLogin.name = .ok () := rfl
  obtain ⟨-, hiff, hwritten⟩ := render_apart_iff hname not_expandsToDots_of_cell
    (by decide +kernel) hrender
  have hapart : AreApart files := by
    unfold AreApart
    decide +kernel
  have hok : (runOn (write (.ofString "Scenes") "Login" files true) diskOfOneScene).1.toBool =
      true := by
    decide +kernel
  rcases hrun : runOn (write (.ofString "Scenes") "Login" files true) diskOfOneScene with
    ⟨_ | result, d'⟩
  · rw [hrun] at hok
    cases hok
  obtain ⟨scene, parent, hscene, ⟨links, trail, hroute⟩, hfiles⟩ := hwritten (by decide +kernel)
    hapart diskOfOneScene d' (.ofString "Scenes") result true ⟨rfl⟩ hrun
  obtain rfl := eq_of_text?_login hscene
  have hlinks := not_link_of_prefix_scenes (d := diskOfOneScene) nofun
  obtain ⟨rfl, -⟩ := eq_of_filled_route moves_scenes hlinks hroute
  have hitem {file : RenderedFile} {name : Name} (hfile : file ∈ files)
      (hname : file.path.names = [name.toPiece]) :
      d'.item? [.of "Scenes", .of "Login", name] = some (.file file.content.toUTF8) := by
    obtain ⟨names, hnames, hitem⟩ := hfiles file hfile
    have hsingle : names = [name] :=
      List.map_injective_iff.2 Name.toPiece_injective (hnames.symm.trans hname)
    rwa [hsingle] at hitem
  exact ⟨files, result, d', hrender, hapart, hiff.1 hapart, hrun,
    hitem List.mem_cons_self (by decide +kernel),
    hitem (List.mem_cons_of_mem _ List.mem_cons_self) (by decide +kernel)⟩

/-- Two templates can clash, and paths that differ by a dot at the start are paths of one file. -/
theorem render_not_apart :
    (¬∀ (kind : KindTemplates) (c : Template.Context) (files : List RenderedFile),
      checkName c.name = .ok () →
      (kind.files.Pairwise fun t t' => t.path.components ≠ t'.path.components) →
      render kind c = .ok files → AreApart files) ∧
    ∃ files, (kindOfPair "View.swift" "./View.swift").files.Pairwise
        (fun t t' => t.path.components ≠ t'.path.components) ∧
      render (kindOfPair "View.swift" "./View.swift") contextOfLogin = .ok files ∧
      files.length = 2 ∧ AreApart files ∧
      let result := runOn (write (.ofString "Scenes") "Login" files true) diskOfOneScene
      result.1.toBool = true ∧
        (result.2.list (.ofString "Scenes/Login")).toOption.map Assoc.keys =
          some [.of "LoginView.swift"] := by
  constructor
  · intro h
    let file : RenderedFile := ⟨.ofString "LoginView.swift", "old"⟩
    let file' : RenderedFile := ⟨.ofString "LoginView.swift", "new"⟩
    have hrender : render (kindOfPair "View.swift" "{{ name }}View.swift") contextOfLogin =
        .ok [file, file'] := by
      decide +kernel
    have hapart := h _ contextOfLogin _ rfl (by decide +kernel) hrender
    exact List.rel_of_pairwise_cons hapart (List.mem_singleton_self file') rfl
  · refine ⟨[⟨.ofString "LoginView.swift", "old"⟩, ⟨.ofString "./LoginView.swift", "new"⟩],
      by decide +kernel, by decide +kernel, rfl, ?_, by decide +kernel⟩
    unfold AreApart
    decide +kernel

end Scaffold.Scene
