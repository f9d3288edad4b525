import Mathlib.Tactic.TFAE
import Scaffold.Error
import Scaffold.Proofs.Template.Canonical
import Scaffold.Proofs.Template.Occurrence

/-!
Names in templates. The names that a user may give are those that can be written in a template, as a
placeholder or as the variable of a loop: a text that holds anything else between the delimiters, be
it white space, a dot or a delimiter, is refused or read as something else.
-/

namespace Scaffold.Template

variable {text name : String} {t : Scaffold.Template} {outer loops : List (String × String)}

theorem checkName_eq_ok_iff_isName : checkName name = .ok () ↔ Text.IsName name.toList :=
  checkName_eq_ok_iff.trans (Text.isIdentifier_iff name.toList)

theorem canonicalText_placeholder (name : String) :
    canonicalText [.placeholder ⟨name, []⟩ 0] = "\x7b\x7b " ++ name ++ " \x7d\x7d" := by
  simp [canonicalText, writtenNodes, Node.written, Tag.written, Tag.delimiter, Tag.content,
    Delimiter.opening, Delimiter.closing, Reference.text, Reference.segments, String.ext_iff]

theorem canonicalText_loop (name : String) :
    canonicalText [.loop name "properties" [] 0] =
      "\x7b% for " ++ name ++ " in properties %\x7d\x7b% endfor %\x7d" := by
  simp [canonicalText, writtenNodes, Node.written, Tag.written, Tag.delimiter, Tag.content,
    Delimiter.opening, Delimiter.closing, String.ext_iff]

/-- A name by itself is read as a placeholder. -/
theorem parse_placeholder (h : checkName name = .ok ()) :
    Template.parse ("\x7b\x7b " ++ name ++ " \x7d\x7d") = .ok ⟨[.placeholder ⟨name, []⟩ 1]⟩ := by
  rw [checkName_eq_ok_iff_isName] at h
  rw [← canonicalText_placeholder]
  have hwell : (Node.placeholder ⟨name, []⟩ 0).WellFormed := by
    simpa [Node.WellFormed, Reference.segments] using h
  exact parse_canonicalText_eq ⟨hwell, trivial, by rintro _ ⟨⟩⟩

/-- A name in a loop header is read as the variable of the loop. -/
theorem parse_loop (h : checkName name = .ok ()) :
    Template.parse ("\x7b% for " ++ name ++ " in properties %\x7d\x7b% endfor %\x7d") =
      .ok ⟨[.loop name "properties" [] 1]⟩ := by
  rw [checkName_eq_ok_iff_isName] at h
  have hproperties : Text.IsName "properties".toList := (Text.isIdentifier_iff _).1 (by decide)
  rw [← canonicalText_loop]
  have hwell : (Node.loop name "properties" [] 0).WellFormed :=
    ⟨h, hproperties, trivial, by rintro _ ⟨⟩⟩
  exact parse_canonicalText_eq ⟨hwell, trivial, by rintro _ ⟨⟩⟩

/-- What a node of a template consists of is well formed. -/
theorem Under.wellFormed (hparse : Template.parse text = .ok t) {node : Node} {piece : Piece}
    (h : Under outer t.nodes loops node) (hpiece : piece ∈ node.pieces) : piece.WellFormed :=
  (parse_eq_ok_iff_reads.1 hparse).wellFormed.1 piece (h.mem_piecesOf hpiece)

theorem Under.checkName_placeholder (hparse : Template.parse text = .ok t) {line : Nat}
    (h : Under outer t.nodes loops (.placeholder ⟨name, []⟩ line)) : checkName name = .ok () := by
  have hwell := h.wellFormed hparse (List.mem_singleton_self (Piece.placeholder ⟨name, []⟩ line))
  rw [checkName_eq_ok_iff_isName]
  exact hwell name (List.mem_singleton_self name)

theorem Under.checkName_loop (hparse : Template.parse text = .ok t) {collection : String}
    {body : List Node} {line : Nat}
    (h : Under outer t.nodes loops (.loop name collection body line)) : checkName name = .ok () := by
  have hstart : Piece.loopStart name collection line ∈
      (Node.loop name collection body line).pieces := by
    rw [Node.pieces]
    exact List.mem_cons_self
  rw [checkName_eq_ok_iff_isName]
  exact (h.wellFormed hparse hstart).1

/-- The names that a user may give are those that can be written in a template. A name may be given
if and only if it is read as a placeholder when it stands between the delimiters of one, if and only
if it is read as the variable of a loop when it stands in its header, and no other name is that of a
placeholder or of a loop variable anywhere in any template. -/
theorem checkName_tfae (name : String) : List.TFAE [
    checkName name = .ok (),
    ∃ line, Template.parse ("\x7b\x7b " ++ name ++ " \x7d\x7d") =
      .ok ⟨[.placeholder ⟨name, []⟩ line]⟩,
    ∃ collection body line,
      Template.parse ("\x7b% for " ++ name ++ " in properties %\x7d\x7b% endfor %\x7d") =
        .ok ⟨[.loop name collection body line]⟩,
    ∃ text t loops line, Template.parse text = .ok t ∧
      Under [] t.nodes loops (.placeholder ⟨name, []⟩ line),
    ∃ text t loops collection body line, Template.parse text = .ok t ∧
      Under [] t.nodes loops (.loop name collection body line)] := by
  tfae_have 1 → 2 := fun h => ⟨1, parse_placeholder h⟩
  tfae_have 2 → 4 := fun ⟨line, hparse⟩ =>
    ⟨_, _, [], line, hparse, .here (List.mem_singleton_self _)⟩
  tfae_have 4 → 1 := fun ⟨_, _, _, _, hparse, hunder⟩ => hunder.checkName_placeholder hparse
  tfae_have 1 → 3 := fun h => ⟨"properties", [], 1, parse_loop h⟩
  tfae_have 3 → 5 := fun ⟨collection, body, line, hparse⟩ =>
    ⟨_, _, [], collection, body, line, hparse, .here (List.mem_singleton_self _)⟩
  tfae_have 5 → 1 := fun ⟨_, _, _, _, _, _, hparse, hunder⟩ => hunder.checkName_loop hparse
  tfae_finish

end Scaffold.Template
