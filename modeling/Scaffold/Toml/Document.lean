import Scaffold.Toml.Statement

/-!
Documents. The statements are carried out one after the other on the items of the outermost table,
and entries go to the table that was opened last.
-/

namespace Scaffold.Toml

/-- A document read up to some point, with the names that lead to the table opened last. -/
structure Draft where
  items : Items
  opened : List String

def Draft.add (draft : Draft) : Statement → Option Draft
  | .table key => (draft.items.openTable key).map (⟨·, key.tables ++ [key.name]⟩)
  | .element key => (draft.items.openElement key).map (⟨·, key.tables ++ [key.name]⟩)
  | .entry key value =>
    (draft.items.descend .implicit (fun _ items => items.assign key value) .explicit
      draft.opened).map (⟨·, draft.opened⟩)

/-- Text without the byte order mark that it may start with. -/
def skipMark : List Char → List Char
  | '\uFEFF' :: cs => cs
  | cs => cs

/-- The outermost table of a document. -/
def parse? (text : String) : Option Value := do
  let statements ← readStatements? (skipMark text.toList)
  let draft ← statements.foldlM Draft.add ⟨[], []⟩
  some (.table (entries draft.items))

end Scaffold.Toml
