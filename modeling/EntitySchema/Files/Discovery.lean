import EntitySchema.Files.Tree

/-!
# Discovery of documents

The documents below a directory are its files with the extension of documents, at any depth, in the
order of their paths compared name by name.
-/

namespace EntitySchema.Files

/-- The extension of documents. -/
def documentExtension : String := "json"

/-- Whether a file below a path is a document, given the names that lead on to it. -/
def isDocument (root : String) (names : List String) : Bool :=
  Text.extension? (names.getLast?.getD (Text.lastPart root)) = some documentExtension

/-- Whether a path comes before another or is the same, compared name by name. -/
def pathLE (a b : List String) : Bool := !decide (b < a)

/-- The documents in the tree that a path leads to, by the names that lead on. -/
def documentsIn (root : String) (t : Tree) : List (List String) :=
  (t.files.filter (isDocument root)).mergeSort pathLE

/-- The paths of the documents in the tree that a path leads to. -/
def documentPaths (root : String) (t : Tree) : List String :=
  (documentsIn root t).map fun names => names.foldl Text.joinPath root

/-- The paths of the documents below a path. -/
def discover (root : String) (t : Tree) : Except FileError (List String) := do
  pure (documentPaths root (← t.find root))

end EntitySchema.Files
