import EntitySchema.Text.Identifier

/-!
# Names in generated code

A name of a schema becomes an identifier of the generated code as it stands, with two exceptions: a
keyword is written as a raw identifier, and the four path words that cannot be raw get an underscore
at the end.
-/

namespace EntitySchema.Code

/-- Keywords of the generated language that can be raw identifiers. -/
def keywords : List String :=
  ["abstract", "as", "async", "await", "become", "box", "break", "const", "continue", "do", "dyn",
    "else", "enum", "extern", "false", "final", "fn", "for", "gen", "if", "impl", "in", "let", "loop",
    "macro", "match", "mod", "move", "mut", "override", "priv", "pub", "ref", "return", "static",
    "struct", "trait", "true", "try", "type", "typeof", "unsafe", "unsized", "use", "virtual",
    "where", "while", "yield"]

/-- Words that stand for the start of a path and cannot be raw identifiers. -/
def pathWords : List String := ["self", "super", "crate", "Self"]

/-- A name with an underscore added if it is a path word. -/
def sanitize (name : String) : String := if name ∈ pathWords then name ++ "_" else name

/-- The identifier of a name, if the name can be one. -/
def identifier (name : String) : Option String :=
  let name := sanitize name
  if name ∈ keywords then some ("r#" ++ name)
  else if Text.isIdentifier name then some name
  else none

end EntitySchema.Code
