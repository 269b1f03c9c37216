/-!
# Pascal case

Underscores and hyphens divide a name into words. In Pascal case the dividers are dropped and every
word starts with a capital letter; only the letters `a` to `z` have capitals.
-/

namespace EntitySchema.Text

/-- The characters of a name in Pascal case, where `atStart` says that a word starts. -/
def pascalChars : (atStart : Bool) → List Char → List Char
  | _, [] => []
  | atStart, c :: rest =>
    if c = '_' || c = '-' then pascalChars true rest
    else (if atStart then c.toUpper else c) :: pascalChars false rest

/-- A name in Pascal case. -/
def pascal (name : String) : String := String.ofList (pascalChars true name.toList)

end EntitySchema.Text
