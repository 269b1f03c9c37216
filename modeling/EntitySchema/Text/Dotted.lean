/-!
# Dotted names

A dotted name is a sequence of segments divided by points. Splitting yields one segment more than
the name has points, so the empty name has one empty segment.
-/

namespace EntitySchema.Text

/-- The parts of a sequence of characters between the occurrences of a divider. -/
def divide (divider : Char) : List Char → List (List Char)
  | [] => [[]]
  | c :: rest =>
    if c = divider then [] :: divide divider rest
    else
      match divide divider rest with
      | [] => [[c]]
      | s :: more => (c :: s) :: more

/-- The segments of a dotted name. -/
def segments (name : String) : List String := (divide '.' name.toList).map String.ofList

/-- The segments joined by points. -/
def dotted (names : List String) : String := ".".intercalate names

end EntitySchema.Text
