import EntitySchema.Text.Dotted

/-!
# Lines of text

A line ends with a line feed, and a carriage return right before it belongs to the end. What follows
the last line feed is a line too unless it is empty.
-/

namespace EntitySchema.Text

/-- A line without a carriage return at its end. -/
def trimReturn (line : List Char) : List Char :=
  match line.reverse with
  | '\r' :: before => before.reverse
  | _ => line

/-- The lines of a text that is cut at its line feeds. -/
def linesOf : List (List Char) → List (List Char)
  | [] => []
  | [last] => if last.isEmpty then [] else [last]
  | line :: rest => trimReturn line :: linesOf rest

/-- The lines of a text. -/
def lines (text : String) : List String := (linesOf (divide '\n' text.toList)).map String.ofList

end EntitySchema.Text
