import EntitySchema.Text.Dotted

/-!
# Paths with slashes

The path of a file is written with slashes between its parts. A part is the name of an entry, two
points for the directory above, or idle: nothing or a single point.
-/

namespace EntitySchema.Text

/-- The path of something that is named relative to a directory. A name that begins with a slash
stands on its own, and the empty directory adds nothing. -/
def joinPath (directory name : String) : String :=
  if directory = "" || name.startsWith "/" then name
  else if directory.endsWith "/" then directory ++ name
  else directory ++ "/" ++ name

/-- The parts of a path between its slashes. -/
def pathParts (path : String) : List String := (divide '/' path.toList).map String.ofList

/-- Whether a part of a path does not lead anywhere. -/
def isIdle (part : String) : Bool := part = "" || part = "."

/-- The parts of the paths above a path, nearest first. All parts are given from the last to the
first, and idle ones at the end of a path are dropped. -/
def partsAbove : List String → List (List String)
  | [] => []
  | part :: before =>
    if isIdle part then partsAbove before else before.dropWhile isIdle :: partsAbove before

/-- The paths above a path, nearest first; the last one is the slash or the empty path. -/
def pathsAbove (path : String) : List String :=
  (partsAbove (pathParts path).reverse).map fun parts =>
    if parts.isEmpty && path.startsWith "/" then "/" else "/".intercalate parts.reverse

/-- The path of the directory that something stands in. -/
def parentPath (path : String) : String := (pathsAbove path).headD ""

/-- The last part of a path that is not idle. -/
def lastPart (path : String) : String := ((pathParts path).reverse.dropWhile isIdle).headD ""

/-- The extension of the name of a file: what follows its last point, unless nothing precedes it. -/
def extension? (name : String) : Option String :=
  match (segments name).reverse with
  | last :: before@(_ :: _) => if dotted before = "" then none else some last
  | _ => none

end EntitySchema.Text
