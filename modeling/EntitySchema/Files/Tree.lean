import EntitySchema.Text.Slashed
import EntitySchema.Wire.Bytes

/-!
# Trees of files

A tree of files is a file or a directory with named entries. A place in it is given by the names on
the way. Operations take paths, which start at the root of the tree; they follow a path part by part
and fail the way a file system does, so that `..` leads back only from a directory that is there.
Names are text: names of entries that are not encoded in UTF-8 are left out.
-/

namespace EntitySchema.Files

/-- Why an operation on a file fails. -/
inductive FileError where
  /-- There is nothing with the name. -/
  | notFound
  /-- There is something with the name already. -/
  | exists
  /-- Something on the way is not a directory. -/
  | notDirectory
  /-- A directory stands where a file is needed. -/
  | isDirectory
  /-- A name or a path is too long. -/
  | tooLong
  /-- A path holds the null character. -/
  | nullInPath
  /-- The content is not text. -/
  | notText
  /-- Anything else, in the words of the system. -/
  | other (text : String)
deriving DecidableEq, Repr, Inhabited

/-- The wording of an error. -/
def FileError.message : FileError → String
  | .notFound => "No such file or directory (os error 2)"
  | .exists => "File exists (os error 17)"
  | .notDirectory => "Not a directory (os error 20)"
  | .isDirectory => "Is a directory (os error 21)"
  | .tooLong => "File name too long (os error 36)"
  | .nullInPath => "file name contained an unexpected NUL byte"
  | .notText => "stream did not contain valid UTF-8"
  | .other text => text

/-- A file or a directory, whose entries are named by texts. -/
inductive Tree where
  | file (content : Wire.Bytes)
  | directory (entries : List (String × Tree))
deriving Inhabited

namespace Tree

/-- The directory without entries. -/
def empty : Tree := .directory []

/-- What the names lead to. -/
def get : List String → Tree → Except FileError Tree
  | [], t => .ok t
  | _ :: _, .file _ => .error .notDirectory
  | name :: rest, .directory entries =>
    match entries.lookup name with
    | some t => t.get rest
    | none => .error .notFound

/-- Puts something under a name, in place of what was there. -/
def setEntry (name : String) (t : Tree) : List (String × Tree) → List (String × Tree)
  | [] => [(name, t)]
  | (other, u) :: rest =>
    if name = other then (name, t) :: rest else (other, u) :: setEntry name t rest

/-- Changes what the names lead to; the last name need not lead to anything yet. -/
def alter (change : Option Tree → Except FileError Tree) :
    List String → Tree → Except FileError Tree
  | [], t => change (some t)
  | _ :: _, .file _ => .error .notDirectory
  | [name], .directory entries => do
    pure (.directory (setEntry name (← change (entries.lookup name)) entries))
  | name :: rest, .directory entries =>
    match entries.lookup name with
    | some t => do pure (.directory (setEntry name (← t.alter change rest) entries))
    | none => .error .notFound

/-- The greatest number of bytes in a name. -/
def maxName : Nat := 255

/-- The number of bytes that a path has to stay below. -/
def pathBound : Nat := 4096

/-- Accepts the paths that a file system looks at. -/
def checkPath (path : String) : Except FileError Unit :=
  if path.toList.contains '\x00' then .error .nullInPath
  else if path = "" then .error .notFound
  else if pathBound ≤ path.utf8ByteSize then .error .tooLong
  else .ok ()

/-- Follows a part of a path from a place, which has to be a directory. -/
def enter (t : Tree) (place : List String) (part : String) : Except FileError (List String) := do
  match ← t.get place with
  | .file _ => throw .notDirectory
  | .directory entries =>
    if Text.isIdle part then pure place
    else if part = ".." then pure place.dropLast
    else if maxName < part.utf8ByteSize then throw .tooLong
    else if (entries.lookup part).isSome then pure (place ++ [part])
    else throw .notFound

/-- The place that a path leads to. -/
def locate (path : String) (t : Tree) : Except FileError (List String) := do
  checkPath path
  (Text.pathParts path).foldlM t.enter []

/-- What a path leads to. -/
def find (path : String) (t : Tree) : Except FileError Tree := do
  t.get (← t.locate path)

/-- Whether a path leads to a directory. -/
def isDirectory (path : String) (t : Tree) : Bool :=
  match t.find path with
  | .ok (.directory _) => true
  | _ => false

/-- Changes what a path leads to; the name at its end need not lead to anything yet. -/
def alterAt (change : Option Tree → Except FileError Tree) (path : String) (t : Tree) :
    Except FileError Tree := do
  checkPath path
  match (Text.pathParts path).reverse.dropWhile (· = "") with
  | [] => t.alter change []
  | last :: before =>
    let place ← before.reverse.foldlM t.enter []
    match t.enter place last with
    | .ok found => t.alter change found
    | .error .notFound => t.alter change (place ++ [last])
    | .error e => throw e

/-- Makes a directory. -/
def makeDirectory (path : String) (t : Tree) : Except FileError Tree :=
  t.alterAt (fun
    | none => .ok empty
    | some _ => .error .exists) path

/-- Writes a file. -/
def write (content : Wire.Bytes) (path : String) (t : Tree) : Except FileError Tree :=
  t.alterAt (fun
    | some (.directory _) => .error .isDirectory
    | _ => .ok (.file content)) path

/-- Makes a directory unless it is there already. -/
def ensureDirectory (path : String) (t : Tree) : Except FileError Tree :=
  match t.makeDirectory path with
  | .ok t => .ok t
  | .error e => if t.isDirectory path then .ok t else .error e

/-- Makes the first of some directories, each of which stands in the next one, with all that are
missing on the way. -/
def ensureDirectories : List String → Tree → Except FileError Tree
  | [], t => .ok t
  | path :: above, t =>
    match t.ensureDirectory path with
    | .error .notFound => do (← ensureDirectories above t).ensureDirectory path
    | made => made

/-- Makes a directory with all that are missing on the way; one that is there already is fine. -/
def makeDirectories (path : String) (t : Tree) : Except FileError Tree :=
  if path = "" then .ok t else t.ensureDirectories (path :: Text.pathsAbove path)

/-- Puts a file or an empty directory at a path, with all directories on the way. What cannot be put
there is left out. -/
def put (t : Tree) (path : String) (node : Tree) : Tree :=
  let placed := do
    match node with
    | .directory _ => t.makeDirectories path
    | .file content => (← t.makeDirectories (Text.parentPath path)).write content path
  placed.toOption.getD t

/-- The content of a file. -/
def read (path : String) (t : Tree) : Except FileError Wire.Bytes := do
  match ← t.find path with
  | .file content => pure content
  | .directory _ => throw .isDirectory

/-- The content of a file of text. -/
def readText (path : String) (t : Tree) : Except FileError String := do
  match String.fromUTF8? ⟨(← t.read path).toArray⟩ with
  | some text => pure text
  | none => throw .notText

mutual

/-- The files in a tree, by the names on the way. -/
def files : Tree → List (List String)
  | .file _ => [[]]
  | .directory entries => filesIn entries

/-- The files in the entries of a directory. -/
def filesIn : List (String × Tree) → List (List String)
  | [] => []
  | (name, t) :: rest => t.files.map (name :: ·) ++ filesIn rest

end

end Tree

end EntitySchema.Files
