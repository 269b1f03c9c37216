import EntitySchema.Code.Generation
import EntitySchema.Files.Discovery
import EntitySchema.Wire.Encoding

/-!
# Runs of the generator

A run reads documents, generates their modules and writes one file for each module. It stops at the
first failure and keeps what was written before.
-/

namespace EntitySchema.Files

open Schema (Document GenerationError)
open Code (Settings GeneratedFile)

/-- Why a run fails. -/
inductive RunError where
  /-- The documents cannot be found. -/
  | discovery (path : String) (cause : FileError)
  /-- A document cannot be read. -/
  | reading (path : String) (cause : FileError)
  /-- A module or its directory cannot be written. -/
  | writing (path : String) (cause : FileError)
  /-- Nothing can be generated. -/
  | generation (e : GenerationError)
deriving Repr, Inhabited

namespace RunError

/-- The wording of an error. -/
def message : RunError → String
  | .discovery path cause => s!"IO error for operation on {path}: {cause.message}"
  | .reading path cause => s!"failed to read {path}: {cause.message}"
  | .writing path cause => s!"failed to write {path}: {cause.message}"
  | .generation e => e.message

/-- The wording of an error followed by that of its cause. -/
def report : RunError → String
  | e@(.discovery _ cause) | e@(.reading _ cause) | e@(.writing _ cause) =>
    e.message ++ ": " ++ cause.message
  | e => e.message

end RunError

/-- The document in a file. -/
def readDocument (t : Tree) (path : String) : Except RunError Document := do
  let text ← (t.readText path).mapError (.reading path)
  (Document.parse path text).mapError fun e => .generation (.schema e)

/-- The files generated from documents, by their paths below an output directory. -/
def plan (documents : List Document) (output : String) (settings : Settings) :
    Except RunError (List GeneratedFile) := do
  let (_, files) ← (Schema.generate documents settings).mapError .generation
  pure (files.map fun f => { f with path := Text.joinPath output f.path })

/-- Writes a file into a directory that is made if need be. -/
def writeFile (f : GeneratedFile) (t : Tree) : Except RunError Tree := do
  let directory := Text.parentPath f.path
  let t ← (t.makeDirectories directory).mapError (.writing directory)
  (t.write (Wire.utf8 f.text) f.path).mapError (.writing f.path)

/-- Writes files until one fails. -/
def writeFiles : List GeneratedFile → Tree → Except RunError Unit × Tree
  | [], t => (.ok (), t)
  | f :: rest, t =>
    match writeFile f t with
    | .ok t => writeFiles rest t
    | .error e => (.error e, t)

/-- Generates from documents in files. -/
def generateFiles (inputs : List String) (output : String) (settings : Settings) (t : Tree) :
    Except RunError (List GeneratedFile) × Tree :=
  match inputs.mapM (readDocument t) >>= fun documents => plan documents output settings with
  | .error e => (.error e, t)
  | .ok files =>
    let (result, t) := writeFiles files t
    (result.map fun _ => files, t)

/-- Generates from all documents below a directory. -/
def generateDirectory (input output : String) (settings : Settings) (t : Tree) :
    Except RunError (List GeneratedFile) × Tree :=
  match discover input t with
  | .error e => (.error (.discovery input e), t)
  | .ok inputs => generateFiles inputs output settings t

/-- The line that asks a build to run again when a file changes. -/
def rerunDirective (path : String) : String := "cargo:rerun-if-changed=" ++ path

/-- What a build prints: a directive for each input. -/
def rerunOutput (inputs : List String) : String :=
  String.join (inputs.map fun path => rerunDirective path ++ "\n")

end EntitySchema.Files
