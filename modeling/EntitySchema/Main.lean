import EntitySchema.CommandLine

/-!
# The program

Runs the generator on the files of the system.
-/

namespace EntitySchema.Program

open Files (Tree FileError RunError)
open Code (GeneratedFile)

/-- The failure of an operation on the files of the system. -/
def failureOf : IO.Error → FileError
  | .noFileOrDirectory .. => .notFound
  | .alreadyExists .. => .exists
  | .inappropriateType _ 20 _ => .notDirectory
  | .inappropriateType _ 21 _ => .isDirectory
  | e => .other (toString e)

/-- Performs an operation and turns its failure into one of the run. -/
def perform {α : Type} (wrap : FileError → RunError) (action : IO α) : ExceptT RunError IO α := do
  match ← action.toBaseIO with
  | .ok a => pure a
  | .error e => throw (wrap (failureOf e))

/-- The files below a path, without their contents. -/
partial def outline (path : String) : IO Tree := do
  let place := (← IO.currentDir) / path
  if ← place.isDir then
    let entries ← (← place.readDir).mapM fun entry => do
      pure (entry.fileName, ← outline (Text.joinPath path entry.fileName))
    pure (.directory entries.toList)
  else
    let _ ← place.metadata
    pure (.file [])

/-- Reads the document in a file. -/
def readDocument (path : String) : ExceptT RunError IO Schema.Document := do
  let bytes ← perform (.reading path) (do IO.FS.readBinFile ((← IO.currentDir) / path))
  match String.fromUTF8? bytes with
  | none => throw (.reading path .notText)
  | some text =>
    match Schema.Document.parse path text with
    | .ok document => pure document
    | .error e => throw (.generation (.schema e))

/-- Writes a file into a directory that is made if need be. -/
def writeFile (f : GeneratedFile) : ExceptT RunError IO Unit := do
  let directory := Text.parentPath f.path
  perform (.writing directory) (do IO.FS.createDirAll ((← IO.currentDir) / directory))
  perform (.writing f.path) (do IO.FS.writeFile ((← IO.currentDir) / f.path) f.text)

/-- Generates from all documents below a directory. -/
def generate (input output : String) : ExceptT RunError IO Unit := do
  let tree ← perform (.discovery input) (outline input)
  let documents ← (Files.documentPaths input tree).mapM readDocument
  match Files.plan documents output {} with
  | .ok files => files.forM writeFile
  | .error e => throw e

/-- The usage of the program. -/
def usage : String :=
  "Generate Rust modules from ecsgen schema documents\n\nUsage: ecsgen <INPUT_DIR> <OUTPUT_DIR>\n"

end EntitySchema.Program

open EntitySchema in
/-- Runs the generator as the arguments ask. -/
def main (arguments : List String) : IO UInt32 := do
  match CommandLine.parse arguments with
  | .help => IO.print Program.usage; pure 0
  | .version => IO.print CommandLine.versionLine; pure 0
  | .wrong => IO.eprint Program.usage; pure 2
  | .generate input output =>
    match ← (Program.generate input output).run with
    | .ok _ => pure 0
    | .error e => IO.eprintln (CommandLine.failureReport input output e); pure 1
