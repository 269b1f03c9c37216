import EntitySchema.Files.Run
import EntitySchema.Text.Terminal

/-!
# The command line

The generator takes an input directory and an output directory. Arguments are read from left to
right: a request for help or for the version is granted at once unless an argument before it was
wrong. After `--` every argument is a directory.
-/

namespace EntitySchema.CommandLine

open Files (Tree RunError)

/-- What the arguments ask for. -/
inductive Invocation where
  /-- The usage. -/
  | help
  /-- The version. -/
  | version
  /-- Generation from an input directory into an output directory. -/
  | generate (input output : String)
  /-- Nothing that can be understood. -/
  | wrong
deriving DecidableEq, Repr, Inhabited

/-- What directories ask for. -/
def ofDirectories : List String → Invocation
  | [input, output] => .generate input output
  | _ => .wrong

/-- Whether another directory may follow. -/
def isDirectory (taken : List String) (argument : String) : Bool :=
  argument ≠ "" && taken.length < 2

/-- What remaining arguments ask for, given the directories so far. -/
def parseFrom (taken : List String) : List String → Invocation
  | [] => ofDirectories taken
  | "--" :: rest =>
    if rest.all (· ≠ "") then ofDirectories (taken ++ rest) else .wrong
  | "--help" :: _ => .help
  | "--version" :: _ => .version
  | argument :: rest =>
    match argument.toList with
    | '-' :: 'h' :: _ => .help
    | '-' :: 'V' :: _ => .version
    | '-' :: _ :: _ => .wrong
    | _ => if isDirectory taken argument then parseFrom (taken ++ [argument]) rest else .wrong

/-- What arguments ask for. -/
def parse (arguments : List String) : Invocation := parseFrom [] arguments

/-- The line with the version. -/
def versionLine : String := "ecsgen 0.1.0\n"

/-- The report of a run that fails, fit for a terminal. -/
def failureReport (input output : String) (e : RunError) : String :=
  Text.forTerminal s!"failed to generate {output} from {input}: {e.report}"

/-- What a run leaves: its exit code, a report if it failed, and what it prints. -/
structure Outcome where
  /-- The exit code. -/
  exitCode : UInt32
  /-- The report of a failure. -/
  failure : Option String := none
  /-- What is printed. -/
  output : Option String := none
deriving DecidableEq, Repr, Inhabited

/-- The outcome of arguments on a tree of files, and the tree afterwards. -/
def run (arguments : List String) (t : Tree) : Outcome × Tree :=
  match parse arguments with
  | .help => ({ exitCode := 0 }, t)
  | .version => ({ exitCode := 0, output := some versionLine }, t)
  | .wrong => ({ exitCode := 2 }, t)
  | .generate input output =>
    match Files.generateDirectory input output {} t with
    | (.ok _, t) => ({ exitCode := 0 }, t)
    | (.error e, t) => ({ exitCode := 1, failure := some (failureReport input output e) }, t)

end EntitySchema.CommandLine
