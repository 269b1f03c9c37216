import EntitySchema.Code.Name
import EntitySchema.Text.Dotted
import EntitySchema.Text.Quoted
import EntitySchema.Wire.Fields

/-!
# Generated code as tokens

Generated code is Rust, kept as a list of tokens. Names of the schema, paths of generated items and
paths of the runtime library stay symbolic in it; how they are spelled depends on where the
generated modules and the runtime library are found, which `Paths` says. `Code.render` spells the
tokens and lays them out: one blank between neighbours, but none after an opening and none before a
closing parenthesis or bracket.
-/

namespace EntitySchema

namespace Code

/-- A token of generated code. -/
inductive Token where
  /-- A word, an operator, a delimiter or a literal. -/
  | word (text : String)
  /-- A name of the schema. -/
  | name (text : String)
  /-- The absolute path of a generated item. -/
  | item (package : List String) (name : String)
  /-- The path of an item of the runtime library. -/
  | runtime (name : String)
  /-- The path of the runtime library itself. -/
  | library
deriving DecidableEq, Repr, Inhabited

end Code

/-- A sequence of tokens. -/
abbrev Code := List Code.Token

namespace Code

/-- The tokens of a text in which blanks divide them. -/
def words (text : String) : Code :=
  (Text.divide ' ' text.toList).map fun w => .word (String.ofList w)

instance : Coe String Code := ⟨words⟩

instance : Coe Token Code := ⟨fun t => [t]⟩

/-- Where the generated modules and the runtime library are found, as spelled tokens. -/
structure Paths where
  /-- The module that the generated modules are mounted at. -/
  root : List String
  /-- The runtime library. -/
  runtime : List String
deriving DecidableEq, Repr, Inhabited

/-- Why code cannot be spelled: a name that is no identifier. -/
structure InvalidIdentifier where
  /-- The name. -/
  name : String
deriving DecidableEq, Repr, Inhabited

/-- The spelling of a name. -/
def spellName (name : String) : Except InvalidIdentifier String :=
  match identifier name with
  | some s => .ok s
  | none => .error ⟨name⟩

/-- The spelling of a token. -/
def Token.spell (paths : Paths) : Token → Except InvalidIdentifier (List String)
  | .word text => .ok [text]
  | .name text => do pure [← spellName text]
  | .item package own => do
    let segments ← (package ++ [own]).mapM spellName
    pure (paths.root ++ segments.flatMap fun s => ["::", s])
  | .runtime own => do pure (paths.runtime ++ ["::", ← spellName own])
  | .library => .ok paths.runtime

/-- Whether nothing stands between a token and the next one. -/
def adjoins (token next : String) : Bool :=
  token == "(" || token == "[" || next == ")" || next == "]"

/-- The layout of spelled tokens. -/
def layOut : List String → List String
  | [] => []
  | [token] => [token]
  | token :: next :: rest =>
    if adjoins token next then token :: layOut (next :: rest)
    else token :: " " :: layOut (next :: rest)

/-- The text of code. -/
def render (paths : Paths) (code : Code) : Except InvalidIdentifier String := do
  let spelled ← code.mapM (Token.spell paths)
  pure (String.join (layOut spelled.flatten))

/-- A number without a suffix. -/
def number (n : UInt32) : Token := .word (toString n.toNat)

/-- A number of machine size. -/
def sizeNumber (n : Nat) : Token := .word (toString n ++ "usize")

/-- Code in parentheses. -/
def parens (c : Code) : Code := "(" ++ c ++ ")"

/-- Code in braces. -/
def braces (c : Code) : Code := "\x7b" ++ c ++ "\x7d"

/-- Code in angle brackets. -/
def angles (c : Code) : Code := "<" ++ c ++ ">"

/-- Code with commas between. -/
def commaSeparated : List Code → Code
  | [] => []
  | [c] => c
  | c :: rest => c ++ "," ++ commaSeparated rest

/-- Code with a comma after each part. -/
def commaTerminated (parts : List Code) : Code := parts.flatMap fun c => c ++ ","

/-- A call with arguments. -/
def call (function : Code) (arguments : List Code) : Code :=
  function ++ parens (commaSeparated arguments)

/-- A call of a method. -/
def method (receiver : Code) (name : String) (arguments : List Code) : Code :=
  call (receiver ++ "." ++ name) arguments

/-- The present option. -/
def someOf (c : Code) : Code := call ":: std :: option :: Option :: Some" [c]

/-- The absent option. -/
def noneOf : Code := ":: std :: option :: Option :: None"

/-- The successful result. -/
def okOf (c : Code) : Code := call ":: std :: result :: Result :: Ok" [c]

/-- The failed result. -/
def errOf (c : Code) : Code := call ":: std :: result :: Result :: Err" [c]

/-- A type of optional values. -/
def optionType (c : Code) : Code := ":: std :: option :: Option" ++ angles c

/-- A copy of a value. -/
def cloneOf (c : Code) : Code := call ":: std :: clone :: Clone :: clone" [c]

/-- Code that runs with the content of an option, if it has one. -/
def ifSome (bound : String) (value body : Code) : Code :=
  "if let" ++ someOf bound ++ "=" ++ value ++ braces body

/-- A choice between two expressions. -/
def ifElse (condition yes no : Code) : Code :=
  "if" ++ condition ++ braces yes ++ "else" ++ braces no

/-- A function of a trait, at a type. -/
def traitFunction (type trait : Code) (function : String) : Code :=
  angles (type ++ "as" ++ trait) ++ "::" ++ function

/-- A documentation text that depends on the schema. -/
def doc (text : String) : Code := "# [ doc =" ++ [Token.word (Text.quoteLiteral text)] ++ "]"

/-- A fixed documentation text. -/
def fixedDoc (text : String) : Code :=
  "# [ doc =" ++ [Token.word ("r\" " ++ text ++ "\"")] ++ "]"

/-- The absolute path of an item of a dotted package. -/
def itemIn (package name : String) : Token :=
  .item ((Text.segments package).filter fun s => s ≠ "") name

/-- The absolute path of the item with a dotted qualified name. -/
def itemOf (qualifiedName : String) : Token :=
  let segments := Text.segments qualifiedName
  .item (segments.dropLast.filter fun s => s ≠ "") (segments.getLastD "")

end Code

end EntitySchema
