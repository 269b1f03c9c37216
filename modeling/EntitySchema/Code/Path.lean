import EntitySchema.Code.Lexeme

/-!
# Paths written by hand

A path is a sequence of segments with `::` between them and possibly in front. A segment is a word
that is no keyword, or one of the words that stand for places. Arguments behind a segment, as in
`a<b>` or `a(b)`, which would bring in types and expressions, are left out: a text with such
arguments is refused, although the generated language has paths of that form.
-/

namespace EntitySchema.Code

/-- A path. -/
structure Path where
  /-- Whether `::` stands in front. -/
  isGlobal : Bool
  /-- The segments. -/
  segments : List String
deriving DecidableEq, Repr, Inhabited

/-- Why a text is no path. -/
inductive PathError where
  /-- The text has no lexical structure. -/
  | noLexemes
  /-- A segment is missing at the end. -/
  | unexpectedEnd
  /-- A keyword stands for a segment. -/
  | keyword (word : String)
  /-- Something else stands for a segment. -/
  | noSegment
  /-- Something follows the path. -/
  | leftover
deriving DecidableEq, Repr, Inhabited

/-- The wording of an error. -/
def PathError.message : PathError → String
  | .noLexemes => "cannot parse string into token stream"
  | .unexpectedEnd => "unexpected end of input, expected identifier"
  | .keyword word => s!"expected identifier, found keyword `{word}`"
  | .noSegment => "expected identifier"
  | .leftover => "unexpected token"

namespace Path

/-- Words that are no names; some of them stand for places in a path. -/
def reserved : List String :=
  ["_", "abstract", "as", "async", "await", "become", "box", "break", "const", "continue", "crate",
    "do", "dyn", "else", "enum", "extern", "false", "final", "fn", "for", "if", "impl", "in", "let",
    "loop", "macro", "match", "mod", "move", "mut", "override", "priv", "pub", "ref", "return",
    "Self", "self", "static", "struct", "super", "trait", "true", "try", "type", "typeof", "unsafe",
    "unsized", "use", "virtual", "where", "while", "yield"]

/-- Reserved words that may be segments. -/
def places : List String := ["super", "self", "Self", "crate", "try"]

/-- A segment, and what follows it. -/
def segment : List Lexeme → Except PathError (String × List Lexeme)
  | [] => .error .unexpectedEnd
  | .word w :: rest =>
    if w ∈ places || w ∉ reserved then .ok (w, rest) else .error (.keyword w)
  | _ :: _ => .error .noSegment

/-- The segments after the first one. A `::` in front of a parenthesis does not go on with the
path. -/
def further : Nat → List Lexeme → Except PathError (List String)
  | 0, _ => .error .leftover
  | _ + 1, [] => .ok []
  | rounds + 1, .mark ':' true :: .mark ':' _ :: rest =>
    if rest.head? = some (.opening '(') then .error .leftover
    else do
      let (first, rest) ← segment rest
      pure (first :: (← further rounds rest))
  | _ + 1, _ => .error .leftover

/-- The path that lexemes spell. -/
def ofLexemes (lexemes : List Lexeme) : Except PathError Path := do
  let (isGlobal, rest) :=
    match lexemes with
    | .mark ':' true :: .mark ':' _ :: rest => (true, rest)
    | _ => (false, lexemes)
  let (first, rest) ← segment rest
  pure ⟨isGlobal, first :: (← further (rest.length + 1) rest)⟩

/-- The path that a text spells. A text with arguments behind a segment is refused. -/
def ofText (text : String) : Except PathError Path :=
  match Lexeme.ofText text with
  | some lexemes => ofLexemes lexemes
  | none => .error .noLexemes

/-- The tokens of a path. -/
def tokens (p : Path) : List String :=
  (if p.isGlobal then ["::"] else []) ++ p.segments.intersperse "::"

end Path

end EntitySchema.Code
