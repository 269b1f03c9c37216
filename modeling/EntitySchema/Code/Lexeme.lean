import EntitySchema.Text.Identifier

/-!
# Lexemes

The lexical structure of the generated language, as far as paths written by hand need it: a text is a
sequence of words, punctuation marks, literals and delimiters, with blanks and comments between them.
What a literal says does not matter here, only where it ends. A scanner takes the text from some
point on and gives what follows the part it accepts.
-/

namespace EntitySchema.Code

/-- A part of a text. -/
inductive Lexeme where
  /-- A word, raw or not. -/
  | word (text : String)
  /-- A punctuation mark, and whether another one follows at once. -/
  | mark (c : Char) (joint : Bool)
  /-- A number, a character or a string. -/
  | literal
  /-- An opening delimiter. -/
  | opening (c : Char)
  /-- A closing delimiter. -/
  | closing (c : Char)
deriving DecidableEq, Repr, Inhabited

/-- A scanner gives what follows the part it accepts, or refuses. -/
abbrev Scanner := List Char → Option (List Char)

namespace Lexeme

/-- Characters that stand between lexemes, with the marks of writing direction. -/
def blankRanges : List (Nat × Nat) :=
  [(9, 13), (32, 32), (133, 133), (160, 160), (5760, 5760), (8192, 8202), (8206, 8207),
    (8232, 8233), (8239, 8239), (8287, 8287), (12288, 12288)]

/-- Whether a character stands between lexemes. -/
def isBlank (c : Char) : Bool := Text.inRanges blankRanges c.toNat

/-- Whether a character begins a word. -/
def isWordStart (c : Char) : Bool := Text.isIdentifierStart c || c == '_'

/-- Whether a character is a hexadecimal digit. -/
def isHex (c : Char) : Bool := c.isDigit || ('a' ≤ c && c ≤ 'f') || ('A' ≤ c && c ≤ 'F')

/-- The value of a hexadecimal digit. -/
def hexValue (c : Char) : Nat :=
  if c.isDigit then c.toNat - '0'.toNat
  else if 'a' ≤ c then c.toNat - 'a'.toNat + 10
  else c.toNat - 'A'.toNat + 10

/-- Accepts a fixed text. -/
def exactly (text : String) : Scanner := go text.toList
where
  go : List Char → Scanner
    | [], s => some s
    | _ :: _, [] => none
    | t :: ts, c :: s => if c = t then go ts s else none

/-- Whether a text begins in a certain way. -/
def begins (text : String) (s : List Char) : Bool := (exactly text s).isSome

/-! ## Comments -/

/-- The rest of a line, and the text from its end on. -/
def line : List Char → List Char × List Char
  | [] => ([], [])
  | '\n' :: s => ([], '\n' :: s)
  | '\r' :: '\n' :: s => ([], '\n' :: s)
  | c :: s => let (l, rest) := line s; (c :: l, rest)

/-- What follows a block comment of which so many levels are open. -/
def blockEnd : Nat → Scanner
  | _, [] => none
  | depth, '/' :: '*' :: s => blockEnd (depth + 1) s
  | depth, '*' :: '/' :: s => if depth ≤ 1 then some s else blockEnd (depth - 1) s
  | depth, _ :: s => blockEnd depth s

/-- What follows a block comment. -/
def block (s : List Char) : Option (List Char) :=
  match s with
  | '/' :: '*' :: inside => blockEnd 1 inside
  | _ => none

/-- Whether a text starts with a line comment that is no documentation. -/
def isLineComment (s : List Char) : Bool :=
  begins "//" s && (!begins "///" s || begins "////" s) && !begins "//!" s

/-- Whether a text starts with a block comment that is no documentation. -/
def isBlockComment (s : List Char) : Bool :=
  begins "/*" s && (!begins "/**" s || begins "/***" s) && !begins "/*!" s

/-- Passes over blanks and comments; every round consumes something. -/
def skipRounds : Nat → List Char → List Char
  | 0, s => s
  | rounds + 1, s =>
    if isLineComment s then skipRounds rounds (line s).2
    else if begins "/**/" s then skipRounds rounds (s.drop 4)
    else if isBlockComment s then
      match block s with
      | some rest => skipRounds rounds rest
      | none => s
    else
      match s with
      | c :: rest => if isBlank c then skipRounds rounds rest else s
      | [] => []

/-- Passes over blanks and comments. -/
def skip (s : List Char) : List Char := skipRounds s.length s

/-- Whether a carriage return stands without a line feed. -/
def hasBareReturn : List Char → Bool
  | [] => false
  | '\r' :: '\n' :: s => hasBareReturn s
  | '\r' :: _ => true
  | _ :: s => hasBareReturn s

/-- The content of a documentation comment, whether it documents what it stands in, and what follows
it. -/
def documentation (s : List Char) : Option (List Char × Bool × List Char) :=
  if begins "//!" s then
    let (content, rest) := line (s.drop 3)
    some (content, true, rest)
  else if begins "///" s && !begins "////" s then
    let (content, rest) := line (s.drop 3)
    some (content, false, rest)
  else if begins "/*!" s || (begins "/**" s && !begins "/***" s) then do
    let rest ← block s
    let content := (s.take (s.length - rest.length - 2)).drop 3
    some (content, begins "/*!" s, rest)
  else none

/-! ## Words -/

/-- A word that is not raw, and what follows it. -/
def plainWord (s : List Char) : Option (List Char × List Char) :=
  match s with
  | [] => none
  | c :: rest =>
    if isWordStart c then
      some (c :: rest.takeWhile Text.isIdentifierPart, rest.dropWhile Text.isIdentifierPart)
    else none

/-- Words that cannot be raw. -/
def neverRaw : List String := ["_", "super", "self", "Self", "crate"]

/-- A word, and what follows it. -/
def anyWord (s : List Char) : Option (String × List Char) :=
  match exactly "r#" s with
  | none => (plainWord s).map fun (w, rest) => (String.ofList w, rest)
  | some inside => do
    let (w, rest) ← plainWord inside
    let w := String.ofList w
    if w ∈ neverRaw then none else some ("r#" ++ w, rest)

/-- Beginnings that announce a literal rather than a word. -/
def literalBeginnings : List String :=
  ["r\"", "r#\"", "r##", "b\"", "b'", "br\"", "br#", "c\"", "cr\"", "cr#"]

/-- A word that is not the beginning of a literal. -/
def wordLexeme (s : List Char) : Option (String × List Char) :=
  if literalBeginnings.any fun b => begins b s then none else anyWord s

/-! ## Literals -/

/-- Passes over the suffix of a literal, if there is one. -/
def suffix (s : List Char) : List Char :=
  match plainWord s with
  | some (_, rest) => rest
  | none => s

/-- Accepts two digits of a hexadecimal escape. -/
def hexPair (first : Char → Bool) (both : Char → Char → Bool) : Scanner
  | a :: b :: s => if first a && isHex b && both a b then some s else none
  | _ => none

/-- The value of a Unicode escape, and what follows it, after so many digits. -/
def unicodeDigits : Nat → Nat → List Char → Option (Nat × List Char)
  | _, _, [] => none
  | count, value, c :: s =>
    if isHex c then
      if count = 6 then none else unicodeDigits (count + 1) (16 * value + hexValue c) s
    else if count = 0 then none
    else if c = '_' then unicodeDigits count value s
    else if c = '\x7d' then if value.isValidChar then some (value, s) else none
    else none

/-- The value of a Unicode escape, and what follows it. -/
def unicode : List Char → Option (Nat × List Char)
  | '\x7b' :: s => unicodeDigits 0 0 s
  | _ => none

/-- What a form of literal allows. -/
structure Form where
  /-- Letters that may follow a backslash alone. -/
  escapes : List Char
  /-- Accepts the digits of a hexadecimal escape. -/
  hex : Scanner
  /-- Whether a Unicode escape may have a value. -/
  isUnicode : Nat → Bool
  /-- Whether a character may stand for itself. -/
  isPlain : Char → Bool

/-- Text. -/
def Form.text : Form where
  escapes := ['n', 'r', 't', '\\', '\'', '"', '0']
  hex := hexPair (fun a => '0' ≤ a && a ≤ '7') fun _ _ => true
  isUnicode _ := true
  isPlain _ := true

/-- Bytes. -/
def Form.bytes : Form where
  escapes := ['n', 'r', 't', '\\', '\'', '"', '0']
  hex := hexPair isHex fun _ _ => true
  isUnicode _ := false
  isPlain c := c.toNat < 128

/-- Text without the null character. -/
def Form.terminated : Form where
  escapes := ['n', 'r', 't', '\\', '\'', '"']
  hex := hexPair isHex fun a b => !(a == '0' && b == '0')
  isUnicode n := n ≠ 0
  isPlain c := c ≠ '\x00'

/-- Accepts what follows a backslash. -/
def Form.escape (form : Form) : Scanner
  | [] => none
  | 'x' :: s => form.hex s
  | 'u' :: s =>
    match unicode s with
    | some (n, rest) => if form.isUnicode n then some rest else none
    | none => none
  | c :: s => if c ∈ form.escapes then some s else none

/-- Passes over the blanks after a backslash at the end of a line. -/
def continuation : Scanner
  | [] => none
  | '\r' :: '\n' :: s => continuation s
  | '\r' :: _ => none
  | c :: s => if c = ' ' || c = '\t' || c = '\n' then continuation s else some (c :: s)

/-- Accepts a string from after its opening quote on; every round consumes something. -/
def cookedRounds (form : Form) : Nat → Scanner
  | 0, _ => none
  | _, [] => none
  | _ + 1, '"' :: s => some (suffix s)
  | rounds + 1, '\r' :: '\n' :: s => cookedRounds form rounds s
  | _ + 1, '\r' :: _ => none
  | rounds + 1, '\\' :: '\n' :: s => do cookedRounds form rounds (← continuation s)
  | rounds + 1, '\\' :: '\r' :: s => do cookedRounds form rounds (← continuation ('\r' :: s))
  | rounds + 1, '\\' :: s => do cookedRounds form rounds (← form.escape s)
  | rounds + 1, c :: s => if form.isPlain c then cookedRounds form rounds s else none

/-- Accepts a string from after its opening quote on. -/
def cooked (form : Form) (s : List Char) : Option (List Char) :=
  cookedRounds form (s.length + 1) s

/-- Accepts a raw string from after its opening quote on. -/
def rawBody (form : Form) (hashes : List Char) : Scanner
  | [] => none
  | '\r' :: '\n' :: s => rawBody form hashes s
  | '\r' :: _ => none
  | c :: s =>
    if c = '"' && hashes.isPrefixOf s then some (suffix (s.drop hashes.length))
    else if form.isPlain c then rawBody form hashes s
    else none

/-- The most hashes that a raw string may have. -/
def maxHashes : Nat := 255

/-- Accepts a raw string from after its letters on. -/
def raw (form : Form) (s : List Char) : Option (List Char) :=
  let hashes := s.takeWhile (· = '#')
  match s.dropWhile (· = '#') with
  | '"' :: inside => if hashes.length ≤ maxHashes then rawBody form hashes inside else none
  | _ => none

/-- Accepts a quoted string, or a raw one, after some letters. -/
def stringOf (form : Form) (letters : String) (s : List Char) : Option (List Char) :=
  match exactly (letters ++ "\"") s with
  | some inside => cooked form inside
  | none => do raw form (← exactly (letters ++ "r") s)

/-- Accepts a character in single quotes after some letters. -/
def character (form : Form) (letters : String) (s : List Char) : Option (List Char) := do
  match ← exactly (letters ++ "'") s with
  | [] => none
  | '\\' :: inside => do some (suffix (← exactly "'" (← form.escape inside)))
  | c :: inside =>
    if form.isPlain c then do some (suffix (← exactly "'" inside)) else none

/-- Accepts what follows the digits of a number: a suffix, and then no part of a word. -/
def numberEnd (s : List Char) : Option (List Char) :=
  match suffix s with
  | c :: rest => if Text.isIdentifierPart c then none else some (c :: rest)
  | [] => some []

/-- Whether a character is a digit or divides digits. -/
def isDigitOrDivider (c : Char) : Bool := c.isDigit || c == '_'

/-- Accepts the exponent of a number from after its letter on. -/
def exponent (s : List Char) : Option (List Char) :=
  let afterSign := fun s : List Char =>
    let digits := s.takeWhile isDigitOrDivider
    if digits.any Char.isDigit then some (s.dropWhile isDigitOrDivider) else none
  let divided := s.dropWhile (· = '_')
  match divided with
  | '+' :: rest | '-' :: rest => afterSign rest
  | _ => afterSign s

/-- Whether a letter announces an exponent. -/
def isExponentLetter (c : Char) : Bool := c == 'e' || c == 'E'

/-- Accepts the digits of a number with a point or an exponent. -/
def floatDigits (s : List Char) : Option (List Char) :=
  match s with
  | [] => none
  | first :: rest =>
    if !first.isDigit then none
    else
      match rest.dropWhile isDigitOrDivider with
      | '.' :: fraction =>
        match fraction with
        | c :: _ =>
          if c = '.' || isWordStart c then none
          else
            match fraction.dropWhile isDigitOrDivider with
            | e :: power =>
              if isExponentLetter e then some ((exponent power).getD (e :: power))
              else some (e :: power)
            | [] => some []
        | [] => some []
      | e :: power => if isExponentLetter e then exponent power else none
      | [] => none

/-- Accepts the digits of a whole number in a base; a decimal digit beyond the base is refused, and a
number to base ten does not begin with a divider. -/
def baseDigits (base : Nat) : Bool → Scanner
  | empty, [] => if empty then none else some []
  | empty, c :: s =>
    if c = '_' then
      if empty && base == 10 then none else baseDigits base empty s
    else if isHex c && hexValue c < base then baseDigits base false s
    else if c.isDigit then none
    else if empty then none
    else some (c :: s)

/-- Accepts the digits of a whole number. -/
def intDigits (s : List Char) : Option (List Char) :=
  match s with
  | '0' :: 'x' :: rest => baseDigits 16 true rest
  | '0' :: 'o' :: rest => baseDigits 8 true rest
  | '0' :: 'b' :: rest => baseDigits 2 true rest
  | _ => baseDigits 10 true s

/-- The scanners of literals, in the order they are tried. -/
def literals : List Scanner :=
  [stringOf .text "", stringOf .bytes "b", stringOf .terminated "c", character .bytes "b",
    character .text "", fun s => do numberEnd (← floatDigits s),
    fun s => do numberEnd (← intDigits s)]

/-- Accepts a literal. -/
def literalEnd (s : List Char) : Option (List Char) := literals.findSome? fun scan => scan s

/-! ## Punctuation -/

/-- The punctuation marks. -/
def marks : List Char := "~!@#$%^&*-=+|;:,<.>/?'".toList

/-- Whether a punctuation mark comes next; a comment is none. -/
def beginsMark (s : List Char) : Bool :=
  match s with
  | [] => false
  | c :: _ => !begins "//" s && !begins "/*" s && c ∈ marks

/-- A punctuation mark, and what follows it. A single quote is one only in front of a word that no
other quote closes. -/
def markLexeme (s : List Char) : Option (Lexeme × List Char) :=
  match s with
  | [] => none
  | c :: rest =>
    if !beginsMark s then none
    else if c = '\'' then do
      let (_, after) ← anyWord rest
      if begins "'" after || (begins "#" after && !begins "r#" rest) then none
      else some (.mark c true, rest)
    else some (.mark c (beginsMark rest), rest)

/-! ## Texts -/

/-- A comment that stands for a piece of code that is missing; it counts as a literal. -/
def placeholder : String := "(/*ERROR*/)"

/-- A lexeme, and what follows it. -/
def next (s : List Char) : Option (Lexeme × List Char) :=
  match s with
  | [] => none
  | c :: rest =>
    if begins placeholder s then some (.literal, s.drop placeholder.length)
    else if c ∈ ['(', '[', '\x7b'] then some (.opening c, rest)
    else if c ∈ [')', ']', '\x7d'] then some (.closing c, rest)
    else
      match literalEnd s with
      | some rest => some (.literal, rest)
      | none =>
        match markLexeme s with
        | some found => some found
        | none => (wordLexeme s).map fun (w, rest) => (.word w, rest)

/-- The lexemes of a documentation comment, which stands for an attribute. -/
def attributeLexemes (inner : Bool) : List Lexeme :=
  [.mark '#' false] ++ (if inner then [.mark '!' false] else []) ++
    [.opening '[', .word "doc", .mark '=' false, .literal, .closing ']']

/-- The lexemes of a text; every round consumes something. -/
def rounds : Nat → List Char → Option (List Lexeme)
  | 0, _ => none
  | n + 1, s =>
    let s := skip s
    match documentation s with
    | some (content, inner, rest) =>
      if hasBareReturn content then none
      else do some (attributeLexemes inner ++ (← rounds n rest))
    | none =>
      if s.isEmpty then some []
      else do
        let (lexeme, rest) ← next s
        some (lexeme :: (← rounds n rest))

/-- The delimiter that closes another. -/
def counterpart : Char → Char
  | '(' => ')'
  | '[' => ']'
  | _ => '\x7d'

/-- Whether every delimiter is closed by its counterpart, given those that have to be closed. -/
def balanced : List Char → List Lexeme → Bool
  | awaited, [] => awaited.isEmpty
  | awaited, .opening c :: rest => balanced (counterpart c :: awaited) rest
  | awaited, .closing c :: rest =>
    match awaited with
    | [] => false
    | a :: more => a == c && balanced more rest
  | awaited, _ :: rest => balanced awaited rest

/-- The byte order mark, which may stand at the start. -/
def byteOrderMark : Char := '\ufeff'

/-- The lexemes of a text whose delimiters are balanced. -/
def ofText (text : String) : Option (List Lexeme) := do
  let s := text.toList
  let s := if s.head? = some byteOrderMark then s.drop 1 else s
  let found ← rounds (s.length + 1) s
  if balanced [] found then some found else none

end Lexeme

end EntitySchema.Code
