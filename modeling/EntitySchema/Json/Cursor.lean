/-!
# Positions in a text

A cursor is the text still to be read with the line and the column reached. Lines count from one;
columns count the bytes of the UTF-8 form since the last line feed.

Two positions matter when something is wrong: where reading stands, and where it would stand after
one more byte. The latter points at the byte that is refused, if there is one.
-/

namespace EntitySchema.Json

/-- A line and a column. -/
structure Position where
  /-- The line, from one. -/
  line : Nat
  /-- The number of bytes read in the line. -/
  column : Nat
deriving DecidableEq, Repr, Inhabited

/-- The position after `n` bytes of a text, which may end inside a character. -/
def Position.afterBytes (p : Position) : (n : Nat) → List Char → Position
  | _, [] => p
  | 0, _ => p
  | n + 1, c :: rest =>
    if c = '\n' then afterBytes ⟨p.line + 1, 0⟩ n rest
    else if c.utf8Size ≤ n + 1 then afterBytes ⟨p.line, p.column + c.utf8Size⟩ (n + 1 - c.utf8Size) rest
    else ⟨p.line, p.column + (n + 1)⟩

/-- A text with the position reached. -/
structure Cursor where
  /-- What is still to be read. -/
  rest : List Char
  /-- Where reading stands. -/
  position : Position
deriving Inhabited

namespace Cursor

/-- The start of a text. -/
def start (text : String) : Cursor := ⟨text.toList, ⟨1, 0⟩⟩

/-- The next character, which stays unread. -/
def peek (c : Cursor) : Option Char := c.rest.head?

/-- The position after one more byte. -/
def peekPosition (c : Cursor) : Position :=
  match c.rest with
  | [] => c.position
  | x :: _ => if x = '\n' then ⟨c.position.line + 1, 0⟩ else ⟨c.position.line, c.position.column + 1⟩

/-- The position after `n` more bytes. -/
def positionAfter (c : Cursor) (n : Nat) : Position := c.position.afterBytes n c.rest

/-- Passes over one character. -/
def advance (c : Cursor) : Cursor :=
  match c.rest with
  | [] => c
  | x :: rest =>
    ⟨rest, if x = '\n' then ⟨c.position.line + 1, 0⟩
      else ⟨c.position.line, c.position.column + x.utf8Size⟩⟩

/-- Whether a character separates tokens. -/
def isBlank (x : Char) : Bool := x = ' ' || x = '\n' || x = '\t' || x = '\r'

/-- Passes over characters that satisfy a condition. -/
def skipWhile (p : Char → Bool) : List Char → Position → Cursor
  | [], at_ => ⟨[], at_⟩
  | x :: rest, at_ =>
    if p x then
      skipWhile p rest (if x = '\n' then ⟨at_.line + 1, 0⟩ else ⟨at_.line, at_.column + x.utf8Size⟩)
    else
      ⟨x :: rest, at_⟩

/-- Passes over blanks. -/
def skipBlanks (c : Cursor) : Cursor := skipWhile isBlank c.rest c.position

/-- The digits at the position, and what follows them. -/
def digits (c : Cursor) : List Nat × Cursor :=
  ((c.rest.takeWhile Char.isDigit).map fun x => x.toNat - '0'.toNat,
    skipWhile Char.isDigit c.rest c.position)

end Cursor

end EntitySchema.Json
