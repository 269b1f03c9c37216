import EntitySchema.Json.Lexeme

/-!
# Values that are passed over

A member that a record does not know is read only to find its end. Its value may nest to any depth:
the brackets still open are kept in a list, innermost first. Every two steps read at least one
character, so twice the length of the text bounds the number of steps.
-/

namespace EntitySchema.Json

/-- What an open bracket encloses. -/
inductive Bracket where
  | list
  | object
deriving DecidableEq, Repr, Inhabited

namespace Bracket

/-- The closing character. -/
def close : Bracket → Char
  | .list => ']'
  | .object => '}'

/-- The reason when the text ends inside. -/
def endReason : Bracket → Reason
  | .list => .endOfList
  | .object => .endOfObject

/-- The reason when an item is followed by neither a comma nor the closing character. -/
def separatorReason : Bracket → Reason
  | .list => .expectedListEnd
  | .object => .expectedObjectEnd

end Bracket

/-- Passes over an exponent, starting at its mark. -/
def skipExponent (c : Cursor) : Except Fault Cursor :=
  let c := c.advance
  let c := match c.peek with
    | some '+' | some '-' => c.advance
    | _ => c
  if c.peek.any Char.isDigit then .ok c.digits.2
  else .error { reason := .invalidNumber, position := c.peekPosition }

/-- Passes over what may follow the digits of a number: an exponent, or nothing. -/
def skipScale (c : Cursor) : Except Fault Cursor :=
  match c.peek with
  | some 'e' | some 'E' => skipExponent c
  | _ => .ok c

/-- Passes over a number, behind its sign if it has one. -/
def skipNumber (c : Cursor) : Except Fault Cursor :=
  if !c.peek.any Char.isDigit then
    .error { reason := .invalidNumber, position := c.peekPosition }
  else if c.peek == some '0' && c.advance.peek.any Char.isDigit then
    c.advance.refuse .invalidNumber
  else
    let after := c.digits.2
    match after.peek with
    | some '.' =>
      let c := after.advance
      if c.peek.any Char.isDigit then skipScale c.digits.2 else c.refuse .invalidNumber
    | _ => skipScale after

/-- Passes over a value without parts. -/
def skipScalar (c : Cursor) : Except Fault Cursor :=
  match c.peek with
  | some 'n' => readWord "ull".toList c.advance
  | some 't' => readWord "rue".toList c.advance
  | some 'f' => readWord "alse".toList c.advance
  | some '"' => skipString c.advance
  | some '-' => skipNumber c.advance
  | some x => if x.isDigit then skipNumber c else c.refuse .expectedValue
  | none => c.refuse .endOfValue

/-- Passes over a key and its colon. -/
def skipKey (c : Cursor) : Except Fault Cursor := do
  let c := c.skipBlanks
  match c.peek with
  | some '"' =>
    let c ← skipString c.advance
    let c := c.skipBlanks
    match c.peek with
    | some ':' => pure c.advance
    | some _ => c.refuse .expectedColon
    | none => c.refuse .endOfObject
  | some _ => c.refuse .keyNotString
  | none => c.refuse .endOfObject

mutual

/-- Passes over a value inside the given brackets, and then to the end of the outermost one. -/
def skipValueFrom : (fuel : Nat) → List Bracket → Cursor → Except Fault Cursor
  | 0, _, c => c.fail .endOfValue
  | fuel + 1, stack, c =>
    let c := c.skipBlanks
    match c.peek with
    | some '[' => skipRestFrom fuel .list stack true c.advance
    | some '{' => skipRestFrom fuel .object stack true c.advance
    | _ => do
      let c ← skipScalar c
      match stack with
      | [] => pure c
      | b :: outer => skipRestFrom fuel b outer false c

/-- Passes over the items left inside a bracket, which was just opened or holds an item already, and
then to the end of the outermost one. -/
def skipRestFrom : (fuel : Nat) → Bracket → List Bracket → Bool → Cursor → Except Fault Cursor
  | 0, _, _, _, c => c.fail .endOfValue
  | fuel + 1, b, outer, opened, c =>
    let c := c.skipBlanks
    match c.peek with
    | none => c.refuse b.endReason
    | some x =>
      if x = b.close then
        match outer with
        | [] => .ok c.advance
        | b :: outer => skipRestFrom fuel b outer false c.advance
      else if opened || x = ',' then do
        let c := if opened then c else c.advance
        let c ← if b = .object then skipKey c else pure c
        skipValueFrom fuel (b :: outer) c
      else
        c.refuse b.separatorReason

end

/-- Passes over one value. -/
def skipValue (c : Cursor) : Except Fault Cursor := skipValueFrom (2 * c.rest.length + 2) [] c

end EntitySchema.Json
