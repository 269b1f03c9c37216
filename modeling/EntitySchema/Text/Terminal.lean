import EntitySchema.Text.Quoted

/-!
# Text for a terminal

Some control characters start commands of a terminal. In text that is reported to one they are
written by their numbers, so that the text cannot steer it; line ends and tabs stay.
-/

namespace EntitySchema.Text

/-- The control characters of ASCII that steer a terminal: bell, backspace, form feed, escape and
delete. -/
def steering : List Char := ['\x07', '\x08', '\x0c', '\x1b', '\x7f']

/-- Two hexadecimal digits of a number below 256. -/
def hexPair (n : Nat) : String := String.ofList [Nat.digitChar (n / 16), Nat.digitChar (n % 16)]

/-- The form of a character that does not steer a terminal. -/
def tame (c : Char) : String :=
  if c ∈ steering then "\\x" ++ hexPair c.toNat
  else if 128 ≤ c.toNat && c.toNat < 160 then "\\u\x7b" ++ hex c.toNat ++ "\x7d"
  else String.singleton c

/-- A text that does not steer a terminal. -/
def forTerminal (text : String) : String := String.join (text.toList.map tame)

end EntitySchema.Text
