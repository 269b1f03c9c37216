import Mathlib
import EntitySchema.Json.Layout

/-!
# Spellings of JSON values

A JSON value has many texts: blanks stand between tokens, characters of a string may be escaped, and
the entries of an object come in any order. A `Tree` is a value with all of these choices made, and
`Tree.text` is the text that results. Every text of the JSON grammar is the text of a tree.

`Piece.meaning` is the string that a spelled string stands for. There is none if a surrogate is not
one half of a pair; such a string is still JSON.

## Implementation notes

The grammar's conditions are fields of the parts: blanks are blank, characters that stand for
themselves need no escape, and numerals have no superfluous zero. Trees need no further condition.
-/

namespace EntitySchema.Json

/-- Blanks between two tokens. -/
structure Blanks where
  /-- The characters. -/
  chars : List Char
  /-- Each of them is a blank. -/
  blank : ∀ x ∈ chars, x ∈ [' ', '\t', '\n', '\r']

/-- No blanks. -/
def Blanks.none : Blanks := ⟨[], by simp⟩

/-- A hexadecimal digit; the letters among them have two forms. -/
structure HexDigit where
  /-- The value. -/
  value : Fin 16
  /-- Whether a letter is written in upper case. -/
  isUpper : Bool

/-- The character of a hexadecimal digit. -/
def HexDigit.char (d : HexDigit) : Char :=
  if d.value < 10 then Char.ofNat ('0'.toNat + d.value)
  else Char.ofNat ((if d.isUpper then 'A' else 'a').toNat + (d.value - 10))

/-- The letters that make an escape, with what they stand for. -/
def escapes : List (Char × Char) :=
  [('"', '"'), ('\\', '\\'), ('/', '/'), ('b', '\x08'), ('f', '\x0c'), ('n', '\n'), ('r', '\r'),
    ('t', '\t')]

/-- A unit of sixteen bits, by its four digits. -/
structure CodeUnit where
  (first second third fourth : HexDigit)

namespace CodeUnit

/-- The digits of a unit. -/
def digits (u : CodeUnit) : List Char :=
  [u.first.char, u.second.char, u.third.char, u.fourth.char]

/-- The number of a unit. -/
def code (u : CodeUnit) : Nat :=
  4096 * u.first.value + 256 * u.second.value + 16 * u.third.value + u.fourth.value

/-- The unit of a number below `2 ^ 16`, with its letters in one case. -/
def ofNat (n : Nat) (isUpper : Bool) : CodeUnit :=
  ⟨⟨Fin.ofNat 16 (n / 4096), isUpper⟩, ⟨Fin.ofNat 16 (n / 256), isUpper⟩,
    ⟨Fin.ofNat 16 (n / 16), isUpper⟩, ⟨Fin.ofNat 16 n, isUpper⟩⟩

end CodeUnit

/-- A part of a spelled string. -/
inductive Piece where
  /-- A character that stands for itself. -/
  | plain (x : Char) (allowed : x ≠ '"' ∧ x ≠ '\\' ∧ 0x20 ≤ x.toNat)
  /-- An escape by a letter. -/
  | letter (x y : Char) (listed : (x, y) ∈ escapes)
  /-- A numbered escape. -/
  | unit (u : CodeUnit)

namespace Piece

/-- The text of a piece. -/
def text : Piece → List Char
  | .plain x _ => [x]
  | .letter x _ _ => ['\\', x]
  | .unit u => '\\' :: 'u' :: u.digits

/-- The characters that pieces stand for. Two halves of a surrogate pair make one character. -/
def meaning : List Piece → Option (List Char)
  | [] => some []
  | .plain x _ :: rest => (meaning rest).map (x :: ·)
  | .letter _ y _ :: rest => (meaning rest).map (y :: ·)
  | .unit u :: rest =>
    if u.code < 0xD800 ∨ 0xDFFF < u.code then (meaning rest).map (Char.ofNat u.code :: ·)
    else
      match rest with
      | .unit v :: rest =>
        if u.code < 0xDC00 ∧ 0xDC00 ≤ v.code ∧ v.code ≤ 0xDFFF then
          (meaning rest).map
            (Char.ofNat (0x10000 + 0x400 * (u.code - 0xD800) + (v.code - 0xDC00)) :: ·)
        else none
      | _ => none

end Piece

/-- The text of a string between its quotes. -/
def quotedText (pieces : List Piece) : List Char := '"' :: (pieces.flatMap Piece.text ++ ['"'])

/-- The string that pieces stand for. -/
def nameOf (pieces : List Piece) : Option String := (Piece.meaning pieces).map String.ofList

/-- The character of a decimal digit. -/
def digitChar (d : Fin 10) : Char := Char.ofNat ('0'.toNat + d)

/-- A row of digits that is not empty. -/
structure Numeral where
  /-- The first digit. -/
  first : Fin 10
  /-- The digits behind it. -/
  more : List (Fin 10)

namespace Numeral

/-- The numeral of a number below ten. -/
def ofNat (n : Nat) : Numeral := ⟨Fin.ofNat 10 n, []⟩

/-- The text of a numeral. -/
def text (n : Numeral) : List Char := digitChar n.first :: n.more.map digitChar

/-- The number that a numeral stands for. -/
def value (n : Numeral) : Nat := n.more.foldl (fun v d => 10 * v + d.val) n.first.val

end Numeral

/-- The exponent of a number. -/
structure Exponent where
  /-- Whether its mark is in upper case. -/
  isUpper : Bool
  /-- Its sign if it has one: whether it is negative. -/
  sign : Option Bool
  /-- Its digits. -/
  digits : Numeral

/-- The text of an exponent. -/
def Exponent.text (e : Exponent) : List Char :=
  (if e.isUpper then 'E' else 'e') ::
    ((match e.sign with
      | none => []
      | some true => ['-']
      | some false => ['+']) ++ e.digits.text)

/-- A spelled number. -/
structure Figure where
  /-- Whether it has a minus sign. -/
  isNegative : Bool
  /-- The digits before the point. -/
  whole : Numeral
  /-- A zero in front stands alone. -/
  canonical : whole.first = 0 → whole.more = []
  /-- The digits behind the point, if there is one. -/
  fraction : Option Numeral
  /-- The exponent, if there is one. -/
  exponent : Option Exponent

namespace Figure

/-- A number with one digit before the point. -/
def ofDigit (isNegative : Bool) (n : Nat) (fraction : Option Numeral)
    (exponent : Option Exponent) : Figure :=
  ⟨isNegative, .ofNat n, fun _ => rfl, fraction, exponent⟩

/-- The text of the fraction. -/
def fractionText : Option Numeral → List Char
  | none => []
  | some n => '.' :: n.text

/-- The text of the exponent. -/
def exponentText : Option Exponent → List Char
  | none => []
  | some e => e.text

/-- The text behind the sign. -/
def unsignedText (f : Figure) : List Char :=
  f.whole.text ++ (fractionText f.fraction ++ exponentText f.exponent)

/-- The text of a number. -/
def text (f : Figure) : List Char := if f.isNegative then '-' :: f.unsignedText else f.unsignedText

/-- A number written by its decimal digits alone. -/
def IsPlain (f : Figure) (n : Nat) : Prop :=
  f.isNegative = false ∧ f.fraction = none ∧ f.exponent = none ∧ f.whole.value = n

end Figure

/-- An item of a list with the blanks around it. -/
structure Item (α : Type) where
  /-- The blanks before the item. -/
  before : Blanks
  /-- The item itself. -/
  value : α
  /-- The blanks behind the item. -/
  after : Blanks

/-- An entry of an object with the blanks around its tokens. -/
structure Entry (α : Type) where
  /-- The blanks before the key. -/
  before : Blanks
  /-- The spelled key. -/
  key : List Piece
  /-- The blanks between the key and the colon. -/
  aside : Blanks
  /-- The blanks between the colon and the value. -/
  gap : Blanks
  /-- The value. -/
  value : α
  /-- The blanks behind the value. -/
  after : Blanks

/-- A spelled value. -/
inductive Tree where
  | null
  | boolean (b : Bool)
  | number (f : Figure)
  | string (pieces : List Piece)
  | list (inside : Blanks) (items : List (Item Tree))
  | object (inside : Blanks) (entries : List (Entry Tree))

/-- Texts with commas between them. -/
def commas : List (List Char) → List Char
  | [] => []
  | [x] => x
  | x :: y :: rest => x ++ ',' :: commas (y :: rest)

mutual

/-- The text of a value. -/
def Tree.text : Tree → List Char
  | .null => ['n', 'u', 'l', 'l']
  | .boolean true => ['t', 'r', 'u', 'e']
  | .boolean false => ['f', 'a', 'l', 's', 'e']
  | .number f => f.text
  | .string pieces => quotedText pieces
  | .list inside items => '[' :: (inside.chars ++ (commas (itemTexts items) ++ [']']))
  | .object inside entries => '{' :: (inside.chars ++ (commas (entryTexts entries) ++ ['}']))

/-- The texts of items. -/
def itemTexts : List (Item Tree) → List (List Char)
  | [] => []
  | ⟨before, value, after⟩ :: rest => (before.chars ++ (value.text ++ after.chars)) :: itemTexts rest

/-- The texts of entries. -/
def entryTexts : List (Entry Tree) → List (List Char)
  | [] => []
  | ⟨before, key, aside, gap, value, after⟩ :: rest =>
    (before.chars ++ (quotedText key ++ (aside.chars ++ ':' :: (gap.chars ++
      (value.text ++ after.chars))))) :: entryTexts rest

end

/-- The text of an item. -/
def Item.text (x : Item Tree) : List Char := x.before.chars ++ (x.value.text ++ x.after.chars)

/-- The text of an entry. -/
def Entry.text (e : Entry Tree) : List Char :=
  e.before.chars ++ (quotedText e.key ++ (e.aside.chars ++ ':' :: (e.gap.chars ++
    (e.value.text ++ e.after.chars))))

theorem itemTexts_eq (items : List (Item Tree)) : itemTexts items = items.map Item.text := by
  induction items with
  | nil => simp [itemTexts]
  | cons x rest ih => simp [itemTexts, Item.text, ih]

theorem entryTexts_eq (entries : List (Entry Tree)) :
    entryTexts entries = entries.map Entry.text := by
  induction entries with
  | nil => simp [entryTexts]
  | cons e rest ih => simp [entryTexts, Entry.text, ih]

/-- What holds of a value whenever it holds of its parts holds of every value. -/
@[elab_as_elim, induction_eliminator]
theorem Tree.induct {motive : Tree → Prop} (null : motive .null)
    (boolean : ∀ b, motive (.boolean b)) (number : ∀ f, motive (.number f))
    (string : ∀ pieces, motive (.string pieces))
    (list : ∀ inside items, (∀ x ∈ items, motive x.value) → motive (.list inside items))
    (object : ∀ inside entries, (∀ e ∈ entries, motive e.value) → motive (.object inside entries))
    (t : Tree) : motive t :=
  @Tree.rec motive (fun items => ∀ x ∈ items, motive x.value)
    (fun entries => ∀ e ∈ entries, motive e.value) (fun x => motive x.value)
    (fun e => motive e.value) null boolean number string list object
    (by simp) (fun _ _ hx hrest => List.forall_mem_cons.2 ⟨hx, hrest⟩)
    (by simp) (fun _ _ he hrest => List.forall_mem_cons.2 ⟨he, hrest⟩)
    (fun _ _ _ ih => ih) (fun _ _ _ _ _ _ ih => ih) t

end EntitySchema.Json
