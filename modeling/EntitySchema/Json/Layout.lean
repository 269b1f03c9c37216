import EntitySchema.Json.Skip

/-!
# Layouts of records

A `Layout` describes which JSON a reader accepts: texts, 32-bit numbers, lists, values that may be
`null`, and records with named members. `Layout.Content` is the type of what is read, and
`Layout.read` the one reader for all layouts.

A record is written as an object, with its members in any order and unknown members passed over, or
as a list of its members in their declared order. Members that are not required may be left out, at
the end of a list too.

## Implementation notes

Members of an object come in any order, so they are collected in `Slots`, one optional place for
each declared member; `Slots.finish` checks at the end that no required place is empty.
-/

namespace EntitySchema.Json

/-- A declared member of a record. -/
structure Member (α : Type) where
  /-- Its key. -/
  key : String
  /-- Whether it has to be present. -/
  required : Bool
  /-- What it holds. -/
  layout : α

/-- Which JSON is accepted. -/
inductive Layout where
  /-- A string. -/
  | text
  /-- A number below `2 ^ 32`. -/
  | word
  /-- A list of items. -/
  | list (item : Layout)
  /-- A value or `null`. -/
  | optional (inner : Layout)
  /-- A record with declared members. -/
  | record (name : String) (members : List (Member Layout))

/-- What is read for a member: nothing only if it is not required. -/
abbrev Presence (required : Bool) (α : Type) : Type :=
  match required with
  | true => α
  | false => Option α

namespace Presence

variable {α : Type}

/-- A member that is there. -/
def present (required : Bool) (a : α) : Presence required α :=
  match required with
  | true => a
  | false => some a

/-- A member that is absent, if it may be. -/
def absent (required : Bool) : Option (Presence required α) :=
  match required with
  | true => none
  | false => some none

end Presence

mutual

/-- What is read for a layout. -/
def Layout.Content : Layout → Type
  | .text => String
  | .word => UInt32
  | .list item => List item.Content
  | .optional inner => Option inner.Content
  | .record _ members => Layout.Contents members

/-- What is read for the members of a record. -/
def Layout.Contents : List (Member Layout) → Type
  | [] => Unit
  | ⟨_, required, layout⟩ :: rest => Presence required layout.Content × Layout.Contents rest

end

/-- Places for the members of a record while it is being read. -/
def Slots : List (Member Layout) → Type
  | [] => Unit
  | m :: rest => Option m.layout.Content × Slots rest

namespace Slots

/-- All places empty. -/
def empty : (members : List (Member Layout)) → Slots members
  | [] => ()
  | _ :: rest => (none, empty rest)

/-- The members read, or the key of the first required one that is absent. -/
def finish : (members : List (Member Layout)) → Slots members → Except String (Layout.Contents members)
  | [], () => .ok ()
  | ⟨key, required, _⟩ :: rest, (slot, slots) =>
    match slot.map (Presence.present required) <|> Presence.absent required with
    | some v => do pure (v, ← finish rest slots)
    | none => .error key

end Slots

/-- Fails because something else is wanted than what stands at the position. -/
def mismatch {α : Type} (wanted : String) (c : Cursor) : Except Fault α :=
  let wrong (found : Found) (c : Cursor) : Except Fault α := c.fail (.invalidType found wanted)
  match c.peek with
  | some 'n' => do wrong .null (← readWord "ull".toList c.advance)
  | some 't' => do wrong (.boolean true) (← readWord "rue".toList c.advance)
  | some 'f' => do wrong (.boolean false) (← readWord "alse".toList c.advance)
  | some '"' => do
    let (s, c) ← readString c.advance
    wrong (.string s) c
  | some '-' => do
    let (n, c) ← readNumber true c.advance
    wrong n.found c
  | some '[' => wrong .sequence c
  | some '{' => wrong .map c
  | some x =>
    if x.isDigit then do
      let (n, c) ← readNumber false c
      wrong n.found c
    else c.refuse .expectedValue
  | none => c.refuse .endOfValue

/-- Reads a string. -/
def readText (wanted : String) : Reader String := fun c =>
  let c := c.skipBlanks
  match c.peek with
  | some '"' => readString c.advance
  | _ => mismatch wanted c

/-- The 32-bit number of a number. -/
def Number.toWord (wanted : String) (n : Number) (c : Cursor) : Except Fault UInt32 :=
  match n with
  | .natural m =>
    if m < UInt32.size then .ok (UInt32.ofNat m) else c.fail (.invalidValue n.found wanted)
  | .negative _ => c.fail (.invalidValue n.found wanted)
  | .decimal _ _ => c.fail (.invalidType n.found wanted)

/-- Reads a 32-bit number. -/
def readUInt32 (wanted : String) : Reader UInt32 := fun c => do
  let c := c.skipBlanks
  match c.peek with
  | some x =>
    if x = '-' || x.isDigit then
      let (n, c) ← readNumber (x = '-') (if x = '-' then c.advance else c)
      pure (← n.toWord wanted c, c)
    else mismatch wanted c
  | none => mismatch wanted c

/-- Looks for the next item of a list: whether there is one, and the position of it or of the
closing bracket. -/
def nextItem (first : Bool) (c : Cursor) : Except Fault (Bool × Cursor) :=
  let c := c.skipBlanks
  match c.peek with
  | some ']' => .ok (false, c)
  | some x =>
    if first then .ok (true, c)
    else if x = ',' then
      let c := c.advance.skipBlanks
      match c.peek with
      | some ']' => c.refuse .trailingComma
      | some _ => .ok (true, c)
      | none => c.refuse .endOfValue
    else c.refuse .expectedListEnd
  | none => c.refuse .endOfList

/-- Reads the items of a list up to its closing bracket, collecting them in reverse. -/
def readItems {α : Type} (item : Reader α) : (fuel index : Nat) → List α → Reader (List α)
  | 0, _, _, c => c.fail .endOfList
  | fuel + 1, index, acc, c => do
    let (more, c) ← nextItem (index == 0) c
    if more then
      let (v, c) ← Fault.under (.index index) (item c)
      readItems item fuel (index + 1) (v :: acc) c
    else
      pure (acc.reverse, c.advance)

/-- Reads a list. -/
def readList {α : Type} (item : Reader α) (wanted : String) : Reader (List α) := fun c =>
  let c := c.skipBlanks
  match c.peek with
  | some '[' => readItems item (c.rest.length + 1) 0 [] c.advance
  | _ => mismatch wanted c

/-- Reads a value or `null`. -/
def readOptional {α : Type} (inner : Reader α) : Reader (Option α) := fun c => do
  let c := c.skipBlanks
  match c.peek with
  | some 'n' => pure (none, ← readWord "ull".toList c.advance)
  | _ =>
    let (v, c) ← inner c
    pure (some v, c)

/-- Looks for the next key of an object and reads it, or stops at the closing brace. -/
def nextKey (first : Bool) : Reader (Option String) := fun c => do
  let c := c.skipBlanks
  let quoted (c : Cursor) : Except Fault (Option String × Cursor) := do
    let (key, c) ← readString c.advance
    pure (some key, c)
  match c.peek with
  | some '}' => pure (none, c)
  | some x =>
    if first then
      if x = '"' then quoted c else c.refuse .keyNotString
    else if x = ',' then
      let c := c.advance.skipBlanks
      match c.peek with
      | some '"' => quoted c
      | some '}' => c.refuse .trailingComma
      | some _ => c.refuse .keyNotString
      | none => c.refuse .endOfValue
    else c.refuse .expectedObjectEnd
  | none => c.refuse .endOfObject

/-- Reads the colon between a key and its value. -/
def readColon (c : Cursor) : Except Fault Cursor :=
  let c := c.skipBlanks
  match c.peek with
  | some ':' => .ok c.advance
  | some _ => c.refuse .expectedColon
  | none => c.refuse .endOfObject

/-- Reads the members of an object up to its closing brace, handing each key to `member`. -/
def readEntries {σ : Type} (member : String → σ → Reader σ) : (fuel : Nat) → Bool → σ → Reader σ
  | 0, _, _, c => c.fail .endOfObject
  | fuel + 1, first, s, c => do
    let (key, c) ← Fault.under .unknown (nextKey first c)
    match key with
    | none => pure (s, c.advance)
    | some key =>
      let (s, c) ← member key s c
      readEntries member fuel false s c

/-- Fails because a member comes twice. The object counts as read up to its end if that is next. -/
def repeated {α : Type} (key : String) (c : Cursor) : Except Fault α :=
  let c := c.skipBlanks
  (if c.peek == some '}' then c.advance else c).fail (.duplicateField key)

/-- Reads the end of a record written as a list. -/
def readListEnd (c : Cursor) : Except Fault Cursor :=
  let c := c.skipBlanks
  match c.peek with
  | some ']' => .ok c.advance
  | some ',' =>
    let c := c.advance.skipBlanks
    c.refuse (if c.peek == some ']' then .trailingComma else .trailingCharacters)
  | some _ => c.refuse .trailingCharacters
  | none => c.refuse .endOfList

/-- Reads a record in either of its forms. -/
def readRecord {members : List (Member Layout)} (name : String)
    (member : String → Slots members → Reader (Slots members))
    (items : Reader (Layout.Contents members)) : Reader (Layout.Contents members) := fun c => do
  let c := c.skipBlanks
  match c.peek with
  | some '{' =>
    let (slots, c) ← readEntries member (c.rest.length + 1) true (Slots.empty members) c.advance
    match slots.finish members with
    | .ok contents => pure (contents, c)
    | .error key => c.fail (.missingField key)
  | some '[' =>
    let (contents, c) ← items c.advance
    pure (contents, ← readListEnd c)
  | _ => mismatch ("struct " ++ name) c

mutual

/-- Reads what a layout describes. -/
def Layout.read : (layout : Layout) → Reader layout.Content
  | .text => readText "a string"
  | .word => readUInt32 "u32"
  | .list item => readList item.read "a sequence"
  | .optional inner => readOptional inner.read
  | .record name members =>
    readRecord name (Layout.readMember members) (Layout.readInOrder name members.length members 0)

/-- Reads the value of the member with the given key into its place; the value of an unknown member
is passed over. -/
def Layout.readMember : (members : List (Member Layout)) → String → Slots members →
    Reader (Slots members)
  | [], key, slots, c => do
    let c ← readColon c
    pure (slots, ← Fault.under (.key key) (skipValue c))
  | ⟨name, _, layout⟩ :: rest, key, (slot, slots), c =>
    if key = name then
      match slot with
      | some _ => repeated key c
      | none => do
        let c ← readColon c
        let (v, c) ← Fault.under (.key key) (layout.read c)
        pure ((some v, slots), c)
    else do
      let (slots, c) ← Layout.readMember rest key slots c
      pure ((slot, slots), c)

/-- Reads members in their declared order, from the item with the given index on. -/
def Layout.readInOrder (record : String) (total : Nat) :
    (members : List (Member Layout)) → Nat → Reader (Layout.Contents members)
  | [], _, c => .ok ((), c)
  | ⟨_, required, layout⟩ :: rest, index, c => do
    let (more, c) ← nextItem (index == 0) c
    if more then
      let (v, c) ← Fault.under (.index index) (layout.read c)
      let (vs, c) ← Layout.readInOrder record total rest (index + 1) c
      pure ((Presence.present required v, vs), c)
    else
      match Presence.absent required with
      | some v =>
        let (vs, c) ← Layout.readInOrder record total rest (index + 1) c
        pure ((v, vs), c)
      | none => c.advance.fail (.invalidLength index record total)

end

/-- Reads a text by a layout; what follows the first value is not looked at. -/
def Layout.parse (layout : Layout) (text : String) : Except Fault layout.Content :=
  (layout.read (Cursor.start text)).map Prod.fst

end EntitySchema.Json
