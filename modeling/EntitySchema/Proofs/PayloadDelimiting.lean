import EntitySchema.Proofs.Delimiting
import EntitySchema.Wire.Payload

/-!
# Decoders stay within the bytes and see where they end

The decoder of objects and the decoders of the four payloads are one reader each, run from the start
of the string, that has to end where the string does. Every such reader delimits what it reads. So
no decoder takes a byte that is not there, and a string that is accepted is refused when it is cut,
for want of bytes, and when it is continued, for the bytes behind.

## Implementation notes

A header is read at fixed positions of the string rather than by a cursor. It is the same as taking
its nine bytes and reading it from them alone.
-/

namespace EntitySchema.Wire

variable {α : Type}

/-- A decoder whose accepted strings show where they end. -/
structure SelfDelimiting (decode : Bytes → Except DecodeError α) : Prop where
  /-- A string that stops earlier lacks bytes. -/
  truncated : ∀ front missing a, missing ≠ [] → decode (front ++ missing) = .ok a →
    ∃ required, front.length < required ∧
      decode front = .error (.bufferTooShort required front.length)
  /-- A string that goes on has bytes behind. -/
  extended : ∀ bytes more a, more ≠ [] → decode bytes = .ok a →
    decode (bytes ++ more) = .error (.trailingBytes more.length)
  /-- No accepted string begins another one. -/
  prefixFree : ∀ bytes bytes' a a', decode bytes = .ok a → decode bytes' = .ok a' →
    bytes <+: bytes' → bytes = bytes'

namespace Cursor

variable {r : Cursor → Except DecodeError (α × Cursor)}

theorem Delimits.selfDelimiting (h : Delimits r) : SelfDelimiting (complete r) := by
  have hextended : ∀ bytes more a, more ≠ [] → complete r bytes = .ok a →
      complete r (bytes ++ more) = .error (.trailingBytes more.length) := by
    intro bytes more a hmore hread
    obtain ⟨htakes, hend⟩ := h.takes.of_complete hread
    have hwhole := htakes.whole (bytes ++ more).length 0 more (by simp) (by omega)
    have hremaining : (bytes ++ more).length - (0 + bytes.length) = more.length := by
      rw [List.length_append]
      omega
    rw [complete_of_ok hwhole, hremaining, if_pos (List.length_pos_of_ne_nil hmore)]
  refine ⟨?_, hextended, ?_⟩
  · intro front missing a hmissing hread
    obtain ⟨htakes, hend⟩ := h.takes.of_complete hread
    obtain ⟨required, hlt, hcut⟩ := htakes.cut 0 front missing rfl hmissing (by omega)
    rw [Nat.zero_add] at hlt hcut
    exact ⟨required, hlt, complete_of_error hcut⟩
  · rintro bytes _ a a' hread hread' ⟨more, rfl⟩
    by_contra hne
    have hmore : more ≠ [] := by
      rintro rfl
      exact hne (List.append_nil bytes).symm
    rw [hextended bytes more a hmore hread] at hread'
    cases hread'

/-- A string that ends below the greatest position is read within its bytes. -/
theorem Delimits.complete_ne_outOfRange (h : Delimits r) {bytes : Bytes}
    (hbelow : bytes.length < maxPosition) : complete r bytes ≠ .error .outOfRange := by
  have hplaced : (start bytes).Placed := ⟨Nat.zero_add _, hbelow⟩
  intro he
  cases hr : r (start bytes) with
  | error e =>
      rw [complete_of_error hr] at he
      obtain rfl := Except.error.inj he
      exact h.guarded _ hplaced hr
  | ok p =>
      rw [complete_of_ok hr] at he
      split_ifs at he
      cases he

end Cursor

/-! ### Headers -/

namespace Bytes

theorem exists_word_eq_ok {bytes : Bytes} {width offset : Nat}
    (h : offset + width ≤ bytes.length) : ∃ n, bytes.word width offset = .ok n := by
  rw [word, slice, if_pos h]
  exact ⟨_, rfl⟩

theorem word_append_left {front : Bytes} {width offset : Nat} (h : offset + width ≤ front.length)
    (tail : Bytes) : Bytes.word (front ++ tail) width offset = Bytes.word front width offset := by
  have hslice : front.slice offset width = .ok ((front.drop offset).take width) := if_pos h
  rw [word, word, slice_mono (List.prefix_append front tail) hslice, hslice]

end Bytes

namespace Header

/-- A header is read within the bytes, unless both they and it reach the greatest position. -/
theorem decode_ne_outOfRange {bytes : Bytes} {offset : Nat}
    (h : bytes.length < maxPosition ∨ offset + size ≤ maxPosition) :
    Header.decode bytes offset ≠ .error .outOfRange := by
  unfold Header.decode
  by_cases hshort : bytes.length < min (offset + size) maxPosition
  · rw [Bytes.ensure, if_pos hshort]
    exact nofun
  · have hend : offset + 9 ≤ bytes.length := by
      rw [size] at hshort h
      omega
    have hkind : offset + 1 ≤ bytes.length := by omega
    have hid : offset + 1 + 4 ≤ bytes.length := by omega
    have hindex : offset + 5 + 4 ≤ bytes.length := by omega
    obtain ⟨kind, hkind⟩ := Bytes.exists_word_eq_ok hkind
    obtain ⟨id, hid⟩ := Bytes.exists_word_eq_ok hid
    obtain ⟨index, hindex⟩ := Bytes.exists_word_eq_ok hindex
    rw [Bytes.ensure, if_neg hshort]
    simp only [hkind, hid, hindex, bind, Except.bind, pure, Except.pure, PayloadKind.ofByte]
    split
    · rename_i hbyte
      split at hbyte <;> cases hbyte
      exact nofun
    · exact nofun

/-- A header is decided by its own bytes. -/
theorem decode_append {front : Bytes} (hfront : front.length = size) (tail : Bytes) :
    Header.decode (front ++ tail) 0 = Header.decode front 0 := by
  have hsize : size = 9 := rfl
  have hensure (bytes : Bytes) (h : size ≤ bytes.length) : bytes.ensure 0 size = .ok () := by
    have hlong : ¬ bytes.length < min (0 + size) maxPosition := by omega
    rw [Bytes.ensure, if_neg hlong]
  have hword {width offset : Nat} (h : offset + width ≤ size) :
      Bytes.word (front ++ tail) width offset = Bytes.word front width offset :=
    Bytes.word_append_left (by omega) tail
  rw [Header.decode, Header.decode, hensure front (by omega),
    hensure (front ++ tail) (by rw [List.length_append]; omega), hword (by decide),
    hword (by decide), hword (by decide)]

/-- The header of the wanted kind in nine bytes. -/
def judge (kind : PayloadKind) (bytes : Bytes) : Except DecodeError Header := do
  let header ← Header.decode bytes 0
  if header.kind = kind then
    pure header
  else
    .error (.invalidPayloadKind header.kind.byte)

/-- Reads a header of the wanted kind. -/
def reader (kind : PayloadKind) : Cursor → Except DecodeError (Header × Cursor) :=
  Cursor.judged (Cursor.take · size) (fun _ => judge kind) fun header c => .ok (header, c)

theorem judge_ne_outOfRange (kind : PayloadKind) (bytes : Bytes) :
    judge kind bytes ≠ .error .outOfRange := by
  unfold judge
  cases hdecode : Header.decode bytes 0 with
  | error e =>
      intro he
      obtain rfl := Except.error.inj he
      exact decode_ne_outOfRange (Or.inr (by decide)) hdecode
  | ok header =>
      simp only [bind, Except.bind]
      split_ifs <;> exact nofun

theorem reader_delimits (kind : PayloadKind) : Cursor.Delimits (reader kind) :=
  (Cursor.take_delimits size).judged Cursor.delimits_pure (fun _ _ _ _ h => h)
    fun _ => judge_ne_outOfRange kind

/-- Reading a header at the start of a string is taking its bytes there. -/
theorem expect_eq_reader (kind : PayloadKind) (bytes : Bytes) :
    expect kind bytes = reader kind (Cursor.start bytes) := by
  have hend : 0 + size ≤ maxPosition := by decide
  rw [reader, Cursor.judged, Cursor.start_eq, expect]
  by_cases hlong : size ≤ bytes.length
  · have htake : (bytes.take size).length = size := by simpa using hlong
    have hdecode := decode_append htake (bytes.drop size)
    rw [List.take_append_drop] at hdecode
    rw [Cursor.take_of_le hlong (by simpa using hlong) hend, hdecode]
    simp only [bind, Except.bind, judge, Cursor.seek, Nat.zero_add]
    cases Header.decode (bytes.take size) 0 with
    | error e => rfl
    | ok header =>
        simp only
        split_ifs <;> rfl
  · have hshort : bytes.length < min (0 + size) maxPosition := by omega
    rw [Cursor.take_of_short hshort, Header.decode, Bytes.ensure, if_pos hshort]
    rfl

end Header

/-! ### Payloads -/

/-- Reads the full state of a component. -/
def Snapshot.reader (c : Cursor) : Except DecodeError (Snapshot × Cursor) := do
  let (header, c) ← Header.reader .data c
  let (fields, c) ← c.object maxNesting
  pure ({ componentId := header.componentId, fields }, c)

theorem Snapshot.reader_delimits : Cursor.Delimits Snapshot.reader :=
  (Header.reader_delimits .data).bind fun header =>
    (Cursor.object_delimits maxNesting).map (Snapshot.mk header.componentId)

theorem Snapshot.decode_eq_complete : Snapshot.decode = Cursor.complete Snapshot.reader := by
  funext bytes
  rw [decode, Header.expect_eq_reader, Cursor.complete, reader]
  cases Header.reader .data (Cursor.start bytes) with
  | error e => rfl
  | ok p =>
      simp only [bind, Except.bind]
      cases p.2.object maxNesting <;> rfl

/-- Reads the request or the response of a command. -/
def Message.reader (d : Direction) (c : Cursor) : Except DecodeError (Message × Cursor) := do
  let (header, c) ← Header.reader d.kind c
  let (object, c) ← c.object maxNesting
  pure ({ componentId := header.componentId, commandIndex := header.commandIndex, object }, c)

theorem Message.reader_delimits (d : Direction) : Cursor.Delimits (Message.reader d) :=
  (Header.reader_delimits d.kind).bind fun header =>
    (Cursor.object_delimits maxNesting).map (Message.mk header.componentId header.commandIndex)

theorem Message.decode_eq_complete (d : Direction) :
    Message.decode d = Cursor.complete (Message.reader d) := by
  funext bytes
  rw [decode, Header.expect_eq_reader, Cursor.complete, reader]
  cases Header.reader d.kind (Cursor.start bytes) with
  | error e => rfl
  | ok p =>
      simp only [bind, Except.bind]
      cases p.2.object maxNesting <;> rfl

/-- Reads a partial update of a component. -/
def Delta.reader (c : Cursor) : Except DecodeError (Delta × Cursor) := do
  let (header, c) ← Header.reader .update c
  let (fields, c) ← c.object maxNesting
  let (events, c) ← c.object maxNesting
  let (count, c) ← c.word32
  Cursor.fold (fun (p : Delta) c => do
    let (f, c) ← c.word32
    pure (p.addCleared f, c)) count.toNat { componentId := header.componentId, fields, events } c

theorem Delta.reader_delimits : Cursor.Delimits Delta.reader :=
  (Header.reader_delimits .update).bind fun header =>
    (Cursor.object_delimits maxNesting).bind fun fields =>
      (Cursor.object_delimits maxNesting).bind fun events =>
        Cursor.word32_delimits.bind fun count =>
          Cursor.Delimits.fold (fun p => Cursor.word32_delimits.map (Delta.addCleared p))
            count.toNat (Delta.mk header.componentId fields events [])

theorem Delta.decode_eq_complete : Delta.decode = Cursor.complete Delta.reader := by
  funext bytes
  rw [decode, Header.expect_eq_reader, Cursor.complete, reader]
  cases Header.reader .update (Cursor.start bytes) with
  | error e => rfl
  | ok p =>
      simp only [bind, Except.bind]
      cases p.2.object maxNesting with
      | error e => rfl
      | ok p =>
          simp only
          cases p.2.object maxNesting with
          | error e => rfl
          | ok p =>
              simp only
              cases p.2.word32 <;> rfl

/-- No decoder takes a byte that is not there or a position beyond the greatest one, whatever the
bytes; nor does the reader of headers, whatever the position at which it is told to look. -/
theorem decoders_ne_outOfRange {bytes : Bytes} (addressable : bytes.length ≤ 2 ^ 63 - 1) :
    Fields.decode bytes ≠ .error .outOfRange ∧
      Snapshot.decode bytes ≠ .error .outOfRange ∧
      Delta.decode bytes ≠ .error .outOfRange ∧
      (∀ d, Message.decode d bytes ≠ .error .outOfRange) ∧
      ∀ offset ≤ maxPosition, Header.decode bytes offset ≠ .error .outOfRange := by
  have hbelow : bytes.length < maxPosition := by
    rw [maxPosition, UInt64.size]
    omega
  refine ⟨?_, ?_, ?_, fun d => ?_, fun offset _ => ?_⟩
  · exact (Cursor.object_delimits maxNesting).complete_ne_outOfRange hbelow
  · rw [Snapshot.decode_eq_complete]
    exact Snapshot.reader_delimits.complete_ne_outOfRange hbelow
  · rw [Delta.decode_eq_complete]
    exact Delta.reader_delimits.complete_ne_outOfRange hbelow
  · rw [Message.decode_eq_complete]
    exact (Message.reader_delimits d).complete_ne_outOfRange hbelow
  · exact Header.decode_ne_outOfRange (Or.inl hbelow)

/-- Four bytes that announce more fields than there are bytes, and a header at the last position. -/
theorem decoders_ne_outOfRange_announced :
    ([255, 255, 255, 255] : Bytes).length ≤ 2 ^ 63 - 1 ∧
      Fields.decode [255, 255, 255, 255] ≠ .error .outOfRange ∧
      Header.decode [255, 255, 255, 255] maxPosition ≠ .error .outOfRange := by
  have hlength : ([255, 255, 255, 255] : Bytes).length ≤ 2 ^ 63 - 1 := by decide
  obtain ⟨hfields, -, -, -, hheader⟩ := decoders_ne_outOfRange hlength
  exact ⟨hlength, hfields, hheader maxPosition (Nat.le_refl _)⟩

/-- The strings that the decoders accept show where they end. -/
theorem decoders_selfDelimiting :
    SelfDelimiting Fields.decode ∧ SelfDelimiting Snapshot.decode ∧
      SelfDelimiting Delta.decode ∧ ∀ d, SelfDelimiting (Message.decode d) := by
  refine ⟨?_, ?_, ?_, fun d => ?_⟩
  · exact (Cursor.object_delimits maxNesting).selfDelimiting
  · rw [Snapshot.decode_eq_complete]
    exact Snapshot.reader_delimits.selfDelimiting
  · rw [Delta.decode_eq_complete]
    exact Delta.reader_delimits.selfDelimiting
  · rw [Message.decode_eq_complete]
    exact (Message.reader_delimits d).selfDelimiting

/-- A snapshot with one truth value lacks bytes when its last byte is cut, and has one byte behind
when one is added. -/
theorem decoders_selfDelimiting_snapshot :
    Snapshot.decode [1, 7, 0, 0, 0, 0, 0, 0, 0, 1, 0, 0, 0, 5, 0, 0, 0, 1, 0, 0, 0, 1, 1] =
        .ok ⟨7, ⟨[(5, [.bool true])]⟩⟩ ∧
      (∃ required, 22 < required ∧
        Snapshot.decode [1, 7, 0, 0, 0, 0, 0, 0, 0, 1, 0, 0, 0, 5, 0, 0, 0, 1, 0, 0, 0, 1] =
          .error (.bufferTooShort required 22)) ∧
      Snapshot.decode [1, 7, 0, 0, 0, 0, 0, 0, 0, 1, 0, 0, 0, 5, 0, 0, 0, 1, 0, 0, 0, 1, 1, 0] =
        .error (.trailingBytes 1) := by
  have hdecode : Snapshot.decode
      [1, 7, 0, 0, 0, 0, 0, 0, 0, 1, 0, 0, 0, 5, 0, 0, 0, 1, 0, 0, 0, 1, 1] =
        .ok ⟨7, ⟨[(5, [.bool true])]⟩⟩ := rfl
  obtain ⟨-, hsnapshot, -, -⟩ := decoders_selfDelimiting
  exact ⟨hdecode,
    hsnapshot.truncated [1, 7, 0, 0, 0, 0, 0, 0, 0, 1, 0, 0, 0, 5, 0, 0, 0, 1, 0, 0, 0, 1] [1] _
      (List.cons_ne_nil 1 []) hdecode,
    hsnapshot.extended _ [0] _ (List.cons_ne_nil 0 []) hdecode⟩

end EntitySchema.Wire
