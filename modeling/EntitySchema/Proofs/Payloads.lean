import EntitySchema.Proofs.Normalization
import EntitySchema.Proofs.PayloadRoundTrip

/-!
# Payloads keep their kind and their cleared fields

A payload of any of the four kinds is read back by the decoder of its kind, and refused by the three
others for the kind that it announces. What a decoder accepts is again a payload that comes through,
so decoding, encoding and decoding once more changes nothing. The cleared fields of an update stand
in the order of their first occurrence, whether they were recorded one by one or read from bytes.

## Implementation notes

`Payload` joins the four kinds only to state this once; its decoders are the decoders of the kinds.
A string that is accepted is taken apart by `Cursor.Yields`: its header, the strings of its objects,
which are decoded on their own, and the fields that it lists as cleared, each as often as it likes.
-/

namespace EntitySchema.Wire

/-! ### Cleared fields -/

namespace Delta

/-- The cleared fields of the update were recorded one by one, beginning with none. -/
def Recorded (p : Delta) : Prop :=
  ∃ fs : List FieldId, fs.foldl addCleared { p with cleared := [] } = p

theorem nodup_addCleared {p : Delta} (h : p.cleared.Nodup) (f : FieldId) :
    (p.addCleared f).cleared.Nodup := by
  unfold addCleared
  split_ifs with hf
  · exact h
  · exact List.nodup_append.mpr ⟨h, List.nodup_singleton f, by
      rintro g hg _ hf' rfl
      exact hf (List.mem_singleton.mp hf' ▸ hg)⟩

/-- Recording fields one by one leaves every field once. -/
theorem nodup_foldl_addCleared {p : Delta} (h : p.cleared.Nodup) (fs : List FieldId) :
    (fs.foldl addCleared p).cleared.Nodup := by
  induction fs generalizing p with
  | nil => exact h
  | cons f rest ih => exact ih (nodup_addCleared h f)

theorem Recorded.nodup {p : Delta} (h : p.Recorded) : p.cleared.Nodup := by
  obtain ⟨fs, hfs⟩ := h
  rw [← hfs]
  exact nodup_foldl_addCleared List.nodup_nil fs

/-- Recording fields changes nothing but the cleared fields. -/
theorem frame_foldl_addCleared (p : Delta) (fs : List FieldId) :
    { fs.foldl addCleared p with cleared := [] } = { p with cleared := [] } := by
  induction fs generalizing p with
  | nil => rfl
  | cons f rest ih =>
      have hstep : { p.addCleared f with cleared := [] } = { p with cleared := [] } := by
        unfold addCleared
        split_ifs <;> rfl
      rw [List.foldl_cons, ih, hstep]

/-- Recording fields one by one keeps the first occurrence of each, in order. -/
theorem cleared_foldl_addCleared {p : Delta} (hp : p.cleared = []) (fs : List FieldId) :
    (fs.foldl addCleared p).cleared = fs.eraseDups := by
  induction fs using List.reverseRecOn with
  | nil => exact hp
  | append_singleton fs f ih =>
      have hmem : f ∈ (fs.foldl addCleared p).cleared ↔ f ∈ fs := by
        rw [ih, List.mem_eraseDups]
      rw [List.foldl_append, List.foldl_cons, List.foldl_nil, List.eraseDups_append, addCleared]
      by_cases hf : f ∈ fs
      · rw [if_pos (hmem.mpr hf), ih]
        simp [List.removeAll, hf]
      · rw [if_neg (mt hmem.mp hf), ih]
        simp [List.removeAll, hf, List.eraseDups_cons]

/-- No more fields are cleared than were recorded. -/
theorem length_cleared_le {p : Delta} {fs : List FieldId}
    (h : fs.foldl addCleared { p with cleared := [] } = p) : p.cleared.length ≤ fs.length := by
  have hrecorded : p.Recorded := ⟨fs, h⟩
  have hsubset : p.cleared ⊆ fs := by
    intro f hf
    rw [← h, cleared_foldl_addCleared rfl, List.mem_eraseDups] at hf
    exact hf
  exact (hrecorded.nodup.subperm hsubset).length_le

end Delta

/-! ### What an accepted payload says -/

theorem PayloadKind.eq_byte_of_ofByte {b : UInt8} {kind : PayloadKind}
    (h : PayloadKind.ofByte b = .ok kind) : b = kind.byte := by
  unfold ofByte at h
  split at h <;> cases h <;> rfl

namespace Header

/-- Nine bytes that are read as a header are its encoding. -/
theorem eq_encode_of_judge {kind : PayloadKind} {bytes : Bytes} {h : Header}
    (hlength : bytes.length = size) (hjudge : judge kind bytes = .ok h) :
    bytes = h.encode ∧ h.kind = kind := by
  have hsplit : ∃ b id index, bytes = b :: (id ++ index) ∧ id.length = 4 ∧ index.length = 4 := by
    cases bytes with
    | nil => cases hlength
    | cons b rest =>
        have hrest : rest.length = 8 := Nat.succ.inj hlength
        refine ⟨b, rest.take 4, rest.drop 4, by rw [List.take_append_drop], ?_, ?_⟩
        · rw [List.length_take]
          omega
        · rw [List.length_drop]
          omega
  obtain ⟨b, id, index, rfl, hid, hindex⟩ := hsplit
  have hdecode := decode_words hid hindex b []
  rw [List.append_nil] at hdecode
  rw [judge, hdecode] at hjudge
  cases hbyte : PayloadKind.ofByte b with
  | error e => simp [hbyte, Except.map, bind, Except.bind] at hjudge
  | ok k =>
      simp only [hbyte, Except.map, bind, Except.bind, pure, Except.pure] at hjudge
      split_ifs at hjudge with hkind
      obtain rfl := Except.ok.inj hjudge
      refine ⟨?_, hkind⟩
      rw [encode, PayloadKind.eq_byte_of_ofByte hbyte, word32_ofNat hid, word32_ofNat hindex]

/-- A header of a kind was read from its encoding. -/
theorem reader_yields (kind : PayloadKind) :
    Cursor.Yields (reader kind) fun used h => used = h.encode ∧ h.kind = kind := by
  refine ((Cursor.take_yields size).judged fun h => Cursor.yields_pure h).mono ?_
  rintro used h ⟨front, back, bytes, h', c, rfl, ⟨rfl, hlength⟩, hjudge, rfl, rfl⟩
  rw [List.append_nil]
  exact eq_encode_of_judge hlength hjudge

end Header

namespace Cursor

/-- An object was read from a string that is decoded to it on its own. -/
theorem object_yields_decode :
    Yields (object maxNesting) fun used o => Fields.decode used = .ok o := by
  intro size offset rest o c hoffset hread
  obtain ⟨used, tail, htakes, hrest, hend, hc⟩ :=
    (object_delimits maxNesting).takes size offset rest o c hoffset hread
  have hwhole := htakes.whole used.length 0 [] (by omega) (by omega)
  rw [List.append_nil, Nat.zero_add] at hwhole
  refine ⟨used, tail, ?_, hrest, hend, hc⟩
  change complete (object maxNesting) used = .ok o
  rw [complete_of_ok (c := ⟨used.length, used.length, []⟩) hwhole]
  exact if_neg (Nat.not_lt.mpr (Nat.le_of_eq (Nat.sub_self _)))

end Cursor

/-- What decodes from a short string comes through its own encoding, which is no longer. -/
theorem Fields.transportable_of_decode {bytes : Bytes} {o : Object} (short : bytes.length < 2 ^ 32)
    (decoded : Fields.decode bytes = .ok o) :
    o.Transportable ∧ o.encode.length ≤ bytes.length := by
  obtain ⟨fields, hspells, rfl, hdepth⟩ := spellsObject_of_decode decoded
  -- the object is followed as a value, whose string has the tag in front
  have hvalue : (Written.object fields).value = .object (Written.objectOf fields) :=
    Written.value_object fields
  have hlength := hspells.proper.length_encode_value_le
  have hordered := hspells.proper.ordered_value
  rw [Written.bytes_object, hspells.bytes_eq, List.length_cons] at hlength
  have hfits := hordered.fits (hlength.trans (by rw [UInt32.size]; omega))
  rw [hvalue] at hlength hordered hfits
  have hbuilt : (Written.objectOf fields).Built := by
    cases hordered.built with
    | single hkind => exact absurd rfl hkind
    | object h => exact h
  exact ⟨⟨hbuilt, hfits, hdepth⟩, Nat.le_of_succ_le_succ hlength⟩

/-- A string that is accepted as a snapshot is a header and the string of its object. -/
theorem Snapshot.exists_sections {bytes : Bytes} {p : Snapshot}
    (h : Snapshot.decode bytes = .ok p) :
    ∃ (header : Header) (fields : Bytes),
      Fields.decode fields = .ok p.fields ∧ bytes = header.encode ++ fields := by
  have hyields := (Header.reader_yields .data).bind fun header =>
    Cursor.object_yields_decode.map (Snapshot.mk header.componentId)
  rw [decode_eq_complete] at h
  obtain ⟨⟨_, fieldBytes, header, rfl, ⟨rfl, -⟩, fields, hfields, rfl⟩, -⟩ :=
    Cursor.Yields.of_complete hyields h
  exact ⟨header, fieldBytes, hfields, rfl⟩

/-- A string that is accepted as a command payload is a header and the string of its object. -/
theorem Message.exists_sections {d : Direction} {bytes : Bytes} {p : Message}
    (h : Message.decode d bytes = .ok p) :
    ∃ (header : Header) (object : Bytes),
      Fields.decode object = .ok p.object ∧ bytes = header.encode ++ object := by
  have hyields := (Header.reader_yields d.kind).bind fun header =>
    Cursor.object_yields_decode.map (Message.mk header.componentId header.commandIndex)
  rw [decode_eq_complete] at h
  obtain ⟨⟨_, objectBytes, header, rfl, ⟨rfl, -⟩, object, hobject, rfl⟩, -⟩ :=
    Cursor.Yields.of_complete hyields h
  exact ⟨header, objectBytes, hobject, rfl⟩

/-- How a string spells an update: behind a header of its kind the strings of its two objects, and
behind their count the fields that are listed as cleared. -/
structure Delta.Listing (bytes : Bytes) (p : Delta) (listed : List FieldId) : Prop where
  counted : listed.length < UInt32.size
  sections : ∃ (header : Header) (fields events : Bytes),
    header.kind = .update ∧ header.componentId = p.componentId ∧
    Fields.decode fields = .ok p.fields ∧ Fields.decode events = .ok p.events ∧
    bytes = header.encode ++ (fields ++ (events ++
      (word32 (count32 listed.length) ++ listed.flatMap word32)))

/-- A string that is accepted as an update lists fields, which are recorded one by one. -/
theorem Delta.exists_listing {bytes : Bytes} {p : Delta} (h : Delta.decode bytes = .ok p) :
    ∃ listed, p.Listing bytes listed ∧ listed.foldl addCleared { p with cleared := [] } = p := by
  have hstep : ∀ q : Delta, Cursor.Yields
      (fun c => c.word32 >>= fun r => pure (q.addCleared r.1, r.2)) fun used q' =>
        ∃ f : FieldId, True ∧ used = word32 f ∧ q' = q.addCleared f := by
    intro q
    refine (Cursor.word32_yields.map q.addCleared).mono ?_
    rintro used q' ⟨f, rfl, rfl⟩
    exact ⟨f, trivial, rfl, rfl⟩
  have hyields := (Header.reader_yields .update).bind fun header =>
    Cursor.object_yields_decode.bind fun fields =>
      Cursor.object_yields_decode.bind fun events =>
        Cursor.word32_yields.bind fun count =>
          Cursor.Yields.fold hstep count.toNat (Delta.mk header.componentId fields events [])
  rw [decode_eq_complete] at h
  obtain ⟨⟨_, _, header, hbytes, ⟨rfl, hkind⟩, fieldBytes, _, fields, rfl, hfields, eventBytes, _,
    events, rfl, hevents, _, _, count, rfl, rfl, listed, hcount, -, rfl, rfl⟩, -⟩ :=
    Cursor.Yields.of_complete hyields h
  have hframe := frame_foldl_addCleared (Delta.mk header.componentId fields events []) listed
  refine ⟨listed, ⟨hcount ▸ count.toNat_lt, header, fieldBytes, eventBytes, hkind, ?_, ?_, ?_, ?_⟩,
    by rw [hframe]⟩
  · exact (congrArg Delta.componentId hframe).symm
  · rw [hfields]
    exact congrArg Except.ok (congrArg Delta.fields hframe).symm
  · rw [hevents]
    exact congrArg Except.ok (congrArg Delta.events hframe).symm
  · rw [hbytes, hcount, count32_toNat]

/-! ### The four kinds -/

/-- A payload of any kind. -/
inductive Payload where
  | data (p : Snapshot)
  | update (p : Delta)
  | command (d : Direction) (p : Message)

namespace Payload

/-- The kind of a payload. -/
def kind : Payload → PayloadKind
  | .data _ => .data
  | .update _ => .update
  | .command d _ => d.kind

/-- The bytes of a payload. -/
def encode : Payload → Bytes
  | .data p => p.encode
  | .update p => p.encode
  | .command d p => p.encode d

/-- What the decoder of a kind makes of a byte string. -/
def decode : PayloadKind → Bytes → Except DecodeError Payload
  | .data, bytes => (Snapshot.decode bytes).map .data
  | .update, bytes => (Delta.decode bytes).map .update
  | .request, bytes => (Message.decode .request bytes).map (.command .request)
  | .response, bytes => (Message.decode .response bytes).map (.command .response)

/-- The objects of the payload come through their encodings, and the cleared fields of an update
were recorded one by one and can be counted. -/
inductive Transportable : Payload → Prop
  | data {p : Snapshot} : p.fields.Transportable → Transportable (.data p)
  | update {p : Delta} : p.fields.Transportable → p.events.Transportable → p.Recorded →
      p.cleared.length < UInt32.size → Transportable (.update p)
  | command {p : Message} (d : Direction) : p.object.Transportable → Transportable (.command d p)

theorem decode_command (d : Direction) (bytes : Bytes) :
    decode d.kind bytes = (Message.decode d bytes).map (.command d) := by
  cases d <;> rfl

/-- A payload is read back by the decoder of its kind. -/
theorem decode_encode_self {p : Payload} (h : p.Transportable)
    (addressable : p.encode.length ≤ maxPosition) : decode p.kind p.encode = .ok p := by
  cases h with
  | data hfields =>
      rw [kind, decode, encode, Snapshot.decode_encode_of_transportable hfields addressable,
        Except.map]
  | update hfields hevents hrecorded hcount =>
      rw [kind, decode, encode, Delta.decode_encode_of_transportable hfields hevents hrecorded.nodup
        hcount addressable, Except.map]
  | command d hobject =>
      rw [kind, decode_command, encode, Message.decode_encode_of_transportable hobject addressable,
        Except.map]

/-- Every payload begins with a header of its kind. -/
theorem exists_header (p : Payload) :
    ∃ (h : Header) (tail : Bytes), h.kind = p.kind ∧ p.encode = h.encode ++ tail := by
  cases p with
  | data p => exact ⟨_, _, rfl, rfl⟩
  | update p => exact ⟨{ kind := .update, componentId := p.componentId }, _, rfl, by
      rw [encode, Delta.encode, List.append_assoc, List.append_assoc, List.append_assoc]⟩
  | command d p => exact ⟨_, _, rfl, rfl⟩

/-- A decoder gives up where the header is not the one it expects. -/
theorem decode_of_expect {k : PayloadKind} {bytes : Bytes} {e : DecodeError}
    (h : Header.expect k bytes = .error e) : decode k bytes = .error e := by
  cases k with
  | data => simp [decode, Snapshot.decode, h, bind, Except.bind, Except.map]
  | update => simp [decode, Delta.decode, h, bind, Except.bind, Except.map]
  | request => simp [decode, Message.decode, Direction.kind, h, bind, Except.bind, Except.map]
  | response => simp [decode, Message.decode, Direction.kind, h, bind, Except.bind, Except.map]

/-- A payload is refused by the decoders of the other kinds. -/
theorem decode_encode_of_ne (p : Payload) {k : PayloadKind} (hk : k ≠ p.kind) :
    decode k p.encode = .error (.invalidPayloadKind p.kind.byte) := by
  obtain ⟨h, tail, hkind, hencode⟩ := p.exists_header
  rw [hencode, ← hkind]
  exact decode_of_expect (Header.expect_of_ne (hkind ▸ hk.symm) tail)

/-- What the decoders of all kinds accept, a decoder of one of the kinds does. -/
theorem decode_eq_ok {k : PayloadKind} {bytes : Bytes} {p : Payload} (h : decode k bytes = .ok p) :
    (∃ q, k = .data ∧ p = .data q ∧ Snapshot.decode bytes = .ok q) ∨
      (∃ q, k = .update ∧ p = .update q ∧ Delta.decode bytes = .ok q) ∨
      ∃ d q, k = d.kind ∧ p = .command d q ∧ Message.decode d bytes = .ok q := by
  have hmap {α : Type} {x : Except DecodeError α} {f : α → Payload} (h : x.map f = .ok p) :
      ∃ q, p = f q ∧ x = .ok q := by
    cases x with
    | error e => cases h
    | ok q => exact ⟨q, (Except.ok.inj h).symm, rfl⟩
  cases k with
  | data =>
      obtain ⟨q, hp, hq⟩ := hmap h
      exact .inl ⟨q, rfl, hp, hq⟩
  | update =>
      obtain ⟨q, hp, hq⟩ := hmap h
      exact .inr (.inl ⟨q, rfl, hp, hq⟩)
  | request =>
      obtain ⟨q, hp, hq⟩ := hmap h
      exact .inr (.inr ⟨.request, q, rfl, hp, hq⟩)
  | response =>
      obtain ⟨q, hp, hq⟩ := hmap h
      exact .inr (.inr ⟨.response, q, rfl, hp, hq⟩)

/-- What a decoder accepts is a payload of its kind that comes through and has got no longer. -/
theorem transportable_of_decode {k : PayloadKind} {bytes : Bytes} {p : Payload}
    (short : bytes.length < 2 ^ 32) (h : decode k bytes = .ok p) :
    p.Transportable ∧ p.kind = k ∧ p.encode.length ≤ bytes.length := by
  obtain ⟨q, rfl, rfl, hq⟩ | ⟨q, rfl, rfl, hq⟩ | ⟨d, q, rfl, rfl, hq⟩ := decode_eq_ok h
  · obtain ⟨header, fields, hfields, rfl⟩ := Snapshot.exists_sections hq
    rw [List.length_append, Header.length_encode] at short ⊢
    obtain ⟨htransportable, hlength⟩ := Fields.transportable_of_decode (by omega) hfields
    refine ⟨.data htransportable, rfl, ?_⟩
    rw [encode, Snapshot.encode, List.length_append, Header.length_encode]
    omega
  · obtain ⟨listed, ⟨hcount, header, fields, events, -, -, hfields, hevents, rfl⟩, hfold⟩ :=
      Delta.exists_listing hq
    have hcleared := Delta.length_cleared_le hfold
    have hwords (fs : List FieldId) : (fs.flatMap word32).length = fs.length * 4 := by
      simp [List.length_flatMap]
    simp only [List.length_append, Header.length_encode, length_word32, hwords] at short ⊢
    obtain ⟨hfields, hlength⟩ := Fields.transportable_of_decode (by omega) hfields
    obtain ⟨hevents, hlength'⟩ := Fields.transportable_of_decode (by omega) hevents
    refine ⟨.update hfields hevents ⟨listed, hfold⟩ (by omega), rfl, ?_⟩
    simp only [encode, Delta.encode, List.length_append, Header.length_encode, length_word32,
      hwords]
    omega
  · obtain ⟨header, object, hobject, rfl⟩ := Message.exists_sections hq
    rw [List.length_append, Header.length_encode] at short ⊢
    obtain ⟨htransportable, hlength⟩ := Fields.transportable_of_decode (by omega) hobject
    refine ⟨.command d htransportable, rfl, ?_⟩
    rw [encode, Message.encode, List.length_append, Header.length_encode]
    omega

end Payload

/-- A payload that comes through is read back by the decoder of its kind, and every payload is
refused by the three other decoders for the kind it announces. The cleared fields of an update stand
once each, in the order of their first occurrence among those that were recorded or that the bytes
list. So what a decoder makes of a short string is what it makes of the encoding of that. -/
theorem payload_decoders_invert :
    (∀ p : Payload, p.Transportable → p.encode.length ≤ maxPosition →
      Payload.decode p.kind p.encode = .ok p) ∧
    (∀ (p : Payload) (k : PayloadKind), k ≠ p.kind →
      Payload.decode k p.encode = .error (.invalidPayloadKind p.kind.byte)) ∧
    (∀ (id : ComponentId) (fs : List FieldId),
      (fs.foldl Delta.addCleared { componentId := id }).cleared.Nodup ∧
        (fs.foldl Delta.addCleared { componentId := id }).cleared = fs.eraseDups) ∧
    (∀ (bytes : Bytes) (p : Delta), Delta.decode bytes = .ok p →
      p.cleared.Nodup ∧ ∃ listed, p.Listing bytes listed ∧ p.cleared = listed.eraseDups) ∧
    ∀ (k : PayloadKind) (bytes : Bytes) (p : Payload), bytes.length < 2 ^ 32 →
      Payload.decode k bytes = .ok p → Payload.decode k p.encode = Payload.decode k bytes := by
  refine ⟨fun p => Payload.decode_encode_self, fun p k => p.decode_encode_of_ne, ?_, ?_, ?_⟩
  · intro id fs
    exact ⟨Delta.nodup_foldl_addCleared List.nodup_nil fs, Delta.cleared_foldl_addCleared rfl fs⟩
  · intro bytes p h
    obtain ⟨listed, hlisting, hfold⟩ := Delta.exists_listing h
    have hrecorded : p.Recorded := ⟨listed, hfold⟩
    refine ⟨hrecorded.nodup, listed, hlisting, ?_⟩
    rw [← hfold, Delta.cleared_foldl_addCleared rfl]
  · intro k bytes p short h
    obtain ⟨htransportable, rfl, hlength⟩ := Payload.transportable_of_decode short h
    rw [h]
    exact Payload.decode_encode_self htransportable
      (hlength.trans (by rw [maxPosition, UInt64.size]; omega))

/-- An update with a chain of objects as deep as allowed that records field nine twice. -/
def clearing : Delta :=
  [9, 4, 9].foldl Delta.addCleared { componentId := 7, fields := chain 63, events := chain 0 }

theorem length_encode_clearing : clearing.encode.length = 908 := by
  have hcleared : clearing = ⟨7, chain 63, chain 0, [9, 4]⟩ := rfl
  rw [hcleared]
  simp [Delta.encode, Header.length_encode, Header.size, length_encode_chain]

/-- The update is read back as an update only; and a string that lists its cleared fields again, in
an update with a command in its header, is what the shorter encoding says. -/
theorem payload_decoders_invert_clearing :
    (Payload.update clearing).Transportable ∧
      Payload.decode .update (Payload.update clearing).encode = .ok (.update clearing) ∧
      Payload.decode .response (Payload.update clearing).encode =
        .error (.invalidPayloadKind 2) ∧
      clearing.cleared = [9, 4] ∧
      Payload.decode .update
          (Payload.encode (.update { componentId := 7, cleared := [9, 4] })) =
        Payload.decode .update [2, 7, 0, 0, 0, 5, 0, 0, 0, 0, 0, 0, 0, 0, 0, 0, 0,
          3, 0, 0, 0, 9, 0, 0, 0, 4, 0, 0, 0, 9, 0, 0, 0] := by
  have htransportable (n : Nat) (hn : n ≤ 63) : (chain n).Transportable :=
    ⟨built_chain n, fits_chain n, by rw [depth_chain, maxNesting]; omega⟩
  have hclearing : (Payload.update clearing).Transportable :=
    .update (htransportable 63 (by decide)) (htransportable 0 (by decide)) ⟨[9, 4, 9], rfl⟩
      (by decide)
  have haddressable : (Payload.update clearing).encode.length ≤ maxPosition := by
    rw [Payload.encode, length_encode_clearing]
    decide
  obtain ⟨hself, hother, -, -, hagain⟩ := payload_decoders_invert
  refine ⟨hclearing, ?_, ?_, rfl, ?_⟩
  · exact hself (.update clearing) hclearing haddressable
  · exact hother (.update clearing) .response (by decide)
  · exact hagain .update _ (.update { componentId := 7, cleared := [9, 4] }) (by decide) rfl

end EntitySchema.Wire
