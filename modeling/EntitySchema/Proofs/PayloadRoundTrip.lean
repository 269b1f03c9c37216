import EntitySchema.Proofs.ObjectRoundTrip
import EntitySchema.Proofs.PayloadDelimiting

/-!
# Payloads are read back from their bytes

A header is read back from the front of a payload by the reader of its kind, and refused by the
readers of the other kinds. Behind it come the objects of the payload and, in an update, the cleared
fields, each read from where it was written.
-/

namespace EntitySchema.Wire

/-- The object comes through its encoding: the operations build it, its counts fit 32-bit words and
it is not nested too deep. -/
structure Fields.Transportable (o : Object) : Prop where
  built : o.Built
  fits : o.Fits
  depth_le : o.depth ≤ maxNesting

namespace Cursor

theorem transportable_answers {o : Object} (h : o.Transportable) :
    Answers (object maxNesting) o.encode (.ok o) := by
  have hobject := built_answers h.built h.fits maxNesting
  rwa [limited_of_le h.depth_le] at hobject

/-- Bytes that are all there is are read as a whole. -/
theorem Answers.complete {α : Type} {r : Cursor → Except DecodeError (α × Cursor)} {bytes : Bytes}
    {a : α} (h : Answers r bytes (.ok a)) (addressable : bytes.length ≤ maxPosition) :
    Cursor.complete r bytes = .ok a := by
  rw [complete_of_ok (h.start addressable)]
  exact if_neg (Nat.not_lt.mpr (Nat.le_of_eq (Nat.sub_self _)))

end Cursor

namespace Bytes

/-- A word that is written between other bytes is read from its position. -/
theorem word_append {before word after : Bytes} {width offset : Nat}
    (hwidth : word.length = width) (hoffset : before.length = offset) :
    Bytes.word (before ++ (word ++ after)) width offset = .ok (ofLittleEndian word) := by
  rw [Bytes.word, ← hoffset, ← hwidth, slice_append]
  rfl

end Bytes

namespace Header

theorem length_encode (h : Header) : h.encode.length = size := by
  simp [encode, size]

/-- A header is read from its first byte and the two words behind it, whatever follows. -/
theorem decode_words {id index : Bytes} (hid : id.length = 4) (hindex : index.length = 4)
    (kind : UInt8) (tail : Bytes) :
    Header.decode (kind :: (id ++ index) ++ tail) 0 = (PayloadKind.ofByte kind).map fun kind =>
      ⟨kind, .ofNat (ofLittleEndian id), .ofNat (ofLittleEndian index)⟩ := by
  have hensure : Bytes.ensure (kind :: (id ++ index) ++ tail) 0 size = .ok () := by
    have hlength : ¬ (kind :: (id ++ index) ++ tail).length < min (0 + size) maxPosition := by
      simp only [List.length_append, List.length_cons, hid, hindex, size]
      omega
    rw [Bytes.ensure, if_neg hlength]
  have hfirst : Bytes.word (kind :: (id ++ index) ++ tail) 1 0 = .ok (ofLittleEndian [kind]) := by
    have hsplit : kind :: (id ++ index) ++ tail = [] ++ ([kind] ++ (id ++ index ++ tail)) := rfl
    rw [hsplit]
    exact Bytes.word_append rfl rfl
  have hsecond : Bytes.word (kind :: (id ++ index) ++ tail) 4 (0 + 1) =
      .ok (ofLittleEndian id) := by
    have hsplit : kind :: (id ++ index) ++ tail = [kind] ++ (id ++ (index ++ tail)) := by simp
    rw [hsplit]
    exact Bytes.word_append hid rfl
  have hthird : Bytes.word (kind :: (id ++ index) ++ tail) 4 (0 + 5) =
      .ok (ofLittleEndian index) := by
    have hsplit : kind :: (id ++ index) ++ tail = kind :: id ++ (index ++ tail) := by simp
    rw [hsplit]
    exact Bytes.word_append hindex (by rw [List.length_cons, hid])
  have hbyte : UInt8.ofNat (ofLittleEndian [kind]) = kind := by
    simp [ofLittleEndian]
  simp only [decode, hensure, hfirst, hsecond, hthird, hbyte, bind, Except.bind, pure, Except.pure]
  cases PayloadKind.ofByte kind <;> rfl

/-- A header is read back whatever follows it. -/
theorem decode_encode_append (h : Header) (tail : Bytes) :
    Header.decode (h.encode ++ tail) 0 = .ok h := by
  rw [encode, decode_words (length_word32 _) (length_word32 _), PayloadKind.ofByte_byte]
  simp only [Except.map, ofNat_word32]

/-- A header is taken by the reader of its kind. -/
theorem reader_answers (h : Header) : Cursor.Answers (reader h.kind) h.encode (.ok h) := by
  intro size offset tail hend hsize
  have htake := Cursor.take_answers h.encode size offset tail hend hsize
  have hdecode : Header.decode h.encode 0 = .ok h := by
    have happend := decode_encode_append h []
    rwa [List.append_nil] at happend
  rw [length_encode] at htake ⊢
  simp only [reader, Cursor.judged, htake, judge, hdecode, Except.map, bind, Except.bind, pure,
    Except.pure, if_true]

/-- A header is refused for its first byte where another kind is wanted. -/
theorem expect_of_ne {h : Header} {kind : PayloadKind} (hkind : h.kind ≠ kind) (tail : Bytes) :
    Header.expect kind (h.encode ++ tail) = .error (.invalidPayloadKind h.kind.byte) := by
  simp only [expect, decode_encode_append, bind, Except.bind, if_neg hkind]

end Header

namespace Delta

/-- Fields that are recorded as cleared one after the other, each once, are the cleared fields. -/
theorem foldl_addCleared {p : Delta} {fs : List FieldId} (distinct : (p.cleared ++ fs).Nodup) :
    fs.foldl addCleared p = { p with cleared := p.cleared ++ fs } := by
  induction fs generalizing p with
  | nil => simp
  | cons f rest ih =>
      have hfresh : f ∉ p.cleared := fun hf =>
        (List.nodup_append.mp distinct).2.2 f hf f List.mem_cons_self rfl
      have hrest : ((p.cleared ++ [f]) ++ rest).Nodup := by simpa using distinct
      rw [List.foldl_cons, addCleared, if_neg hfresh, ih hrest]
      simp

/-- The cleared fields are read back one after the other. -/
theorem cleared_answers {p : Delta} (distinct : p.cleared.Nodup) :
    Cursor.Answers
      (Cursor.fold (fun (q : Delta) c => c.word32 >>= fun r => pure (q.addCleared r.1, r.2))
        p.cleared.length { p with cleared := [] })
      (p.cleared.flatMap word32) (.ok p) := by
  have hstep : ∀ f ∈ p.cleared, ∀ q : Delta,
      Cursor.Answers (fun c => c.word32 >>= fun r => pure (q.addCleared r.1, r.2)) (word32 f)
        (.ok (q.addCleared f)) :=
    fun f _ q => (Cursor.word32_answers f).map q.addCleared
  have hfold := Cursor.fold_answers_ok hstep { p with cleared := [] }
  have hall : p.cleared.foldl addCleared { p with cleared := [] } = p :=
    foldl_addCleared (by simpa using distinct)
  rwa [hall] at hfold

/-- An update is read back if its objects come through and its cleared fields can be counted. -/
theorem decode_encode_of_transportable {p : Delta} (hfields : p.fields.Transportable)
    (hevents : p.events.Transportable) (distinct : p.cleared.Nodup)
    (hcount : p.cleared.length < UInt32.size) (addressable : p.encode.length ≤ maxPosition) :
    Delta.decode p.encode = .ok p := by
  have hencode : p.encode = Header.encode { kind := .update, componentId := p.componentId } ++
      (p.fields.encode ++ (p.events.encode ++
        (word32 (count32 p.cleared.length) ++ p.cleared.flatMap word32))) := by
    simp [encode]
  let collect (q : Delta) (n : Nat) : Cursor → Except DecodeError (Delta × Cursor) :=
    Cursor.fold (fun q c => c.word32 >>= fun r => pure (q.addCleared r.1, r.2)) n q
  have hcleared := cleared_answers distinct
  rw [← toNat_count32 hcount] at hcleared
  -- each part is read from behind the one before it
  have hcounted := (Cursor.word32_answers (count32 p.cleared.length)).bind
    (k := fun count => collect { p with cleared := [] } count.toNat) hcleared
  have hobjects := (Cursor.transportable_answers hfields).bind
    (k := fun fields c => c.object maxNesting >>= fun r => r.2.word32 >>= fun n =>
      collect { componentId := p.componentId, fields, events := r.1 } n.1.toNat n.2)
    ((Cursor.transportable_answers hevents).bind
      (k := fun events c => c.word32 >>= fun n =>
        collect { componentId := p.componentId, fields := p.fields, events } n.1.toNat n.2)
      hcounted)
  have hread := (Header.reader_answers { kind := .update, componentId := p.componentId }).bind
    (k := fun header c => c.object maxNesting >>= fun q => q.2.object maxNesting >>= fun r =>
      r.2.word32 >>= fun n => collect
        { componentId := header.componentId, fields := q.1, events := r.1 } n.1.toNat n.2)
    hobjects
  rw [← hencode] at hread
  rw [decode_eq_complete]
  exact Cursor.Answers.complete (r := reader) hread addressable

end Delta

/-- A snapshot is read back if its object comes through. -/
theorem Snapshot.decode_encode_of_transportable {p : Snapshot} (hfields : p.fields.Transportable)
    (addressable : p.encode.length ≤ maxPosition) : Snapshot.decode p.encode = .ok p := by
  have hread : Cursor.Answers reader p.encode (.ok p) := by
    exact (Header.reader_answers { kind := .data, componentId := p.componentId }).bind
      (k := fun header c => c.object maxNesting >>= fun r =>
        pure (Snapshot.mk header.componentId r.1, r.2))
      ((Cursor.transportable_answers hfields).map (Snapshot.mk p.componentId))
  rw [decode_eq_complete]
  exact hread.complete addressable

/-- A command payload is read back in its direction if its object comes through. -/
theorem Message.decode_encode_of_transportable {p : Message} (hobject : p.object.Transportable)
    {d : Direction} (addressable : (p.encode d).length ≤ maxPosition) :
    Message.decode d (p.encode d) = .ok p := by
  have hread : Cursor.Answers (reader d) (p.encode d) (.ok p) := by
    exact (Header.reader_answers ⟨d.kind, p.componentId, p.commandIndex⟩).bind
      (k := fun header c => c.object maxNesting >>= fun r =>
        pure (Message.mk header.componentId header.commandIndex r.1, r.2))
      ((Cursor.transportable_answers hobject).map (Message.mk p.componentId p.commandIndex))
  rw [decode_eq_complete]
  exact hread.complete addressable

end EntitySchema.Wire
