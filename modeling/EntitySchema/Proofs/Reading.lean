import EntitySchema.Proofs.Words

/-!
# Readers and the bytes they answer to

`Cursor.Answers r bytes result` says what the reader `r` makes of `bytes` wherever they stand and
whatever follows them: the result, with the position moved behind the bytes, or the error. Answers
of two readers in a row combine, so a reader is described by the answers of its parts.

## Implementation notes

Positions are 64-bit words, so an answer is promised only where the whole string is addressable. The
bytes after those that are read are arbitrary, which makes every lemma usable in the middle of a
longer encoding.
-/

namespace EntitySchema.Wire.Cursor

/-- What a reader makes of bytes, wherever they stand and whatever follows them. -/
def Answers {α : Type} (r : Cursor → Except DecodeError (α × Cursor)) (bytes : Bytes)
    (result : Except DecodeError α) : Prop :=
  ∀ size offset tail, offset + bytes.length ≤ size → size ≤ maxPosition →
    r ⟨size, offset, bytes ++ tail⟩ =
      result.map fun a => (a, ⟨size, offset + bytes.length, tail⟩)

namespace Answers

variable {α β : Type} {r : Cursor → Except DecodeError (α × Cursor)}
variable {k : α → Cursor → Except DecodeError (β × Cursor)} {bs cs : Bytes}

/-- After a reader that succeeds, the next one reads on from behind its bytes. -/
theorem bind {a : α} {result : Except DecodeError β} (h : Answers r bs (.ok a))
    (hk : Answers (k a) cs result) :
    Answers (fun c => r c >>= fun p => k p.1 p.2) (bs ++ cs) result := by
  intro size offset tail hb hs
  rw [List.length_append] at hb
  have h₁ := h size offset (cs ++ tail) (by omega) hs
  have h₂ := hk size (offset + bs.length) tail (by omega) hs
  simp only [List.append_assoc, List.length_append, h₁, ← Nat.add_assoc, ← h₂]
  rfl

/-- A reader that fails decides the answer, whatever the next one would read. -/
theorem bind_error {e : DecodeError} (h : Answers r bs (.error e)) :
    Answers (fun c => r c >>= fun p => k p.1 p.2) (bs ++ cs) (.error e) := by
  intro size offset tail hb hs
  rw [List.length_append] at hb
  have h₁ := h size offset (cs ++ tail) (by omega) hs
  simp only [List.append_assoc, h₁]
  rfl

/-- Converting what was read reads no further byte. -/
theorem map {result : Except DecodeError α} (f : α → β) (h : Answers r bs result) :
    Answers (fun c => r c >>= fun p => pure (f p.1, p.2)) bs (result.map f) := by
  intro size offset tail hb hs
  simp only [h size offset tail hb hs]
  cases result <;> rfl

/-- Read from its start, a string that is all there is leaves nothing behind. -/
theorem start {result : Except DecodeError α} (h : Answers r bs result)
    (hs : bs.length ≤ maxPosition) :
    r (Cursor.start bs) = result.map fun a => (a, ⟨bs.length, bs.length, []⟩) := by
  have h₀ := h bs.length 0 [] (by omega) hs
  rwa [List.append_nil, Nat.zero_add] at h₀

end Answers

/-- The reader of a number of bytes takes exactly that many. -/
theorem take_answers (bytes : Bytes) : Answers (take · bytes.length) bytes (.ok bytes) := by
  intro size offset tail hb hs
  have hmin : min (offset + bytes.length) maxPosition = offset + bytes.length := by omega
  simp only [take, ensure, advance, hmin, if_neg (Nat.not_lt.mpr hb), List.take_left,
    List.drop_left]
  rw [if_pos ⟨trivial, by omega⟩]
  rfl

theorem word_answers {width : Nat} {bytes : Bytes} (h : bytes.length = width) :
    Answers (word · width) bytes (.ok (ofLittleEndian bytes)) := by
  subst h
  exact (take_answers bytes).map ofLittleEndian

theorem word32_answers (w : UInt32) : Answers word32 (Wire.word32 w) (.ok w) := by
  have h := (word_answers (length_word32 w)).map UInt32.ofNat
  rwa [Except.map, ofNat_word32] at h

/-- A byte string whose length fits the prefix is read back behind it. -/
theorem prefixed_answers {b : Bytes} (h : b.length < UInt32.size) :
    Answers prefixed (lengthPrefixed b) (.ok b) := by
  have hb := take_answers b
  rw [← toNat_count32 h] at hb
  exact (word32_answers (count32 b.length)).bind (k := fun (n : UInt32) c => c.take n.toNat) hb

/-- A text whose bytes fit the prefix is read back behind it. -/
theorem text_answers {s : String} (h : (utf8 s).length < UInt32.size) :
    Answers text (lengthPrefixed (utf8 s)) (.ok s) := by
  intro size offset tail hb hs
  have hp := prefixed_answers h size offset tail hb hs
  simp only [text, hp, Except.map, bind, Except.bind, fromUTF8?_utf8]
  rfl

/-- A payload that is as wide as its kind says is guarded as a whole. -/
theorem payload_eq_word {child : Cursor → Except DecodeError (Object × Cursor)} {kind : Kind}
    {width : Nat} {make : Nat → Value} (hsize : kind.fixedSize = some width)
    (hcontent : ∀ c, content child c kind = fixed c width make) (c : Cursor) :
    payload child c kind = c.word width >>= fun p => pure (make p.1, p.2) := by
  simp only [payload, ensureWord, hsize, hcontent, word, take, fixed]
  cases c.ensure width with
  | error e => rfl
  | ok _ => cases c.advance width <;> rfl

theorem payload_answers {child : Cursor → Except DecodeError (Object × Cursor)} {kind : Kind}
    {width : Nat} {make : Nat → Value} {bytes : Bytes} {v : Value}
    (hsize : kind.fixedSize = some width)
    (hcontent : ∀ c, content child c kind = fixed c width make) (h : bytes.length = width)
    (hv : make (ofLittleEndian bytes) = v) :
    Answers (fun c => payload child c kind) bytes (.ok v) := by
  simp only [payload_eq_word hsize hcontent]
  exact hv ▸ (word_answers h).map make

/-- A value is read by the reader of the kind that its tag announces. -/
theorem value_answers {child : Cursor → Except DecodeError (Object × Cursor)} {kind : Kind}
    {bytes : Bytes} {result : Except DecodeError Value}
    (h : Answers (fun c => payload child c kind) bytes result) :
    Answers (value child) (kind.tag :: bytes) result := by
  intro size offset tail hb hs
  have htag : UInt8.ofNat (ofLittleEndian [kind.tag]) = kind.tag := by
    simp [ofLittleEndian]
  rw [List.length_cons] at hb
  have h₁ : word ⟨size, offset, kind.tag :: (bytes ++ tail)⟩ 1 =
      .ok (ofLittleEndian [kind.tag], ⟨size, offset + 1, bytes ++ tail⟩) :=
    word_answers (List.length_singleton : [kind.tag].length = 1) size offset (bytes ++ tail)
      (by rw [List.length_singleton]; omega) hs
  have h₂ : payload child ⟨size, offset + 1, bytes ++ tail⟩ kind =
      result.map fun a => (a, ⟨size, offset + 1 + bytes.length, tail⟩) :=
    h size (offset + 1) tail (by omega) hs
  simp only [value, List.cons_append, h₁, bind, Except.bind, htag, Kind.ofTag?_tag, h₂,
    List.length_cons, Nat.add_assoc, Nat.add_comm 1]

/-- Reading a counted list item by item collects the items in order. -/
theorem fold_answers_ok {σ ι : Type} {step : σ → Cursor → Except DecodeError (σ × Cursor)}
    {encode : ι → Bytes} {collect : σ → ι → σ} {xs : List ι}
    (h : ∀ x ∈ xs, ∀ s, Answers (step s) (encode x) (.ok (collect s x))) (s : σ) :
    Answers (fold step xs.length s) (xs.flatMap encode) (.ok (xs.foldl collect s)) := by
  induction xs generalizing s with
  | nil =>
      intro size offset tail _ _
      rfl
  | cons x rest ih =>
      exact (h x List.mem_cons_self s).bind
        (ih (fun y hy => h y (List.mem_cons_of_mem x hy)) (collect s x))

end EntitySchema.Wire.Cursor
