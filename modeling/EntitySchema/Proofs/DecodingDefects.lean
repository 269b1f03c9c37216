import EntitySchema.Proofs.Normalization

/-!
# What a refused string is blamed for

Decoding an object refuses a string with one defect. `Defective` says of a defect that the string
has it: the bytes that are missing are missing, the byte or the text that is named stands where it is
said to stand and is bad, the bytes in front of a surplus are an object by themselves, and objects
are nested too deep only where that many of them are opened.

## Implementation notes

`Cursor.Blames` describes the failures of a reader at any position, with the bytes in front of it
and from it on; like `Cursor.Yields` for successes, it is put together from the parts of a reader. A
defect with a position is a matter of the whole string (`Located`). Nesting is not: what is known at
a position is that the bytes from there on open as many objects as there are levels left, and one
more.
-/

namespace EntitySchema.Wire

/-- The fields are written in full, each with its values. -/
def Written.Complete (e : FieldId × List Written) : Prop :=
  e.2.length < UInt32.size ∧ ∀ w ∈ e.2, w.Proper

/-- A string opens a number of objects, each inside the one before. The next object is a value of a
field; before it stand the values of that field and the fields that come earlier, all of them in full
and fewer than announced. -/
inductive Opens : Nat → Bytes → Prop
  | outermost (bytes : Bytes) : Opens 1 bytes
  | inner {n : Nat} {rest : Bytes} {count valueCount : UInt32} {f : FieldId}
      {fields : List (FieldId × List Written)} {values : List Written} :
      Opens n rest → fields.length < count.toNat → (∀ e ∈ fields, Written.Complete e) →
      values.length < valueCount.toNat → (∀ w ∈ values, w.Proper) →
      Opens (n + 1) (word32 count ++ (fields.flatMap Written.fieldBytes ++ (word32 f ++
        (word32 valueCount ++ (values.flatMap Written.bytes ++ Kind.object.tag :: rest)))))

/-- A defect with a position is where it is said to be. -/
def Located (bytes : Bytes) : DecodeError → Prop
  | .bufferTooShort required available => available = bytes.length ∧ available < required
  | .invalidValueTag tag offset => bytes[offset]? = some tag ∧ ∀ kind : Kind, kind.tag ≠ tag
  | .invalidUtf8 offset =>
    ∃ length, 0 < offset ∧ bytes[offset - 1]? = some Kind.string.tag ∧
      bytes.word 4 offset = .ok length ∧ offset + 4 + length ≤ bytes.length ∧
      ¬∃ s : String, utf8 s = (bytes.drop (offset + 4)).take length
  | _ => False

/-- A string has a defect. -/
def Defective (bytes : Bytes) : DecodeError → Prop
  | .trailingBytes remaining =>
    0 < remaining ∧ remaining ≤ bytes.length ∧
      ∃ o, Fields.decode (bytes.take (bytes.length - remaining)) = .ok o
  | .nestingTooDeep maxDepth => maxDepth = maxNesting ∧ Opens (maxNesting + 1) bytes
  | e => Located bytes e

namespace Cursor

/-- The position behind `front` in the string `front ++ rest`. -/
def between (front rest : Bytes) : Cursor := ⟨(front ++ rest).length, front.length, rest⟩

section Combinations

variable {α β γ σ ι : Type} {r : Cursor → Except DecodeError (α × Cursor)}
variable {T U : Bytes → Bytes → DecodeError → Prop} {G : Bytes → α → Prop}

/-- Whatever a reader refuses at a position, it says something that is so there. -/
def Blames (r : Cursor → Except DecodeError (α × Cursor))
    (T : Bytes → Bytes → DecodeError → Prop) : Prop :=
  ∀ front rest e, (front ++ rest).length < maxPosition → r (between front rest) = .error e →
    T front rest e

theorem Blames.mono (h : Blames r T) (hTU : ∀ front rest e, T front rest e → U front rest e) :
    Blames r U :=
  fun front rest e hbelow hr => hTU front rest e (h front rest e hbelow hr)

/-- A reader that accepts everything blames nothing. -/
theorem blames_pure (a : α) : Blames (fun c => .ok (a, c)) fun _ _ _ => False :=
  fun _ _ _ _ hread => nomatch hread

theorem Yields.between (h : Yields r G) {front rest : Bytes} {a : α} {c : Cursor}
    (hbelow : (front ++ rest).length < maxPosition) (hr : r (between front rest) = .ok (a, c)) :
    ∃ used tail, G used a ∧ rest = used ++ tail ∧ c = Cursor.between (front ++ used) tail := by
  rw [List.length_append] at hbelow
  obtain ⟨used, tail, hG, rfl, -, rfl⟩ := h _ _ _ a c (by omega) hr
  refine ⟨used, tail, hG, rfl, ?_⟩
  simp only [Cursor.between, List.append_assoc, List.length_append]

/-- A part that is read and judged is blamed for itself, by the judgement, or for what comes behind
it. -/
theorem Blames.judged {g : Cursor → α → Except DecodeError γ}
    {k : γ → Cursor → Except DecodeError (β × Cursor)} {V : γ → Bytes → Bytes → DecodeError → Prop}
    (h : Blames r T) (hG : Yields r G) (hk : ∀ b, Blames (k b) (V b)) :
    Blames (judged r g k) fun front rest e =>
      T front rest e ∨ ∃ used tail a, rest = used ++ tail ∧ G used a ∧
        (g (between front rest) a = .error e ∨
          ∃ b, g (between front rest) a = .ok b ∧ V b (front ++ used) tail e) := by
  intro front rest e hbelow hread
  unfold Cursor.judged at hread
  cases hr : r (between front rest) with
  | error e' =>
      rw [hr] at hread
      obtain rfl := Except.error.inj hread
      exact Or.inl (h front rest e' hbelow hr)
  | ok p =>
      obtain ⟨a, c⟩ := p
      obtain ⟨used, tail, hused, rfl, rfl⟩ := hG.between hbelow hr
      refine Or.inr ⟨used, tail, a, rfl, hused, ?_⟩
      cases hg : g (between front (used ++ tail)) a with
      | error e' =>
          simp only [hr, hg, bind, Except.bind] at hread
          exact Or.inl (congrArg Except.error (Except.error.inj hread))
      | ok b =>
          simp only [hr, hg, bind, Except.bind] at hread
          rw [← List.append_assoc] at hbelow
          exact Or.inr ⟨b, rfl, hk b _ _ e hbelow hread⟩

theorem Blames.bind {k : α → Cursor → Except DecodeError (β × Cursor)}
    {V : α → Bytes → Bytes → DecodeError → Prop} (h : Blames r T) (hG : Yields r G)
    (hk : ∀ a, Blames (k a) (V a)) :
    Blames (fun c => r c >>= fun p => k p.1 p.2) fun front rest e =>
      T front rest e ∨
        ∃ used tail a, rest = used ++ tail ∧ G used a ∧ V a (front ++ used) tail e := by
  refine (h.judged (g := fun _ a => .ok a) hG hk).mono ?_
  rintro front rest e (hfirst | ⟨used, tail, a, hrest, hused, herror | ⟨b, hb, hnext⟩⟩)
  · exact Or.inl hfirst
  · cases herror
  · obtain rfl := Except.ok.inj hb
    exact Or.inr ⟨used, tail, a, hrest, hused, hnext⟩

theorem Blames.map (h : Blames r T) (f : α → β) :
    Blames (fun c => r c >>= fun p => pure (f p.1, p.2)) T := by
  intro front rest e hbelow hread
  cases hr : r (between front rest) with
  | error e' =>
      simp only [hr, Bind.bind, Except.bind] at hread
      obtain rfl := Except.error.inj hread
      exact h front rest e' hbelow hr
  | ok p =>
      simp only [hr, Bind.bind, Except.bind] at hread
      cases hread

/-- Where reading one item after the other fails, some items are complete, fewer than wanted, and the
next one is to blame. -/
theorem Blames.fold {step : σ → Cursor → Except DecodeError (σ × Cursor)} {P : ι → Prop}
    {code : ι → Bytes} (h : ∀ s, Blames (step s) T)
    (hG : ∀ s, Yields (step s) fun used _ => ∃ x, P x ∧ used = code x) (n : Nat) (s : σ) :
    Blames (Cursor.fold step n s) fun front rest e =>
      ∃ (xs : List ι) (tail : Bytes), xs.length < n ∧ (∀ x ∈ xs, P x) ∧
        rest = xs.flatMap code ++ tail ∧ T (front ++ xs.flatMap code) tail e := by
  induction n generalizing s with
  | zero => exact fun _ _ _ _ hread => nomatch hread
  | succ n ih =>
      refine ((h s).bind (hG s) ih).mono ?_
      rintro front rest e (hfirst | ⟨_, tail, _, rfl, ⟨x, hx, rfl⟩, xs, rest', hlt, hxs, rfl, hnext⟩)
      · exact ⟨[], rest, Nat.succ_pos n, by simp, rfl, by simpa using hfirst⟩
      · refine ⟨x :: xs, rest', Nat.succ_lt_succ hlt, List.forall_mem_cons.mpr ⟨hx, hxs⟩, ?_, ?_⟩
        · rw [List.flatMap_cons, List.append_assoc]
        · rwa [List.flatMap_cons, ← List.append_assoc]

end Combinations

/-! ### The readers of the format -/

/-- A defect with a position, or too deep a nesting where the bytes from the position on have a
property. -/
def Points (N : Bytes → Prop) (front rest : Bytes) (e : DecodeError) : Prop :=
  Located (front ++ rest) e ∨ e = .nestingTooDeep maxNesting ∧ N rest

theorem take_blames (n : Nat) : Blames (take · n) fun front rest => Located (front ++ rest) := by
  intro front rest e hbelow hread
  by_cases hshort : (front ++ rest).length < min (front.length + n) maxPosition
  · have herror := @take_of_short (between front rest) n hshort
    obtain rfl := Except.error.inj (herror.symm.trans hread)
    exact ⟨rfl, hshort⟩
  · rw [List.length_append] at hbelow hshort
    have hok := @take_of_le (between front rest) n (by simp only [between]; omega)
      (by simp only [between, List.length_append]; omega) (by simp only [between]; omega)
    cases hok.symm.trans hread

theorem word_blames (width : Nat) :
    Blames (word · width) fun front rest => Located (front ++ rest) :=
  (take_blames width).map ofLittleEndian

theorem word32_blames : Blames word32 fun front rest => Located (front ++ rest) :=
  (word_blames 4).map UInt32.ofNat

theorem prefixed_blames : Blames prefixed fun front rest => Located (front ++ rest) := by
  refine (word32_blames.bind word32_yields fun n => take_blames n.toNat).mono ?_
  rintro front rest e (hlocated | ⟨used, tail, n, rfl, -, hlocated⟩)
  · exact hlocated
  · rwa [List.append_assoc] at hlocated

/-- The text at the position is given with its length and is not UTF-8. -/
def Misspelled (front rest : Bytes) (e : DecodeError) : Prop :=
  ∃ text tail, e = .invalidUtf8 front.length ∧ rest = lengthPrefixed text ++ tail ∧
    text.length < UInt32.size ∧ ¬∃ s : String, utf8 s = text

theorem text_blames : Blames text fun front rest e =>
    Located (front ++ rest) e ∨ Misspelled front rest e := by
  rw [text_eq_judged]
  refine (prefixed_blames.judged prefixed_yields blames_pure).mono ?_
  rintro front rest e (hlocated | ⟨used, tail, b, rfl, ⟨rfl, hlength⟩, hjudged | ⟨s, -, hnone⟩⟩)
  · exact Or.inl hlocated
  · unfold judgeText at hjudged
    split at hjudged
    · cases hjudged
    · rename_i hnone
      obtain rfl := Except.error.inj hjudged
      refine Or.inr ⟨b, tail, rfl, rfl, hlength, ?_⟩
      rintro ⟨s, rfl⟩
      rw [fromUTF8?_utf8] at hnone
      cases hnone
  · exact hnone.elim

/-- A text behind the tag of strings is the one that is named. -/
theorem Misspelled.located {front rest : Bytes} {e : DecodeError}
    (h : Misspelled (front ++ [Kind.string.tag]) rest e) :
    Located (front ++ Kind.string.tag :: rest) e := by
  obtain ⟨text, tail, rfl, rfl, hlength, hbad⟩ := h
  have hoffset : (front ++ [Kind.string.tag]).length = front.length + 1 := by simp
  have hdrop : (front ++ Kind.string.tag :: (lengthPrefixed text ++ tail)).drop (front.length + 1) =
      Wire.word32 (count32 text.length) ++ (text ++ tail) := by
    rw [List.append_cons front, List.drop_left' hoffset, lengthPrefixed, List.append_assoc]
  have hlong : front.length + 1 + 4 + text.length ≤
      (front ++ Kind.string.tag :: (lengthPrefixed text ++ tail)).length := by
    simp only [lengthPrefixed, List.length_append, List.length_cons, length_word32]
    omega
  have hword : ofLittleEndian (Wire.word32 (count32 text.length)) = text.length := by
    have hlt : (count32 text.length).toNat < 256 ^ 4 := (count32 text.length).toNat_lt
    rw [Wire.word32, ofLittleEndian_littleEndian _ _ hlt, toNat_count32 hlength]
  rw [hoffset]
  refine ⟨text.length, Nat.succ_pos _, by simp, ?_, hlong, ?_⟩
  · rw [Bytes.word, Bytes.slice, if_pos (by omega), hdrop, List.take_left' (length_word32 _)]
    exact congrArg Except.ok hword
  · rwa [← List.drop_drop, hdrop, List.drop_left' (length_word32 _), List.take_left]

section Objects

variable {child : Cursor → Except DecodeError (Object × Cursor)} {N : Bytes → Prop}

/-- The payload of a kind fails as the reader that belongs to the kind. -/
theorem payload_blames (hchild : Blames child (Points N)) (kind : Kind) :
    Blames (fun c => payload child c kind) fun front rest e =>
      Located (front ++ rest) e ∨ (kind = .string ∧ Misspelled front rest e) ∨
        (kind = .object ∧ e = .nestingTooDeep maxNesting ∧ N rest) := by
  cases hsize : kind.fixedSize with
  | some width =>
      obtain ⟨make, hmake⟩ := exists_content_eq_fixed hsize child
      simp only [payload_eq_word hsize hmake]
      exact ((word_blames width).map make).mono fun _ _ _ => Or.inl
  | none =>
      cases kind with
      | string =>
          refine (text_blames.map Value.string).mono ?_
          rintro front rest e (hlocated | hmisspelled)
          · exact Or.inl hlocated
          · exact Or.inr (Or.inl ⟨rfl, hmisspelled⟩)
      | bytes => exact (prefixed_blames.map Value.bytes).mono fun _ _ _ => Or.inl
      | object =>
          refine (hchild.map Value.object).mono ?_
          rintro front rest e (hlocated | hdeep)
          · exact Or.inl hlocated
          · exact Or.inr (Or.inr ⟨rfl, hdeep⟩)
      | _ => cases hsize

theorem ofTag?_eq_none {tag : UInt8} (h : Kind.ofTag? tag = none) (kind : Kind) :
    kind.tag ≠ tag := by
  rintro rfl
  rw [Kind.ofTag?_tag] at h
  cases h

theorem tag_of_ofTag? {tag : UInt8} {kind : Kind} (h : Kind.ofTag? tag = some kind) :
    kind.tag = tag := by
  simpa using List.find?_some h

/-- A value whose tag announces an object may open it. -/
theorem value_blames (hchild : Blames child (Points N)) :
    Blames (value child) (Points fun rest => ∃ tail, rest = Kind.object.tag :: tail ∧ N tail) := by
  rw [value_eq_judged]
  refine ((word_blames 1).judged (word_yields 1) (payload_blames hchild)).mono ?_
  rintro front rest e (hlocated | ⟨used, tail, n, rfl, ⟨hlength, rfl⟩, hnext⟩)
  · exact Or.inl hlocated
  · obtain ⟨tag, rfl⟩ := List.length_eq_one_iff.mp hlength
    have htag : UInt8.ofNat (ofLittleEndian [tag]) = tag := by simp [ofLittleEndian]
    simp only [judgeTag, htag] at hnext
    cases hkind : Kind.ofTag? tag with
    | none =>
        simp only [hkind, reduceCtorEq, false_and, exists_false, or_false] at hnext
        obtain rfl := Except.error.inj hnext
        refine Or.inl ⟨?_, ofTag?_eq_none hkind⟩
        simp [between]
    | some kind =>
        simp only [hkind, reduceCtorEq, false_or, Except.ok.injEq, exists_eq_left'] at hnext
        obtain rfl := tag_of_ofTag? hkind
        rcases hnext with hlocated | ⟨rfl, hmisspelled⟩ | ⟨rfl, hdeep, hN⟩
        · exact Or.inl (by rwa [List.append_assoc] at hlocated)
        · exact Or.inl hmisspelled.located
        · exact Or.inr ⟨hdeep, tail, rfl, hN⟩

/-- The bytes are those of a field up to the tag of an object that is one of its values. -/
def OpensField (N : Bytes → Prop) (rest : Bytes) : Prop :=
  ∃ (f : FieldId) (valueCount : UInt32) (values : List Written) (tail : Bytes),
    values.length < valueCount.toNat ∧ (∀ w ∈ values, w.Proper) ∧ N tail ∧
    rest = Wire.word32 f ++ (Wire.word32 valueCount ++ (values.flatMap Written.bytes ++
      Kind.object.tag :: tail))

theorem field_blames {levels : Nat} (hchild : Blames child (Points N))
    (hyields : Yields child (SpellsObject levels)) (o : Object) :
    Blames (field child o) (Points (OpensField N)) := by
  have hstep : ∀ values : List Value,
      Yields (fun c => value child c >>= fun p => pure (p.1 :: values, p.2)) fun used _ =>
        ∃ w : Written, w.Proper ∧ used = w.bytes := by
    intro values
    refine ((value_yields hyields).map (· :: values)).mono ?_
    rintro used _ ⟨v, ⟨w, hw, rfl, -, -⟩, -⟩
    exact ⟨w, hw, rfl⟩
  refine (word32_blames.bind word32_yields fun f => word32_blames.bind word32_yields fun count =>
    (Blames.fold (fun values => (value_blames hchild).map (· :: values)) hstep count.toNat []).map
      fun values => o.pushAll f values.reverse).mono ?_
  rintro front rest e (hlocated | ⟨_, _, f, rfl, rfl, hlocated |
    ⟨_, _, count, rfl, rfl, values, tail, hlt, hvalues, rfl, hnext⟩⟩)
  · exact Or.inl hlocated
  · exact Or.inl (by rwa [List.append_assoc] at hlocated)
  · rcases hnext with hlocated | ⟨hdeep, inside, rfl, hN⟩
    · exact Or.inl (by simpa only [List.append_assoc] using hlocated)
    · exact Or.inr ⟨hdeep, f, count, values, inside, hlt, hvalues, hN, rfl⟩

/-- An object with a number of levels left nests too deep only where it opens more objects than
these levels. -/
theorem object_blames (levels : Nat) : Blames (object levels) (Points (Opens (levels + 1))) := by
  induction levels with
  | zero =>
      intro front rest e _ hread
      exact Or.inr ⟨(Except.error.inj hread).symm, .outermost rest⟩
  | succ levels ih =>
      have hstep : ∀ o, Yields (field (object levels) o) fun used _ =>
          ∃ e, Written.Complete e ∧ used = Written.fieldBytes e := by
        intro o
        refine (field_yields (object_yields levels) o).mono ?_
        rintro used _ ⟨e, ⟨hcount, hproper⟩, rfl, -⟩
        exact ⟨e, ⟨hcount, fun w hw => (hproper w hw).1⟩, rfl⟩
      refine (word32_blames.bind word32_yields fun count =>
        Blames.fold (field_blames ih (object_yields levels)) hstep count.toNat Fields.empty).mono ?_
      rintro front rest e (hlocated | ⟨_, _, count, rfl, rfl, fields, tail, hlt, hfields, rfl, hnext⟩)
      · exact Or.inl hlocated
      · rcases hnext with
          hlocated | ⟨hdeep, f, valueCount, values, inside, hvalues, hproper, hopens, rfl⟩
        · exact Or.inl (by simpa only [List.append_assoc] using hlocated)
        · exact Or.inr ⟨hdeep, .inner hopens hlt hfields hvalues hproper⟩

end Objects

end Cursor

/-! ### Whole strings -/

/-- Where an object is read and the string refused, bytes stand behind the object, which is accepted
without them. -/
theorem defective_of_object {bytes : Bytes} {o : Object} {c : Cursor} {e : DecodeError}
    (hobject : (Cursor.start bytes).object maxNesting = .ok (o, c))
    (refused : Fields.decode bytes = .error e) : Defective bytes e := by
  have hresult : Fields.decode bytes = _ :=
    Cursor.complete_of_ok (r := Cursor.object maxNesting) hobject
  rw [Cursor.start_eq] at hobject
  obtain ⟨used, tail, htakes, rfl, hend, rfl⟩ :=
    (Cursor.object_delimits maxNesting).takes _ 0 _ o c (Nat.zero_le _) hobject
  have hremaining : (used ++ tail).length - (0 + used.length) = tail.length := by
    rw [List.length_append]
    omega
  rw [hresult, hremaining] at refused
  split_ifs at refused with hpos
  obtain rfl := Except.error.inj refused
  have hfront : (used ++ tail).take ((used ++ tail).length - tail.length) = used := by
    rw [List.length_append, Nat.add_sub_cancel, List.take_left]
  have halone : Fields.decode used = .ok o := by
    have hwhole := htakes.whole used.length 0 [] (by omega) hend
    rw [List.append_nil] at hwhole
    have haccepted := Cursor.complete_of_ok (r := Cursor.object maxNesting) hwhole
    rwa [if_neg (by simp)] at haccepted
  exact ⟨hpos, by rw [List.length_append]; omega, o, by rw [hfront, halone]⟩

/-- Every string that is no object has the defect that it is refused for. -/
theorem decode_error_defective {bytes : Bytes} {e : DecodeError}
    (addressable : bytes.length ≤ 2 ^ 63 - 1) (refused : Fields.decode bytes = .error e) :
    Defective bytes e := by
  have hbelow : bytes.length < maxPosition := by
    rw [maxPosition, UInt64.size]
    omega
  cases hobject : (Cursor.start bytes).object maxNesting with
  | error e' =>
      obtain rfl := Except.error.inj ((Cursor.complete_of_error hobject).symm.trans refused)
      rcases Cursor.object_blames maxNesting [] bytes e' hbelow hobject with
        hlocated | ⟨rfl, hopens⟩
      · cases e' with
        | trailingBytes remaining => exact hlocated.elim
        | nestingTooDeep maxDepth => exact hlocated.elim
        | _ => exact hlocated
      · exact ⟨rfl, hopens⟩
  | ok p => exact defective_of_object hobject refused

/-- An object in an object, with a string of one byte that no text begins with. -/
def misspelledObject : Bytes :=
  [1, 0, 0, 0, 1, 0, 0, 0, 1, 0, 0, 0, 11, 1, 0, 0, 0, 2, 0, 0, 0, 1, 0, 0, 0, 8, 1, 0, 0, 0, 255]

/-- The text is blamed that stands behind the tag of the inner string. -/
theorem decode_error_defective_misspelled :
    misspelledObject.length ≤ 2 ^ 63 - 1 ∧
      Fields.decode misspelledObject = .error (.invalidUtf8 26) ∧
      Defective misspelledObject (.invalidUtf8 26) := by
  have hlength : misspelledObject.length ≤ 2 ^ 63 - 1 := by decide
  have hrefused : Fields.decode misspelledObject = .error (.invalidUtf8 26) := by rfl
  exact ⟨hlength, hrefused, decode_error_defective hlength hrefused⟩

end EntitySchema.Wire
