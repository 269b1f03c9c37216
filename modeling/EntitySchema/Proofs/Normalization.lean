import EntitySchema.Proofs.Delimiting
import EntitySchema.Proofs.WrittenForm

/-!
# Decoding normalizes

A string that decodes is the string of one written object, and the object that it decodes to is what
that form stands for. Encoding the object again yields its canonical form, which is no longer than
the string and decodes to the same object.

## Implementation notes

`Cursor.Spells` carries the first part through the readers: the bytes behind a success are those of
a written value that stands for the result and is no deeper than the levels left. Merging fields
only drops numbers and counts, so the length of an encoding bounds every count in it.
-/

namespace EntitySchema.Wire

/-! ### What an accepted string says -/

namespace Cursor

theorem word_yields (width : Nat) :
    Yields (word · width) fun used n => used.length = width ∧ n = ofLittleEndian used := by
  refine ((take_yields width).map ofLittleEndian).mono ?_
  rintro used n ⟨b, ⟨rfl, hlength⟩, rfl⟩
  exact ⟨hlength, rfl⟩

theorem word32_yields : Yields word32 fun used w => used = Wire.word32 w := by
  refine ((word_yields 4).map UInt32.ofNat).mono ?_
  rintro used w ⟨n, ⟨hlength, rfl⟩, rfl⟩
  exact (word32_ofNat hlength).symm

theorem prefixed_yields :
    Yields prefixed fun used b => used = lengthPrefixed b ∧ b.length < UInt32.size := by
  refine (word32_yields.bind fun n => take_yields n.toNat).mono ?_
  rintro used b ⟨front, back, n, rfl, rfl, rfl, hlength⟩
  exact ⟨by rw [lengthPrefixed, hlength, count32_toNat], hlength ▸ n.toNat_lt⟩

theorem text_yields :
    Yields text fun used s => used = lengthPrefixed (utf8 s) ∧ (utf8 s).length < UInt32.size := by
  rw [text_eq_judged]
  refine (prefixed_yields.judged fun s => yields_pure s).mono ?_
  rintro used s ⟨front, back, b, s', c, rfl, ⟨rfl, hlength⟩, hs, rfl, rfl⟩
  have htext : utf8 s = b := by
    unfold judgeText at hs
    split at hs
    · rename_i s' hread
      obtain rfl := Except.ok.inj hs
      exact utf8_of_fromUTF8? hread
    · cases hs
  rw [htext, List.append_nil]
  exact ⟨rfl, hlength⟩

/-- The bytes are those of a written value that stands for the value and is within the levels. -/
def Spells (levels : Nat) (used : Bytes) (v : Value) : Prop :=
  ∃ w : Written, w.Proper ∧ used = w.bytes ∧ v = w.value ∧ v.depth ≤ levels

/-- A value of a single kind other than a truth value is written as it is encoded. -/
theorem spells_single {v : Value} {used : Bytes} (levels : Nat)
    (hkind : v.kind ≠ .bool ∧ v.kind ≠ .object) (hfits : v.Fits) (hused : v.encode = used) :
    Spells levels used v := by
  refine ⟨.single v, .single hkind.1 hkind.2 hfits, ?_, ?_, ?_⟩
  · rw [Written.bytes, hused]
  · rw [Written.value]
  · cases v with
    | object o => exact absurd rfl hkind.2
    | _ => exact Nat.zero_le levels

/-- The bytes are those of written fields that stand for the object and are within the levels. -/
def SpellsObject (levels : Nat) (used : Bytes) (o : Object) : Prop :=
  ∃ fields, Written.Spells fields used ∧ o = Written.objectOf fields ∧ o.depth ≤ levels

section Objects

variable {levels : Nat} {child : Cursor → Except DecodeError (Object × Cursor)}

theorem word_payload_yields {kind : Kind} {width : Nat} {make : Nat → Value}
    {G : Bytes → Value → Prop} (hsize : kind.fixedSize = some width)
    (hcontent : ∀ c, content child c kind = fixed c width make)
    (h : ∀ used, used.length = width → G used (make (ofLittleEndian used))) :
    Yields (fun c => payload child c kind) G := by
  simp only [payload_eq_word hsize hcontent]
  refine ((word_yields width).map make).mono ?_
  rintro used v ⟨n, ⟨hlength, rfl⟩, rfl⟩
  exact h used hlength

theorem payload_yields (hchild : Yields child (SpellsObject levels)) (kind : Kind) :
    Yields (fun c => payload child c kind) fun used v => Spells levels (kind.tag :: used) v := by
  cases kind
  case string =>
    refine (text_yields.map Value.string).mono ?_
    rintro used v ⟨s, ⟨rfl, hlength⟩, rfl⟩
    exact spells_single levels (by simp [Value.kind]) (.string hlength) (by rw [Value.encode])
  case bytes =>
    refine (prefixed_yields.map Value.bytes).mono ?_
    rintro used v ⟨b, ⟨rfl, hlength⟩, rfl⟩
    exact spells_single levels (by simp [Value.kind]) (.bytes hlength) (by rw [Value.encode])
  case object =>
    refine (hchild.map Value.object).mono ?_
    rintro used v ⟨o, ⟨fields, hfields, ho, hdepth⟩, rfl⟩
    refine ⟨.object fields, hfields.proper, ?_, ?_, hdepth⟩
    · rw [Written.bytes_object, hfields.bytes_eq]
    · rw [Written.value_object, ho]
  case bool =>
    apply word_payload_yields rfl (fun _ => by rw [content])
    intro used hlength
    obtain ⟨byte, rfl⟩ := List.length_eq_one_iff.mp hlength
    have hzero : (byte.toNat != 0) = (byte != 0) := by
      rw [Bool.eq_iff_iff, bne_iff_ne, bne_iff_ne, Ne, Ne, ← UInt8.toNat_inj]
      rfl
    refine ⟨.bool byte, .bool byte, ?_, ?_, Nat.zero_le levels⟩
    · rw [Written.bytes]
    · rw [Written.value, ← hzero]
      rfl
  -- every other kind is carried by one word, which its value is written as again
  all_goals
    apply word_payload_yields rfl (fun _ => by rw [content])
    intro used hlength
    exact spells_single levels (by simp [Value.kind]) (.word rfl)
      (by simp [Value.encode, word32_ofNat, word64_ofNat, hlength])

theorem value_yields (hchild : Yields child (SpellsObject levels)) :
    Yields (value child) (Spells levels) := by
  rw [value_eq_judged]
  refine ((word_yields 1).judged (payload_yields hchild)).mono ?_
  rintro used v ⟨front, back, n, kind, c, rfl, ⟨hlength, rfl⟩, hkind, hspells⟩
  obtain ⟨byte, rfl⟩ := List.length_eq_one_iff.mp hlength
  have htag : kind.tag = byte := by
    unfold judgeTag at hkind
    split at hkind
    · rename_i k hfind
      obtain rfl := Except.ok.inj hkind
      simpa [ofLittleEndian] using List.find?_some hfind
    · cases hkind
  exact htag ▸ hspells

/-- A field was read from its number, its count and its values, which are stored behind what is
there under the number. -/
theorem field_yields (hchild : Yields child (SpellsObject levels)) (o : Object) :
    Yields (field child o) fun used o' => ∃ e : FieldId × List Written,
      (e.2.length < UInt32.size ∧ ∀ w ∈ e.2, w.Proper ∧ w.value.depth ≤ levels) ∧
        used = Written.fieldBytes e ∧ o' = o.pushAll e.1 (e.2.map Written.value) := by
  have hstep : ∀ values : List Value,
      Yields (fun c => value child c >>= fun p => pure (p.1 :: values, p.2)) fun used values' =>
        ∃ w : Written, (w.Proper ∧ w.value.depth ≤ levels) ∧ used = w.bytes ∧
          values' = w.value :: values := by
    intro values
    refine ((value_yields hchild).map (· :: values)).mono ?_
    rintro used values' ⟨v, ⟨w, hw, rfl, rfl, hdepth⟩, rfl⟩
    exact ⟨w, ⟨hw, hdepth⟩, rfl, rfl⟩
  refine (word32_yields.bind fun f => word32_yields.bind fun count =>
    (Yields.fold hstep count.toNat []).map fun values => o.pushAll f values.reverse).mono ?_
  rintro used o' ⟨_, _, f, rfl, rfl, _, _, count, rfl, rfl, _, ⟨ws, hcount, hws, rfl, rfl⟩, rfl⟩
  refine ⟨(f, ws), ⟨hcount ▸ count.toNat_lt, hws⟩, ?_, ?_⟩
  · rw [Written.fieldBytes, hcount, count32_toNat]
  · rw [List.foldl_flip_cons_eq_append, List.append_nil, List.reverse_reverse]

end Objects

/-- An object was read from written fields, whatever the number of levels left. -/
theorem object_yields (levels : Nat) : Yields (object levels) (SpellsObject levels) := by
  induction levels with
  | zero => exact nofun
  | succ levels ih =>
      refine (word32_yields.bind fun count =>
        Yields.fold (field_yields ih) count.toNat Fields.empty).mono ?_
      rintro used o ⟨_, _, count, rfl, rfl, fields, hcount, hfields, rfl, rfl⟩
      have hobject : fields.foldl (fun o e => o.pushAll e.1 (e.2.map Written.value)) .empty =
          Written.objectOf fields := by
        rw [Written.objectOf, Written.groups_eq_map, Fields.ofGroups, List.foldl_map]
      rw [hobject]
      refine ⟨fields, ⟨?_, ?_⟩, rfl, ?_⟩
      · exact .object (hcount ▸ count.toNat_lt) (fun e he => (hfields e he).1)
          fun e he w hw => ((hfields e he).2 w hw).1
      · rw [Written.objectBytes, Written.bytesOfFields_eq_flatMap, hcount, count32_toNat]
      · refine Nat.succ_le_succ (Fields.entriesDepth_le fun d hd v hv => ?_)
        obtain ⟨e, he, w, hw, rfl⟩ := Written.exists_of_mem_objectOf hd hv
        exact ((hfields e he).2 w hw).2

end Cursor

/-- A string that decodes is the string of written fields that stand for the object. -/
theorem spellsObject_of_decode {bytes : Bytes} {o : Object} (h : Fields.decode bytes = .ok o) :
    Cursor.SpellsObject maxNesting bytes o :=
  ((Cursor.object_yields maxNesting).of_complete h).1

/-! ### Lengths -/

theorem length_flatMap_le {ι : Type} {xs : List ι} {code code' : ι → Bytes}
    (h : ∀ x ∈ xs, (code x).length ≤ (code' x).length) :
    (xs.flatMap code).length ≤ (xs.flatMap code').length := by
  rw [List.length_flatMap, List.length_flatMap]
  exact List.sum_le_sum h

theorem length_le_length_flatMap {ι : Type} {xs : List ι} {code : ι → Bytes}
    (h : ∀ x ∈ xs, 1 ≤ (code x).length) : xs.length ≤ (xs.flatMap code).length := by
  induction xs with
  | nil => exact Nat.zero_le _
  | cons x rest ih =>
      have hx := h x List.mem_cons_self
      have hrest := ih fun y hy => h y (List.mem_cons_of_mem x hy)
      rw [List.flatMap_cons, List.length_append, List.length_cons]
      omega

theorem length_le_of_mem {ι : Type} {xs : List ι} {x : ι} (h : x ∈ xs) (code : ι → Bytes) :
    (code x).length ≤ (xs.flatMap code).length := by
  rw [List.flatMap_def]
  exact (List.sublist_flatten_of_mem (List.mem_map_of_mem h)).length_le

theorem length_encodeEntry (f : FieldId) (vs : List Value) :
    (encodeEntry (f, vs)).length = (encodeValues vs).length + 8 := by
  simp only [encodeEntry, List.length_append, length_word32]
  omega

/-- Storing values writes at most a field more than before. -/
theorem length_encodeEntries_appendEntry_le (f : FieldId) (vs : List Value)
    (es : List (FieldId × List Value)) :
    (encodeEntries (Fields.appendEntry f vs es)).length ≤
      (encodeEntries es).length + (encodeEntry (f, vs)).length := by
  simp only [encodeEntries_eq_flatMap]
  induction es with
  | nil => simp [Fields.appendEntry]
  | cons e rest ih =>
      obtain ⟨g, us⟩ := e
      simp only [Fields.appendEntry]
      split_ifs with hlt heq
      · simp only [List.flatMap_cons, List.length_append]
        omega
      · -- the number and the count are written once for both lists
        have hvalues : (encodeValues (us ++ vs)).length =
            (encodeValues us).length + (encodeValues vs).length := by
          simp only [encodeValues_eq_flatMap, List.flatMap_append, List.length_append]
        simp only [List.flatMap_cons, List.length_append, length_encodeEntry, hvalues]
        omega
      · simp only [List.flatMap_cons, List.length_append]
        omega

/-- A collection is encoded in no more bytes than its groups would be, one by one. -/
theorem length_encodeEntries_ofGroups_le (groups : List (FieldId × List Value)) :
    (encodeEntries (Fields.ofGroups groups).entries).length ≤
      (groups.flatMap encodeEntry).length := by
  have hfold : ∀ o : Object,
      (encodeEntries (groups.foldl (fun o g => o.pushAll g.1 g.2) o).entries).length ≤
        (encodeEntries o.entries).length + (groups.flatMap encodeEntry).length := by
    induction groups with
    | nil => exact fun o => Nat.le_refl _
    | cons g rest ih =>
        intro o
        have hpush : (encodeEntries (o.pushAll g.1 g.2).entries).length ≤
            (encodeEntries o.entries).length + (encodeEntry g).length := by
          unfold Fields.pushAll
          split_ifs
          · exact Nat.le_add_right _ _
          · exact length_encodeEntries_appendEntry_le g.1 g.2 o.entries
        have hrest := ih (o.pushAll g.1 g.2)
        rw [List.foldl_cons, List.flatMap_cons, List.length_append]
        omega
  simpa [Fields.ofGroups, Fields.empty, encodeEntries] using hfold Fields.empty

/-- Every count and every length of an ordered value is bounded by the length of its encoding. -/
theorem Value.Ordered.fits {v : Value} (h : v.Ordered) (hshort : v.encode.length ≤ UInt32.size) :
    v.Fits := by
  induction h with
  | @single v hobject =>
      cases v with
      | object o => exact absurd rfl hobject
      | string s =>
          simp only [Value.encode, lengthPrefixed, List.length_cons, List.length_append] at hshort
          exact .string (by omega)
      | bytes b =>
          simp only [Value.encode, lengthPrefixed, List.length_cons, List.length_append] at hshort
          exact .bytes (by omega)
      | _ => exact .word rfl
  | @object o hasc _ ih =>
      have hentries : (o.entries.flatMap encodeEntry).length < UInt32.size := by
        rw [Value.encode, encodeEntries_eq_flatMap, List.length_cons, List.length_append] at hshort
        omega
      have hvalues : ∀ e ∈ o.entries, (e.2.flatMap Value.encode).length < UInt32.size := by
        intro e he
        have hentry := length_le_of_mem he encodeEntry
        rw [length_encodeEntry e.1 e.2, encodeValues_eq_flatMap] at hentry
        omega
      refine .object (lt_of_le_of_lt (length_le_length_flatMap fun e _ => ?_) hentries) ?_ ?_
      · rw [length_encodeEntry e.1 e.2]
        omega
      · refine fun e he => lt_of_le_of_lt (length_le_length_flatMap fun v _ => ?_) (hvalues e he)
        obtain ⟨payload, hv⟩ := Written.head_encode v
        rw [hv, List.length_cons]
        omega
      · exact fun e he v hv =>
          ih e he v hv ((length_le_of_mem hv Value.encode).trans (Nat.le_of_lt (hvalues e he)))

/-! ### Encoding again -/

namespace Written

/-- What is written properly stands for an ordered value. -/
theorem Proper.ordered_value {w : Written} (h : w.Proper) : w.value.Ordered := by
  induction h with
  | bool byte => exact .single nofun
  | @single v _ hobject _ =>
      rw [value]
      exact .single hobject
  | @object fields _ _ _ ih =>
      rw [value_object]
      refine .object (Fields.ascending_ofGroups _) fun d hd v hv => ?_
      obtain ⟨e, he, w, hw, rfl⟩ := exists_of_mem_objectOf hd hv
      exact ih e he w hw

/-- Encoding what is written needs no more bytes than it was written in. -/
theorem Proper.length_encode_value_le {w : Written} (h : w.Proper) :
    w.value.encode.length ≤ w.bytes.length := by
  induction h with
  | bool byte => simp only [value, bytes, Value.encode, List.length_cons, le_refl]
  | @single v _ _ _ => rw [value, bytes]
  | @object fields _ _ _ ih =>
      have hfield : ∀ e ∈ fields,
          (encodeEntry (e.1, e.2.map value)).length ≤ (fieldBytes e).length := by
        intro e he
        have hvalues : (e.2.flatMap fun w => w.value.encode).length ≤ (e.2.flatMap bytes).length :=
          length_flatMap_le fun w hw => ih e he w hw
        rw [encodeEntry, fieldBytes, encodeValues_eq_flatMap, List.flatMap_map]
        simp only [List.length_append, length_word32]
        omega
      have hentries : (encodeEntries (objectOf fields).entries).length ≤
          (fields.flatMap fieldBytes).length := by
        refine (length_encodeEntries_ofGroups_le _).trans ?_
        rw [groups_eq_map, List.flatMap_map]
        exact length_flatMap_le hfield
      rw [value_object, bytes, bytesOfFields_eq_flatMap, Value.encode]
      simp only [List.length_cons, List.length_append, length_word32]
      omega

/-- The value of a written form is encoded as that form exactly when the form is canonical. -/
theorem Proper.encode_value_eq_iff {w : Written} (h : w.Proper)
    (hshort : w.bytes.length ≤ UInt32.size) : w.value.encode = w.bytes ↔ w.Canonical := by
  have hordered := h.ordered_value
  have hfits := hordered.fits (h.length_encode_value_le.trans hshort)
  constructor
  · intro hencode
    have hbytes : (ofValue w.value).bytes ++ [] = w.bytes ++ [] := by
      rw [bytes_ofValue hordered, hencode]
    rw [← ((proper_ofValue hfits).bytes_append_inj h hbytes).1]
    exact canonical_ofValue hordered
  · intro hcanonical
    rw [← bytes_ofValue hordered, hcanonical.ofValue_value h]

end Written

/-- A string that decodes is written in one way. Encoding what it decodes to yields a string that is
no longer and decodes to the same object; and it is the string itself exactly when, in every object
at any depth, the numbers ascend strictly, every field has a value and truth values are zero or one.
-/
theorem Fields.encode_normalizes {bytes : Bytes} {o : Object} (short : bytes.length < 2 ^ 32)
    (decoded : Fields.decode bytes = .ok o) :
    Fields.decode o.encode = .ok o ∧ o.encode.length ≤ bytes.length ∧
      ∃ fields, Written.Spells fields bytes ∧
        (∀ fields', Written.Spells fields' bytes → fields' = fields) ∧
        o = Written.objectOf fields ∧
        (o.encode = bytes ↔ Written.Canonical (.object fields)) := by
  obtain ⟨fields, hspells, rfl, hdepth⟩ := spellsObject_of_decode decoded
  -- the object is followed as a value, whose string has the tag in front
  have hvalue : (Written.object fields).value.encode =
      Kind.object.tag :: (Written.objectOf fields).encode := by
    rw [Written.value_object, Value.encode, Fields.encode]
  have hbytes : (Written.object fields).bytes = Kind.object.tag :: bytes := by
    rw [Written.bytes_object, hspells.bytes_eq]
  have hshort : (Written.object fields).bytes.length ≤ UInt32.size := by
    rw [hbytes, List.length_cons, UInt32.size]
    omega
  have hlength := hspells.proper.length_encode_value_le
  have hcanonical := hspells.proper.encode_value_eq_iff hshort
  have hordered := hspells.proper.ordered_value
  have hfits := hordered.fits (hlength.trans hshort)
  rw [hvalue, hbytes] at hlength hcanonical
  rw [Written.value_object] at hordered hfits
  have hshrinks : (Written.objectOf fields).encode.length ≤ bytes.length :=
    Nat.le_of_succ_le_succ hlength
  have hread := (Cursor.ordered_answers hordered hfits maxNesting).start
    (hshrinks.trans (by rw [maxPosition, UInt64.size]; omega))
  refine ⟨?_, hshrinks, fields, hspells, fun fields' h => h.unique hspells, rfl, ?_⟩
  · rw [limited_of_le hdepth] at hread
    rw [decode, hread]
    simp [Except.map, bind, Except.bind, Cursor.finish, pure, Except.pure]
  · rw [← hcanonical, List.cons_inj_right]

/-- Field seven, with a truth value written as seven and an object whose only field is empty, before
field three. -/
def scrambled : Bytes :=
  [2, 0, 0, 0, 7, 0, 0, 0, 2, 0, 0, 0, 1, 7, 11, 1, 0, 0, 0, 1, 0, 0, 0, 0, 0, 0, 0,
    3, 0, 0, 0, 1, 0, 0, 0, 1, 0]

/-- The scrambled string is shortened and put in order, and what comes out is stable. -/
theorem Fields.encode_normalizes_scrambled :
    Fields.decode scrambled =
        .ok ⟨[(3, [.bool false]), (7, [.bool true, .object .empty])]⟩ ∧
      Fields.decode (Fields.encode ⟨[(3, [.bool false]), (7, [.bool true, .object .empty])]⟩) =
        .ok ⟨[(3, [.bool false]), (7, [.bool true, .object .empty])]⟩ ∧
      ∃ fields, Written.Spells fields scrambled ∧ ¬ Written.Canonical (.object fields) := by
  have hdecode : Fields.decode scrambled =
      .ok ⟨[(3, [.bool false]), (7, [.bool true, .object .empty])]⟩ := rfl
  obtain ⟨hstable, -, fields, hspells, -, -, hcanonical⟩ :=
    Fields.encode_normalizes (by decide) hdecode
  refine ⟨hdecode, hstable, fields, hspells, ?_⟩
  rw [← hcanonical]
  decide

end EntitySchema.Wire
