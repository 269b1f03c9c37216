import EntitySchema.Proofs.ObjectRoundTrip

/-!
# Objects as they are written

More strings are accepted than encoding yields: fields may come in any order, may repeat and may
hold no value, and a truth value may be any byte. `Written` keeps what a string says in all these
respects. It has a string (`Written.bytes`), a value that it stands for (`Written.value`) and, for
every value, one form that encoding yields (`Written.ofValue`).

## Implementation notes

A string is the string of one written form only, because every part shows where it ends. So the
forms that encoding yields are told from all others by a property of the form, `Written.Canonical`.
-/

namespace EntitySchema.Wire

/-- A value as it is written. -/
inductive Written where
  /-- A truth value by its byte. -/
  | bool (byte : UInt8)
  /-- A value of another kind that is no object. -/
  | single (v : Value)
  /-- An object by its fields in the order in which they stand. -/
  | object (fields : List (FieldId × List Written))

namespace Written

mutual

/-- The string of a written value. -/
def bytes : Written → Bytes
  | .bool byte => [Kind.bool.tag, byte]
  | .single v => v.encode
  | .object fields => Kind.object.tag :: (word32 (count32 fields.length) ++ bytesOfFields fields)

/-- The string of written fields. -/
def bytesOfFields : List (FieldId × List Written) → Bytes
  | [] => []
  | (f, ws) :: rest =>
    word32 f ++ (word32 (count32 ws.length) ++ bytesOfValues ws) ++ bytesOfFields rest

/-- The string of written values. -/
def bytesOfValues : List Written → Bytes
  | [] => []
  | w :: rest => w.bytes ++ bytesOfValues rest

end

/-- The string of an object by itself, without the tag of a value. -/
def objectBytes (fields : List (FieldId × List Written)) : Bytes :=
  word32 (count32 fields.length) ++ bytesOfFields fields

/-- The string of one written field. -/
def fieldBytes (e : FieldId × List Written) : Bytes :=
  word32 e.1 ++ (word32 (count32 e.2.length) ++ e.2.flatMap bytes)

theorem bytesOfValues_eq_flatMap (ws : List Written) : bytesOfValues ws = ws.flatMap bytes := by
  induction ws with
  | nil => rfl
  | cons w rest ih => rw [bytesOfValues, ih, List.flatMap_cons]

theorem bytesOfFields_eq_flatMap (fields : List (FieldId × List Written)) :
    bytesOfFields fields = fields.flatMap fieldBytes := by
  induction fields with
  | nil => rfl
  | cons e rest ih =>
      obtain ⟨f, ws⟩ := e
      rw [bytesOfFields, ih, bytesOfValues_eq_flatMap, List.flatMap_cons, fieldBytes]

mutual

/-- The value that is written: values of one number are collected wherever they stand. -/
def value : Written → Value
  | .bool byte => .bool (byte != 0)
  | .single v => v
  | .object fields => .object (Fields.ofGroups (groups fields))

/-- The values of written fields, under their numbers. -/
def groups : List (FieldId × List Written) → List (FieldId × List Value)
  | [] => []
  | (f, ws) :: rest => (f, values ws) :: groups rest

/-- The values that are written. -/
def values : List Written → List Value
  | [] => []
  | w :: rest => w.value :: values rest

end

theorem values_eq_map (ws : List Written) : values ws = ws.map value := by
  induction ws with
  | nil => rfl
  | cons w rest ih => rw [values, ih, List.map_cons]

theorem groups_eq_map (fields : List (FieldId × List Written)) :
    groups fields = fields.map fun e => (e.1, e.2.map value) := by
  induction fields with
  | nil => rfl
  | cons e rest ih =>
      obtain ⟨f, ws⟩ := e
      rw [groups, ih, values_eq_map, List.map_cons]

/-- The object that fields stand for. -/
def objectOf (fields : List (FieldId × List Written)) : Object := Fields.ofGroups (groups fields)

theorem value_object (fields : List (FieldId × List Written)) :
    (Written.object fields).value = .object (objectOf fields) := by
  rw [value, objectOf]

/-- Every value of the object that fields stand for is one of those that are written. -/
theorem exists_of_mem_objectOf {fields : List (FieldId × List Written)} {d : FieldId × List Value}
    {v : Value} (hd : d ∈ (objectOf fields).entries) (hv : v ∈ d.2) :
    ∃ e ∈ fields, ∃ w ∈ e.2, w.value = v := by
  obtain ⟨g, hg, hv⟩ := Fields.exists_group_of_mem hd hv
  rw [groups_eq_map] at hg
  obtain ⟨e, he, rfl⟩ := List.mem_map.mp hg
  obtain ⟨w, hw, rfl⟩ := List.mem_map.mp hv
  exact ⟨e, he, w, hw, rfl⟩

/-- Every value is written as what it is, and every count and every length fits a 32-bit word. -/
inductive Proper : Written → Prop
  | bool (byte : UInt8) : Proper (.bool byte)
  | single {v : Value} : v.kind ≠ .bool → v.kind ≠ .object → v.Fits → Proper (.single v)
  | object {fields : List (FieldId × List Written)} : fields.length < UInt32.size →
      (∀ e ∈ fields, e.2.length < UInt32.size) → (∀ e ∈ fields, ∀ w ∈ e.2, Proper w) →
      Proper (.object fields)

/-- In every object, at any depth, the numbers ascend strictly, every field has a value, and every
truth value is written as zero or one. -/
inductive Canonical : Written → Prop
  | bool {byte : UInt8} : byte = 0 ∨ byte = 1 → Canonical (.bool byte)
  | single (v : Value) : Canonical (.single v)
  | object {fields : List (FieldId × List Written)} :
      fields.Pairwise (fun a b => a.1 < b.1) → (∀ e ∈ fields, 1 ≤ e.2.length) →
      (∀ e ∈ fields, ∀ w ∈ e.2, Canonical w) → Canonical (.object fields)

/-- The fields are written as a string. -/
structure Spells (fields : List (FieldId × List Written)) (string : Bytes) : Prop where
  proper : Proper (.object fields)
  bytes_eq : objectBytes fields = string

/-! ### A string is written in one way -/

theorem head_encode (v : Value) : ∃ payload, v.encode = v.kind.tag :: payload := by
  cases v <;> exact ⟨_, by rw [Value.encode]; rfl⟩

theorem tag_injective : Function.Injective Kind.tag := by
  intro k l h
  exact Option.some.inj ((Kind.ofTag?_tag k).symm.trans (h ▸ Kind.ofTag?_tag l))

theorem word32_append_inj {v w : UInt32} {t u : Bytes} (h : word32 v ++ t = word32 w ++ u) :
    v = w ∧ t = u := by
  obtain ⟨hword, htail⟩ := List.append_inj h (by rw [length_word32, length_word32])
  exact ⟨word32_injective hword, htail⟩

/-- Items that show where they end show where each of a number of them ends. -/
theorem flatMap_append_inj {ι : Type} {code : ι → Bytes} {xs ys : List ι} {t u : Bytes}
    (hitem : ∀ x ∈ xs, ∀ y ∈ ys, ∀ t u, code x ++ t = code y ++ u → x = y ∧ t = u)
    (hlength : xs.length = ys.length) (h : xs.flatMap code ++ t = ys.flatMap code ++ u) :
    xs = ys ∧ t = u := by
  induction xs generalizing ys with
  | nil =>
      obtain rfl := List.eq_nil_of_length_eq_zero hlength.symm
      exact ⟨rfl, h⟩
  | cons x xs ih =>
      cases ys with
      | nil => cases hlength
      | cons y ys =>
          rw [List.flatMap_cons, List.flatMap_cons, List.append_assoc, List.append_assoc] at h
          obtain ⟨rfl, hrest⟩ := hitem x List.mem_cons_self y List.mem_cons_self _ _ h
          obtain ⟨rfl, htail⟩ := ih
            (fun a ha b hb => hitem a (List.mem_cons_of_mem x ha) b (List.mem_cons_of_mem x hb))
            (Nat.succ.inj hlength) hrest
          exact ⟨rfl, htail⟩

/-- A counted list shows where it ends if its items do. -/
theorem counted_append_inj {ι : Type} {code : ι → Bytes} {xs ys : List ι} {t u : Bytes}
    (hxs : xs.length < UInt32.size) (hys : ys.length < UInt32.size)
    (hitem : ∀ x ∈ xs, ∀ y ∈ ys, ∀ t u, code x ++ t = code y ++ u → x = y ∧ t = u)
    (h : word32 (count32 xs.length) ++ (xs.flatMap code ++ t) =
      word32 (count32 ys.length) ++ (ys.flatMap code ++ u)) :
    xs = ys ∧ t = u := by
  obtain ⟨hcount, h⟩ := word32_append_inj h
  have hlength : xs.length = ys.length := by
    rw [← toNat_count32 hxs, hcount, toNat_count32 hys]
  exact flatMap_append_inj hitem hlength h

theorem length_encode_le {v : Value} (hkind : v.kind ≠ .object) (hfits : v.Fits) :
    v.encode.length ≤ maxPosition := by
  cases v
  case object o => exact absurd rfl hkind
  case string s =>
    cases hfits with
    | word h => cases h
    | string h =>
        simp only [Value.encode, lengthPrefixed, List.length_cons, List.length_append,
          length_word32]
        exact le_trans (by omega : _ ≤ UInt32.size + 5) (by decide)
  case bytes b =>
    cases hfits with
    | word h => cases h
    | bytes h =>
        simp only [Value.encode, lengthPrefixed, List.length_cons, List.length_append,
          length_word32]
        exact le_trans (by omega : _ ≤ UInt32.size + 5) (by decide)
  all_goals
    simp only [Value.encode, List.length_cons, length_word32, length_word64, List.length_nil]
    decide

/-- A value that is no object shows where it ends, since it is read whatever follows. -/
theorem encode_append_inj {v w : Value} (hv : v.kind ≠ .object) (hw : w.kind ≠ .object)
    (hvfits : v.Fits) (hwfits : w.Fits) {t u : Bytes} (h : v.encode ++ t = w.encode ++ u) :
    v = w ∧ t = u := by
  have hsize : max v.encode.length w.encode.length ≤ maxPosition :=
    max_le (length_encode_le hv hvfits) (length_encode_le hw hwfits)
  have hreadv := Cursor.single_answers hv hvfits (Cursor.object 0)
    (max v.encode.length w.encode.length) 0 t (by omega) hsize
  have hreadw := Cursor.single_answers hw hwfits (Cursor.object 0)
    (max v.encode.length w.encode.length) 0 u (by omega) hsize
  rw [h, hreadw] at hreadv
  obtain ⟨hvalue, hcursor⟩ := Prod.mk.inj (Except.ok.inj hreadv)
  exact ⟨hvalue.symm, (Cursor.mk.inj hcursor).2.2.symm⟩

/-- The kind of a written value. -/
def kind : Written → Kind
  | .bool _ => .bool
  | .single v => v.kind
  | .object _ => .object

theorem exists_bytes_eq_cons (w : Written) : ∃ payload, w.bytes = w.kind.tag :: payload := by
  cases w with
  | bool byte => exact ⟨[byte], by rw [bytes, kind]⟩
  | single v =>
      obtain ⟨payload, h⟩ := head_encode v
      exact ⟨payload, by rw [bytes, kind, h]⟩
  | object fields => exact ⟨_, by rw [bytes, kind]⟩

theorem kind_eq_of_bytes {w w' : Written} {t u : Bytes} (h : w.bytes ++ t = w'.bytes ++ u) :
    w.kind = w'.kind := by
  obtain ⟨payload, hw⟩ := w.exists_bytes_eq_cons
  obtain ⟨payload', hw'⟩ := w'.exists_bytes_eq_cons
  rw [hw, hw'] at h
  exact tag_injective (List.cons.inj h).1

theorem bytes_object_append (fields : List (FieldId × List Written)) (t : Bytes) :
    (Written.object fields).bytes ++ t =
      Kind.object.tag :: (word32 (count32 fields.length) ++ (fields.flatMap fieldBytes ++ t)) := by
  rw [bytes, bytesOfFields_eq_flatMap, List.cons_append, List.append_assoc]

/-- Every written value shows where it ends, so a string is written in one way. -/
theorem Proper.bytes_append_inj {w w' : Written} (hw : w.Proper) (hw' : w'.Proper) {t u : Bytes}
    (h : w.bytes ++ t = w'.bytes ++ u) : w = w' ∧ t = u := by
  have hkind := kind_eq_of_bytes h
  induction hw generalizing w' t u with
  | bool byte =>
      cases hw' with
      | bool byte' =>
          simp only [bytes, List.cons_append, List.nil_append, List.cons.injEq, true_and] at h
          exact ⟨congrArg Written.bool h.1, h.2⟩
      | single hbool _ _ => exact absurd hkind.symm hbool
      | object _ _ _ => cases hkind
  | single hbool hobject hfits =>
      cases hw' with
      | bool byte' => exact absurd hkind hbool
      | single _ hobject' hfits' =>
          simp only [bytes] at h
          obtain ⟨hvalue, htail⟩ := encode_append_inj hobject hobject' hfits hfits' h
          exact ⟨congrArg Written.single hvalue, htail⟩
      | object _ _ _ => exact absurd hkind hobject
  | @object fields hfields hcounts _ ih =>
      cases hw' with
      | bool byte' => cases hkind
      | single _ hobject' _ => exact absurd hkind.symm hobject'
      | @object fields' hfields' hcounts' hproper' =>
          have hfield : ∀ e ∈ fields, ∀ e' ∈ fields', ∀ t u,
              fieldBytes e ++ t = fieldBytes e' ++ u → e = e' ∧ t = u := by
            intro e he e' he' t u h
            simp only [fieldBytes, List.append_assoc] at h
            obtain ⟨hid, h⟩ := word32_append_inj h
            obtain ⟨hvalues, htail⟩ := counted_append_inj (hcounts e he) (hcounts' e' he')
              (fun w hw w' hw' t u h =>
                ih e he w hw (hproper' e' he' w' hw') h (kind_eq_of_bytes h)) h
            exact ⟨Prod.ext hid hvalues, htail⟩
          rw [bytes_object_append, bytes_object_append] at h
          obtain ⟨hsame, htail⟩ := counted_append_inj hfields hfields' hfield (List.cons.inj h).2
          exact ⟨congrArg Written.object hsame, htail⟩

theorem bytes_object (fields : List (FieldId × List Written)) :
    (Written.object fields).bytes = Kind.object.tag :: objectBytes fields := by
  rw [bytes, objectBytes]

/-- A string is spelled by the fields of one written object at most. -/
theorem Spells.unique {fields fields' : List (FieldId × List Written)} {string : Bytes}
    (h : Spells fields string) (h' : Spells fields' string) : fields = fields' := by
  have hbytes : (Written.object fields).bytes ++ [] = (Written.object fields').bytes ++ [] := by
    rw [bytes_object, bytes_object, h.bytes_eq, h'.bytes_eq]
  exact Written.object.inj (h.proper.bytes_append_inj h'.proper hbytes).1

/-! ### The form that encoding yields -/

mutual

/-- The form in which a value is encoded. -/
def ofValue : Value → Written
  | .bool b => .bool (if b then 1 else 0)
  | .object ⟨entries⟩ => .object (ofEntries entries)
  | v => .single v

/-- The form in which entries are encoded. -/
def ofEntries : List (FieldId × List Value) → List (FieldId × List Written)
  | [] => []
  | (f, vs) :: rest => (f, ofValues vs) :: ofEntries rest

/-- The form in which values are encoded. -/
def ofValues : List Value → List Written
  | [] => []
  | v :: rest => ofValue v :: ofValues rest

end

theorem ofValues_eq_map (vs : List Value) : ofValues vs = vs.map ofValue := by
  induction vs with
  | nil => rfl
  | cons v rest ih => rw [ofValues, ih, List.map_cons]

theorem ofEntries_eq_map (es : List (FieldId × List Value)) :
    ofEntries es = es.map fun e => (e.1, e.2.map ofValue) := by
  induction es with
  | nil => rfl
  | cons e rest ih =>
      obtain ⟨f, vs⟩ := e
      rw [ofEntries, ih, ofValues_eq_map, List.map_cons]

theorem ofValue_eq_single {v : Value} (hbool : v.kind ≠ .bool) (hobject : v.kind ≠ .object) :
    ofValue v = .single v := by
  cases v with
  | bool b => exact absurd rfl hbool
  | object o => exact absurd rfl hobject
  | _ => rfl

theorem ofValue_object (o : Object) :
    ofValue (.object o) = .object (o.entries.map fun e => (e.1, e.2.map ofValue)) := by
  rw [ofValue, ofEntries_eq_map]

theorem bytes_ofValue {v : Value} (h : v.Ordered) : (ofValue v).bytes = v.encode := by
  induction h with
  | @single v hobject =>
      by_cases hbool : v.kind = .bool
      · cases v with
        | bool b => simp only [ofValue, bytes, Value.encode]
        | _ => cases hbool
      · rw [ofValue_eq_single hbool hobject, bytes]
  | @object o _ _ ih =>
      have hfield : ∀ e ∈ o.entries, fieldBytes (e.1, e.2.map ofValue) = encodeEntry e := by
        intro e he
        have hvalues : (e.2.map ofValue).flatMap bytes = encodeValues e.2 := by
          rw [encodeValues_eq_flatMap, List.flatMap_map]
          exact List.flatMap_congr fun v hv => ih e he v hv
        rw [fieldBytes, hvalues, List.length_map, encodeEntry]
      rw [ofValue_object, bytes, bytesOfFields_eq_flatMap, List.flatMap_map, List.length_map,
        List.flatMap_congr hfield, Value.encode, encodeEntries_eq_flatMap]

theorem canonical_ofValue {v : Value} (h : v.Ordered) : (ofValue v).Canonical := by
  induction h with
  | @single v hobject =>
      by_cases hbool : v.kind = .bool
      · cases v with
        | bool b => exact .bool (by cases b <;> decide)
        | _ => cases hbool
      · rw [ofValue_eq_single hbool hobject]
        exact .single v
  | @object o hasc _ ih =>
      rw [ofValue_object]
      refine .object (List.pairwise_map.mpr hasc.sorted) ?_ ?_
      · intro e he
        obtain ⟨d, hd, rfl⟩ := List.mem_map.mp he
        rw [List.length_map]
        exact List.length_pos_of_ne_nil (hasc.nonempty d hd)
      · intro e he w hw
        obtain ⟨d, hd, rfl⟩ := List.mem_map.mp he
        obtain ⟨v, hv, rfl⟩ := List.mem_map.mp hw
        exact ih d hd v hv

theorem proper_ofValue {v : Value} (h : v.Fits) : (ofValue v).Proper := by
  have hsingle : ∀ {v : Value}, v.Fits → v.kind ≠ .object → (ofValue v).Proper := by
    intro v hfits hobject
    by_cases hbool : v.kind = .bool
    · cases v with
      | bool b => exact .bool _
      | _ => cases hbool
    · rw [ofValue_eq_single hbool hobject]
      exact .single hbool hobject hfits
  induction h with
  | @word v h => exact hsingle (.word h) fun hobject => by simp [hobject, Kind.fixedSize] at h
  | string h => exact hsingle (.string h) nofun
  | bytes h => exact hsingle (.bytes h) nofun
  | @object o hfields hcounts _ ih =>
      rw [ofValue_object]
      refine .object (by rwa [List.length_map]) ?_ ?_
      · intro e he
        obtain ⟨d, hd, rfl⟩ := List.mem_map.mp he
        rw [List.length_map]
        exact hcounts d hd
      · intro e he w hw
        obtain ⟨d, hd, rfl⟩ := List.mem_map.mp he
        obtain ⟨v, hv, rfl⟩ := List.mem_map.mp hw
        exact ih d hd v hv

/-- Fields that ascend and have values are collected as they stand. -/
theorem objectOf_eq {fields : List (FieldId × List Written)}
    (hsorted : fields.Pairwise fun a b => a.1 < b.1) (hfilled : ∀ e ∈ fields, 1 ≤ e.2.length) :
    objectOf fields = ⟨fields.map fun e => (e.1, e.2.map value)⟩ := by
  have hfold := @foldl_pushAll (groups fields) Fields.empty (by simp [Fields.empty])
    (by rw [groups_eq_map]; exact List.pairwise_map.mpr hsorted)
    (by
      rw [groups_eq_map]
      intro g hg
      obtain ⟨e, he, rfl⟩ := List.mem_map.mp hg
      have hlength := hfilled e he
      exact List.ne_nil_of_length_pos (by rwa [List.length_map]))
  rw [objectOf, Fields.ofGroups, hfold, groups_eq_map]
  rfl

/-- A canonical form is the one in which its value is encoded. -/
theorem Canonical.ofValue_value {w : Written} (h : w.Canonical) (hw : w.Proper) :
    ofValue w.value = w := by
  induction h with
  | bool h =>
      rcases h with rfl | rfl <;> rfl
  | single v =>
      cases hw with
      | single hbool hobject _ => rw [value, ofValue_eq_single hbool hobject]
  | @object fields hsorted hfilled _ ih =>
      cases hw with
      | object _ _ hproper =>
          have hfield : ∀ e ∈ fields, (e.1, (e.2.map value).map ofValue) = e := by
            intro e he
            have hvalues : ∀ w ∈ e.2, (ofValue ∘ value) w = w :=
              fun w hw => ih e he w hw (hproper e he w hw)
            rw [List.map_map, List.map_congr_left hvalues, List.map_id']
          rw [value_object, objectOf_eq hsorted hfilled, ofValue_object, List.map_map]
          exact congrArg Written.object ((List.map_congr_left hfield).trans (List.map_id' fields))

end Written

end EntitySchema.Wire
