import EntitySchema.Proofs.Fields
import EntitySchema.Proofs.Reading

/-!
# Objects are read back from their bytes

Every object that storing and erasing can build is decoded from its encoding, up to the nesting
limit; one level beyond the limit the answer is that the nesting is too deep, and nothing else.

## Implementation notes

`Fields.Built` is what the operations can make. It is used through `Value.Ordered`, which says of a
value that every object in it is ascending; the encoding is read back by induction on that. The same
induction covers both outcomes: a reader with `levels` levels left answers with the value when its
depth allows it and with the error otherwise.
-/

namespace EntitySchema.Wire

mutual

/-- The objects that the operations build: from nothing, by storing values of any kind and erasing
fields. -/
inductive Fields.Built : Object → Prop
  | empty : Fields.Built .empty
  | push {o : Object} {v : Value} (f : FieldId) : Fields.Built o → Value.Built v →
      Fields.Built (o.push f v)
  | erase {o : Object} (f : FieldId) : Fields.Built o → Fields.Built (o.erase f)

/-- The values that can be stored: any value of a single kind, and any built object. -/
inductive Value.Built : Value → Prop
  | single {v : Value} : v.kind ≠ .object → Value.Built v
  | object {o : Object} : Fields.Built o → Value.Built (.object o)

end

/-- Every object in the value, at any depth, has ascending numbers with values. -/
inductive Value.Ordered : Value → Prop
  | single {v : Value} : v.kind ≠ .object → Ordered v
  | object {o : Object} :
    o.Ascending → (∀ e ∈ o.entries, ∀ v ∈ e.2, Ordered v) → Ordered (.object o)

/-- Every count and every length in the value, at any depth, fits a 32-bit word. -/
inductive Value.Fits : Value → Prop
  | word {v : Value} : v.kind.fixedSize.isSome → Fits v
  | string {s : String} : (utf8 s).length < UInt32.size → Fits (.string s)
  | bytes {b : Bytes} : b.length < UInt32.size → Fits (.bytes b)
  | object {o : Object} : o.entries.length < UInt32.size →
      (∀ e ∈ o.entries, e.2.length < UInt32.size) → (∀ e ∈ o.entries, ∀ v ∈ e.2, Fits v) →
      Fits (.object o)

/-- Every count and every length in the object, at any depth, fits a 32-bit word. -/
def Fields.Fits (o : Object) : Prop := Value.Fits (.object o)

theorem Value.Ordered.ascending {o : Object} (h : Ordered (.object o)) : o.Ascending := by
  cases h with
  | single h => exact absurd rfl h
  | object h _ => exact h

theorem Value.Ordered.stored {o : Object} (h : Ordered (.object o)) :
    ∀ e ∈ o.entries, ∀ v ∈ e.2, Ordered v := by
  cases h with
  | single h => exact absurd rfl h
  | object _ h => exact h

/-- Storing an ordered value keeps every object in order. -/
theorem Value.Ordered.push {o : Object} {v : Value} (f : FieldId) (ho : Ordered (.object o))
    (hv : v.Ordered) : Ordered (.object (o.push f v)) := by
  refine .object (ho.ascending.push f v) fun e he w hw => ?_
  rcases Fields.mem_appendEntry he with he | rfl | ⟨bs, hbs, rfl⟩
  · exact ho.stored e he w hw
  · rw [List.mem_singleton.mp hw]
    exact hv
  · rcases List.mem_append.mp hw with hw | hw
    · exact ho.stored (f, bs) hbs w hw
    · rw [List.mem_singleton.mp hw]
      exact hv

theorem Value.Ordered.erase {o : Object} (f : FieldId) (ho : Ordered (.object o)) :
    Ordered (.object (o.erase f)) :=
  .object (ho.ascending.erase f) fun e he => ho.stored e (List.mem_of_mem_filter he)

mutual

/-- What the operations build is ordered at every depth. -/
theorem Fields.Built.ordered {o : Object} : o.Built → Value.Ordered (.object o)
  | .empty => .object Fields.ascending_empty (by simp [Fields.empty])
  | .push f ho hv => ho.ordered.push f hv.ordered
  | .erase f ho => ho.ordered.erase f

theorem Value.Built.ordered {v : Value} : v.Built → v.Ordered
  | .single h => .single h
  | .object h => h.ordered

end

/-- The outcome of reading something of a depth with a number of levels left. -/
def limited {α : Type} (levels depth : Nat) (a : α) : Except DecodeError α :=
  if depth ≤ levels then .ok a else .error (.nestingTooDeep maxNesting)

theorem limited_of_le {α : Type} {levels depth : Nat} (h : depth ≤ levels) (a : α) :
    limited levels depth a = .ok a := if_pos h

theorem limited_of_lt {α : Type} {levels depth : Nat} (h : levels < depth) (a : α) :
    limited levels depth a = .error (.nestingTooDeep maxNesting) := if_neg (Nat.not_le.mpr h)

theorem map_limited {α β : Type} (levels depth : Nat) (f : α → β) (a : α) :
    (limited levels depth a).map f = limited levels depth (f a) := by
  by_cases h : depth ≤ levels
  · rw [limited_of_le h, limited_of_le h, Except.map]
  · rw [limited_of_lt (Nat.not_le.mp h), limited_of_lt (Nat.not_le.mp h), Except.map]

namespace Cursor

/-- Reading a counted list item by item: the first item that is too deep decides the answer, and
otherwise the items are collected in order. -/
theorem fold_answers {σ ι : Type} {step : σ → Cursor → Except DecodeError (σ × Cursor)}
    {encode : ι → Bytes} {depth : ι → Nat} {collect : σ → ι → σ} {levels : Nat} {xs : List ι}
    (h : ∀ x ∈ xs, ∀ s, Answers (step s) (encode x) (limited levels (depth x) (collect s x)))
    (s : σ) :
    Answers (fold step xs.length s) (xs.flatMap encode)
      (limited levels (xs.foldr (fun x d => max (depth x) d) 0) (xs.foldl collect s)) := by
  induction xs generalizing s with
  | nil =>
      intro size offset tail _ _
      rfl
  | cons x rest ih =>
      have hx := h x List.mem_cons_self s
      have hrest := ih (fun y hy => h y (List.mem_cons_of_mem x hy)) (collect s x)
      simp only [List.flatMap_cons, List.foldr_cons, List.foldl_cons, List.length_cons]
      by_cases hd : depth x ≤ levels
      · rw [limited_of_le hd] at hx
        have hm : ∀ d, max (depth x) d ≤ levels ↔ d ≤ levels := by omega
        simp only [limited, hm] at hrest ⊢
        exact hx.bind hrest
      · have hlt : levels < depth x := Nat.not_le.mp hd
        rw [limited_of_lt hlt] at hx
        rw [limited_of_lt (lt_of_lt_of_le hlt (le_max_left _ _))]
        exact hx.bind_error

end Cursor

theorem encodeValues_eq_flatMap (vs : List Value) : encodeValues vs = vs.flatMap Value.encode := by
  induction vs with
  | nil => rfl
  | cons v rest ih => rw [encodeValues, ih, List.flatMap_cons]

theorem valuesDepth_eq_foldr (vs : List Value) :
    valuesDepth vs = vs.foldr (fun v d => max v.depth d) 0 := by
  induction vs with
  | nil => rfl
  | cons v rest ih => rw [valuesDepth, ih, List.foldr_cons]

/-- The bytes of one field: its number, its count and its values. -/
def encodeEntry (e : FieldId × List Value) : Bytes :=
  word32 e.1 ++ (word32 (count32 e.2.length) ++ encodeValues e.2)

theorem encodeEntries_eq_flatMap (es : List (FieldId × List Value)) :
    encodeEntries es = es.flatMap encodeEntry := by
  induction es with
  | nil => rfl
  | cons e rest ih =>
      obtain ⟨f, vs⟩ := e
      simp only [encodeEntries, ih, List.flatMap_cons, encodeEntry, List.append_assoc]

theorem entriesDepth_eq_foldr (es : List (FieldId × List Value)) :
    entriesDepth es = es.foldr (fun e d => max (valuesDepth e.2) d) 0 := by
  induction es with
  | nil => rfl
  | cons e rest ih =>
      obtain ⟨f, vs⟩ := e
      rw [entriesDepth, ih, List.foldr_cons]

namespace Fields

theorem depth_le_entriesDepth {es : List (FieldId × List Value)} {e : FieldId × List Value}
    {v : Value} (he : e ∈ es) (hv : v ∈ e.2) : v.depth ≤ entriesDepth es := by
  have hvalues : v.depth ≤ valuesDepth e.2 := by
    generalize e.2 = values at hv
    induction values with
    | nil => cases hv
    | cons w rest ih =>
        rw [valuesDepth]
        rcases List.mem_cons.mp hv with rfl | hv
        · exact le_max_left _ _
        · exact (ih hv).trans (le_max_right _ _)
  induction es with
  | nil => cases he
  | cons x rest ih =>
      obtain ⟨f, values⟩ := x
      rw [entriesDepth]
      rcases List.mem_cons.mp he with rfl | he
      · exact hvalues.trans (le_max_left _ _)
      · exact (ih he).trans (le_max_right _ _)

theorem entriesDepth_le {es : List (FieldId × List Value)} {n : Nat}
    (h : ∀ e ∈ es, ∀ v ∈ e.2, v.depth ≤ n) : entriesDepth es ≤ n := by
  have hvalues : ∀ values : List Value, (∀ v ∈ values, v.depth ≤ n) → valuesDepth values ≤ n := by
    intro values
    induction values with
    | nil => simp [valuesDepth]
    | cons v rest ih =>
        intro hv
        rw [valuesDepth]
        exact max_le (hv v List.mem_cons_self) (ih fun w hw => hv w (List.mem_cons_of_mem v hw))
  induction es with
  | nil => simp [entriesDepth]
  | cons e rest ih =>
      obtain ⟨f, values⟩ := e
      rw [entriesDepth]
      exact max_le (hvalues values (h (f, values) List.mem_cons_self))
        (ih fun e he => h e (List.mem_cons_of_mem _ he))

end Fields

/-- Entries that ascend from above what is there are put behind it one by one. -/
theorem foldl_pushAll {es : List (FieldId × List Value)} (o : Object)
    (habove : ∀ d ∈ o.entries, ∀ e ∈ es, d.1 < e.1) (hsorted : es.Pairwise fun a b => a.1 < b.1)
    (hne : ∀ e ∈ es, e.2 ≠ []) :
    es.foldl (fun o e => o.pushAll e.1 e.2) o = ⟨o.entries ++ es⟩ := by
  induction es generalizing o with
  | nil => simp
  | cons e rest ih =>
      have hpush : o.pushAll e.1 e.2 = ⟨o.entries ++ [e]⟩ := by
        have hn : e.2.isEmpty = false := by simpa using hne e List.mem_cons_self
        simp only [Fields.pushAll, hn, Bool.false_eq_true, if_false]
        rw [Fields.appendEntry_of_above fun d hd => habove d hd e List.mem_cons_self]
      rw [List.foldl_cons, hpush, ih, List.append_assoc, List.singleton_append]
      · intro d hd x hx
        rcases List.mem_append.mp hd with hd | hd
        · exact habove d hd x (List.mem_cons_of_mem e hx)
        · rw [List.mem_singleton.mp hd]
          exact (List.pairwise_cons.mp hsorted).1 x hx
      · exact (List.pairwise_cons.mp hsorted).2
      · exact fun x hx => hne x (List.mem_cons_of_mem e hx)

/-- Storing built values one by one keeps an object built. -/
theorem Fields.Built.pushAll {o : Object} (ho : o.Built) (f : FieldId) {values : List Value}
    (hvalues : ∀ v ∈ values, v.Built) : (o.pushAll f values).Built := by
  induction values generalizing o with
  | nil => exact ho
  | cons v rest ih =>
      have hsplit : o.pushAll f (v :: rest) = (o.push f v).pushAll f rest :=
        (pushAll_pushAll o f [v] rest).symm
      rw [hsplit]
      exact ih (.push f ho (hvalues v List.mem_cons_self)) fun w hw =>
        hvalues w (List.mem_cons_of_mem v hw)

theorem Fields.built_ofGroups {groups : List (FieldId × List Value)}
    (h : ∀ g ∈ groups, ∀ v ∈ g.2, v.Built) : (ofGroups groups).Built := by
  have hfold : ∀ o : Object, o.Built →
      Built (groups.foldl (fun o g => o.pushAll g.1 g.2) o) := by
    induction groups with
    | nil => exact fun o ho => ho
    | cons g rest ih =>
        intro o ho
        exact ih (fun k hk => h k (List.mem_cons_of_mem g hk)) _
          (ho.pushAll g.1 (h g List.mem_cons_self))
  exact hfold .empty .empty

/-- The operations build every ordered value: an object by storing its fields in their order. -/
theorem Value.Ordered.built {v : Value} (h : v.Ordered) : v.Built := by
  induction h with
  | single hkind => exact .single hkind
  | @object o hasc _ ih =>
      have hgroups : Fields.ofGroups o.entries = o := by
        rw [Fields.ofGroups, foldl_pushAll Fields.empty (by simp [Fields.empty]) hasc.sorted
          hasc.nonempty]
        rfl
      rw [← hgroups]
      exact .object (Fields.built_ofGroups ih)

namespace Cursor

variable {levels : Nat} {child : Cursor → Except DecodeError (Object × Cursor)}

/-- A field is read back when its values are. -/
theorem field_answers {e : FieldId × List Value} (hcount : e.2.length < UInt32.size)
    (h : ∀ v ∈ e.2, Answers (value child) v.encode (limited levels v.depth v)) (o : Object) :
    Answers (field child o) (encodeEntry e)
      (limited levels (valuesDepth e.2) (o.pushAll e.1 e.2)) := by
  have hstep : ∀ v ∈ e.2, ∀ acc : List Value,
      Answers (fun c => value child c >>= fun p => pure (p.1 :: acc, p.2)) v.encode
        (limited levels v.depth (v :: acc)) := by
    intro v hv acc
    rw [← map_limited levels v.depth (fun v => v :: acc) v]
    exact (h v hv).map fun v => v :: acc
  have hvalues := fold_answers hstep []
  rw [← encodeValues_eq_flatMap, ← valuesDepth_eq_foldr,
    List.foldl_flip_cons_eq_append', List.append_nil] at hvalues
  have hread := hvalues.map fun vs => o.pushAll e.1 vs.reverse
  rw [map_limited, List.reverse_reverse] at hread
  rw [← toNat_count32 hcount] at hread
  let collect (n : Nat) : Cursor → Except DecodeError (List Value × Cursor) :=
    fold (fun vs c => value child c >>= fun p => pure (p.1 :: vs, p.2)) n []
  have hcounted := (word32_answers (count32 e.2.length)).bind
    (k := fun (n : UInt32) c =>
      collect n.toNat c >>= fun p => pure (o.pushAll e.1 p.1.reverse, p.2)) hread
  exact (word32_answers e.1).bind
    (k := fun (f : FieldId) c => c.word32 >>= fun q =>
      collect q.1.toNat q.2 >>= fun p => pure (o.pushAll f p.1.reverse, p.2)) hcounted

/-- An object is read back when its values are: one level is used up by the object itself. -/
theorem object_answers {o : Object} (hasc : o.Ascending) (hfields : o.entries.length < UInt32.size)
    (hcounts : ∀ e ∈ o.entries, e.2.length < UInt32.size)
    (h : ∀ e ∈ o.entries, ∀ v ∈ e.2, ∀ levels,
      Answers (value (object levels)) v.encode (limited levels v.depth v)) (levels : Nat) :
    Answers (object levels) o.encode (limited levels o.depth o) := by
  cases levels with
  | zero =>
      intro size offset tail _ _
      rfl
  | succ levels =>
      have hfold := fold_answers
        (fun e he => field_answers (hcounts e he) fun v hv => h e he v hv levels) Fields.empty
      rw [← encodeEntries_eq_flatMap, ← entriesDepth_eq_foldr,
        foldl_pushAll Fields.empty (by simp [Fields.empty]) hasc.sorted hasc.nonempty] at hfold
      rw [← toNat_count32 hfields] at hfold
      have hobject := (word32_answers (count32 o.entries.length)).bind
        (k := fun (n : UInt32) c => fold (field (object levels)) n.toNat Fields.empty c) hfold
      have hdepth : limited (levels + 1) o.depth o =
          limited levels (entriesDepth o.entries) o := by
        simp only [limited, Fields.depth, Nat.add_le_add_iff_right]
      rw [hdepth]
      exact hobject

/-- A value that is no object is read back whatever reads child objects. -/
theorem single_answers {v : Value} (hkind : v.kind ≠ .object) (hfits : v.Fits)
    (child : Cursor → Except DecodeError (Object × Cursor)) :
    Answers (value child) v.encode (.ok v) := by
  cases v
  case object o => exact absurd rfl hkind
  case string s =>
    cases hfits with
    | word h => cases h
    | string h => exact value_answers ((text_answers h).map Value.string)
  case bytes b =>
    cases hfits with
    | word h => cases h
    | bytes h => exact value_answers ((prefixed_answers h).map Value.bytes)
  case bool b =>
    apply value_answers
    exact payload_answers rfl (fun _ => by rw [content]) List.length_singleton (by cases b <;> rfl)
  -- Every other kind is carried by one word, from which its value is made again.
  all_goals
    apply value_answers
    exact payload_answers rfl (fun _ => by rw [content])
      (by simp only [length_word32, length_word64]) (by simp)

/-- Every ordered value within the limits of the counts is read back if its depth allows it. -/
theorem encode_answers {v : Value} (hordered : v.Ordered) (hfits : v.Fits) (levels : Nat) :
    Answers (value (object levels)) v.encode (limited levels v.depth v) := by
  induction hordered generalizing levels with
  | @single v hkind =>
      have hdepth : v.depth = 0 := by
        cases v with
        | object o => exact absurd rfl hkind
        | _ => rfl
      rw [hdepth, limited_of_le (Nat.zero_le levels)]
      exact single_answers hkind hfits _
  | @object o hasc _ ih =>
      cases hfits with
      | word h => cases h
      | object hfields hcounts hstored =>
          have ho := object_answers hasc hfields hcounts
            (fun e he v hv => ih e he v hv (hstored e he v hv)) levels
          have hp : Answers (fun c => payload (object levels) c .object) o.encode _ :=
            ho.map Value.object
          rw [map_limited] at hp
          exact value_answers hp

/-- An ordered object within the limits of the counts is read back if its depth allows it. -/
theorem ordered_answers {o : Object} (ordered : Value.Ordered (.object o)) (fits : o.Fits)
    (levels : Nat) : Answers (object levels) o.encode (limited levels o.depth o) := by
  cases fits with
  | word h => cases h
  | object hfields hcounts hstored =>
      exact object_answers ordered.ascending hfields hcounts
        (fun e he v hv => encode_answers (ordered.stored e he v hv) (hstored e he v hv)) levels

/-- A built object within the limits of the counts is read back if its depth allows it. -/
theorem built_answers {o : Object} (built : o.Built) (fits : o.Fits) (levels : Nat) :
    Answers (object levels) o.encode (limited levels o.depth o) :=
  ordered_answers built.ordered fits levels

end Cursor

/-- Every object that the operations build, with counts and lengths that fit 32-bit words, is decoded
from its encoding up to the nesting limit, and refused as too deeply nested beyond it. -/
theorem Fields.decode_encode_of_built {o : Object} (built : o.Built) (fits : o.Fits)
    (addressable : o.encode.length ≤ maxPosition) :
    Fields.decode o.encode =
      if o.depth ≤ maxNesting then .ok o else .error (.nestingTooDeep maxNesting) := by
  have hread := (Cursor.built_answers built fits maxNesting).start addressable
  by_cases hd : o.depth ≤ maxNesting
  · rw [limited_of_le hd] at hread
    rw [if_pos hd, decode, hread]
    simp [Except.map, bind, Except.bind, Cursor.finish, pure, Except.pure]
  · rw [limited_of_lt (Nat.not_le.mp hd)] at hread
    rw [if_neg hd, decode, hread]
    rfl

/-- Objects nested one in the other, `n` of them around one that holds a text and a number. -/
def chain : Nat → Object
  | 0 => (Fields.empty.push 9 (.string "hull")).push 2 (.sint32 (-3))
  | n + 1 => Fields.empty.push 1 (.object (chain n))

theorem built_chain (n : Nat) : (chain n).Built := by
  induction n with
  | zero => exact .push 2 (.push 9 .empty (.single (by decide))) (.single (by decide))
  | succ n ih => exact .push 1 .empty (.object ih)

theorem fits_chain (n : Nat) : (chain n).Fits := by
  induction n with
  | zero =>
      have hentries : (chain 0).entries = [(2, [.sint32 (-3)]), (9, [.string "hull"])] := rfl
      have htext : (utf8 "hull").length < UInt32.size := by
        rw [length_utf8]
        decide
      refine .object ?_ ?_ ?_ <;> rw [hentries]
      · decide
      · simp [UInt32.size]
      · simpa using ⟨.word rfl, .string htext⟩
  | succ n ih =>
      have hentries : (chain (n + 1)).entries = [(1, [.object (chain n)])] := rfl
      have hchild : (Value.object (chain n)).Fits := ih
      refine .object ?_ ?_ ?_ <;> rw [hentries]
      · simp [UInt32.size]
      · simp [UInt32.size]
      · simpa using hchild

theorem depth_chain (n : Nat) : (chain n).depth = n + 1 := by
  induction n with
  | zero => rfl
  | succ n ih =>
      have hdepth : (chain (n + 1)).depth = (Value.object (chain n)).depth + 1 := by
        simp [chain, Fields.push, Fields.appendEntry, Fields.empty, Fields.depth, entriesDepth,
          valuesDepth]
      rw [hdepth]
      exact congrArg (· + 1) ih

theorem length_encode_chain (n : Nat) : (chain n).encode.length = 13 * n + 34 := by
  induction n with
  | zero =>
      have htext : (utf8 "hull").length = 4 := by
        rw [length_utf8]
        rfl
      have hentries : (chain 0).entries = [(2, [.sint32 (-3)]), (9, [.string "hull"])] := rfl
      simp [Fields.encode, hentries, encodeEntries, encodeValues, Value.encode, lengthPrefixed,
        htext]
  | succ n ih =>
      have hentries : (chain (n + 1)).entries = [(1, [.object (chain n)])] := rfl
      have hchild : (Value.object (chain n)).encode.length = (chain n).encode.length + 1 := rfl
      rw [Fields.encode, hentries]
      simp only [encodeEntries, encodeValues, List.length_append, length_word32, List.length_nil,
        hchild]
      omega

/-- The greatest chain that the limit allows comes back, and one object more is refused. -/
theorem Fields.decode_encode_chain :
    decode (chain 63).encode = .ok (chain 63) ∧
      decode (chain 64).encode = .error (.nestingTooDeep 64) := by
  have hfits (n : Nat) (hn : n ≤ 64) : (chain n).encode.length ≤ maxPosition := by
    rw [length_encode_chain, maxPosition, UInt64.size]
    omega
  constructor
  · rw [decode_encode_of_built (built_chain 63) (fits_chain 63) (hfits 63 (by decide)), depth_chain]
    rfl
  · rw [decode_encode_of_built (built_chain 64) (fits_chain 64) (hfits 64 (by decide)), depth_chain]
    rfl

end EntitySchema.Wire
