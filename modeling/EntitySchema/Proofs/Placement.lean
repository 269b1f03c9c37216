import EntitySchema.Proofs.Fields
import EntitySchema.Proofs.Words
import EntitySchema.Schema.Shape
import EntitySchema.Wire.Value

/-!
# Where the values of a shape stand

A value of a shape stands under one field number: a single value at a position, the contents of a
container as all values of their kind. `Shape.view` is what a shape sees of an object in this way.
The lemmas say what is seen in the objects that storing makes.
-/

namespace EntitySchema.Schema

open Wire (FieldId Kind Object Value)

theorem Scalar.kind_ne_object (k : Scalar) : k.kind ≠ .object := by
  cases k <;> decide

/-- What a shape sees of an object: the value at a position, or all values if it is a container. -/
def Shape.view (shape : Shape) (o : Object) (f : FieldId) (i : Nat) : List Value :=
  if shape.isContainer then o.ofKind shape.kind f else ((o.ofKind shape.kind f)[i]?).toList

theorem ofKind_of_values {o : Object} {k : Kind} {f : FieldId} {values : List Value}
    (h : o.values f = values) (hkinds : ∀ x ∈ values, x.kind = k) : o.ofKind k f = values := by
  rw [Wire.Fields.ofKind, h, List.filter_eq_self]
  simpa using hkinds

/-- Values of one kind are counted exactly. -/
theorem toNat_count {o : Object} {k : Kind} {f : FieldId} {values : List Value}
    (hvalues : o.ofKind k f = values) (h : values.length < UInt32.size) :
    (o.count k f).toNat = values.length := by
  rw [Wire.Fields.count, hvalues, Wire.toNat_count32 h]

/-- A positive count says that there are values. -/
theorem count_pos_iff {o : Object} {k : Kind} {f : FieldId} {values : List Value}
    (hvalues : o.ofKind k f = values) (h : values.length < UInt32.size) :
    0 < o.count k f ↔ values ≠ [] := by
  rw [UInt32.lt_iff_toNat_lt, toNat_count hvalues h]
  exact List.length_pos_iff

theorem child_of_ofKind {o : Object} {f : FieldId} {i : Nat} {child : Object}
    (h : (o.ofKind .object f)[i]? = some (.object child)) : o.child f i = child := by
  simp [Wire.Fields.child, Wire.Fields.index, h]

/-- The values under a field number are what a shape of their kind sees. -/
theorem Shape.view_eq_values {shape : Shape} {o : Object} {f : FieldId} {values : List Value}
    (h : o.values f = values) (hkinds : ∀ x ∈ values, x.kind = shape.kind)
    (hsingle : shape.isContainer = false → ∃ x, values = [x]) : shape.view o f 0 = values := by
  rw [view, ofKind_of_values h hkinds]
  cases hshape : shape.isContainer with
  | false =>
      obtain ⟨x, rfl⟩ := hsingle hshape
      rfl
  | true => rfl

/-- The child object of an entry of a map. -/
def entryObject (key item : Value) : Object :=
  .ofGroups [(entryKey, [key]), (entryValue, [item])]

theorem distinct_entryObject (key item : Value) :
    ([(entryKey, [key]), (entryValue, [item])].map Prod.fst).Nodup :=
  (by decide : [entryKey, entryValue].Nodup)

theorem values_entryObject_key (key item : Value) :
    (entryObject key item).values entryKey = [key] :=
  Wire.Fields.values_ofGroups (distinct_entryObject key item) List.mem_cons_self

theorem values_entryObject_item (key item : Value) :
    (entryObject key item).values entryValue = [item] :=
  Wire.Fields.values_ofGroups (distinct_entryObject key item)
    (List.mem_cons_of_mem _ List.mem_cons_self)

/-- What is seen in the child object of an entry. -/
theorem view_entryObject {keys inner : Shape} {key item : Value}
    (hkey : key.kind = keys.kind) (hitem : item.kind = inner.kind) :
    keys.view (entryObject key item) entryKey 0 = [key] ∧
      inner.view (entryObject key item) entryValue 0 = [item] := by
  constructor
  · exact Shape.view_eq_values (values_entryObject_key key item) (by simpa using hkey)
      fun _ => ⟨key, rfl⟩
  · exact Shape.view_eq_values (values_entryObject_item key item) (by simpa using hitem)
      fun _ => ⟨item, rfl⟩

end EntitySchema.Schema
