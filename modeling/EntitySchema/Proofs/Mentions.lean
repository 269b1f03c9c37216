import EntitySchema.Code.Generation
import Mathlib

/-!
# What generated code mentions

Generated code mentions names of the schema, other generated items by their absolute paths and items
of the runtime library. `Meets` says that all tokens of code have a property that is of interest for
these only. The code that stores, loads or types a value of a shape mentions the user types that the
shape refers to. The code of a field or an event mentions its name, that of a type or a component
its own names and its data type, and that of the root module the data types, the structures and the
markers of all components.

## Implementation notes

The statements are equivalences wherever code is put together from other code, so that `simp` takes
the code of a declaration apart down to names and shapes. What a piece of code mentions is settled
once for the function that makes it, and for all properties.
-/

namespace EntitySchema.Code

/-- A property of tokens that asks nothing of words and only plain names of items of the runtime
library. -/
structure Condition where
  /-- The property. -/
  Holds : Token → Prop
  word (text : String) : Holds (.word text)
  runtime {name : String} (plain : Text.isPlainIdentifier name = true) : Holds (.runtime name)

attribute [simp] Condition.word Condition.runtime

/-- All tokens of the code have the property. -/
def Meets (P : Condition) (c : Code) : Prop := ∀ t ∈ c, P.Holds t

section

variable {P : Condition}

@[simp] theorem holds_number (n : UInt32) : P.Holds (number n) := P.word _

@[simp] theorem holds_sizeNumber (n : Nat) : P.Holds (sizeNumber n) := P.word _

@[simp] theorem meets_nil : Meets P [] := List.forall_mem_nil _

@[simp] theorem meets_append {a b : Code} : Meets P (a ++ b) ↔ Meets P a ∧ Meets P b :=
  List.forall_mem_append

@[simp] theorem meets_flatMap {α : Type} {xs : List α} {f : α → Code} :
    Meets P (xs.flatMap f) ↔ ∀ x ∈ xs, Meets P (f x) := by
  simp only [Meets, List.mem_flatMap, forall_exists_index, and_imp]
  constructor
  · intro h x hx t ht
    exact h t x hx ht
  · intro h t x hx ht
    exact h x hx t ht

@[simp] theorem meets_words (text : String) : Meets P (words text) := by
  simp [Meets, words]

@[simp] theorem meets_cons {t : Token} {c : Code} :
    Meets P (t :: c) ↔ P.Holds t ∧ Meets P c := List.forall_mem_cons

/-! ### Putting code together -/

@[simp] theorem meets_parens {c : Code} : Meets P (parens c) ↔ Meets P c := by
  simp [parens]

@[simp] theorem meets_braces {c : Code} : Meets P (braces c) ↔ Meets P c := by
  simp [braces]

@[simp] theorem meets_angles {c : Code} : Meets P (angles c) ↔ Meets P c := by
  simp [angles]

@[simp] theorem meets_commaSeparated {parts : List Code} :
    Meets P (commaSeparated parts) ↔ ∀ c ∈ parts, Meets P c := by
  fun_induction commaSeparated parts with
  | case1 => simp
  | case2 c => simp
  | case3 c rest _ ih => simp [ih]

@[simp] theorem meets_commaTerminated {parts : List Code} :
    Meets P (commaTerminated parts) ↔ ∀ c ∈ parts, Meets P c := by
  simp [commaTerminated]

@[simp] theorem meets_call {f : Code} {arguments : List Code} :
    Meets P (call f arguments) ↔ Meets P f ∧ ∀ c ∈ arguments, Meets P c := by
  simp [call]

@[simp] theorem meets_method {receiver : Code} {name : String} {arguments : List Code} :
    Meets P (method receiver name arguments) ↔
      Meets P receiver ∧ ∀ c ∈ arguments, Meets P c := by
  simp [method]

@[simp] theorem meets_someOf {c : Code} : Meets P (someOf c) ↔ Meets P c := by
  simp [someOf]

@[simp] theorem meets_noneOf : Meets P noneOf := meets_words _

@[simp] theorem meets_okOf {c : Code} : Meets P (okOf c) ↔ Meets P c := by
  simp [okOf]

@[simp] theorem meets_errOf {c : Code} : Meets P (errOf c) ↔ Meets P c := by
  simp [errOf]

@[simp] theorem meets_optionType {c : Code} : Meets P (optionType c) ↔ Meets P c := by
  simp [optionType]

@[simp] theorem meets_cloneOf {c : Code} : Meets P (cloneOf c) ↔ Meets P c := by
  simp [cloneOf]

@[simp] theorem meets_ifSome {bound : String} {value body : Code} :
    Meets P (ifSome bound value body) ↔ Meets P value ∧ Meets P body := by
  simp [ifSome]

@[simp] theorem meets_ifElse {condition yes no : Code} :
    Meets P (ifElse condition yes no) ↔
      Meets P condition ∧ Meets P yes ∧ Meets P no := by
  simp [ifElse]

@[simp] theorem meets_traitFunction {type trait : Code} {name : String} :
    Meets P (traitFunction type trait name) ↔ Meets P type ∧ Meets P trait := by
  simp [traitFunction]

@[simp] theorem meets_doc (text : String) : Meets P (doc text) := by simp [doc]

@[simp] theorem meets_fixedDoc (text : String) : Meets P (fixedDoc text) := by
  simp [fixedDoc]

@[simp] theorem meets_selfValue {members : List Initializer} :
    Meets P (selfValue members) ↔ ∀ i ∈ members, P.Holds (.name i.name) ∧ Meets P i.value := by
  simp [selfValue, Initializer.code]

@[simp] theorem meets_function {signature body : Code} :
    Meets P (function signature body) ↔ Meets P signature ∧ Meets P body := by
  simp [function]

/-! ### Storing and loading values -/

@[simp] theorem meets_holder (holder : Holder) : Meets P holder.code := by
  fun_induction Holder.code holder with
  | case1 => exact meets_nil
  | case2 name => exact meets_words name
  | case3 name rest _ ih => simp [ih]

@[simp] theorem meets_self {name : String} : Meets P (self name) ↔ P.Holds (.name name) := by
  simp [self]

/-- The name of the member that a value is found in, if it is found in one, has the property. -/
def Operand.Names (P : Condition) : Operand → Prop
  | .variable _ => True
  | .member name | .held name | .staged name => P.Holds (.name name)

@[simp] theorem names_variable (name : String) : (Operand.variable name).Names P := trivial

@[simp] theorem names_member {name : String} :
    (Operand.member name).Names P ↔ P.Holds (.name name) := Iff.rfl

@[simp] theorem names_held {name : String} :
    (Operand.held name).Names P ↔ P.Holds (.name name) := Iff.rfl

@[simp] theorem names_staged {name : String} :
    (Operand.staged name).Names P ↔ P.Holds (.name name) := Iff.rfl

@[simp] theorem meets_operand {value : Operand} : Meets P value.code ↔ value.Names P := by
  cases value <;> simp [Operand.code]

@[simp] theorem meets_countOf (holder : Holder) (field : Wire.FieldId) (kind : Wire.Kind) :
    Meets P (countOf holder field kind) := by
  simp [countOf]

@[simp] theorem meets_cleanCell {value : Code} :
    Meets P (cleanCell value) ↔ Meets P value := by
  simp [Text.isPlainIdentifier, cleanCell, trackedCell]

@[simp] theorem meets_filled {name type counter : String} {count step : Code} :
    Meets P (filled name type count counter step) ↔ Meets P count ∧ Meets P step := by
  simp [filled]

@[simp] theorem meets_scalarType (s : Schema.Scalar) : Meets P (scalarType s) := by
  cases s <;> simp [Text.isPlainIdentifier, scalarType]

end

end EntitySchema.Code

namespace EntitySchema.Schema

open Code (Condition Declaration Fragment Holder Initializer Loading Meets Member Operand Statement
  Token)
open Wire (FieldId)

/-- The paths of all user types that a shape refers to have the property. -/
def Shape.RefersOnly (P : Condition) (shape : Shape) : Prop :=
  ∀ name ∈ shape.references, P.Holds (Code.itemOf name)

variable {P : Condition}

namespace Shape

@[simp] theorem refersOnly_scalar (s : Scalar) : (Shape.scalar s).RefersOnly P := by
  simp [RefersOnly, references]

@[simp] theorem refersOnly_reference {name : String} :
    (Shape.reference name).RefersOnly P ↔ P.Holds (Code.itemOf name) := by
  simp [RefersOnly, references]

@[simp] theorem refersOnly_option {inner : Shape} :
    (Shape.option inner).RefersOnly P ↔ inner.RefersOnly P := by
  simp [RefersOnly, references]

@[simp] theorem refersOnly_list {inner : Shape} :
    (Shape.list inner).RefersOnly P ↔ inner.RefersOnly P := by
  simp [RefersOnly, references]

@[simp] theorem refersOnly_map {key value : Shape} :
    (Shape.map key value).RefersOnly P ↔ key.RefersOnly P ∧ value.RefersOnly P := by
  simp only [RefersOnly, references, List.forall_mem_append]

@[simp] theorem meets_typeCode {shape : Shape} :
    Meets P shape.typeCode ↔ shape.RefersOnly P := by
  induction shape with
  | scalar s => simp [typeCode]
  | reference name => simp [typeCode]
  | option inner ih => simp [typeCode, ih]
  | list inner ih => simp [typeCode, ih]
  | map key value ihKey ihValue => simp [typeCode, ihKey, ihValue]

/-- The statement that stores a value mentions the user types of its shape and the member that the
value is found in. -/
@[simp] theorem meets_writing {shape : Shape} {holder : Holder} {field : FieldId}
    {value : Operand} :
    Meets P (shape.writing holder field value).code ↔ value.Names P ∧ shape.RefersOnly P := by
  induction shape generalizing holder field value with
  | scalar s =>
      have hvalue : Meets P (if s.isCopy then "*" ++ value.code else value.code : Code) ↔
          value.Names P := by
        split_ifs <;> simp
      simp [writing, Statement.code, hvalue]
  | reference name =>
      simp [Text.isPlainIdentifier, writing, Statement.code, Code.storedTrait, and_comm]
  | option inner ih => simp [writing, Statement.code, ih]
  | list inner ih => simp [writing, Statement.code, ih]
  | map key item ihKey ihItem => simp [writing, Statement.code, ihKey, ihItem]

/-- The expression that loads a value mentions the user types of its shape. -/
@[simp] theorem meets_reading {shape : Shape} {holder : Holder} {field : FieldId}
    {position : String} :
    Meets P (shape.reading holder field position).code ↔ shape.RefersOnly P := by
  induction shape generalizing holder field position with
  | scalar s => simp [reading, Code.Expression.code]
  | reference name =>
      simp [Text.isPlainIdentifier, reading, Code.Expression.code, Code.storedTrait]
  | option inner ih => simp [reading, Code.Expression.code, ih]
  | list inner ih => simp [reading, Code.Expression.code, ih]
  | map key item ihKey ihItem => simp [reading, Code.Expression.code, ihKey, ihItem]

end Shape

/-! ### Members, fields and events -/

@[simp] theorem meets_plain {shape : Shape} :
    Meets P (Code.MemberType.plain shape).code ↔ shape.RefersOnly P := Shape.meets_typeCode

@[simp] theorem meets_tracked {shape : Shape} :
    Meets P (Code.MemberType.tracked shape).code ↔ shape.RefersOnly P := by
  simp [Text.isPlainIdentifier, Code.MemberType.code, Code.trackedCell]

@[simp] theorem meets_flag : Meets P Code.MemberType.flag.code := Code.meets_words _

@[simp] theorem meets_queue {shape : Shape} :
    Meets P (Code.MemberType.queue shape).code ↔ shape.RefersOnly P := by
  simp [Text.isPlainIdentifier, Code.MemberType.code, Code.queue]

namespace Field

variable {f : Field}

/-- The name of a field and the user types that it refers to have the property. -/
def Meets (P : Condition) (f : Field) : Prop := P.Holds (.name f.name) ∧ f.shape.RefersOnly P

@[simp] theorem meets_plainMember : Code.Meets P f.plainMember.code ↔ f.Meets P := by
  simp [Member.code, plainMember, attributes, Meets]

@[simp] theorem meets_dataMember : Code.Meets P f.dataMember.code ↔ f.Meets P := by
  simp [Member.code, dataMember, attributes, Meets]

@[simp] theorem meets_updateMember : Code.Meets P f.updateMember.code ↔ f.Meets P := by
  simp [Member.code, updateMember, attributes, Meets]

@[simp] theorem meets_loading : Code.Meets P f.loading.value.code ↔ f.shape.RefersOnly P := by
  unfold loading
  split_ifs <;> simp [Code.Expression.code]

@[simp] theorem meets_storing : Code.Meets P f.storing.code ↔ f.Meets P := by
  have hoperand : f.operand.Names P ↔ P.Holds (.name f.name) := by
    unfold operand
    split_ifs <;> simp
  simp [storing, Statement.code, hoperand, Meets]

@[simp] theorem meets_receiving :
    Code.Meets P f.receiving.source.code ↔ f.shape.RefersOnly P := by
  simp [receiving, Code.Source.code]

@[simp] theorem meets_change : Code.Meets P f.change.code ↔ f.shape.RefersOnly P := by
  unfold change
  split_ifs <;> simp [Code.Change.code]

@[simp] theorem meets_sending : Code.Meets P f.sending.code ↔ f.Meets P := by
  simp [sending, Code.Step.code, Meets]

@[simp] theorem meets_flushing : Code.Meets P f.flushing.code ↔ f.Meets P := by
  simp [flushing, Code.Step.code, Meets]

@[simp] theorem meets_applying : Code.Meets P f.applying.code ↔ P.Holds (.name f.name) := by
  simp [applying, Code.Step.code]

@[simp] theorem meets_dirtiness : Code.Meets P f.dirtiness.code ↔ P.Holds (.name f.name) := by
  simp [dirtiness, Code.Test.code]

@[simp] theorem meets_converting :
    Code.Meets P f.converting.source.code ↔ P.Holds (.name f.name) := by
  simp [converting, Code.Source.code]

end Field

namespace Event

variable {e : Event}

/-- The name of an event and the user types that it refers to have the property. -/
def Meets (P : Condition) (e : Event) : Prop := P.Holds (.name e.name) ∧ e.shape.RefersOnly P

@[simp] theorem refersOnly_batch : e.batch.RefersOnly P ↔ e.shape.RefersOnly P :=
  Shape.refersOnly_list

@[simp] theorem meets_dataMember : Code.Meets P e.dataMember.code ↔ e.Meets P := by
  simp [Member.code, dataMember, attributes, Meets]

@[simp] theorem meets_updateMember : Code.Meets P e.updateMember.code ↔ e.Meets P := by
  simp [Member.code, updateMember, attributes, Meets]

@[simp] theorem meets_receiving :
    Code.Meets P e.receiving.source.code ↔ e.shape.RefersOnly P := by
  simp [receiving, Code.Source.code]

@[simp] theorem meets_sending : Code.Meets P e.sending.code ↔ e.Meets P := by
  simp [sending, Code.Step.code, Meets]

@[simp] theorem meets_flushing :
    (∀ step ∈ e.flushing, Code.Meets P step.code) ↔ e.Meets P := by
  simp +contextual [flushing, Code.Step.code, Meets]

@[simp] theorem meets_loading : Code.Meets P e.loading.value.code := by
  simp [Text.isPlainIdentifier, loading, Code.Expression.code, Code.queue]

@[simp] theorem meets_applying : Code.Meets P e.applying.code ↔ P.Holds (.name e.name) := by
  simp [applying, Code.Step.code]

@[simp] theorem meets_pendency : Code.Meets P e.pendency.code ↔ P.Holds (.name e.name) := by
  simp [pendency, Code.Test.code]

@[simp] theorem meets_occurrence : Code.Meets P e.occurrence.code ↔ P.Holds (.name e.name) := by
  simp [occurrence, Code.Test.code]

@[simp] theorem meets_cleaning : Code.Meets P e.cleaning.code ↔ P.Holds (.name e.name) := by
  simp [cleaning, Code.Step.code]

end Event

/-- The members of loaded data beside its fields mention the flag and the names of the events. -/
theorem meets_idleLoadings {events : List Event} (hflag : P.Holds (.name dirtyMember))
    (hevents : ∀ e ∈ events, P.Holds (.name e.name)) :
    ∀ l ∈ idleLoadings events, P.Holds (.name l.name) ∧ Meets P l.value.code := by
  simp only [idleLoadings, List.forall_mem_cons, List.forall_mem_map]
  exact ⟨⟨hflag, Code.meets_words _⟩, fun e he => ⟨hevents e he, Event.meets_loading⟩⟩

/-! ### Declarations -/

/-- The code of a fragment mentions what its declarations mention. -/
theorem meets_declarations {f : Fragment} :
    Meets P f.code ↔ ∀ d ∈ f, Meets P d.code := Code.meets_flatMap

@[simp] theorem meets_record {text name : String} {members : List Member} :
    Meets P (Declaration.record text name members).code ↔
      P.Holds (.name name) ∧ ∀ m ∈ members, Meets P m.code := by
  simp [Declaration.code]

@[simp] theorem meets_marker {attributes : Code} {name : String} :
    Meets P (Declaration.marker attributes name).code ↔
      Meets P attributes ∧ P.Holds (.name name) := by
  simp [Declaration.code]

@[simp] theorem meets_variants {attributes : Code} {name : String}
    {cases : List (String × Code)} :
    Meets P (Declaration.variants attributes name cases).code ↔
      Meets P attributes ∧ P.Holds (.name name) ∧ ∀ c ∈ cases, Meets P c.2 := by
  simp only [Declaration.code, Code.meets_append, Code.meets_braces,
    Code.meets_commaTerminated, List.forall_mem_map]
  simp [and_assoc]

@[simp] theorem meets_other {before after : Code} {name : String} :
    Meets P (Declaration.other before name after).code ↔
      Meets P before ∧ P.Holds (.name name) ∧ Meets P after := by
  simp [Declaration.code]

@[simp] theorem meets_functions {header body : Code} :
    Meets P (Declaration.functions header body).code ↔ Meets P header ∧ Meets P body := by
  simp [Declaration.code]

/-! ### Types -/

namespace UserType

variable {t : UserType}

/-- All that the code of a type mentions has the property: its name, its fields and, if it holds the
data of a component, the flag and the events. -/
structure Meets (P : Condition) (t : UserType) : Prop where
  name : P.Holds (.name t.name)
  fields : ∀ f ∈ t.fields, f.Meets P
  flag : t.isData = true → P.Holds (.name dirtyMember)
  events : t.isData = true → ∀ e ∈ t.events, e.Meets P

theorem Meets.members (h : t.Meets P) : ∀ m ∈ t.members, Code.Meets P m.code := by
  unfold UserType.members
  split_ifs with hdata
  · simp only [List.forall_mem_append, List.forall_mem_cons, List.forall_mem_map,
      Field.meets_dataMember, Event.meets_dataMember]
    exact ⟨h.fields, by simp [Member.code, dirtyFlag, h.flag hdata], h.events hdata⟩
  · simp only [List.forall_mem_map, Field.meets_plainMember]
    exact h.fields

theorem Meets.loadings (h : t.Meets P) :
    ∀ l ∈ t.loadings, P.Holds (.name l.name) ∧ Code.Meets P l.value.code := by
  rw [UserType.loadings, List.forall_mem_append]
  constructor
  · simp only [List.forall_mem_map, Field.meets_loading]
    exact h.fields
  · split_ifs with hdata
    · exact meets_idleLoadings (h.flag hdata) fun e he => (h.events hdata e he).1
    · exact List.forall_mem_nil _

/-- The code of a user type mentions its name and what its fields and events mention. -/
theorem Meets.fragment (h : t.Meets P) : Code.Meets P t.fragment.code := by
  have hstoring : Code.Meets P t.storing := by
    simp only [storing, storings, Code.meets_append, Code.meets_function,
      Code.meets_selfValue, Code.meets_flatMap, List.forall_mem_map, Loading.initializer,
      Field.meets_storing]
    simpa [Text.isPlainIdentifier] using ⟨h.loadings, h.fields⟩
  simp only [meets_declarations, UserType.fragment, List.forall_mem_cons, meets_record,
    meets_functions]
  exact ⟨⟨h.name, h.members⟩,
    ⟨by simp [Text.isPlainIdentifier, Code.storedTrait, h.name], hstoring⟩,
    List.forall_mem_nil _⟩

end UserType

/-! ### Components -/

@[simp] theorem meets_anyOf {conditions : List Code} :
    Meets P (anyOf conditions) ↔ ∀ c ∈ conditions, Meets P c := by
  simp [anyOf]

namespace Component

variable {c : Component} {data : UserType}

/-- All that the code of a component mentions has the property: its data type, its own names, the
fields of its data, the flag, its events and its commands. -/
structure Meets (P : Condition) (c : Component) (data : UserType) : Prop where
  dataType : P.Holds (Code.itemOf data.qualifiedName)
  name : P.Holds (.name c.name)
  updateName : P.Holds (.name c.updateName)
  fields : ∀ f ∈ data.fields, f.Meets P
  flag : P.Holds (.name dirtyMember)
  events : ∀ e ∈ c.events, e.Meets P
  commands : ∀ m ∈ c.commands, P.Holds (.name m.name) ∧ P.Holds (.name (c.markerName m)) ∧
    m.request.RefersOnly P ∧ m.response.RefersOnly P

theorem Meets.plain (h : c.Meets P data) : ∀ d ∈ c.plain data, Code.Meets P d.code := by
  have hgetters : ∀ m ∈ c.commands, Code.Meets P (c.getter m) := by
    intro m hm
    obtain ⟨hname, hmarker, -⟩ := h.commands m hm
    simp [getter, hname, hmarker]
  unfold Component.plain
  split_ifs
  · simpa [h.name] using h.fields
  · simpa [h.name] using ⟨h.fields, hgetters⟩

theorem Meets.update (h : c.Meets P data) : Code.Meets P (c.update data).code := by
  simp only [Component.update, updateMembers, meets_record, List.forall_mem_append,
    List.forall_mem_map, Field.meets_updateMember, Event.meets_updateMember]
  exact ⟨h.updateName, h.fields, h.events⟩

theorem Meets.association (h : c.Meets P data) : Code.Meets P (c.association data).code := by
  simp [Text.isPlainIdentifier, Component.association, componentTrait, h.dataType, h.name,
    h.updateName]

/-- The members of a new structure mention their names and what they are made from. -/
theorem meets_makings {makings : List Code.Making} :
    (∀ i ∈ makings.map Code.Making.initializer, P.Holds (.name i.name) ∧ Code.Meets P i.value) ↔
      ∀ m ∈ makings, P.Holds (.name m.name) ∧ Code.Meets P m.source.code :=
  List.forall_mem_map

theorem Meets.conversion (h : c.Meets P data) : Code.Meets P (c.conversion data).code := by
  have hmakings : ∀ m ∈ c.converting data, P.Holds (.name m.name) ∧ Code.Meets P m.source.code := by
    rw [converting, List.forall_mem_append, List.forall_mem_map, List.forall_mem_map]
    exact ⟨fun f hf => ⟨(h.fields f hf).1, Field.meets_converting.mpr (h.fields f hf).1⟩,
      meets_idleLoadings h.flag fun e he => (h.events e he).1⟩
  simp only [Component.conversion, meets_functions, Code.meets_function, Code.meets_selfValue]
  exact ⟨by simp [h.dataType, h.name], by simp [h.name], meets_makings.mpr hmakings⟩

theorem Meets.dataFunctions (h : c.Meets P data) : Code.Meets P (c.dataFunctions data).code := by
  have hfields : ∀ f ∈ data.fields, P.Holds (.name f.name) := fun f hf => (h.fields f hf).1
  have hevents : ∀ e ∈ c.events, P.Holds (.name e.name) := fun e he => (h.events e he).1
  have happlying : ∀ step ∈ c.applying data, Code.Meets P step.code := by
    simpa [applying, List.forall_mem_append, -List.mem_append] using ⟨hfields, hevents⟩
  have hpendency : ∀ test ∈ c.pendency data, Code.Meets P test.code := by
    simpa [pendency, List.forall_mem_append, -List.mem_append] using ⟨hfields, hevents⟩
  have hflushing : ∀ step ∈ c.flushing data, Code.Meets P step.code := by
    simpa [flushing, List.forall_mem_append, List.forall_mem_flatMap, -List.mem_append,
      -List.mem_flatMap] using ⟨h.fields, h.events⟩
  simpa [Text.isPlainIdentifier, Component.dataFunctions, componentTrait, updatePayload, h.dataType,
    h.name, h.updateName, -List.mem_append] using ⟨happlying, hpendency, hflushing, hevents⟩

theorem Meets.updateFunctions (h : c.Meets P data) :
    Code.Meets P (c.updateFunctions data).code := by
  have hreceiving : ∀ m ∈ c.receiving data,
      P.Holds (.name m.name) ∧ Code.Meets P m.source.code := by
    simp only [receiving, List.forall_mem_append, List.forall_mem_map, Field.meets_receiving,
      Event.meets_receiving]
    exact ⟨h.fields, h.events⟩
  have hsending : ∀ step ∈ c.sending data, Code.Meets P step.code := by
    simpa [sending, List.forall_mem_append, -List.mem_append] using ⟨h.fields, h.events⟩
  have hoccurrence : ∀ test ∈ (c.events.map Event.occurrence).map Code.Test.code,
      Code.Meets P test := by
    simpa using fun e he => (h.events e he).1
  have hmembers := meets_makings.mpr hreceiving
  simpa [Text.isPlainIdentifier, Component.updateFunctions, updatePayload, h.name, h.updateName,
    -List.mem_map, -List.map_map] using ⟨hmembers, hsending, hoccurrence⟩

theorem Meets.marker (h : c.Meets P data) {m : Command} (hm : m ∈ c.commands) :
    ∀ d ∈ c.marker m, Code.Meets P d.code := by
  obtain ⟨-, hmarker, hrequest, hresponse⟩ := h.commands m hm
  simp [Text.isPlainIdentifier, Component.marker, commandTrait, h.name, hmarker, hrequest,
    hresponse]

/-- The code of a component mentions its names, its data type and what its fields, events and
commands mention. -/
theorem Meets.fragment (h : c.Meets P data) : Code.Meets P (c.fragment data).code := by
  simp only [meets_declarations, Component.fragment, List.forall_mem_append, List.forall_mem_cons]
  refine ⟨⟨h.plain, ?_⟩, ?_⟩
  · exact ⟨h.update, h.association, h.conversion, h.dataFunctions, h.updateFunctions,
      List.forall_mem_nil _⟩
  · intro d hd
    obtain ⟨m, hm, hd⟩ := List.mem_flatMap.mp hd
    exact h.marker hm d hd

end Component

/-! ### The root module -/

@[simp] theorem meets_arm {pattern result : Code} :
    Meets P (arm pattern result) ↔ Meets P pattern ∧ Meets P result := by
  simp [arm]

@[simp] theorem Route.meets_arm {r : Route} {decode payload : String} :
    Meets P (r.arm decode payload) ↔ P.Holds r.marker := by
  simp [Text.isPlainIdentifier, Route.arm, commandTrait]

namespace Sum

variable {sum : Sum} {d : Dispatch}

/-- The names that a sum is mentioned by are plain. -/
structure IsPlain (sum : Sum) : Prop where
  trait : Text.isPlainIdentifier sum.name = true
  payload : Text.isPlainIdentifier ("Schema" ++ sum.name) = true
  anyTrait : Text.isPlainIdentifier ("Any" ++ sum.name) = true

theorem isPlain_data : data.IsPlain := ⟨by decide, by decide, by decide⟩

theorem isPlain_updates : updates.IsPlain := ⟨by decide, by decide, by decide⟩

@[simp] theorem meets_variant {name variant : String} {content : Code} :
    Meets P (Sum.variant name variant content) ↔ Meets P content := by
  simp [Sum.variant]

theorem IsPlain.contentFunction (h : sum.IsPlain) {content : Token} {name : String} :
    Meets P (sum.contentFunction content name) ↔ P.Holds content := by
  simp [Sum.contentFunction, P.runtime h.trait]

theorem meets_declaration (hname : P.Holds (.name sum.name))
    (h : ∀ e ∈ d.entries, P.Holds (sum.content e)) : Meets P (sum.declaration d).code := by
  simp only [declaration, variants, meets_variants, List.forall_mem_map]
  exact ⟨Code.meets_fixedDoc _, hname, by simpa using h⟩

theorem meets_numbering (h : ∀ e ∈ d.entries, P.Holds e.component.path) :
    Meets P (numbering d) := by
  simpa [Text.isPlainIdentifier, numbering, Entry.number, componentTrait] using h

theorem IsPlain.decoding (hsum : sum.IsPlain) (h : ∀ e ∈ d.entries, P.Holds (sum.content e)) :
    Meets P (sum.decoding d) := by
  simpa [Text.isPlainIdentifier, Sum.decoding, decoded, Sum.payload, List.flatMap_map,
    P.runtime hsum.payload, hsum.contentFunction] using h

theorem IsPlain.encoding (hsum : sum.IsPlain) (h : ∀ e ∈ d.entries, P.Holds (sum.content e)) :
    Meets P (sum.encoding d) := by
  simpa [Sum.encoding, variants, Sum.payload, List.flatMap_map, P.runtime hsum.payload,
    hsum.contentFunction] using h

theorem meets_applying (h : ∀ e ∈ d.entries, P.Holds e.dataPath) : Meets P (applying d) := by
  simpa [applying, applyArm, isPlain_data.contentFunction] using h

theorem IsPlain.functions (hsum : sum.IsPlain) {body : Code} (h : Meets P body) :
    Meets P (sum.functions body).code := by
  simpa [Sum.functions, P.runtime hsum.anyTrait] using h

end Sum

namespace Dispatch

variable {d : Dispatch}

/-- All that the code of the root module mentions has the property: its own names, the data types of
all components and the items of all components. -/
structure Meets (P : Condition) (d : Dispatch) : Prop where
  names : ∀ name ∈ rootItems, P.Holds (.name name)
  data : ∀ e ∈ d.entries, P.Holds (Code.itemOf e.data.qualifiedName)
  items : ∀ e ∈ d.entries, ∀ name ∈ e.component.items,
    P.Holds (Code.itemIn e.component.package name)

theorem Meets.position (h : d.Meets P) : Code.Meets P d.position.code := by
  have hname : P.Holds (.name positionName) := h.names _ (by decide)
  simp [Text.isPlainIdentifier, Dispatch.position, hname]

theorem meets_dispatching {name payload type : String} (htype : Text.isPlainIdentifier type = true)
    {arms : Code} : Code.Meets P (dispatching name payload type arms) ↔ Code.Meets P arms := by
  simp [Text.isPlainIdentifier, dispatching, P.runtime htype]

theorem Meets.path (h : d.Meets P) : ∀ e ∈ d.entries, P.Holds e.component.path :=
  fun e he => h.items e he _ List.mem_cons_self

theorem Meets.updatePath (h : d.Meets P) : ∀ e ∈ d.entries, P.Holds e.component.updatePath :=
  fun e he => h.items e he _ (List.mem_cons_of_mem _ List.mem_cons_self)

theorem Meets.marker (h : d.Meets P) : ∀ r ∈ d.routes, P.Holds r.marker := by
  intro r hr
  obtain ⟨e, he, hr⟩ := List.mem_flatMap.mp hr
  obtain ⟨m, hm, rfl⟩ := List.mem_map.mp hr
  exact h.items e he _ (List.mem_cons_of_mem _ (List.mem_cons_of_mem _ (List.mem_map_of_mem hm)))

theorem Meets.schemaFunctions (h : d.Meets P) : Code.Meets P d.schemaFunctions := by
  have hmentioned := And.intro h.marker h.path
  simpa [Text.isPlainIdentifier, Dispatch.schemaFunctions, meets_dispatching, Route.requestArm,
    Route.responseArm] using hmentioned

/-- The code of the root module mentions its own names, the data types of all components and their
items. -/
theorem Meets.fragment (h : d.Meets P) : Code.Meets P d.fragment.code := by
  have hdataFunctions : Code.Meets P ("type Update =" ++ Sum.updates.name ++ ";" ++
      Sum.numbering d ++ Sum.data.decoding d ++ Sum.data.encoding d ++ Sum.applying d : Code) := by
    simp [Sum.meets_numbering h.path, Sum.isPlain_data.decoding h.data,
      Sum.isPlain_data.encoding h.data, Sum.meets_applying h.data]
  have hupdateFunctions : Code.Meets P (Sum.numbering d ++ Sum.updates.decoding d ++
      Sum.updates.encoding d) := by
    simp [Sum.meets_numbering h.path, Sum.isPlain_updates.decoding h.updatePath,
      Sum.isPlain_updates.encoding h.updatePath]
  have hcount : P.Holds (.name countName) := h.names _ (by decide)
  have hschema : P.Holds (.name schemaName) := h.names _ (by decide)
  simp only [meets_declarations, Dispatch.fragment, List.forall_mem_cons]
  exact ⟨by simp [count, hcount], h.position,
    Sum.meets_declaration (h.names _ (by decide)) h.data,
    Sum.isPlain_data.functions hdataFunctions,
    Sum.meets_declaration (h.names _ (by decide)) h.updatePath,
    Sum.isPlain_updates.functions hupdateFunctions, by simp [hschema],
    by simp [Text.isPlainIdentifier, h.schemaFunctions], List.forall_mem_nil _⟩

end Dispatch

end EntitySchema.Schema
