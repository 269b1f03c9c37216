import EntitySchema.Proofs.RootTables
import EntitySchema.Replica.Routing

/-!
# Dispatch through the root module

The root module hands a payload to the type or the marker that its numbers select, which compares
the numbers with its own before it reads the payload. In a linked schema they are always its own:
the tables have no two arms with one pattern, and what an arm calls is implemented once, for the
component or the command whose numbers the arm has. So a payload is either read or its numbers are
unknown.

## Implementation notes

What an implementation compares with is read from its code: the component is a setting of the
implementation and its number a setting of the component. Types are looked up by their absolute
paths, where a bare name stands for the item of the package that the code is written for.
-/

namespace EntitySchema.Text

theorem intercalate_divide (divider : Char) (cs : List Char) :
    [divider].intercalate (divide divider cs) = cs := by
  induction cs with
  | nil => rfl
  | cons c rest ih =>
      obtain ⟨part, parts, hrest⟩ := List.exists_cons_of_ne_nil (divide_ne_nil divider rest)
      rw [hrest] at ih
      rw [divide, hrest]
      split_ifs with hc
      · rw [List.intercalate_cons_cons, ih, hc]
        rfl
      · cases parts with
        | nil => simpa using ih
        | cons q parts => simpa [List.intercalate_cons_cons] using ih

theorem segments_injective : Function.Injective segments := by
  intro p q h
  have hparts : divide '.' p.toList = divide '.' q.toList :=
    List.map_injective_iff.mpr (fun _ _ => String.ofList_injective) h
  rw [← String.toList_inj, ← intercalate_divide '.' p.toList, hparts, intercalate_divide]

end EntitySchema.Text

namespace EntitySchema.Code

/-- The functions of a trait at a type. -/
structure Implementation where
  /-- The trait. -/
  trait : Token
  /-- The type. -/
  type : Token
  /-- The functions and settings. -/
  body : Code

/-- The functions of a declaration, if they are those of a trait at a type. -/
def Declaration.implementation? : Declaration → Option Implementation
  | .functions [trait, .word "for", type] body => some ⟨trait, type, body⟩
  | _ => none

/-- What a token stands for in a package: a name is an item of the package. -/
def Token.within (package : String) : Token → Token
  | .name own => itemIn package own
  | t => t

/-- The implementations in placed fragments, each with its package. -/
def implementations (placements : List (String × Fragment)) : List (String × Implementation) :=
  placements.flatMap fun p => (p.2.filterMap Declaration.implementation?).map (Prod.mk p.1)

/-- The trait is implemented at the type, and all implementations have a property. -/
structure Implemented (placements : List (String × Fragment)) (trait type : Token)
    (P : String → Code → Prop) : Prop where
  some : ∃ p ∈ implementations placements, p.2.trait = trait ∧ p.2.type.within p.1 = type
  all : ∀ p ∈ implementations placements, p.2.trait = trait → p.2.type.within p.1 = type →
    P p.1 p.2.body

/-- The token behind the first occurrence of some code. -/
def tokenAfter? (key : Code) : Code → Option Token
  | [] => none
  | t :: rest =>
    if key.isPrefixOf (t :: rest) then (t :: rest)[key.length]? else tokenAfter? key rest

theorem tokenAfter?_append {key : Code} (hkey : key ≠ []) (t : Token) (rest : Code) :
    tokenAfter? key (key ++ t :: rest) = some t := by
  obtain ⟨k, key, rfl⟩ := List.exists_cons_of_ne_nil hkey
  have hfound : (k :: key).isPrefixOf (k :: (key ++ t :: rest)) = true := by simp
  rw [List.cons_append, tokenAfter?, if_pos hfound]
  simp

theorem tokenAfter?_of_notMem {k : Token} {c : Code} (h : k ∉ c) (key rest : Code) :
    tokenAfter? (k :: key) (c ++ rest) = tokenAfter? (k :: key) rest := by
  induction c with
  | nil => rfl
  | cons t c ih =>
      rw [List.mem_cons, not_or] at h
      have hnot : ¬ (k :: key).isPrefixOf (t :: (c ++ rest)) = true := by
        simp [List.isPrefixOf, h.1]
      rw [List.cons_append, tokenAfter?, if_neg hnot, ih h.2]

end EntitySchema.Code

namespace EntitySchema.Schema

open Code (Token Declaration Fragment Implementation implementations Implemented tokenAfter?)
open Wire (ComponentId CommandIndex Direction)

/-! ## The implementations of a schema -/

/-- The functions of a declaration. -/
def declared : Declaration → Code
  | .functions _ body => body
  | _ => []

/-- The settings of the marker of a command. -/
def Component.markerSettings (c : Component) (m : Command) : Code :=
  Code.words "type Component =" ++ [Token.name c.name] ++ Code.words "; type Request =" ++
    m.request.typeCode ++ Code.words "; type Response =" ++ m.response.typeCode ++
    Code.words "; const COMMAND_INDEX :" ++ [Token.runtime "CommandIndex"] ++ Code.words "=" ++
    [Code.number m.index] ++ Code.words ";"

/-- The implementations that are generated for a component. -/
def Entry.implementations (e : Entry) : List Implementation :=
  [⟨componentTrait, .name e.component.name, declared (e.component.association e.data)⟩,
    ⟨.runtime Sum.data.name, e.dataPath, declared (e.component.dataFunctions e.data)⟩,
    ⟨.runtime Sum.updates.name, .name e.component.updateName,
      declared (e.component.updateFunctions e.data)⟩] ++
    e.component.commands.map fun m =>
      ⟨commandTrait, .name (e.component.markerName m), e.component.markerSettings m⟩

theorem Entry.filterMap_fragment (e : Entry) :
    (e.component.fragment e.data).filterMap Declaration.implementation? = e.implementations := by
  have hplain : (e.component.plain e.data).filterMap Declaration.implementation? = [] := by
    rw [Component.plain]
    split_ifs <;> rfl
  have hmarkers : (e.component.commands.flatMap e.component.marker).filterMap
      Declaration.implementation? = e.component.commands.map fun m =>
        ⟨commandTrait, .name (e.component.markerName m), e.component.markerSettings m⟩ := by
    induction e.component.commands with
    | nil => rfl
    | cons m rest ih =>
        rw [List.flatMap_cons, List.filterMap_append, ih]
        rfl
  rw [Component.fragment, List.filterMap_append, List.filterMap_append, hplain, hmarkers]
  rfl

/-- The traits that the root module calls, and the one that gives a component its number. -/
def calledTraits : List Token :=
  [componentTrait, .runtime Sum.data.name, .runtime Sum.updates.name, commandTrait]

theorem notMem_calledTraits_of_type {u : UserType} {i : Implementation}
    (hi : i ∈ u.fragment.filterMap Declaration.implementation?) : i.trait ∉ calledTraits := by
  have htraits : (u.fragment.filterMap Declaration.implementation?).map Implementation.trait =
      [Code.storedTrait] := rfl
  have hother : ∀ t ∈ [Code.storedTrait], t ∉ calledTraits := by decide
  exact hother _ (htraits ▸ List.mem_map_of_mem hi)

theorem notMem_calledTraits_of_root {d : Dispatch} {i : Implementation}
    (hi : i ∈ d.fragment.filterMap Declaration.implementation?) : i.trait ∉ calledTraits := by
  have htraits : (d.fragment.filterMap Declaration.implementation?).map Implementation.trait =
      [.runtime "AnyComponentData", .runtime "AnyComponentUpdate",
        .runtime "GeneratedSchema"] := rfl
  have hother : ∀ t ∈ [Token.runtime "AnyComponentData", .runtime "AnyComponentUpdate",
      .runtime "GeneratedSchema"], t ∉ calledTraits := by decide
  exact hother _ (htraits ▸ List.mem_map_of_mem hi)

/-- The called traits are implemented for components and for nothing else. -/
theorem exists_entry_of_mem_implementations {s : Linked} {entries : List Entry}
    {p : String × Implementation} (hp : p ∈ implementations (s.placements entries))
    (htrait : p.2.trait ∈ calledTraits) :
    ∃ e ∈ entries, p.1 = e.component.package ∧ p.2 ∈ e.implementations := by
  obtain ⟨⟨package, fragment⟩, hplaced, hp⟩ := List.mem_flatMap.mp hp
  obtain ⟨i, hi, rfl⟩ := List.mem_map.mp hp
  rcases List.mem_append.mp hplaced with hplaced | hplaced
  · rcases List.mem_append.mp hplaced with hplaced | hplaced
    · obtain ⟨u, -, hu⟩ := List.mem_map.mp hplaced
      obtain ⟨-, rfl⟩ := Prod.mk.inj hu
      exact absurd htrait (notMem_calledTraits_of_type hi)
    · obtain ⟨e, he, hentry⟩ := List.mem_map.mp hplaced
      obtain ⟨rfl, rfl⟩ := Prod.mk.inj hentry
      exact ⟨e, he, rfl, e.filterMap_fragment ▸ hi⟩
  · obtain ⟨-, rfl⟩ := Prod.mk.inj (List.mem_singleton.mp hplaced)
    exact absurd htrait (notMem_calledTraits_of_root hi)

theorem mem_implementations_of_entry {s : Linked} {entries : List Entry} {e : Entry}
    (he : e ∈ entries) {i : Implementation} (hi : i ∈ e.implementations) :
    (e.component.package, i) ∈ implementations (s.placements entries) := by
  refine List.mem_flatMap.mpr ⟨(e.component.package, e.component.fragment e.data), ?_,
    List.mem_map.mpr ⟨i, e.filterMap_fragment ▸ hi, rfl⟩⟩
  exact List.mem_append_left _ (List.mem_append_right _ (List.mem_map_of_mem he))

/-- A called trait is implemented at a type if a component implements it there and all that do have
the property. -/
theorem implemented_of_entries {s : Linked} {entries : List Entry} {trait type : Token}
    {P : String → Code → Prop} (htrait : trait ∈ calledTraits) {e : Entry} (he : e ∈ entries)
    (hsome : ∃ i ∈ e.implementations, i.trait = trait ∧ i.type.within e.component.package = type)
    (hall : ∀ e ∈ entries, ∀ i ∈ e.implementations, i.trait = trait →
      i.type.within e.component.package = type → P e.component.package i.body) :
    Implemented (s.placements entries) trait type P := by
  obtain ⟨i, hi, hown, htype⟩ := hsome
  refine ⟨⟨_, mem_implementations_of_entry he hi, hown, htype⟩, ?_⟩
  rintro ⟨package, i⟩ hp hown htype
  obtain ⟨e, he, rfl, hi⟩ := exists_entry_of_mem_implementations hp (hown ▸ htrait)
  exact hall e he i hi hown htype

theorem Entry.mem_implementations {e : Entry} {i : Implementation} :
    i ∈ e.implementations ↔
      i = ⟨componentTrait, .name e.component.name, declared (e.component.association e.data)⟩ ∨
      i = ⟨.runtime Sum.data.name, e.dataPath, declared (e.component.dataFunctions e.data)⟩ ∨
      i = ⟨.runtime Sum.updates.name, .name e.component.updateName,
        declared (e.component.updateFunctions e.data)⟩ ∨
      ∃ m ∈ e.component.commands,
        i = ⟨commandTrait, .name (e.component.markerName m), e.component.markerSettings m⟩ := by
  simp [Entry.implementations, eq_comm]

section Traits

variable {e : Entry} {i : Implementation}

theorem Entry.eq_of_componentTrait (hi : i ∈ e.implementations) (h : i.trait = componentTrait) :
    i = ⟨componentTrait, .name e.component.name, declared (e.component.association e.data)⟩ := by
  obtain rfl | rfl | rfl | ⟨m, -, rfl⟩ := mem_implementations.mp hi
  · rfl
  all_goals simp [componentTrait, commandTrait, Sum.data, Sum.updates] at h

theorem Entry.eq_of_dataTrait (hi : i ∈ e.implementations) (h : i.trait = .runtime Sum.data.name) :
    i = ⟨.runtime Sum.data.name, e.dataPath, declared (e.component.dataFunctions e.data)⟩ := by
  obtain rfl | rfl | rfl | ⟨m, -, rfl⟩ := mem_implementations.mp hi
  case inr.inl => rfl
  all_goals simp [componentTrait, commandTrait, Sum.data, Sum.updates] at h

theorem Entry.eq_of_updateTrait (hi : i ∈ e.implementations)
    (h : i.trait = .runtime Sum.updates.name) :
    i = ⟨.runtime Sum.updates.name, .name e.component.updateName,
      declared (e.component.updateFunctions e.data)⟩ := by
  obtain rfl | rfl | rfl | ⟨m, -, rfl⟩ := mem_implementations.mp hi
  case inr.inr.inl => rfl
  all_goals simp [componentTrait, commandTrait, Sum.data, Sum.updates] at h

theorem Entry.exists_of_commandTrait (hi : i ∈ e.implementations) (h : i.trait = commandTrait) :
    ∃ m ∈ e.component.commands,
      i = ⟨commandTrait, .name (e.component.markerName m), e.component.markerSettings m⟩ := by
  obtain rfl | rfl | rfl | hmarker := mem_implementations.mp hi
  case inr.inr.inr => exact hmarker
  all_goals simp [componentTrait, commandTrait, Sum.data, Sum.updates] at h

end Traits

/-! ## The numbers that implementations compare with -/

/-- What stands in front of the component of an implementation. -/
def componentKey : Code := Code.words "type Component ="

/-- What stands in front of the number of a component. -/
def numberKey : Code :=
  Code.words "const ID :" ++ [Token.runtime "ComponentId"] ++ Code.words "="

/-- What stands in front of the number of a command. -/
def indexKey : Code :=
  Code.words "const COMMAND_INDEX :" ++ [Token.runtime "CommandIndex"] ++ Code.words "="

section Settings

variable (c : Component) (data : UserType) (m : Command)

theorem tokenAfter?_association :
    tokenAfter? numberKey (declared (c.association data)) = some (Code.number c.id) := by
  have hbody : declared (c.association data) = numberKey ++ Code.number c.id ::
      (Code.words "; type Data =" ++ [Code.itemOf data.qualifiedName] ++
        Code.words "; type Update =" ++ [Token.name c.updateName] ++ Code.words ";" ++
        Code.function (Code.words "into_data ( self ) ->" ++ [Code.itemOf data.qualifiedName])
          (Code.words ":: std :: convert :: From :: from ( self )")) := by
    simp [declared, Component.association, numberKey]
  rw [hbody, Code.tokenAfter?_append (by decide)]

theorem exists_declared_dataFunctions : ∃ rest,
    declared (c.dataFunctions data) = componentKey ++ Token.name c.name :: rest := by
  simp only [declared, Component.dataFunctions, List.append_assoc, List.singleton_append]
  exact ⟨_, rfl⟩

theorem exists_declared_updateFunctions : ∃ rest,
    declared (c.updateFunctions data) = componentKey ++ Token.name c.name :: rest := by
  simp only [declared, Component.updateFunctions, List.append_assoc, List.singleton_append]
  exact ⟨_, rfl⟩

theorem exists_markerSettings : ∃ rest,
    c.markerSettings m = componentKey ++ Token.name c.name :: rest := by
  simp only [Component.markerSettings, List.append_assoc, List.singleton_append]
  exact ⟨_, rfl⟩

theorem const_notMem_typeCode (shape : Shape) : Token.word "const" ∉ shape.typeCode := by
  have hangles : ∀ {code : Code}, Token.word "const" ∉ code → Token.word "const" ∉ code.angles := by
    intro code hcode
    have hless : Token.word "const" ∉ Code.words "<" := by decide
    have hgreater : Token.word "const" ∉ Code.words ">" := by decide
    simp [Code.angles, hless, hcode, hgreater]
  induction shape with
  | scalar s => cases s <;> decide
  | reference name => simp [Shape.typeCode, Code.itemOf]
  | option inner ih => exact List.not_mem_append (by decide) (hangles ih)
  | list inner ih => exact List.not_mem_append (by decide) (hangles ih)
  | map key value ihKey ihValue =>
      exact List.not_mem_append (by decide)
        (hangles (List.not_mem_append (List.not_mem_append ihKey (by decide)) ihValue))

theorem tokenAfter?_markerSettings :
    tokenAfter? indexKey (c.markerSettings m) = some (Code.number m.index) := by
  -- the types of the command stand before the number, and no type has the word it is found by
  have hbefore : Token.word "const" ∉ Code.words "type Component =" ++ [Token.name c.name] ++
      Code.words "; type Request =" ++ m.request.typeCode ++ Code.words "; type Response =" ++
      m.response.typeCode ++ [Token.word ";"] := by
    simp only [List.mem_append, not_or]
    exact ⟨⟨⟨⟨⟨⟨by decide, by simp⟩, by decide⟩, const_notMem_typeCode _⟩, by decide⟩,
      const_notMem_typeCode _⟩, by decide⟩
  have hbody : c.markerSettings m = (Code.words "type Component =" ++ [Token.name c.name] ++
      Code.words "; type Request =" ++ m.request.typeCode ++ Code.words "; type Response =" ++
      m.response.typeCode ++ [Token.word ";"]) ++
      (indexKey ++ Code.number m.index :: Code.words ";") := by
    have hconst : Code.words "; const COMMAND_INDEX :" =
        Token.word ";" :: Code.words "const COMMAND_INDEX :" := by decide
    simp [Component.markerSettings, indexKey, hconst]
  have hkey : indexKey = Token.word "const" :: indexKey.tail := by decide
  rw [hbody, hkey, Code.tokenAfter?_of_notMem hbefore, ← hkey, Code.tokenAfter?_append (by decide)]

end Settings

/-! ## Items have one path each -/

theorem itemIn_inj {p q m n : String} (hp : IsPackageName p) (hq : IsPackageName q)
    (heq : Code.itemIn p m = Code.itemIn q n) : p = q ∧ m = n := by
  have hkept : ∀ {p}, IsPackageName p →
      (Text.segments p).filter (fun s => s ≠ "") = Text.segments p := by
    intro p hp
    refine List.filter_eq_self.mpr fun s hs => ?_
    have hne : s ≠ "" := by
      rintro rfl
      cases hp "" hs
    simpa using hne
  rw [Code.itemIn, Code.itemIn, hkept hp, hkept hq, Token.item.injEq] at heq
  exact ⟨Text.segments_injective heq.1, heq.2⟩

namespace Registry

variable {r : Registry} {c c' : Component}

/-- Items of components with one path are the same item of the same component. -/
theorem WellFormed.component_eq_of_item (h : r.WellFormed) (hc : c ∈ r.components)
    (hc' : c' ∈ r.components) {m n : String} (hm : m ∈ c.items) (hn : n ∈ c'.items)
    (heq : Code.itemIn c.package m = Code.itemIn c'.package n) : c = c' ∧ m = n := by
  obtain ⟨hpackage, hname⟩ :=
    itemIn_inj (h.componentNames c hc).package (h.componentNames c' hc').package heq
  refine ⟨?_, hname⟩
  by_contra hne
  have hdisjoint := (List.nodup_flatMap.mp (List.nodup_append.mp h.items).2.1).2
  have hsymm : Std.Symm (Function.onFun List.Disjoint fun c : Component =>
      c.items.map fun name => (c.package, name)) := ⟨fun _ _ hd => hd.symm⟩
  apply hdisjoint.forall hc hc' hne (List.mem_map_of_mem hm)
  rw [hpackage, hname]
  exact List.mem_map_of_mem hn

/-- Components with one data path are the same component. -/
theorem WellFormed.component_eq_of_data (h : r.WellFormed) (hc : c ∈ r.components)
    (hc' : c' ∈ r.components) (heq : Code.itemOf c.dataType = Code.itemOf c'.dataType) :
    c = c' := by
  obtain ⟨u, hu, hname⟩ := h.dataTypes c hc
  obtain ⟨u', hu', hname'⟩ := h.dataTypes c' hc'
  have hnamed := h.typeNames u hu
  have hnamed' := h.typeNames u' hu'
  rw [← hname, ← hname', hnamed.itemOf_eq, hnamed'.itemOf_eq] at heq
  obtain ⟨hpackage, hown⟩ := itemIn_inj hnamed.package hnamed'.package heq
  apply List.inj_on_of_nodup_map h.ownData hc hc'
  rw [← hname, ← hname', hnamed.qualifiedName, hnamed'.qualifiedName, hpackage, hown]

/-- Commands of a component with one marker are the same command. -/
theorem WellFormed.command_eq_of_marker (h : r.WellFormed) (hc : c ∈ r.components) {m n : Command}
    (hm : m ∈ c.commands) (hn : n ∈ c.commands) (heq : c.markerName m = c.markerName n) :
    m = n := by
  have hitems := (List.nodup_flatMap.mp (List.nodup_append.mp h.items).2.1).1 c hc
  have hmarkers : (c.commands.map c.markerName).Nodup :=
    (List.nodup_cons.mp (List.nodup_cons.mp (List.Nodup.of_map _ hitems)).2).2
  exact List.inj_on_of_nodup_map hmarkers hm hn heq

end Registry

/-! ## What is called compares with the numbers of its arm -/

section Calls

variable (placements : List (String × Fragment))

/-- The type is a component with the number. -/
def HasNumber (type : Token) (id : ComponentId) : Prop :=
  Implemented placements componentTrait type fun _ body =>
    tokenAfter? numberKey body = some (Code.number id)

/-- An implementation in a package belongs to the component with the number. -/
def BelongsTo (package : String) (body : Code) (id : ComponentId) : Prop :=
  ∃ own, tokenAfter? componentKey body = some own ∧ HasNumber placements (own.within package) id

/-- The trait compares the component number of a payload for the type with the given one. -/
def ChecksComponent (trait type : Token) (id : ComponentId) : Prop :=
  Implemented placements trait type fun package body => BelongsTo placements package body id

/-- A marker compares the numbers of a payload with the given ones. -/
def ChecksCommand (marker : Token) (id : ComponentId) (index : CommandIndex) : Prop :=
  Implemented placements commandTrait marker fun package body =>
    BelongsTo placements package body id ∧
      tokenAfter? indexKey body = some (Code.number index)

/-- What the arms of the root module call compares with the numbers that the arms have. -/
structure CallsMatch (s : Linked) : Prop where
  data : ∀ c ∈ s.components,
    ChecksComponent placements (.runtime Sum.data.name) (Code.itemOf c.dataType) c.id
  updates : ∀ c ∈ s.components,
    ChecksComponent placements (.runtime Sum.updates.name) c.updatePath c.id
  commands : ∀ c ∈ s.components, ∀ m ∈ c.commands,
    ChecksCommand placements (c.markerPath m) c.id m.index

end Calls

namespace Registry

variable {r : Registry} {s : Linked} {entries : List Entry}

/-- The path of a component is a component with its number. -/
theorem WellFormed.hasNumber (h : r.WellFormed)
    (components : entries.map Entry.component = r.components) {e : Entry} (he : e ∈ entries) :
    HasNumber (s.placements entries) e.component.path e.component.id := by
  refine implemented_of_entries (by decide) he
    ⟨_, Entry.mem_implementations.mpr (.inl rfl), rfl, rfl⟩ fun e' he' i hi htrait htype => ?_
  obtain rfl := Entry.eq_of_componentTrait hi htrait
  obtain ⟨hsame, -⟩ := h.component_eq_of_item (mem_components components he')
    (mem_components components he) List.mem_cons_self List.mem_cons_self htype
  rw [tokenAfter?_association, hsame]

/-- Code of a component's package that names the component first belongs to it. -/
theorem WellFormed.belongsTo (h : r.WellFormed)
    (components : entries.map Entry.component = r.components) {e : Entry} (he : e ∈ entries)
    {body : Code} (hbody : ∃ rest, body = componentKey ++ Token.name e.component.name :: rest) :
    BelongsTo (s.placements entries) e.component.package body e.component.id := by
  obtain ⟨rest, rfl⟩ := hbody
  exact ⟨_, Code.tokenAfter?_append (by decide) _ rest, h.hasNumber components he⟩

/-- The data type of a component compares with its number: whoever implements the trait at that type
is the component. -/
theorem WellFormed.checksData (h : r.WellFormed)
    (components : entries.map Entry.component = r.components)
    (data : ∀ e ∈ entries, e.data.qualifiedName = e.component.dataType) {e : Entry}
    (he : e ∈ entries) :
    ChecksComponent (s.placements entries) (.runtime Sum.data.name)
      (Code.itemOf e.component.dataType) e.component.id := by
  have hpath : ∀ e ∈ entries, e.dataPath = Code.itemOf e.component.dataType := fun e he =>
    congrArg Code.itemOf (data e he)
  refine implemented_of_entries (by decide) he
    ⟨_, Entry.mem_implementations.mpr (.inr (.inl rfl)), rfl, hpath e he⟩
    fun e' he' i hi htrait htype => ?_
  obtain rfl := Entry.eq_of_dataTrait hi htrait
  have hsame : e'.component = e.component :=
    h.component_eq_of_data (mem_components components he') (mem_components components he)
      ((hpath e' he').symm.trans htype)
  rw [← hsame]
  exact h.belongsTo components he' (exists_declared_dataFunctions _ _)

/-- The updates of a component compare with its number. -/
theorem WellFormed.checksUpdates (h : r.WellFormed)
    (components : entries.map Entry.component = r.components) {e : Entry} (he : e ∈ entries) :
    ChecksComponent (s.placements entries) (.runtime Sum.updates.name) e.component.updatePath
      e.component.id := by
  have hitem : ∀ c : Component, c.updateName ∈ c.items := fun c =>
    List.mem_cons_of_mem _ List.mem_cons_self
  refine implemented_of_entries (by decide) he
    ⟨_, Entry.mem_implementations.mpr (.inr (.inr (.inl rfl))), rfl, rfl⟩
    fun e' he' i hi htrait htype => ?_
  obtain rfl := Entry.eq_of_updateTrait hi htrait
  obtain ⟨hsame, -⟩ := h.component_eq_of_item (mem_components components he')
    (mem_components components he) (hitem _) (hitem _) htype
  rw [← hsame]
  exact h.belongsTo components he' (exists_declared_updateFunctions _ _)

/-- The marker of a command compares with its number and with that of its component. -/
theorem WellFormed.checksCommand (h : r.WellFormed)
    (components : entries.map Entry.component = r.components) {e : Entry} (he : e ∈ entries)
    {m : Command} (hm : m ∈ e.component.commands) :
    ChecksCommand (s.placements entries) (e.component.markerPath m) e.component.id m.index := by
  have hitem : ∀ {c : Component} {m : Command}, m ∈ c.commands → c.markerName m ∈ c.items :=
    fun hm => List.mem_cons_of_mem _ (List.mem_cons_of_mem _ (List.mem_map_of_mem hm))
  have hmem := mem_components components he
  refine implemented_of_entries (by decide) he
    ⟨_, Entry.mem_implementations.mpr (.inr (.inr (.inr ⟨m, hm, rfl⟩))), rfl, rfl⟩
    fun e' he' i hi htrait htype => ?_
  obtain ⟨m', hm', rfl⟩ := Entry.exists_of_commandTrait hi htrait
  obtain ⟨hsame, hname⟩ :=
    h.component_eq_of_item (mem_components components he') hmem (hitem hm') (hitem hm) htype
  rw [hsame] at hm' hname
  have hcommand := h.command_eq_of_marker hmem hm' hm hname
  rw [← hcommand, ← hsame]
  exact ⟨h.belongsTo components he' (exists_markerSettings _ _), tokenAfter?_markerSettings _ _⟩

/-- What the arms call compares with the numbers of the arms. -/
theorem WellFormed.callsMatch (h : r.WellFormed)
    (components : entries.map Entry.component = r.components)
    (data : ∀ e ∈ entries, e.data.qualifiedName = e.component.dataType)
    (hs : s.components = r.components) : CallsMatch (s.placements entries) s := by
  have hentry : ∀ c ∈ s.components, ∃ e ∈ entries, e.component = c := by
    intro c hc
    rw [hs, ← components] at hc
    exact List.mem_map.mp hc
  constructor
  case data =>
    intro c hc
    obtain ⟨e, he, rfl⟩ := hentry c hc
    exact h.checksData components data he
  case updates =>
    intro c hc
    obtain ⟨e, he, rfl⟩ := hentry c hc
    exact h.checksUpdates components he
  case commands =>
    intro c hc m hm
    obtain ⟨e, he, rfl⟩ := hentry c hc
    exact h.checksCommand components he hm

end Registry

/-! ## Keys are distinct -/

/-- No table of the root module lists anything twice. -/
structure DistinctKeys (root : Fragment) : Prop where
  positions : ∀ arms, (root.after? Dispatch.positionName).map (fun c =>
    Code.matchArms (Code.firstBraces c)) = some arms → (arms.map Prod.fst).Nodup
  variants : ∀ sum ∈ [Sum.data, Sum.updates], ∀ variants,
    root.variants? sum.name = some variants → (variants.map Prod.fst).Nodup
  decoding : ∀ sum ∈ [Sum.data, Sum.updates], ∀ arms,
    ((root.functions? sum.header).bind (Code.functionBody? "deserialize")).map Code.matchArms =
      some arms → (arms.map Prod.fst).Nodup
  registrations : ∀ calls,
    ((root.functions? Dispatch.schemaHeader).bind (Code.functionBody? "register_components")).map
      Code.statements = some calls → calls.Nodup
  routes : ∀ way arms,
    ((root.functions? Dispatch.schemaHeader).bind
      (Code.functionBody? (Dispatch.routeFunction way))).map Code.matchArms = some arms →
      (arms.map Prod.fst).Nodup

theorem number_ne_word {text : String} (h : text.toList.head?.any Char.isDigit = false)
    (n : UInt32) : Code.number n ≠ .word text := by
  intro heq
  obtain ⟨x, rest, htext, hx⟩ := Code.exists_toString_eq n.toNat
  rw [Code.number, Token.word.injEq] at heq
  rw [← heq, htext, List.head?_cons, Option.any_some, hx] at h
  cases h

theorem nodup_append_last {α β : Type} {xs : List α} {key : α → β} {last : β}
    (hkeys : (xs.map key).Nodup) (hlast : ∀ x ∈ xs, key x ≠ last) :
    (xs.map key ++ [last]).Nodup := by
  refine List.nodup_append.mpr ⟨hkeys, List.nodup_singleton last, ?_⟩
  intro k hk l hl
  obtain ⟨x, hx, rfl⟩ := List.mem_map.mp hk
  rw [List.mem_singleton.mp hl]
  exact hlast x hx

theorem nodup_numbers {components : List Component} (h : (components.map Component.id).Nodup)
    (text : String) (hwords : Code.words text = [.word text])
    (htext : text.toList.head?.any Char.isDigit = false) :
    ((components.map fun c => [Code.number c.id]) ++ [Code.words text]).Nodup := by
  rw [hwords]
  apply nodup_append_last
  · have hnumbers := h.map fun m n (heq : [Code.number m] = [Code.number n]) =>
      Code.number_injective (List.singleton_inj.mp heq)
    rwa [List.map_map] at hnumbers
  · intro c _ heq
    exact number_ne_word htext c.id (List.singleton_inj.mp heq)

/-- The numbers of a component and a command. -/
def Route.key (r : Route) : ComponentId × CommandIndex := (r.componentId, r.commandIndex)

/-- No two commands have the same numbers. -/
theorem Linked.nodup_routes {s : Linked} (hids : (s.components.map Component.id).Nodup)
    (hindices : ∀ c ∈ s.components, (c.commands.map Command.index).Nodup) :
    (s.routes.map Route.key).Nodup := by
  rw [routes, List.map_flatMap]
  refine List.nodup_flatMap.mpr ⟨fun c hc => ?_, ?_⟩
  · have hkeys := (hindices c hc).map fun m n (heq : (c.id, m) = (c.id, n)) => (Prod.mk.inj heq).2
    rw [List.map_map] at hkeys ⊢
    exact hkeys
  · refine (List.pairwise_map.mp hids).imp fun hne => ?_
    rintro k hk hk'
    simp only [List.map_map, List.mem_map] at hk hk'
    obtain ⟨m, -, rfl⟩ := hk
    obtain ⟨n, -, heq⟩ := hk'
    exact hne (Prod.mk.inj heq).1.symm

/-- The pattern of a route is made of its numbers. -/
theorem Dispatch.routeArm_eq (way : Direction) (r : Route) :
    (routeArm way r).1 = [Token.word "(", Code.number r.componentId, Token.word ",",
      Code.number r.commandIndex, .word ")"] := by
  have hcomma : Code.words "," = [Token.word ","] := by decide
  rw [routeArm, hcomma]
  rfl

theorem Dispatch.key_eq_of_routeArm {way : Direction} {r t : Route}
    (h : (routeArm way r).1 = (routeArm way t).1) : r.key = t.key := by
  simp only [routeArm_eq, List.cons.injEq] at h
  exact Prod.ext (Code.number_injective h.2.1) (Code.number_injective h.2.2.2.1)

theorem Dispatch.routeArm_ne_unknownArm {way : Direction} (r : Route) :
    (routeArm way r).1 ≠ unknownArm.1 := by
  have hunknown : unknownArm.1 = [Token.word "(", Token.word "component_id", Token.word ",",
    .word "command_index", .word ")"] := by decide
  rw [routeArm_eq, hunknown]
  intro h
  simp only [List.cons.injEq] at h
  exact number_ne_word (by decide) _ h.2.1

/-- Tables of components with different numbers and paths list nothing twice. -/
theorem RootTables.distinctKeys {s : Linked} {root : Fragment} (tables : RootTables s root)
    (hids : (s.components.map Component.id).Nodup)
    (hpaths : (s.components.map Component.path).Nodup)
    (hindices : ∀ c ∈ s.components, (c.commands.map Command.index).Nodup) : DistinctKeys root := by
  have hvariants : (s.components.map fun c => Entry.variantOf c.id).Nodup := by
    have hnames := hids.map Entry.variantOf_injective
    rwa [List.map_map] at hnames
  constructor
  case positions =>
    intro arms harms
    obtain rfl := Option.some.inj (tables.positions.symm.trans harms)
    rw [List.map_append, List.map_map]
    exact nodup_numbers hids "_" (by decide) (by decide)
  case variants =>
    intro sum hsum variants hread
    simp only [List.mem_cons, List.not_mem_nil, or_false] at hsum
    rcases hsum with rfl | rfl
    · obtain rfl := Option.some.inj (tables.dataVariants.symm.trans hread)
      rwa [List.map_map]
    · obtain rfl := Option.some.inj (tables.updateVariants.symm.trans hread)
      rwa [List.map_map]
  case decoding =>
    intro sum hsum arms hread
    simp only [List.mem_cons, List.not_mem_nil, or_false] at hsum
    rcases hsum with rfl | rfl
    · obtain rfl := Option.some.inj (tables.dataArms.symm.trans hread)
      rw [List.map_append, List.map_map]
      exact nodup_numbers hids "id" (by decide) (by decide)
    · obtain rfl := Option.some.inj (tables.updateArms.symm.trans hread)
      rw [List.map_append, List.map_map]
      exact nodup_numbers hids "id" (by decide) (by decide)
  case registrations =>
    intro calls hread
    obtain rfl := Option.some.inj (tables.registrations.symm.trans hread)
    have hcalls := hpaths.map fun x y
      (heq : Code.words "registrar . register_component :: <" ++ [x] ++ Code.words "> ( )" =
        Code.words "registrar . register_component :: <" ++ [y] ++ Code.words "> ( )") =>
      List.singleton_inj.mp (List.append_cancel_left (List.append_cancel_right heq))
    rwa [List.map_map] at hcalls
  case routes =>
    intro way arms hread
    obtain rfl := Option.some.inj ((tables.routes way).symm.trans hread)
    rw [List.map_append, List.map_map]
    refine nodup_append_last ?_ fun r _ => Dispatch.routeArm_ne_unknownArm r
    refine List.Nodup.map_on (fun r hr t ht heq => ?_)
      (List.Nodup.of_map _ (Linked.nodup_routes hids hindices))
    exact List.inj_on_of_nodup_map (Linked.nodup_routes hids hindices) hr ht
      (Dispatch.key_eq_of_routeArm heq)

/-! ## Payloads -/

section Payloads

open Wire (Snapshot Delta Message)
open Replica (findComponent State Update AnyState AnyUpdate Address)

/-- Every payload is read by the component or the command whose numbers it has, unless there is
none. -/
structure Dispatches (s : Linked) : Prop where
  states : ∀ p : Snapshot,
    (∃ e, s.entry e.component = .ok e ∧ e.component ∈ s.components ∧
      e.component.id = p.componentId ∧
      AnyState.receive s p = .ok ⟨e, State.load s e p.fields⟩) ∨
    s.uniqueIndex p.componentId = none ∧
      AnyState.receive s p = .error (.unknownComponent p.componentId)
  updates : ∀ p : Delta,
    (∃ e, s.entry e.component = .ok e ∧ e.component ∈ s.components ∧
      e.component.id = p.componentId ∧ AnyUpdate.receive s p = .ok ⟨e, Update.read s e p⟩) ∨
    s.uniqueIndex p.componentId = none ∧
      AnyUpdate.receive s p = .error (.unknownComponent p.componentId)
  commands : ∀ way (p : Message),
    (∃ a ∈ Address.all s, a.key = (p.componentId, p.commandIndex) ∧
      Address.receiveAny s way p =
        .ok (a, s.loadType (Address.typeName (a.shape way)) p.object)) ∨
    (p.componentId, p.commandIndex) ∉ s.routes.map Route.key ∧
      Address.receiveAny s way p = .error (.unknownCommand p.componentId p.commandIndex)

variable {s : Linked}

/-- The component of a payload is found by its number, unless no component has it. -/
theorem findComponent_cases (hentry : ∀ c ∈ s.components, ∃ e, s.entry c = .ok e)
    (id : ComponentId) :
    (∃ e, s.entry e.component = .ok e ∧ e.component ∈ s.components ∧ e.component.id = id ∧
      findComponent s id = .ok e) ∨
    s.uniqueIndex id = none ∧ findComponent s id = .error (.unknownComponent id) := by
  cases hfind : s.components.find? fun c => c.id = id with
  | none =>
      refine .inr ⟨?_, ?_⟩
      · rw [Linked.uniqueIndex, List.findIdx?_eq_none_iff]
        simpa using hfind
      · rw [findComponent, Linked.entry?, hfind]
        rfl
  | some c =>
      have hc := List.mem_of_find?_eq_some hfind
      have hid : c.id = id := by simpa using List.find?_some hfind
      obtain ⟨e, he⟩ := hentry c hc
      cases htype : s.type? c.dataType with
      | none => simp [Linked.entry, htype] at he
      | some data =>
          refine .inl ⟨⟨c, data⟩, by rw [Linked.entry, htype], hc, hid, ?_⟩
          rw [findComponent, Linked.entry?, hfind]
          simp [htype]

theorem Linked.routes_key (s : Linked) :
    s.routes.map Route.key = (Address.all s).map Address.key := by
  simp only [routes, Address.all, List.map_flatMap, List.map_map]
  rfl

theorem dispatches_of_entries (hentry : ∀ c ∈ s.components, ∃ e, s.entry c = .ok e) :
    Dispatches s := by
  constructor
  case states =>
    intro p
    rcases findComponent_cases hentry p.componentId with ⟨e, he, hc, hid, hfound⟩ | ⟨hnone, hfound⟩
    · have hread : State.receive s e p = .ok (State.load s e p.fields) := if_pos hid.symm
      refine .inl ⟨e, he, hc, hid, ?_⟩
      rw [AnyState.receive, hfound]
      exact congrArg (AnyState.mk e <$> ·) hread
    · refine .inr ⟨hnone, ?_⟩
      rw [AnyState.receive, hfound]
      rfl
  case updates =>
    intro p
    rcases findComponent_cases hentry p.componentId with ⟨e, he, hc, hid, hfound⟩ | ⟨hnone, hfound⟩
    · have hread : Update.receive s e p = .ok (Update.read s e p) := if_pos hid.symm
      refine .inl ⟨e, he, hc, hid, ?_⟩
      rw [AnyUpdate.receive, hfound]
      exact congrArg (AnyUpdate.mk e <$> ·) hread
    · refine .inr ⟨hnone, ?_⟩
      rw [AnyUpdate.receive, hfound]
      rfl
  case commands =>
    intro way p
    rw [Address.receiveAny, s.routes_key]
    cases hfind : (Address.all s).find? fun a => a.key = (p.componentId, p.commandIndex) with
    | none =>
        refine .inr ⟨?_, rfl⟩
        simpa using hfind
    | some a =>
        have hkey : a.key = (p.componentId, p.commandIndex) := by
          simpa using List.find?_some hfind
        have hread : a.receive s way p =
            .ok (s.loadType (Address.typeName (a.shape way)) p.object) := if_pos hkey.symm
        exact .inl ⟨a, List.mem_of_find?_eq_some hfind, hkey, congrArg (Prod.mk a <$> ·) hread⟩

end Payloads

/-! ## The whole root module -/

namespace Registry

variable {r : Registry} {s : Linked} {entries : List Entry}

/-- The components found with their data types are found so one by one. -/
theorem entry_of_mem_entries (h : s.entries = .ok entries) {e : Entry} (he : e ∈ entries) :
    s.entry e.component = .ok e ∧ e.data.qualifiedName = e.component.dataType := by
  obtain ⟨c, -, hentry⟩ := exists_of_mem_mapM h he
  cases htype : s.type? c.dataType with
  | none => simp [Linked.entry, htype] at hentry
  | some data =>
      obtain rfl : ⟨c, data⟩ = e := by simpa [Linked.entry, htype] using hentry
      exact ⟨hentry, by simpa using List.find?_some htype⟩

/-- The root module is made by the schema as a whole only. -/
theorem fragments_root (linked : r.link = .ok s)
    (components : entries.map Entry.component = r.components) {m : Code.Module}
    (hm : m ∈ (Code.ModuleTree.ofPlacements (s.placements entries)).nodes) (hpath : m.path = []) :
    m.fragments = [(Dispatch.mk entries).fragment] := by
  obtain ⟨hwell, rfl⟩ := link_eq_ok linked
  have hroot : ∀ {package}, IsPackageName package → Code.ModuleTree.modulePath package ≠ [] :=
    fun h heq => packagePath_ne_nil h (List.map_eq_nil_iff.mp heq)
  rw [(Code.ModuleTree.node_of_placements hm).1, hpath, Linked.placements, List.filter_append,
    List.filter_eq_nil_iff.mpr]
  · rfl
  · intro p hp
    apply mt of_decide_eq_true
    rcases List.mem_append.mp hp with hp | hp
    · obtain ⟨t, ht, rfl⟩ := List.mem_map.mp hp
      obtain ⟨u, hu, rfl⟩ := List.mem_map.mp ht
      rw [(u.promoteBy_keeps hwell.ownData).1]
      exact hroot (hwell.typeNames u hu).package
    · obtain ⟨e, he, rfl⟩ := List.mem_map.mp hp
      exact hroot (hwell.componentNames _ (mem_components components he)).package

theorem WellFormed.nodup_paths (h : r.WellFormed) : (r.components.map Component.path).Nodup :=
  List.Nodup.map_on
    (fun _ hc _ hc' heq =>
      (h.component_eq_of_item hc hc' List.mem_cons_self List.mem_cons_self heq).1)
    (.of_map _ h.componentIds)

/-- In a linked schema, positions count the components in the order they were met; all tables of
the root module list the components in this order, and all their commands, each once; what an arm
calls compares with the numbers of the arm; and no payload that is given to the whole schema is
refused by the component or the command it is handed to. -/
theorem Registered.root_tables_agree (registered : r.Registered) (linked : r.link = .ok s) :
    s.components = r.components ∧
    (∀ id i, s.uniqueIndex id = some i ↔
      ∃ hi : i < s.components.length, (s.components.get ⟨i, hi⟩).id = id) ∧
    (∀ id, s.uniqueIndex id = none ↔ id ∉ s.components.map Component.id) ∧
    (s.routes.map Route.key).Nodup ∧
    (∃ entries root m, s.entries = .ok entries ∧
      s.moduleTree = .ok (Code.ModuleTree.ofPlacements (s.placements entries)) ∧
      m ∈ (Code.ModuleTree.ofPlacements (s.placements entries)).nodes ∧
      m.path = [] ∧ m.fragments = [root] ∧
      RootTables s root ∧ DistinctKeys root ∧ CallsMatch (s.placements entries) s) ∧
    Dispatches s := by
  obtain ⟨entries, hentries, components, -⟩ := registered.exists_entries linked
  have hwell := (link_eq_ok linked).1
  have hs : s.components = r.components := by rw [(link_eq_ok linked).2]
  have hids : (s.components.map Component.id).Nodup := hs ▸ hwell.componentIds
  have hindices : ∀ c ∈ s.components, (c.commands.map Command.index).Nodup :=
    hs ▸ hwell.commandIndices
  have hdata : ∀ e ∈ entries, e.data.qualifiedName = e.component.dataType :=
    fun e he => (entry_of_mem_entries hentries he).2
  have htables := Dispatch.rootTables hids (components.trans hs.symm) hdata
  have hdistinct := htables.distinctKeys hids (hs ▸ hwell.nodup_paths) hindices
  obtain ⟨m, hm, hpath⟩ :=
    (Code.ModuleTree.ofPlacements (s.placements entries)).exists_root []
  refine ⟨hs, fun id i => Linked.uniqueIndex_eq_some_iff hids, fun id => ?_,
    Linked.nodup_routes hids hindices,
    ⟨entries, _, m, hentries, Linked.moduleTree_of_entries hentries, hm, hpath,
      fragments_root linked components hm hpath, htables, hdistinct,
      hwell.callsMatch components hdata hs⟩,
    dispatches_of_entries fun c hc => ?_⟩
  · simp [Linked.uniqueIndex, List.findIdx?_eq_none_iff]
  · rw [hs, ← components] at hc
    obtain ⟨e, he, rfl⟩ := List.mem_map.mp hc
    exact ⟨e, (entry_of_mem_entries hentries he).1⟩

/-- A document with two components, the first with two commands. -/
def harborDocument : Document where
  package := "harbor"
  types :=
    [{ name := "Berth", qualifiedName := "harbor.Berth",
       fields :=
        [{ name := "depth", number := 1, singular := some { builtIn := some "uint32" } }] },
     { name := "Tide", qualifiedName := "harbor.Tide",
       fields :=
        [{ name := "level", number := 1, singular := some { builtIn := some "float" } }] }]
  components :=
    [{ name := "Quay", id := 9, qualifiedName := "harbor.Quay", data := "harbor.Berth",
       commands := [{ name := "moor", index := 2, request := "harbor.Tide",
                      response := "harbor.Berth" },
                    { name := "leave", index := 1, request := "harbor.Berth",
                      response := "harbor.Tide" }] },
     { name := "Water", id := 4, qualifiedName := "harbor.Water", data := "harbor.Tide" }]

/-- The components of the document are at the first two positions, and the root module lists them
so. -/
theorem root_tables_agree_harbor :
    ∃ s, (Registry.addDocument {} harborDocument).2.link = .ok s ∧
      s.uniqueIndex 9 = some 0 ∧ s.uniqueIndex 4 = some 1 ∧ s.uniqueIndex 0 = none ∧
      s.routes.map Route.key = [(9, 2), (9, 1)] ∧
      (∃ root, RootTables s root ∧ DistinctKeys root ∧
        root.variants? Sum.updates.name =
          some [("Component9", [Code.itemIn "harbor" "QuayUpdate"]),
            ("Component4", [Code.itemIn "harbor" "WaterUpdate"])]) ∧
      Dispatches s := by
  obtain ⟨s, linked⟩ : ∃ s, (Registry.addDocument {} harborDocument).2.link = .ok s := ⟨_, rfl⟩
  obtain ⟨-, hindex, hnone, -, ⟨_, root, _, -, -, -, -, -, htables, hdistinct, -⟩, hdispatches⟩ :=
    Registered.root_tables_agree (.add harborDocument .empty) linked
  obtain rfl := Except.ok.inj linked
  exact ⟨_, linked, (hindex 9 0).mpr ⟨by decide, rfl⟩, (hindex 4 1).mpr ⟨by decide, rfl⟩,
    (hnone 0).mpr (by decide), rfl, ⟨root, htables, hdistinct, htables.updateVariants⟩, hdispatches⟩

end Registry

end EntitySchema.Schema
