import EntitySchema.Proofs.LayoutReading
import EntitySchema.Schema.Document

/-!
# Documents are read from any spelling

A `Datum` is what a text says, without the choices of its spelling: texts, numbers, lists and
records with named members. `Datum.WrittenAs` relates it to the values that write it. The entries of
an object may come in any order and be mixed with entries of other names; what is absent may be
written as `null` or left out, and so may a list without items.

`Document.datum` names the members of a document and of its parts.
-/

namespace EntitySchema.Json

/-- What a text says. -/
inductive Datum where
  | text (s : String)
  | word (n : UInt32)
  /-- Something absent. -/
  | null
  | list (items : List Datum)
  | record (members : List (String × Datum))

namespace Datum

/-- Whether a datum may be left out of a record. -/
def isOmittable : Datum → Bool
  | .null | .list [] => true
  | _ => false

/-- Something that may be absent. -/
def optional {α : Type} (datum : α → Datum) : Option α → Datum
  | none => .null
  | some a => datum a

/-- A datum is written as a value. -/
inductive WrittenAs : Datum → Tree → Prop
  | text {s : String} {pieces : List Piece} (spelled : nameOf pieces = some s) :
      WrittenAs (.text s) (.string pieces)
  | word {n : UInt32} {f : Figure} (plain : f.IsPlain n.toNat) : WrittenAs (.word n) (.number f)
  | null : WrittenAs .null .null
  | list {ds : List Datum} {inside : Blanks} {items : List (Item Tree)}
      (each : List.Forall₂ (fun d x => WrittenAs d (Item.value x)) ds items) :
      WrittenAs (.list ds) (.list inside items)
  | record {members : List (String × Datum)} {inside : Blanks} {entries : List (Entry Tree)}
      (names : ∀ e ∈ entries, e.name.isSome)
      (once : ∀ m ∈ members, (named m.1 entries).length = 1 ∨
        (named m.1 entries).isEmpty ∧ m.2.isOmittable)
      (values : ∀ m ∈ members, ∀ t ∈ named m.1 entries, WrittenAs m.2 t) :
      WrittenAs (.record members) (.object inside entries)

/-- A datum is the value of the one entry with a name, or is left out. -/
def StandsIn (entries : List (Entry Tree)) (key : String) (d : Datum) : Prop :=
  (∃ t, named key entries = [t] ∧ d.WrittenAs t) ∨ named key entries = [] ∧ d.isOmittable

theorem WrittenAs.members {members : List (String × Datum)} {t : Tree}
    (h : (Datum.record members).WrittenAs t) :
    ∃ inside entries, t = .object inside entries ∧ (∀ e ∈ entries, ∃ name, e.name = some name) ∧
      ∀ m ∈ members, m.2.StandsIn entries m.1 := by
  cases h with
  | @record _ inside entries names once values =>
    refine ⟨inside, entries, rfl, fun e he => Option.isSome_iff_exists.1 (names e he),
      fun m hm => ?_⟩
    obtain hone | ⟨hnone, homit⟩ := once m hm
    · obtain ⟨t, ht⟩ := List.length_eq_one_iff.1 hone
      exact .inl ⟨t, ht, values m hm t (by simp [ht])⟩
    · exact .inr ⟨List.isEmpty_iff.1 hnone, homit⟩

/-- A text or a record: neither is taken for `null`. -/
def IsSolid : Datum → Prop
  | .text _ | .record _ => True
  | _ => False

theorem IsSolid.not_omittable {d : Datum} (h : d.IsSolid) : ¬d.isOmittable := by
  cases d <;> simp_all [IsSolid, isOmittable]

theorem WrittenAs.head {d : Datum} {t : Tree} (h : d.WrittenAs t) (hsolid : d.IsSolid) :
    ∃ x cs, t.text = x :: cs ∧ Cursor.isBlank x = false ∧ x ≠ 'n' := by
  cases h with
  | text => exact ⟨_, _, rfl, by decide, by decide⟩
  | record => exact ⟨_, _, rfl, by decide, by decide⟩
  | word => exact hsolid.elim
  | null => exact hsolid.elim
  | list => exact hsolid.elim

end Datum

open Datum

variable {α : Type}

/-- Every text for a value of a type is read by a layout as that value. -/
def Conveys (layout : Layout) (conv : layout.Content → α) (datum : α → Datum) : Prop :=
  ∀ a t, (datum a).WrittenAs t → ∃ c, Reads layout.read t.text c ∧ conv c = a

theorem conveys_text : Conveys .text id .text := by
  intro s t h
  cases h with
  | text spelled => exact ⟨s, reads_text spelled _, rfl⟩

theorem conveys_word : Conveys .word id .word := by
  intro n t h
  cases h with
  | word plain => exact ⟨n, reads_word plain _, rfl⟩

theorem Conveys.items {layout : Layout} {conv : layout.Content → α} {datum : α → Datum}
    (h : Conveys layout conv datum) {xs : List α} {items : List (Item Tree)}
    (each : List.Forall₂ (fun d x => WrittenAs d (Item.value x)) (xs.map datum) items) :
    ∃ cs, List.Forall₂ (fun x c => Reads layout.read (Item.value x).text c) items cs ∧
      cs.map conv = xs := by
  induction xs generalizing items with
  | nil =>
    cases each
    exact ⟨[], .nil, rfl⟩
  | cons x xs ih =>
    cases each with
    | cons hx hxs =>
      obtain ⟨c, hread, hconv⟩ := h x _ hx
      obtain ⟨cs, hreads, hconvs⟩ := ih hxs
      exact ⟨c :: cs, .cons hread hreads, by rw [List.map_cons, hconv, hconvs]⟩

theorem Conveys.list {layout : Layout} {conv : layout.Content → α} {datum : α → Datum}
    (h : Conveys layout conv datum) :
    Conveys (.list layout) (List.map conv) fun xs => .list (xs.map datum) := by
  intro xs t ht
  cases ht with
  | list each =>
    obtain ⟨cs, hreads, hconv⟩ := h.items each
    exact ⟨cs, reads_list hreads _ _, hconv⟩

theorem Conveys.optional {layout : Layout} {conv : layout.Content → α} {datum : α → Datum}
    (h : Conveys layout conv datum) (hsolid : ∀ a, (datum a).IsSolid) :
    Conveys (.optional layout) (Option.map conv) (.optional datum) := by
  intro x t ht
  match x with
  | none =>
    cases ht
    exact ⟨none, reads_null _, rfl⟩
  | some a =>
    obtain ⟨c, hread, hconv⟩ := h a t ht
    obtain ⟨y, cs, htext, hblank, hnull⟩ := ht.head (hsolid a)
    exact ⟨some c, reads_some hread htext hblank hnull, congrArg some hconv⟩

theorem Slots.finish_required {key : String} {layout : Layout} {rest : List (Member Layout)}
    (v : layout.Content) {slots : Slots rest} {contents : Layout.Contents rest}
    (h : slots.finish rest = .ok contents) :
    Slots.finish (⟨key, true, layout⟩ :: rest) (some v, slots) = .ok (v, contents) := by
  simp only [Slots.finish, h]
  rfl

theorem Slots.finish_optional {key : String} {layout : Layout} {rest : List (Member Layout)}
    (slot : Option layout.Content) {slots : Slots rest} {contents : Layout.Contents rest}
    (h : slots.finish rest = .ok contents) :
    Slots.finish (⟨key, false, layout⟩ :: rest) (slot, slots) = .ok (slot, contents) := by
  simp only [Slots.finish, h]
  cases slot <;> rfl

/-- From any entries that write the parts of a value, members are read as these parts. -/
def Gathers (members : List (Member Layout)) (conv : Layout.Contents members → α)
    (fields : α → List (String × Datum)) : Prop :=
  ∀ a entries, (∀ m ∈ fields a, m.2.StandsIn entries m.1) →
    ∃ (slots : Slots members) (contents : Layout.Contents members),
      slots.Holds entries members ∧ slots.finish members = .ok contents ∧ conv contents = a

namespace Gathers

variable {β : Type} {layout : Layout} {conv : layout.Content → α} {datum : α → Datum}
  {rest : List (Member Layout)} {convs : Layout.Contents rest → β}
  {fields : β → List (String × Datum)}

theorem nil : Gathers [] (fun _ => ()) fun _ => [] := by
  intro _ entries _
  exact ⟨(), (), trivial, rfl, rfl⟩

/-- A member that cannot be left out. -/
theorem required (key : String) (h : Conveys layout conv datum)
    (hkeep : ∀ a, ¬(datum a).isOmittable) (hrest : Gathers rest convs fields) :
    Gathers (⟨key, true, layout⟩ :: rest) (fun c => (conv c.1, convs c.2))
      fun x => (key, datum x.1) :: fields x.2 := by
  intro x entries hx
  obtain ⟨hstands, hmore⟩ := List.forall_mem_cons.1 hx
  obtain ⟨slots, contents, hslots, hfinish, hconvs⟩ := hrest x.2 entries hmore
  obtain ⟨t, ht, hwritten⟩ | ⟨-, homit⟩ := hstands
  · obtain ⟨c, hread, hconv⟩ := h x.1 t hwritten
    exact ⟨(some c, slots), (c, contents), ⟨⟨t, ht, hread⟩, hslots⟩,
      Slots.finish_required _ hfinish, Prod.ext hconv hconvs⟩
  · exact absurd homit (hkeep x.1)

/-- A member that may be left out, with what its place stands for. -/
theorem leftOut (layout : Layout) {key : String} (conv : Option layout.Content → α)
    (datum : α → Datum)
    (h : ∀ a entries, (datum a).StandsIn entries key →
      ∃ slot, HoldsValue layout (named key entries) slot ∧ conv slot = a)
    (hrest : Gathers rest convs fields) :
    Gathers (⟨key, false, layout⟩ :: rest) (fun c => (conv c.1, convs c.2))
      fun x => (key, datum x.1) :: fields x.2 := by
  intro x entries hx
  obtain ⟨hstands, hmore⟩ := List.forall_mem_cons.1 hx
  obtain ⟨slots, contents, hslots, hfinish, hconvs⟩ := hrest x.2 entries hmore
  obtain ⟨slot, hholds, hconv⟩ := h x.1 entries hstands
  exact ⟨(slot, slots), (slot, contents), ⟨hholds, hslots⟩, Slots.finish_optional _ hfinish,
    Prod.ext hconv hconvs⟩

/-- A member that may be absent. -/
theorem optional (key : String) (h : Conveys layout conv datum) (hsolid : ∀ a, (datum a).IsSolid)
    (hrest : Gathers rest convs fields) :
    Gathers (⟨key, false, .optional layout⟩ :: rest)
      (fun c => ((Option.join c.1).map conv, convs c.2))
      fun x => (key, .optional datum x.1) :: fields x.2 := by
  refine leftOut (.optional layout) (fun slot => (Option.join slot).map conv) _
    (fun x entries hstands => ?_) hrest
  obtain ⟨t, ht, hwritten⟩ | ⟨hnone, homit⟩ := hstands
  · obtain ⟨c, hread, hconv⟩ := h.optional hsolid x t hwritten
    exact ⟨some c, ⟨t, ht, hread⟩, hconv⟩
  · match x with
    | none => exact ⟨none, hnone, rfl⟩
    | some a => exact absurd homit (hsolid a).not_omittable

/-- A list, which may be left out if it is empty. -/
theorem list (key : String) (h : Conveys layout conv datum) (hrest : Gathers rest convs fields) :
    Gathers (⟨key, false, .list layout⟩ :: rest)
      (fun c => ((Option.getD c.1 []).map conv, convs c.2))
      fun x => (key, .list (x.1.map datum)) :: fields x.2 := by
  refine leftOut (.list layout) (fun slot => (Option.getD slot []).map conv)
    (fun xs : List α => .list (xs.map datum)) (fun xs entries hstands => ?_) hrest
  obtain ⟨t, ht, hwritten⟩ | ⟨hnone, homit⟩ := hstands
  · obtain ⟨cs, hread, hconv⟩ := h.list xs t hwritten
    exact ⟨some cs, ⟨t, ht, hread⟩, hconv⟩
  · match xs with
    | [] => exact ⟨none, hnone, rfl⟩
    | _ :: _ => exact absurd homit nofun

section Whole

variable {members : List (Member Layout)} {parts : Layout.Contents members → α}
  {fields : α → List (String × Datum)} {whole : Layout.Contents members → β}

/-- A record is read as the value whose parts its members are, whatever follows it. -/
theorem read (h : Gathers members parts fields) (hkeys : (members.map Member.key).Nodup)
    (name : String) (split : β → α) (hwhole : ∀ c b, parts c = split b → whole c = b) {b : β}
    {t : Tree} (ht : (Datum.record (fields (split b))).WrittenAs t) :
    ∃ c, whole c = b ∧ ∀ (ws : Blanks) rest p,
      (Layout.record name members).read ⟨ws.chars ++ (t.text ++ rest), p⟩ =
        .ok (c, ⟨rest, (p.after ws.chars).after t.text⟩) := by
  obtain ⟨inside, entries, rfl, hnames, hmembers⟩ := ht.members
  obtain ⟨slots, contents, hslots, hfinish, hparts⟩ := h (split b) entries hmembers
  exact ⟨contents, hwhole contents b hparts, read_record hkeys hnames hslots hfinish name inside⟩

theorem conveys (h : Gathers members parts fields) (hkeys : (members.map Member.key).Nodup)
    (name : String) (split : β → α) (hwhole : ∀ c b, parts c = split b → whole c = b) :
    Conveys (.record name members) whole fun b => .record (fields (split b)) := by
  intro b t ht
  obtain ⟨c, hc, hread⟩ := h.read hkeys name split hwhole ht
  exact ⟨c, fun ws rest p _ => hread ws rest p, hc⟩

end Whole

end Gathers

end EntitySchema.Json

namespace EntitySchema.Schema

open Json (Layout Datum Conveys Gathers conveys_text conveys_word)

/-- What a reference says. -/
def Reference.datum (r : Reference) : Datum :=
  .record [("builtInType", .optional .text r.builtIn), ("userType", .optional .text r.user)]

/-- What the type under an option or a list says. -/
def Reference.wrappedDatum (r : Reference) : Datum := .record [("valueType", r.datum)]

/-- What the types of a map say. -/
def Reference.pairDatum (p : Reference × Reference) : Datum :=
  .record [("keyType", p.1.datum), ("valueType", p.2.datum)]

/-- What the mention of a user type says. -/
def userDatum (name : String) : Datum := .record [("userType", .text name)]

/-- What a field says. -/
def FieldDeclaration.datum (f : FieldDeclaration) : Datum :=
  .record
    [("name", .text f.name), ("number", .word f.number),
      ("singularType", .optional Reference.datum f.singular),
      ("optionType", .optional Reference.wrappedDatum f.option),
      ("listType", .optional Reference.wrappedDatum f.list),
      ("mapType", .optional Reference.pairDatum f.map)]

/-- What a type says. -/
def TypeDeclaration.datum (t : TypeDeclaration) : Datum :=
  .record
    [("name", .text t.name), ("qualifiedName", .text t.qualifiedName),
      ("fieldDefinitions", .list (t.fields.map FieldDeclaration.datum))]

/-- What an event says. -/
def EventDeclaration.datum (e : EventDeclaration) : Datum :=
  .record [("name", .text e.name), ("eventIndex", .word e.index), ("type", userDatum e.type)]

/-- What a command says. -/
def CommandDeclaration.datum (c : CommandDeclaration) : Datum :=
  .record
    [("name", .text c.name), ("commandIndex", .word c.index), ("requestType", userDatum c.request),
      ("responseType", userDatum c.response)]

/-- What a component says. -/
def ComponentDeclaration.datum (c : ComponentDeclaration) : Datum :=
  .record
    [("name", .text c.name), ("id", .word c.id), ("qualifiedName", .text c.qualifiedName),
      ("dataDefinition", userDatum c.data),
      ("eventDefinitions", .list (c.events.map EventDeclaration.datum)),
      ("commandDefinitions", .list (c.commands.map CommandDeclaration.datum))]

/-- What a document says. -/
def Document.datum (d : Document) : Datum :=
  .record
    [("package", .text d.package), ("typeDefinitions", .list (d.types.map TypeDeclaration.datum)),
      ("componentDefinitions", .list (d.components.map ComponentDeclaration.datum))]

theorem conveys_reference : Conveys Reference.layout .ofContent Reference.datum := by
  refine Gathers.conveys (.optional _ conveys_text (fun _ => trivial)
    (.optional _ conveys_text (fun _ => trivial) .nil)) (by decide) _
    (fun r : Reference => (r.builtIn, r.user, ())) fun c r h => ?_
  simp only [Option.map_id_fun, id_eq] at h
  cases r
  cases h
  rfl

theorem conveys_wrapped : Conveys Reference.wrappedLayout .ofWrapped Reference.wrappedDatum := by
  refine Gathers.conveys (.required _ conveys_reference (fun _ => nofun) .nil) (by decide) _
    (fun r : Reference => (r, ())) fun c r h => ?_
  cases h
  rfl

theorem conveys_pair : Conveys Reference.pairLayout Reference.ofPair Reference.pairDatum := by
  refine Gathers.conveys (.required _ conveys_reference (fun _ => nofun)
    (.required _ conveys_reference (fun _ => nofun) .nil)) (by decide) _
    (fun p : Reference × Reference => (p.1, p.2, ())) fun c p h => ?_
  cases p
  cases h
  rfl

theorem conveys_user : Conveys userLayout userOfContent userDatum := by
  refine Gathers.conveys (.required _ conveys_text (fun _ => nofun) .nil) (by decide) _
    (fun name : String => (name, ())) fun c name h => ?_
  cases h
  rfl

theorem conveys_field : Conveys FieldDeclaration.layout .ofContent FieldDeclaration.datum := by
  refine Gathers.conveys (.required _ conveys_text (fun _ => nofun)
    (.required _ conveys_word (fun _ => nofun)
    (.optional _ conveys_reference (fun _ => trivial)
    (.optional _ conveys_wrapped (fun _ => trivial)
    (.optional _ conveys_wrapped (fun _ => trivial)
    (.optional _ conveys_pair (fun _ => trivial) .nil)))))) (by decide) _
    (fun f : FieldDeclaration => (f.name, f.number, f.singular, f.option, f.list, f.map, ()))
    fun c f h => ?_
  cases f
  cases h
  rfl

theorem conveys_type : Conveys TypeDeclaration.layout .ofContent TypeDeclaration.datum := by
  refine Gathers.conveys (.required _ conveys_text (fun _ => nofun)
    (.required _ conveys_text (fun _ => nofun)
    (.list _ conveys_field .nil))) (by decide) _
    (fun t : TypeDeclaration => (t.name, t.qualifiedName, t.fields, ())) fun c t h => ?_
  cases t
  cases h
  rfl

theorem conveys_event : Conveys EventDeclaration.layout .ofContent EventDeclaration.datum := by
  refine Gathers.conveys (.required _ conveys_text (fun _ => nofun)
    (.required _ conveys_word (fun _ => nofun)
    (.required _ conveys_user (fun _ => nofun) .nil))) (by decide) _
    (fun e : EventDeclaration => (e.name, e.index, e.type, ())) fun c e h => ?_
  cases e
  cases h
  rfl

theorem conveys_command : Conveys CommandDeclaration.layout .ofContent CommandDeclaration.datum := by
  refine Gathers.conveys (.required _ conveys_text (fun _ => nofun)
    (.required _ conveys_word (fun _ => nofun)
    (.required _ conveys_user (fun _ => nofun)
    (.required _ conveys_user (fun _ => nofun) .nil)))) (by decide) _
    (fun c : CommandDeclaration => (c.name, c.index, c.request, c.response, ())) fun c d h => ?_
  cases d
  cases h
  rfl

theorem conveys_component :
    Conveys ComponentDeclaration.layout .ofContent ComponentDeclaration.datum := by
  refine Gathers.conveys (.required _ conveys_text (fun _ => nofun)
    (.required _ conveys_word (fun _ => nofun)
    (.required _ conveys_text (fun _ => nofun)
    (.required _ conveys_user (fun _ => nofun)
    (.list _ conveys_event
    (.list _ conveys_command .nil)))))) (by decide) _
    (fun c : ComponentDeclaration => (c.name, c.id, c.qualifiedName, c.data, c.events, c.commands, ()))
    fun c d h => ?_
  cases d
  cases h
  rfl

/-- A document is read whatever follows it. -/
theorem Document.read_of_writtenAs {d : Document} {t : Json.Tree} (h : d.datum.WrittenAs t) :
    ∃ c, Document.ofContent c = d ∧ ∀ (ws : Json.Blanks) rest p,
      Document.layout.read ⟨ws.chars ++ (t.text ++ rest), p⟩ =
        .ok (c, ⟨rest, (p.after ws.chars).after t.text⟩) := by
  refine Gathers.read (.required _ conveys_text (fun _ => nofun)
    (.list _ conveys_type
    (.list _ conveys_component .nil))) (by decide) _
    (fun d : Document => (d.package, d.types, d.components, ())) (fun c d h => ?_) h
  cases d
  cases h
  rfl

/-- Every text that writes a document is read as that document: whatever the order of the entries,
the blanks, the escapes and the entries of other names, and whatever follows. -/
theorem Document.parse_of_writtenAs (d : Document) {t : Json.Tree} (written : d.datum.WrittenAs t)
    (before : Json.Blanks) (rest source : String) :
    Document.parse source (String.ofList (before.chars ++ t.text) ++ rest) = .ok d := by
  obtain ⟨c, hc, hread⟩ := Document.read_of_writtenAs written
  have htext : (String.ofList (before.chars ++ t.text) ++ rest).toList =
      before.chars ++ (t.text ++ rest.toList) := by simp
  rw [Document.parse, Layout.parse, Json.Cursor.start, htext, hread]
  exact congrArg Except.ok hc

/-- A document with a package outside the basic plane. -/
def smileyDocument : Document :=
  { package := "😀", types := [{ name := "T", qualifiedName := "T" }] }

/-- Characters that stand for themselves; others are dropped. -/
def verbatim (cs : List Char) : List Json.Piece :=
  cs.filterMap fun x =>
    if h : x ≠ '"' ∧ x ≠ '\\' ∧ 0x20 ≤ x.toNat then some (.plain x h) else none

/-- Its type with the entries in another order and an empty list. -/
def smileyType : Json.Tree :=
  .object .none
    [⟨.none, verbatim ['f', 'i', 'e', 'l', 'd', 'D', 'e', 'f', 'i', 'n', 'i', 't', 'i', 'o', 'n', 's'],
        .none, .none, .list ⟨['\n'], by simp⟩ [], .none⟩,
      ⟨.none, verbatim ['q', 'u', 'a', 'l', 'i', 'f', 'i', 'e', 'd', 'N', 'a', 'm', 'e'],
        ⟨['\t'], by simp⟩, .none, .string (verbatim ['T']), .none⟩,
      ⟨.none, verbatim ['n', 'a', 'm', 'e'], .none, .none,
        .string [.unit (.ofNat 0x54 false)], .none⟩]

/-- The document with its package behind its types, a surrogate pair, an escaped key, and an unknown
name twice, once with nested values and a lone surrogate. On one line its text is
`{ "x":[-0.5E+7,{"\uD800":[]}], "typeDefinitions":[..],"p\u0061ckage":"\uD83D\ude00","x":null}`. -/
def smileyTree : Json.Tree :=
  .object ⟨[' '], by simp⟩
    [⟨.none, verbatim ['x'], .none, .none,
        .list .none
          [⟨.none, .number (.ofDigit true 0 (some (.ofNat 5)) (some ⟨true, some false, .ofNat 7⟩)),
              .none⟩,
            ⟨.none, .object .none
              [⟨.none, [.unit (.ofNat 0xD800 true)], .none, .none, .list .none [], .none⟩], .none⟩],
        .none⟩,
      ⟨⟨['\r', '\n'], by simp⟩,
        verbatim ['t', 'y', 'p', 'e', 'D', 'e', 'f', 'i', 'n', 'i', 't', 'i', 'o', 'n', 's'],
        .none, .none, .list .none [⟨.none, smileyType, .none⟩], .none⟩,
      ⟨.none, verbatim ['p'] ++ .unit (.ofNat 0x61 false) ::
        verbatim ['c', 'k', 'a', 'g', 'e'], .none, .none,
        .string [.unit (.ofNat 0xD83D true), .unit (.ofNat 0xDE00 false)], .none⟩,
      ⟨.none, verbatim ['x'], .none, .none, .null, .none⟩]

theorem smileyType_written :
    (TypeDeclaration.datum { name := "T", qualifiedName := "T" }).WrittenAs smileyType := by
  refine .record (by decide) (by decide) ?_
  simp only [List.forall_mem_cons]
  refine ⟨?_, ?_, ?_, List.forall_mem_nil _⟩
  · intro t ht
    obtain rfl := List.mem_singleton.1 ht
    exact .text rfl
  · intro t ht
    obtain rfl := List.mem_singleton.1 ht
    exact .text rfl
  · intro t ht
    obtain rfl := List.mem_singleton.1 ht
    exact .list .nil

theorem smileyTree_written : smileyDocument.datum.WrittenAs smileyTree := by
  refine .record (by decide) (by decide) ?_
  simp only [List.forall_mem_cons]
  refine ⟨?_, ?_, ?_, List.forall_mem_nil _⟩
  · intro t ht
    obtain rfl := List.mem_singleton.1 ht
    exact .text rfl
  · intro t ht
    obtain rfl := List.mem_singleton.1 ht
    exact .list (.cons smileyType_written .nil)
  · intro t ht
    exact absurd ht List.not_mem_nil

theorem Document.parse_of_writtenAs_smiley :
    smileyDocument.datum.WrittenAs smileyTree ∧
      Document.parse unnamedSource (String.ofList ([] ++ smileyTree.text) ++ "]") =
        .ok smileyDocument :=
  ⟨smileyTree_written,
    Document.parse_of_writtenAs smileyDocument smileyTree_written .none "]" unnamedSource⟩

end EntitySchema.Schema
