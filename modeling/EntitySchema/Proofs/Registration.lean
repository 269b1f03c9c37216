import EntitySchema.Proofs.Linking
import EntitySchema.Schema.Catalog

/-!
# Catalogs only grow

Whatever documents are entered, with success or not, what a catalog holds stays at the front of it,
unchanged, and every definition stands under its qualified name and under no other key. A document
that is entered with success adds all that it declares. One that is refused adds the types before
its first defective type, or, if no type is defective, all types and the components before its first
defective component. A type is defective if a field of it has no usable shape, which is reported
first, or if its name is taken.

## Implementation notes

Types and components are entered by the same pass, so what a defect is and where a pass stops is
said once, for declarations of any kind. A defect is a property of the document and of the keys that
were in use before it: a name is taken if it is such a key or the name of an earlier declaration of
the document. The pass itself looks names up in the growing table; `defect_cons_succ` carries the
one over into the other.
-/

namespace EntitySchema.Schema

/-! ### Defects -/

/-- What is wrong with the declaration at a position: it is faulty in itself, or else its name is in
use or that of an earlier declaration. -/
inductive Defect {δ : Type} (faulty : δ → Error → Prop) (name : δ → String)
    (duplicate : String → Error) (used : List String) (ds : List δ) (n : Nat) : Error → Prop
  | own {d : δ} {e : Error} : ds[n]? = some d → faulty d e →
    Defect faulty name duplicate used ds n e
  | name {d : δ} : ds[n]? = some d → (∀ e, ¬faulty d e) →
    name d ∈ used ++ (ds.take n).map name →
    Defect faulty name duplicate used ds n (duplicate (name d))

/-- How a pass over declarations ends, and how many of them come before its end: it stops at the
first defect. -/
inductive StopsAt (defect : Nat → Error → Prop) (length : Nat) : Except Error Unit → Nat → Prop
  | never : (∀ n e, ¬defect n e) → StopsAt defect length (.ok ()) length
  | first {n : Nat} {e : Error} : defect n e → (∀ k < n, ∀ e, ¬defect k e) →
    StopsAt defect length (.error e) n

section Defects

variable {δ : Type} {faulty : δ → Error → Prop} {name : δ → String} {duplicate : String → Error}
variable {used : List String} {d : δ} {rest : List δ} {n : Nat} {e : Error}

theorem not_defect_nil : ¬Defect faulty name duplicate used [] n e := by
  rintro (⟨hd, _⟩ | ⟨hd, _, _⟩)
  · cases hd
  · cases hd

/-- The first declaration is defective by itself or because its name is in use. -/
theorem defect_cons_zero :
    Defect faulty name duplicate used (d :: rest) 0 e ↔
      faulty d e ∨ (∀ e, ¬faulty d e) ∧ name d ∈ used ∧ e = duplicate (name d) := by
  constructor
  · rintro (⟨hd, hfaulty⟩ | ⟨hd, hfine, hname⟩)
    · obtain rfl := Option.some.inj hd
      exact .inl hfaulty
    · obtain rfl := Option.some.inj hd
      exact .inr ⟨hfine, by simpa using hname, rfl⟩
  · rintro (hfaulty | ⟨hfine, hname, rfl⟩)
    · exact .own rfl hfaulty
    · exact .name rfl hfine (List.mem_append_left _ hname)

/-- Behind the first declaration its name counts among those in use. -/
theorem defect_cons_succ :
    Defect faulty name duplicate used (d :: rest) (n + 1) e ↔
      Defect faulty name duplicate (used ++ [name d]) rest n e := by
  have hnames : used ++ ((d :: rest).take (n + 1)).map name =
      used ++ [name d] ++ (rest.take n).map name := by simp
  constructor
  · rintro (⟨hd, hfaulty⟩ | ⟨hd, hfine, hname⟩)
    · exact .own hd hfaulty
    · exact .name hd hfine (hnames ▸ hname)
  · rintro (⟨hd, hfaulty⟩ | ⟨hd, hfine, hname⟩)
    · exact .own hd hfaulty
    · exact .name hd hfine (hnames ▸ hname)

theorem StopsAt.zero {defect : Nat → Error → Prop} {length : Nat} (h : defect 0 e) :
    StopsAt defect length (.error e) 0 :=
  .first h fun _ hk => absurd hk (Nat.not_lt_zero _)

/-- A pass that gets over the first declaration stops where it stops behind it. -/
theorem StopsAt.cons {defect defect' : Nat → Error → Prop} {length : Nat}
    {result : Except Error Unit} (hfirst : ∀ e, ¬defect 0 e)
    (hnext : ∀ n e, defect (n + 1) e ↔ defect' n e) (h : StopsAt defect' length result n) :
    StopsAt defect (length + 1) result (n + 1) := by
  cases h with
  | never hnone =>
      refine .never fun n e => ?_
      cases n with
      | zero => exact hfirst e
      | succ n => exact (hnext n e).not.mpr (hnone n e)
  | first hdefect hnone =>
      refine .first ((hnext _ _).mpr hdefect) fun k hk e => ?_
      cases k with
      | zero => exact hfirst e
      | succ k => exact (hnext k e).not.mpr (hnone k (Nat.lt_of_succ_lt_succ hk) e)

end Defects

/-! ### Entering declarations in a table -/

namespace Table

variable {α δ : Type}

/-- Every definition stands under its name, and no key is used twice. -/
structure Keyed (key : α → String) (t : Table α) : Prop where
  nodup : t.keys.Nodup
  keys : ∀ e ∈ t.entries, e.1 = key e.2

/-- The entries of definitions under their names. -/
def entriesOf (key : α → String) (as : List α) : List (String × α) := as.map fun a => (key a, a)

theorem insert_of_fresh {t : Table α} {key : String} (h : key ∉ t.keys) (a : α) :
    t.insert key a = ⟨t.entries ++ [(key, a)]⟩ := by
  rw [insert, has, decide_eq_false h]
  rfl

theorem keys_insert {t : Table α} {key : String} (h : key ∉ t.keys) (a : α) :
    (t.insert key a).keys = t.keys ++ [key] := by
  rw [insert_of_fresh h, Table.keys, List.map_append]
  rfl

theorem Keyed.insert {key : α → String} {t : Table α} (h : t.Keyed key) {a : α}
    (hfresh : key a ∉ t.keys) : (t.insert (key a) a).Keyed key where
  nodup := by
    rw [keys_insert hfresh]
    simpa using List.Nodup.concat hfresh h.nodup
  keys := by
    rw [insert_of_fresh hfresh]
    intro e he
    rcases List.mem_append.mp he with he | he
    · exact h.keys e he
    · rw [List.mem_singleton.mp he]

section Enter

variable {read : δ → Except Error α} {name : δ → String} {duplicate : String → Error}
variable {key : α → String} {faulty : δ → Error → Prop}

theorem Keyed.enter (hkey : ∀ d a, read d = .ok a → key a = name d) {ds : List δ} {t : Table α}
    (h : t.Keyed key) : (Table.enter read name duplicate ds t).2.Keyed key := by
  induction ds generalizing t with
  | nil => exact h
  | cons d rest ih =>
      rw [Table.enter]
      cases hread : read d with
      | error e => exact h
      | ok a =>
          have hname : key a = name d := hkey d a hread
          by_cases hused : name d ∈ t.keys
          · simpa [has, hused] using h
          · have hnext := ih (h.insert (hname.symm ▸ hused))
            simpa [has, hused, hname] using hnext

/-- Entering stops at the first defect; the declarations before it are entered in order, behind all
that was there. -/
theorem enter_stops (hfaulty : ∀ d e, read d = .error e ↔ faulty d e)
    (hkey : ∀ d a, read d = .ok a → key a = name d) (ds : List δ) (t : Table α) :
    ∃ n as, StopsAt (Defect faulty name duplicate t.keys ds) ds.length
        (enter read name duplicate ds t).1 n ∧
      (ds.take n).mapM read = .ok as ∧
      (enter read name duplicate ds t).2.entries = t.entries ++ entriesOf key as := by
  induction ds generalizing t with
  | nil => exact ⟨0, [], .never fun _ _ => not_defect_nil, rfl, (List.append_nil _).symm⟩
  | cons d rest ih =>
      rw [enter]
      cases hread : read d with
      | error e =>
          exact ⟨0, [], .zero (defect_cons_zero.mpr (.inl ((hfaulty d e).mp hread))), rfl,
            (List.append_nil _).symm⟩
      | ok a =>
          have hfine : ∀ e, ¬faulty d e := by
            intro e he
            rw [(hfaulty d e).mpr he] at hread
            cases hread
          by_cases hused : name d ∈ t.keys
          · simp only [has, hused, decide_true, if_true]
            exact ⟨0, [], .zero (defect_cons_zero.mpr (.inr ⟨hfine, hused, rfl⟩)), rfl,
              (List.append_nil _).symm⟩
          · obtain ⟨n, as, hstops, hall, hentries⟩ := ih (t.insert (name d) a)
            rw [keys_insert hused] at hstops
            simp only [has, hused, decide_false, Bool.false_eq_true, if_false]
            refine ⟨n + 1, a :: as, hstops.cons ?_ fun _ _ => defect_cons_succ, ?_, ?_⟩
            · intro e he
              rcases defect_cons_zero.mp he with hself | ⟨-, hname, -⟩
              · exact hfine e hself
              · exact hused hname
            · rw [List.take_succ_cons, List.mapM_cons, hread, hall]
              rfl
            · rw [hentries, insert_of_fresh hused, List.append_assoc, ← hkey d a hread]
              rfl

end Enter

end Table

/-! ### Fields without a shape -/

/-- What is wrong with a reference: it names no scalar, or nothing at all. -/
inductive Reference.Unusable (site : Site) (r : Reference) : Error → Prop
  | unknown {name : String} : r.builtIn = some name → Scalar.ofName? name = none →
    Unusable site r (.unknownScalar name site)
  | empty : r.builtIn = none → r.user = none → Unusable site r (.emptyReference site)

/-- The references of each shape that a field declares. -/
def FieldDeclaration.declared (f : FieldDeclaration) : List (List Reference) :=
  [f.singular.map fun r => [r], f.option.map fun r => [r], f.list.map fun r => [r],
    f.map.map fun entry => [entry.1, entry.2]].reduceOption

/-- What is wrong with the shape of a field: there is none, there are several, or a reference in the
one shape is unusable. -/
inductive FieldDeclaration.Unusable (site : Site) (f : FieldDeclaration) : Error → Prop
  | missing : f.declared = [] → Unusable site f (.missingShape site)
  | conflicting : 1 < f.declared.length → Unusable site f (.conflictingShapes site)
  | reference {before after : List Reference} {r : Reference} {e : Error} :
    f.declared = [before ++ r :: after] → (∀ s ∈ before, ∀ e, ¬s.Unusable site e) →
    r.Unusable site e → Unusable site f e

/-- The first field of a declared type whose shape is unusable, and what is wrong with it. -/
def TypeDeclaration.Misshapen (t : TypeDeclaration) (e : Error) : Prop :=
  ∃ before f after, t.fields = before ++ f :: after ∧
    (∀ g ∈ before, ∀ e, ¬g.Unusable (.field g.name t.qualifiedName) e) ∧
    f.Unusable (.field f.name t.qualifiedName) e

section Failing

variable {ε α β : Type} {x : Except ε α} {e : ε}

theorem bind_eq_error_iff {f : α → Except ε β} :
    x >>= f = .error e ↔ x = .error e ∨ ∃ a, x = .ok a ∧ f a = .error e := by
  cases x with
  | error e' => simp [bind, Except.bind]
  | ok a => simp [bind, Except.bind]

theorem map_eq_error_iff {f : α → β} : f <$> x = .error e ↔ x = .error e := by
  cases x with
  | error e' => simp [Functor.map, Except.map]
  | ok a => simp [Functor.map, Except.map]

theorem exists_eq_ok_iff : (∃ a, x = .ok a) ↔ ∀ e, ¬x = .error e := by
  cases x with
  | error e' => simp
  | ok a => simp

/-- A list of steps fails with the error of the first step that fails. -/
theorem mapM_eq_error_iff {g : α → Except ε β} {as : List α} :
    as.mapM g = .error e ↔
      ∃ before a after, as = before ++ a :: after ∧ (∀ x ∈ before, ∃ b, g x = .ok b) ∧
        g a = .error e := by
  constructor
  · intro h
    induction as with
    | nil => cases h
    | cons x rest ih =>
        rw [List.mapM_cons, bind_eq_error_iff] at h
        rcases h with hx | ⟨b, hx, h⟩
        · exact ⟨[], x, rest, rfl, by simp, hx⟩
        · rcases bind_eq_error_iff.mp h with hrest | ⟨_, _, hpure⟩
          · obtain ⟨before, a, after, rfl, hbefore, ha⟩ := ih hrest
            exact ⟨x :: before, a, after, rfl, List.forall_mem_cons.mpr ⟨⟨b, hx⟩, hbefore⟩, ha⟩
          · cases hpure
  · rintro ⟨before, a, after, rfl, hbefore, ha⟩
    obtain ⟨bs, hbs⟩ := exists_mapM_of_forall hbefore
    rw [List.mapM_append, hbs, List.mapM_cons, ha]
    rfl

end Failing

theorem Reference.shape_eq_error_iff {site : Site} {r : Reference} {e : Error} :
    r.shape site = .error e ↔ r.Unusable site e := by
  constructor
  · intro h
    rcases r with ⟨_ | name, _ | user⟩
    · obtain rfl := Except.error.inj h
      exact .empty rfl rfl
    · cases h
    all_goals
      rw [shape] at h
      cases hscalar : Scalar.ofName? name with
      | some s =>
          rw [hscalar] at h
          cases h
      | none =>
          rw [hscalar] at h
          obtain rfl := Except.error.inj h
          exact .unknown rfl hscalar
  · rintro (⟨hname, hscalar⟩ | ⟨hname, huser⟩)
    · obtain ⟨_, _⟩ := r
      obtain rfl := hname
      rw [shape, hscalar]
    · obtain ⟨_, _⟩ := r
      obtain rfl := hname
      obtain rfl := huser
      rfl

/-- A field that declares one shape has it if each reference has one. -/
theorem FieldDeclaration.shape_eq_error_iff_mapM {site : Site} {f : FieldDeclaration} {e : Error} :
    f.shape site = .error e ↔
      f.declared = [] ∧ .missingShape site = e ∨
      1 < f.declared.length ∧ .conflictingShapes site = e ∨
      ∃ refs, f.declared = [refs] ∧ refs.mapM (Reference.shape site) = .error e := by
  rcases f with ⟨name, number, _ | r, _ | o, _ | l, _ | ⟨k, v⟩⟩ <;>
    simp [shape, declared, List.reduceOption, bind_eq_error_iff, map_eq_error_iff]

theorem FieldDeclaration.shape_eq_error_iff {site : Site} {f : FieldDeclaration} {e : Error} :
    f.shape site = .error e ↔ f.Unusable site e := by
  rw [shape_eq_error_iff_mapM]
  simp only [mapM_eq_error_iff, exists_eq_ok_iff, Reference.shape_eq_error_iff]
  constructor
  · rintro (⟨hnone, rfl⟩ | ⟨hmany, rfl⟩ | ⟨_, hone, before, r, after, rfl, hbefore, hr⟩)
    · exact .missing hnone
    · exact .conflicting hmany
    · exact .reference hone hbefore hr
  · rintro (hnone | hmany | ⟨hone, hbefore, hr⟩)
    · exact .inl ⟨hnone, rfl⟩
    · exact .inr (.inl ⟨hmany, rfl⟩)
    · exact .inr (.inr ⟨_, hone, _, _, _, rfl, hbefore, hr⟩)

theorem UserType.ofDeclaration_eq_error_iff {package : String} {t : TypeDeclaration} {e : Error} :
    UserType.ofDeclaration package t = .error e ↔ t.Misshapen e := by
  have hfield (f : FieldDeclaration) (e : Error) :
      Field.ofDeclaration t.qualifiedName f = .error e ↔
        f.Unusable (.field f.name t.qualifiedName) e := by
    rw [Field.ofDeclaration, bind_eq_error_iff, FieldDeclaration.shape_eq_error_iff]
    simp [pure, Except.pure]
  rw [UserType.ofDeclaration, bind_eq_error_iff, mapM_eq_error_iff]
  simp [exists_eq_ok_iff, hfield, TypeDeclaration.Misshapen, pure, Except.pure]

/-! ### Entering documents in a catalog -/

namespace Catalog

/-- What is wrong with the type at a position of a document. -/
def TypeDefect (c : Catalog) (d : Document) : Nat → Error → Prop :=
  Defect TypeDeclaration.Misshapen TypeDeclaration.qualifiedName .duplicateType c.types.keys d.types

/-- What is wrong with the component at a position of a document: its name can be taken. -/
def ComponentDefect (c : Catalog) (d : Document) : Nat → Error → Prop :=
  Defect (fun _ _ => False) ComponentDeclaration.qualifiedName .duplicateComponent
    c.components.keys d.components

/-- How entering a document ends, and how many of its types and of its components are entered. -/
inductive Enters (c : Catalog) (d : Document) : Except Error Unit → Nat → Nat → Prop
  | someTypes {e : Error} {n : Nat} : StopsAt (c.TypeDefect d) d.types.length (.error e) n →
    Enters c d (.error e) n 0
  | allTypes {result : Except Error Unit} {n : Nat} : (∀ k e, ¬c.TypeDefect d k e) →
    StopsAt (c.ComponentDefect d) d.components.length result n →
    Enters c d result d.types.length n

/-- Every definition stands under its qualified name, and no key is used twice. -/
structure Keyed (c : Catalog) : Prop where
  types : c.types.Keyed UserType.qualifiedName
  components : c.components.Keyed Component.qualifiedName

end Catalog

namespace Document

variable {d : Document}

theorem keyed_enterTypes {t : Table UserType} (h : t.Keyed UserType.qualifiedName) :
    (d.enterTypes t).2.Keyed UserType.qualifiedName :=
  h.enter fun _ _ hread => (UserType.ofDeclaration_eq_ok hread).1

theorem keyed_enterComponents {t : Table Component} (h : t.Keyed Component.qualifiedName) :
    (d.enterComponents t).2.Keyed Component.qualifiedName :=
  h.enter fun _ _ hread => Except.ok.inj hread ▸ rfl

theorem enterTypes_stops (d : Document) (c : Catalog) :
    ∃ n types, StopsAt (c.TypeDefect d) d.types.length (d.enterTypes c.types).1 n ∧
      (d.types.take n).mapM (UserType.ofDeclaration d.package) = .ok types ∧
      (d.enterTypes c.types).2.entries =
        c.types.entries ++ Table.entriesOf UserType.qualifiedName types :=
  Table.enter_stops (fun _ _ => UserType.ofDeclaration_eq_error_iff)
    (fun _ _ hread => (UserType.ofDeclaration_eq_ok hread).1) d.types c.types

theorem enterComponents_stops (d : Document) (c : Catalog) :
    ∃ n, StopsAt (c.ComponentDefect d) d.components.length (d.enterComponents c.components).1 n ∧
      (d.enterComponents c.components).2.entries = c.components.entries ++
        Table.entriesOf Component.qualifiedName
          ((d.components.take n).map (Component.ofDeclaration d.package)) := by
  obtain ⟨n, components, hstops, hall, hentries⟩ :
      ∃ n components,
        StopsAt (c.ComponentDefect d) d.components.length (d.enterComponents c.components).1 n ∧
        (d.components.take n).mapM (fun x => .ok (Component.ofDeclaration d.package x)) =
          (.ok components : Except Error (List Component)) ∧
        (d.enterComponents c.components).2.entries =
          c.components.entries ++ Table.entriesOf Component.qualifiedName components :=
    Table.enter_stops (by simp) (fun _ _ hread => Except.ok.inj hread ▸ rfl) d.components
      c.components
  obtain rfl := Except.ok.inj (hall.symm.trans List.mapM_pure)
  exact ⟨n, hstops, hentries⟩

end Document

namespace Catalog

/-- A document is given up within its types, or its components are entered too. -/
theorem addDocument_cases (c : Catalog) (d : Document) :
    (∃ e, (d.enterTypes c.types).1 = .error e ∧
      c.addDocument d = (.error e, { c with types := (d.enterTypes c.types).2 })) ∨
    ((d.enterTypes c.types).1 = .ok () ∧
      c.addDocument d = ((d.enterComponents c.components).1,
        ⟨(d.enterTypes c.types).2, (d.enterComponents c.components).2⟩)) := by
  rw [addDocument]
  rcases d.enterTypes c.types with ⟨e | ⟨⟩, types⟩
  · exact .inl ⟨e, rfl, rfl⟩
  · exact .inr ⟨rfl, rfl⟩

theorem Keyed.addDocument {c : Catalog} (h : c.Keyed) (d : Document) :
    (c.addDocument d).2.Keyed := by
  rcases c.addDocument_cases d with ⟨e, -, hadd⟩ | ⟨-, hadd⟩
  · rw [hadd]
    exact ⟨d.keyed_enterTypes h.types, h.components⟩
  · rw [hadd]
    exact ⟨d.keyed_enterTypes h.types, d.keyed_enterComponents h.components⟩

/-- Entering a document appends what comes before its first defect. -/
theorem enters_addDocument (c : Catalog) (d : Document) :
    ∃ n m types, c.Enters d (c.addDocument d).1 n m ∧
      (d.types.take n).mapM (UserType.ofDeclaration d.package) = .ok types ∧
      (c.addDocument d).2.types.entries =
        c.types.entries ++ Table.entriesOf UserType.qualifiedName types ∧
      (c.addDocument d).2.components.entries = c.components.entries ++
        Table.entriesOf Component.qualifiedName
          ((d.components.take m).map (Component.ofDeclaration d.package)) := by
  obtain ⟨n, types, hstops, hall, hentries⟩ := d.enterTypes_stops c
  rcases c.addDocument_cases d with ⟨e, herror, hadd⟩ | ⟨hok, hadd⟩
  · rw [herror] at hstops
    rw [hadd]
    exact ⟨n, 0, types, .someTypes hstops, hall, hentries, (List.append_nil _).symm⟩
  · obtain ⟨m, hstops', hentries'⟩ := d.enterComponents_stops c
    rw [hok] at hstops
    rw [hadd]
    cases hstops with
    | never hnone =>
        exact ⟨_, m, types, .allTypes hnone hstops', hall, hentries, hentries'⟩

theorem after_concat (before : List Document) (d : Document) :
    after (before ++ [d]) = ((after before).addDocument d).2 := by
  rw [after, List.foldl_append]
  rfl

theorem keyed_after (ds : List Document) : (after ds).Keyed := by
  induction ds using List.reverseRecOn with
  | nil => exact ⟨⟨List.nodup_nil, by simp [after]⟩, ⟨List.nodup_nil, by simp [after]⟩⟩
  | append_singleton ds d ih =>
      rw [after_concat]
      exact ih.addDocument d

end Catalog

/-! ### The registry of a catalog -/

theorem Table.Keyed.keys_eq {α : Type} {key : α → String} {t : Table α} (h : t.Keyed key) :
    t.keys = t.values.map key := by
  rw [Table.keys, Table.values, List.map_map]
  exact List.map_congr_left h.keys

theorem Table.values_insert {α : Type} {t : Table α} {key : String} (h : key ∉ t.keys) (a : α) :
    (t.insert key a).values = t.values ++ [a] := by
  rw [insert_of_fresh h, Table.values, List.map_append]
  rfl

namespace Registry

variable {package : String}

/-- Looking a name up among the keys is looking it up among the types. -/
theorem addTypes_values {t : Table UserType} (h : t.Keyed UserType.qualifiedName)
    (ds : List TypeDeclaration) (components : List Component) :
    addTypes package ds ⟨t.values, components⟩ =
      let entered := Table.enter (UserType.ofDeclaration package) TypeDeclaration.qualifiedName
        .duplicateType ds t
      (entered.1, ⟨entered.2.values, components⟩) := by
  induction ds generalizing t with
  | nil => rfl
  | cons d rest ih =>
      rw [addTypes, Table.enter]
      cases hread : UserType.ofDeclaration package d with
      | error e => rfl
      | ok type =>
          have hname : type.qualifiedName = d.qualifiedName :=
            (UserType.ofDeclaration_eq_ok hread).1
          have hhas : hasType ⟨t.values, components⟩ d.qualifiedName = t.has d.qualifiedName := by
            rw [Table.has, h.keys_eq, hasType, Bool.eq_iff_iff]
            simp
          simp only [hhas]
          by_cases hused : d.qualifiedName ∈ t.keys
          · simp [Table.has, hused]
          · have hnext := ih (h.insert (hname ▸ hused))
            rw [hname, Table.values_insert hused] at hnext
            simpa [Table.has, hused] using hnext

theorem addComponents_values {t : Table Component} (h : t.Keyed Component.qualifiedName)
    (ds : List ComponentDeclaration) (types : List UserType) :
    addComponents package ds ⟨types, t.values⟩ =
      let entered := Table.enter (fun c => .ok (Component.ofDeclaration package c))
        ComponentDeclaration.qualifiedName .duplicateComponent ds t
      (entered.1, ⟨types, entered.2.values⟩) := by
  induction ds generalizing t with
  | nil => rfl
  | cons d rest ih =>
      rw [addComponents, Table.enter]
      have hhas : hasComponent ⟨types, t.values⟩ d.qualifiedName = t.has d.qualifiedName := by
        rw [Table.has, h.keys_eq, hasComponent, Bool.eq_iff_iff]
        simp
      simp only [hhas]
      by_cases hused : d.qualifiedName ∈ t.keys
      · simp [Table.has, hused]
      · have hkeyed : (t.insert d.qualifiedName (Component.ofDeclaration package d)).Keyed
            Component.qualifiedName := h.insert (a := Component.ofDeclaration package d) hused
        have hnext := ih hkeyed
        rw [Table.values_insert hused] at hnext
        simpa [Table.has, hused] using hnext

end Registry

/-- Keys change nothing about what is registered and what is refused. -/
theorem Catalog.Keyed.addDocument_registry {c : Catalog} (h : c.Keyed) (d : Document) :
    c.registry.addDocument d = ((c.addDocument d).1, (c.addDocument d).2.registry) := by
  have htypes : Registry.addTypes d.package d.types c.registry =
      ((d.enterTypes c.types).1, ⟨(d.enterTypes c.types).2.values, c.components.values⟩) :=
    Registry.addTypes_values h.types d.types c.components.values
  rw [Registry.addDocument, htypes]
  rcases c.addDocument_cases d with ⟨e, herror, hadd⟩ | ⟨hok, hadd⟩
  · rw [herror, hadd]
    rfl
  · rw [hok, hadd]
    exact Registry.addComponents_values h.components d.components _

/-- Registered documents are the documents entered in a catalog. -/
theorem Registry.Registered.exists_after {r : Registry} (h : r.Registered) :
    ∃ ds, r = (Catalog.after ds).registry := by
  induction h with
  | empty => exact ⟨[], rfl⟩
  | add d _ ih =>
      obtain ⟨ds, rfl⟩ := ih
      refine ⟨ds ++ [d], ?_⟩
      rw [(Catalog.keyed_after ds).addDocument_registry, Catalog.after_concat]

end EntitySchema.Schema
