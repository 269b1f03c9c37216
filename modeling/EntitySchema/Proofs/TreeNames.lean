import EntitySchema.Proofs.Fields
import EntitySchema.Proofs.PathNames

/-!
# Names in trees of files

The entries of a directory have distinct names, and each name is a single part of a path that leads
somewhere. The operations on trees keep this up for whatever path they are given, because they follow
idle parts and `..` and never make entries of them.

## Implementation notes

A change is made at a place that is given by names, and all names on the way are there already. So an
operation can only add the last name, and it comes to add one only when the name was looked for in a
directory and not found.
-/

namespace EntitySchema.Text

theorem notMem_of_mem_divide {divider : Char} {cs part : List Char}
    (h : part ∈ divide divider cs) : divider ∉ part := by
  induction cs generalizing part with
  | nil =>
      rw [divide, List.mem_singleton] at h
      rw [h]
      exact List.not_mem_nil
  | cons c rest ih =>
      obtain ⟨first, parts, hrest⟩ := List.exists_cons_of_ne_nil (divide_ne_nil divider rest)
      rw [divide, hrest] at h
      rw [hrest] at ih
      split_ifs at h with hc
      · rcases List.mem_cons.mp h with rfl | h
        · exact List.not_mem_nil
        · exact ih h
      · rcases List.mem_cons.mp h with rfl | h
        · rw [List.mem_cons, not_or]
          exact ⟨Ne.symm hc, ih List.mem_cons_self⟩
        · exact ih (List.mem_cons_of_mem first h)

theorem notMem_of_mem_pathParts {path part : String} (h : part ∈ pathParts path) :
    '/' ∉ part.toList := by
  obtain ⟨cs, hcs, rfl⟩ := List.mem_map.mp h
  rw [String.toList_ofList]
  exact notMem_of_mem_divide hcs

end EntitySchema.Text

namespace EntitySchema.Files.Tree

open Text (IsEntryName)

/-- The entries of every directory have distinct names that entries can have. -/
inductive WellNamed : Tree → Prop
  | file (content : Wire.Bytes) : WellNamed (.file content)
  | directory {entries : List (String × Tree)} (distinct : (entries.map Prod.fst).Nodup)
      (named : ∀ e ∈ entries, IsEntryName e.1) (below : ∀ e ∈ entries, WellNamed e.2) :
      WellNamed (.directory entries)

variable {t u : Tree} {entries : List (String × Tree)} {names place : List String}

theorem lookup_iff_mem (distinct : (entries.map Prod.fst).Nodup) {name : String} :
    entries.lookup name = some t ↔ (name, t) ∈ entries := by
  constructor
  · intro h
    obtain ⟨before, after, rfl, -⟩ := List.lookup_eq_some_iff.mp h
    simp
  · exact Wire.Fields.lookup_of_mem distinct

/-! ### Following names -/

/-- Names lead to well-named trees, and each is the name of an entry. -/
theorem WellNamed.get (h : t.WellNamed) (hget : t.get names = .ok u) :
    u.WellNamed ∧ ∀ name ∈ names, IsEntryName name := by
  induction h generalizing names with
  | file content =>
      cases names with
      | nil =>
          cases hget
          exact ⟨.file content, List.forall_mem_nil _⟩
      | cons name rest => cases hget
  | directory distinct named below ih =>
      cases names with
      | nil =>
          cases hget
          exact ⟨.directory distinct named below, List.forall_mem_nil _⟩
      | cons name rest =>
          rw [Tree.get] at hget
          split at hget
          · rename_i found hlookup
            have hentry := (lookup_iff_mem distinct).mp hlookup
            obtain ⟨hu, hrest⟩ := ih (name, found) hentry hget
            exact ⟨hu, List.forall_mem_cons.mpr ⟨named _ hentry, hrest⟩⟩
          · cases hget

theorem WellNamed.find (h : t.WellNamed) {path : String} (hfind : t.find path = .ok u) :
    u.WellNamed := by
  obtain ⟨place, -, hget⟩ := bind_eq_ok_iff.mp hfind
  exact (h.get hget).1

/-! ### Changes -/

theorem wellNamed_empty : empty.WellNamed :=
  .directory List.nodup_nil (List.forall_mem_nil _) (List.forall_mem_nil _)

theorem mem_setEntry {name : String} {e : String × Tree} (h : e ∈ setEntry name t entries) :
    e = (name, t) ∨ e ∈ entries := by
  induction entries with
  | nil => exact .inl (List.mem_singleton.mp h)
  | cons d rest ih =>
      rw [setEntry] at h
      split_ifs at h
      · exact (List.mem_cons.mp h).imp_right (List.mem_cons_of_mem d)
      · rcases List.mem_cons.mp h with rfl | h
        · exact .inr List.mem_cons_self
        · exact (ih h).imp_right (List.mem_cons_of_mem d)

theorem nodup_setEntry (distinct : (entries.map Prod.fst).Nodup) (name : String) (t : Tree) :
    ((setEntry name t entries).map Prod.fst).Nodup := by
  induction entries with
  | nil => exact List.nodup_singleton name
  | cons d rest ih =>
      obtain ⟨hfresh, hrest⟩ := List.nodup_cons.mp distinct
      rw [setEntry]
      split_ifs with hname
      · rw [hname]
        exact distinct
      · refine List.nodup_cons.mpr ⟨?_, ih hrest⟩
        intro hmem
        obtain ⟨e, he, heq⟩ := List.mem_map.mp hmem
        rcases mem_setEntry he with rfl | he
        · exact hname heq
        · exact hfresh (List.mem_map.mpr ⟨e, he, heq⟩)

theorem WellNamed.setEntry (h : (Tree.directory entries).WellNamed) {name : String}
    (hname : IsEntryName name) (ht : t.WellNamed) :
    (Tree.directory (setEntry name t entries)).WellNamed := by
  cases h with
  | directory distinct named below =>
      refine .directory (nodup_setEntry distinct name t) ?_ ?_
      · intro e he
        rcases mem_setEntry he with rfl | he
        · exact hname
        · exact named e he
      · intro e he
        rcases mem_setEntry he with rfl | he
        · exact ht
        · exact below e he

/-- A change makes well-named trees of well-named ones and of nothing. -/
def KeepsNames (change : Option Tree → Except FileError Tree) : Prop :=
  ∀ found u, (∀ t ∈ found, t.WellNamed) → change found = .ok u → u.WellNamed

variable {change : Option Tree → Except FileError Tree}

/-- A change behind a name is made in a directory: of what the name leads to, or further on from
there. -/
theorem alter_cons_cases {name : String} {rest : List String}
    (h : t.alter change (name :: rest) = .ok u) :
    ∃ entries made, t = .directory entries ∧ u = .directory (setEntry name made entries) ∧
      ((rest = [] ∧ change (entries.lookup name) = .ok made) ∨
        ∃ s, entries.lookup name = some s ∧ s.alter change rest = .ok made) := by
  cases t with
  | file content =>
      rw [alter] at h
      cases h
  | directory entries =>
      cases rest with
      | nil =>
          rw [alter] at h
          obtain ⟨made, hmade, h⟩ := bind_eq_ok_iff.mp h
          cases h
          exact ⟨entries, made, rfl, rfl, .inl ⟨rfl, hmade⟩⟩
      | cons next rest =>
          rw [alter] at h
          · cases hlookup : entries.lookup name with
            | none =>
                rw [hlookup] at h
                cases h
            | some s =>
                rw [hlookup] at h
                obtain ⟨made, hmade, h⟩ := bind_eq_ok_iff.mp h
                cases h
                exact ⟨entries, made, rfl, rfl, .inr ⟨s, hlookup, hmade⟩⟩
          · exact List.cons_ne_nil next rest

theorem WellNamed.alter (h : t.WellNamed) (hchange : KeepsNames change)
    (hnames : ∀ name ∈ names, IsEntryName name) (halter : t.alter change names = .ok u) :
    u.WellNamed := by
  induction names generalizing t u with
  | nil =>
      rw [Tree.alter] at halter
      exact hchange (some t) u (by simpa using h) halter
  | cons name rest ih =>
      obtain ⟨hname, hrest⟩ := List.forall_mem_cons.mp hnames
      obtain ⟨entries, made, rfl, rfl, hmade⟩ := alter_cons_cases halter
      have hfound : ∀ s ∈ entries.lookup name, s.WellNamed := by
        cases h with
        | directory distinct _ below =>
            intro s hs
            exact below (name, s) ((lookup_iff_mem distinct).mp hs)
      apply h.setEntry hname
      rcases hmade with ⟨-, hmade⟩ | ⟨s, hlookup, hmade⟩
      · exact hchange _ made hfound hmade
      · exact ih (hfound s hlookup) hrest hmade

/-- What is changed behind a place stands in a directory. -/
theorem get_of_alter_append {name : String} (h : t.alter change (place ++ [name]) = .ok u) :
    ∃ entries, t.get place = .ok (.directory entries) := by
  induction place generalizing t u with
  | nil =>
      obtain ⟨entries, -, rfl, -, -⟩ := alter_cons_cases h
      exact ⟨entries, rfl⟩
  | cons first rest ih =>
      obtain ⟨entries, made, rfl, -, ⟨hrest, -⟩ | ⟨s, hlookup, hmade⟩⟩ := alter_cons_cases h
      · exact absurd hrest (List.append_ne_nil_of_right_ne_nil _ (List.cons_ne_nil _ _))
      · obtain ⟨below, hbelow⟩ := ih hmade
        refine ⟨below, ?_⟩
        rw [Tree.get, hlookup]
        exact hbelow

/-! ### Following paths -/

theorem enter_directory (hget : t.get place = .ok (.directory entries)) (part : String) :
    t.enter place part =
      if Text.isIdle part then .ok place
      else if part = ".." then .ok place.dropLast
      else if maxName < part.utf8ByteSize then .error .tooLong
      else if (entries.lookup part).isSome then .ok (place ++ [part])
      else .error .notFound := by
  rw [enter, hget]
  rfl

theorem isEntryName_of_enter {found : List String} {part : String}
    (hplace : ∀ name ∈ place, IsEntryName name) (hpart : '/' ∉ part.toList)
    (h : t.enter place part = .ok found) : ∀ name ∈ found, IsEntryName name := by
  obtain ⟨u, hget, hstep⟩ := bind_eq_ok_iff.mp h
  cases u with
  | file content => cases hstep
  | directory entries =>
      rw [enter_directory hget] at h
      split_ifs at h with hidle _ _ _
      · cases h
        exact hplace
      · cases h
        intro name hname
        exact hplace name (List.mem_of_mem_dropLast hname)
      · cases h
        rw [List.forall_mem_append, List.forall_mem_singleton]
        exact ⟨hplace, Bool.eq_false_iff.mpr hidle, hpart⟩

theorem isEntryName_of_foldlM {found parts : List String}
    (hparts : ∀ part ∈ parts, '/' ∉ part.toList) (hplace : ∀ name ∈ place, IsEntryName name)
    (h : parts.foldlM t.enter place = .ok found) : ∀ name ∈ found, IsEntryName name := by
  induction parts generalizing place with
  | nil =>
      cases h
      exact hplace
  | cons part rest ih =>
      obtain ⟨hpart, hrest⟩ := List.forall_mem_cons.mp hparts
      rw [List.foldlM_cons] at h
      obtain ⟨next, henter, h⟩ := bind_eq_ok_iff.mp h
      exact ih hrest (isEntryName_of_enter hplace hpart henter) h

/-- A name that is not found in a directory could be the name of an entry. -/
theorem isEntryName_of_notFound (hget : t.get place = .ok (.directory entries)) {part : String}
    (hpart : '/' ∉ part.toList) (h : t.enter place part = .error .notFound) : IsEntryName part := by
  have hleads : Text.isIdle part = false := by
    rw [Bool.eq_false_iff]
    intro hidle
    rw [enter_directory hget, if_pos hidle] at h
    cases h
  exact ⟨hleads, hpart⟩

theorem WellNamed.alterAt (h : t.WellNamed) (hchange : KeepsNames change) {path : String}
    (halter : t.alterAt change path = .ok u) : u.WellNamed := by
  obtain ⟨_, -, halter⟩ := bind_eq_ok_iff.mp halter
  have hparts : ∀ part ∈ (Text.pathParts path).reverse.dropWhile (· = ""), '/' ∉ part.toList := by
    intro part hpart
    have hmem := (List.dropWhile_sublist _).mem hpart
    exact Text.notMem_of_mem_pathParts (List.mem_reverse.mp hmem)
  split at halter
  · exact h.alter hchange (List.forall_mem_nil _) halter
  · rename_i last before hdrop
    rw [hdrop] at hparts
    obtain ⟨hlast, hbefore⟩ := List.forall_mem_cons.mp hparts
    obtain ⟨place, hplace, halter⟩ := bind_eq_ok_iff.mp halter
    have hnames : ∀ name ∈ place, IsEntryName name :=
      isEntryName_of_foldlM (by simpa using hbefore) (List.forall_mem_nil _) hplace
    split at halter
    · rename_i found henter
      exact h.alter hchange (isEntryName_of_enter hnames hlast henter) halter
    · rename_i hmissing
      obtain ⟨entries, hget⟩ := get_of_alter_append halter
      refine h.alter hchange ?_ halter
      rw [List.forall_mem_append, List.forall_mem_singleton]
      exact ⟨hnames, isEntryName_of_notFound hget hlast hmissing⟩
    · cases halter

/-! ### Operations -/

theorem WellNamed.makeDirectory (h : t.WellNamed) {path : String}
    (hmake : t.makeDirectory path = .ok u) : u.WellNamed := by
  refine h.alterAt ?_ hmake
  intro found u _ hchange
  cases found with
  | none =>
      cases hchange
      exact wellNamed_empty
  | some s => cases hchange

theorem WellNamed.write (h : t.WellNamed) {content : Wire.Bytes} {path : String}
    (hwrite : t.write content path = .ok u) : u.WellNamed := by
  refine h.alterAt ?_ hwrite
  intro found u _ hchange
  rcases found with _ | _ | _
  · cases hchange
    exact .file content
  · cases hchange
    exact .file content
  · cases hchange

theorem WellNamed.ensureDirectory (h : t.WellNamed) {path : String}
    (hensure : t.ensureDirectory path = .ok u) : u.WellNamed := by
  rw [Tree.ensureDirectory] at hensure
  split at hensure
  · rename_i hmake
    cases hensure
    exact h.makeDirectory hmake
  · split_ifs at hensure
    cases hensure
    exact h

theorem WellNamed.ensureDirectories (h : t.WellNamed) {paths : List String}
    (hensure : t.ensureDirectories paths = .ok u) : u.WellNamed := by
  induction paths generalizing u with
  | nil =>
      cases hensure
      exact h
  | cons path above ih =>
      rw [Tree.ensureDirectories] at hensure
      split at hensure
      · obtain ⟨s, habove, hensure⟩ := bind_eq_ok_iff.mp hensure
        exact (ih habove).ensureDirectory hensure
      · exact h.ensureDirectory hensure

theorem WellNamed.makeDirectories (h : t.WellNamed) {path : String}
    (hmake : t.makeDirectories path = .ok u) : u.WellNamed := by
  rw [Tree.makeDirectories] at hmake
  split_ifs at hmake
  · cases hmake
    exact h
  · exact h.ensureDirectories hmake

/-- Putting a file or a directory at any path keeps a tree well named. -/
theorem WellNamed.put (h : t.WellNamed) (path : String) (node : Tree) :
    (t.put path node).WellNamed := by
  have hkept (placed : Except FileError Tree) (hplaced : ∀ u, placed = .ok u → u.WellNamed) :
      (placed.toOption.getD t).WellNamed := by
    cases placed with
    | error e => exact h
    | ok u => exact hplaced u rfl
  apply hkept
  intro u hplaced
  cases node with
  | directory entries => exact h.makeDirectories hplaced
  | file content =>
      obtain ⟨made, hmake, hwrite⟩ := bind_eq_ok_iff.mp hplaced
      exact (h.makeDirectories hmake).write hwrite

end EntitySchema.Files.Tree
