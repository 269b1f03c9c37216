import EntitySchema.Proofs.TreeNames

/-!
# Trees of files in order

The entries of a directory are listed in no particular order. A tree is arranged when the entries of
every directory ascend by the bytes of their names, and every tree can be arranged without a change to
what the names lead to. Walking through an arranged tree, each directory before its entries, meets
everything in the order of the names on the way, compared name by name.

## Implementation notes

The arranged tree stands for all trees that list the same entries in another order: `Relisted` trees
have the same arranged tree. What is found in a tree is therefore compared with what is found in the
arranged one only.
-/

namespace EntitySchema.Files.Tree

/-- The same tree up to the order in which directories list their entries. -/
inductive Relisted : Tree → Tree → Prop
  | refl (t : Tree) : Relisted t t
  | reorder {entries others : List (String × Tree)} (h : entries.Perm others) :
      Relisted (.directory entries) (.directory others)
  | within {before after : List (String × Tree)} {name : String} {t u : Tree}
      (h : Relisted t u) :
      Relisted (.directory (before ++ (name, t) :: after))
        (.directory (before ++ (name, u) :: after))
  | trans {t u v : Tree} (h : Relisted t u) (h' : Relisted u v) : Relisted t v

/-- Whether the name of an entry does not come after that of another, by their bytes. -/
def nameLE (a b : String × Tree) : Bool := decide (Wire.utf8 a.1 ≤ Wire.utf8 b.1)

mutual

/-- The tree with the entries of every directory ascending by the bytes of their names. -/
def arranged : Tree → Tree
  | .file content => .file content
  | .directory entries => .directory ((arrangedIn entries).mergeSort nameLE)

/-- The entries with what they lead to arranged. -/
def arrangedIn : List (String × Tree) → List (String × Tree)
  | [] => []
  | (name, t) :: rest => (name, t.arranged) :: arrangedIn rest

end

mutual

/-- Everything in a tree with the names on the way, a directory before its entries and these in the
order they are listed. -/
def walk : Tree → List (List String × Tree)
  | .file content => [([], .file content)]
  | .directory entries => ([], .directory entries) :: walkIn entries

/-- Everything in the entries of a directory. -/
def walkIn : List (String × Tree) → List (List String × Tree)
  | [] => []
  | (name, t) :: rest => (t.walk.map fun v => (name :: v.1, v.2)) ++ walkIn rest

end

/-- Whether a tree is a file. -/
def isFile : Tree → Bool
  | .file _ => true
  | .directory _ => false

theorem filesIn_eq_flatMap (entries : List (String × Tree)) :
    filesIn entries = entries.flatMap fun e => e.2.files.map (e.1 :: ·) := by
  induction entries with
  | nil => rfl
  | cons e rest ih => rw [filesIn, ih, List.flatMap_cons]

theorem arrangedIn_eq_map (entries : List (String × Tree)) :
    arrangedIn entries = entries.map fun e => (e.1, e.2.arranged) := by
  induction entries with
  | nil => rfl
  | cons e rest ih => rw [arrangedIn, ih, List.map_cons]

theorem walkIn_eq_flatMap (entries : List (String × Tree)) :
    walkIn entries = entries.flatMap fun e => e.2.walk.map fun v => (e.1 :: v.1, v.2) := by
  induction entries with
  | nil => rfl
  | cons e rest ih => rw [walkIn, ih, List.flatMap_cons]

/-! ### Entries under distinct names -/

theorem lookup_perm {entries others : List (String × Tree)} (h : entries.Perm others)
    (distinct : (entries.map Prod.fst).Nodup) (name : String) :
    entries.lookup name = others.lookup name := by
  have hothers : (others.map Prod.fst).Nodup := (h.map Prod.fst).nodup_iff.mp distinct
  ext t
  rw [lookup_iff_mem distinct, lookup_iff_mem hothers]
  exact h.mem_iff

theorem lookup_arrangedIn (entries : List (String × Tree)) (name : String) :
    (arrangedIn entries).lookup name = (entries.lookup name).map arranged := by
  induction entries with
  | nil => rfl
  | cons e rest ih =>
      rw [arrangedIn, Wire.Fields.lookup_cons_eq_ite, Wire.Fields.lookup_cons_eq_ite, ih]
      split_ifs <;> rfl

theorem names_arrangedIn (entries : List (String × Tree)) :
    (arrangedIn entries).map Prod.fst = entries.map Prod.fst := by
  rw [arrangedIn_eq_map, List.map_map]
  rfl

/-- Entries in order have strictly ascending names if the names are distinct. -/
theorem ascending_mergeSort {entries : List (String × Tree)}
    (distinct : (entries.map Prod.fst).Nodup) :
    (entries.mergeSort nameLE).Pairwise fun a b => a.1 < b.1 := by
  have hsorted : (entries.mergeSort nameLE).Pairwise fun a b => nameLE a b = true := by
    apply List.pairwise_mergeSort
    · intro a b c hab hbc
      simp only [nameLE, decide_eq_true_eq, Wire.utf8_le_iff] at *
      exact hab.trans hbc
    · intro a b
      simp only [nameLE, Bool.or_eq_true, decide_eq_true_eq, Wire.utf8_le_iff]
      exact le_total a.1 b.1
  have hdistinct : (entries.mergeSort nameLE).Pairwise fun a b => a.1 ≠ b.1 := by
    rw [← List.pairwise_map]
    exact ((List.mergeSort_perm entries nameLE).map Prod.fst).nodup_iff.mpr distinct
  apply (hsorted.and hdistinct).imp
  intro a b h
  simp only [nameLE, decide_eq_true_eq, Wire.utf8_le_iff] at h
  exact lt_of_le_of_ne h.1 h.2

theorem mergeSort_eq_of_perm {entries others : List (String × Tree)} (h : entries.Perm others)
    (distinct : (entries.map Prod.fst).Nodup) :
    entries.mergeSort nameLE = others.mergeSort nameLE := by
  have hothers : (others.map Prod.fst).Nodup := (h.map Prod.fst).nodup_iff.mp distinct
  apply List.Perm.eq_of_pairwise (fun a b _ _ hab hba => absurd hab (lt_asymm hba))
    (ascending_mergeSort distinct) (ascending_mergeSort hothers)
  exact (List.mergeSort_perm _ _).trans (h.trans (List.mergeSort_perm _ _).symm)

/-! ### Arranging -/

theorem WellNamed.arranged {t : Tree} (h : t.WellNamed) : t.arranged.WellNamed := by
  induction h with
  | file content => exact .file content
  | @directory entries distinct named below ih =>
      have hperm := List.mergeSort_perm (arrangedIn entries) nameLE
      rw [Tree.arranged]
      refine .directory ?_ ?_ ?_
      · rw [(hperm.map Prod.fst).nodup_iff, names_arrangedIn]
        exact distinct
      · intro e he
        rw [hperm.mem_iff, arrangedIn_eq_map] at he
        obtain ⟨d, hd, rfl⟩ := List.mem_map.mp he
        exact named d hd
      · intro e he
        rw [hperm.mem_iff, arrangedIn_eq_map] at he
        obtain ⟨d, hd, rfl⟩ := List.mem_map.mp he
        exact ih d hd

theorem lookup_arranged {entries : List (String × Tree)}
    (distinct : (entries.map Prod.fst).Nodup) (name : String) :
    ((arrangedIn entries).mergeSort nameLE).lookup name = (entries.lookup name).map arranged := by
  have hperm := List.mergeSort_perm (arrangedIn entries) nameLE
  rw [← lookup_arrangedIn]
  apply lookup_perm hperm
  rw [(hperm.map Prod.fst).nodup_iff, names_arrangedIn]
  exact distinct

/-- Names lead to the same in an arranged tree, itself arranged. -/
theorem get_arranged {t : Tree} (h : t.WellNamed) (names : List String) :
    t.arranged.get names = (t.get names).map arranged := by
  induction h generalizing names with
  | file content =>
      rw [arranged]
      cases names with
      | nil => rw [Tree.get, Except.map, arranged]
      | cons name rest => rfl
  | @directory entries distinct named below ih =>
      cases names with
      | nil => rfl
      | cons name rest =>
          rw [arranged, Tree.get, Tree.get, lookup_arranged distinct]
          cases hlookup : entries.lookup name with
          | none => rfl
          | some t => exact ih (name, t) ((lookup_iff_mem distinct).mp hlookup) rest

theorem enter_arranged {t : Tree} (h : t.WellNamed) (place : List String) (part : String) :
    t.arranged.enter place part = t.enter place part := by
  rw [enter, enter, get_arranged h]
  cases hget : t.get place with
  | error e => rfl
  | ok u =>
      cases u with
      | file content => rfl
      | directory entries =>
          cases (h.get hget).1 with
          | directory distinct _ _ =>
              have hfound := lookup_arranged distinct part
              simp only [Except.map, arranged, bind, Except.bind, hfound, Option.isSome_map]

theorem locate_arranged {t : Tree} (h : t.WellNamed) (path : String) :
    t.arranged.locate path = t.locate path := by
  have henter : t.arranged.enter = t.enter := by
    funext place part
    exact enter_arranged h place part
  rw [locate, locate, henter]

theorem find_arranged {t : Tree} (h : t.WellNamed) (path : String) :
    t.arranged.find path = (t.find path).map arranged := by
  rw [find, find, locate_arranged h]
  cases t.locate path with
  | error e => rfl
  | ok place => exact get_arranged h place

/-- Trees that list the same entries in another order are arranged to the same tree. -/
theorem Relisted.arranged_eq {t u : Tree} (h : Relisted t u) (ht : t.WellNamed) :
    u.WellNamed ∧ t.arranged = u.arranged := by
  induction h with
  | refl t => exact ⟨ht, rfl⟩
  | @reorder entries others hperm =>
      cases ht with
      | directory distinct named below =>
          refine ⟨.directory ((hperm.map Prod.fst).nodup_iff.mp distinct)
            (fun e he => named e (hperm.mem_iff.mpr he))
            (fun e he => below e (hperm.mem_iff.mpr he)), ?_⟩
          have hsorted : (arrangedIn entries).mergeSort nameLE =
              (arrangedIn others).mergeSort nameLE := by
            apply mergeSort_eq_of_perm
            · rw [arrangedIn_eq_map, arrangedIn_eq_map]
              exact hperm.map _
            · rw [names_arrangedIn]
              exact distinct
          rw [Tree.arranged, Tree.arranged, hsorted]
  | @within before after name t u _ ih =>
      cases ht with
      | directory distinct named below =>
          obtain ⟨hu, harranged⟩ := ih (below (name, t) (by simp))
          constructor
          · refine .directory (by simpa using distinct) ?_ ?_
            · simp only [List.forall_mem_append, List.forall_mem_cons] at named ⊢
              exact named
            · simp only [List.forall_mem_append, List.forall_mem_cons] at below ⊢
              exact ⟨below.1, hu, below.2.2⟩
          · rw [Tree.arranged, Tree.arranged, arrangedIn_eq_map, arrangedIn_eq_map,
              List.map_append, List.map_append, List.map_cons, List.map_cons, harranged]
  | trans _ _ ih ih' =>
      obtain ⟨hu, hleft⟩ := ih ht
      obtain ⟨hv, hright⟩ := ih' hu
      exact ⟨hv, hleft.trans hright⟩

/-! ### Walking -/

/-- A walk meets what names lead to, and nothing else. -/
theorem mem_walk {t : Tree} (h : t.WellNamed) {names : List String} {u : Tree} :
    (names, u) ∈ t.walk ↔ t.get names = .ok u := by
  induction h generalizing names with
  | file content =>
      rw [walk, List.mem_singleton, Prod.mk.injEq]
      cases names with
      | nil => simp [Tree.get, eq_comm]
      | cons name rest => simp [Tree.get]
  | @directory entries distinct named below ih =>
      rw [walk, List.mem_cons, walkIn_eq_flatMap, List.mem_flatMap]
      cases names with
      | nil => simp [Tree.get, eq_comm]
      | cons name rest =>
          rw [Tree.get]
          constructor
          · rintro (hroot | ⟨e, he, hnamed⟩)
            · cases hroot
            · obtain ⟨v, hv, heq⟩ := List.mem_map.mp hnamed
              obtain ⟨hnames, rfl⟩ := Prod.mk.inj heq
              obtain ⟨rfl, rfl⟩ := List.cons.inj hnames
              rw [(lookup_iff_mem distinct).mpr he]
              exact (ih e he).mp hv
          · intro hget
            split at hget
            · rename_i t hlookup
              have he := (lookup_iff_mem distinct).mp hlookup
              exact .inr ⟨(name, t), he, List.mem_map.mpr ⟨(rest, u), (ih _ he).mpr hget, rfl⟩⟩
            · cases hget

/-- A walk through an arranged tree ascends, name by name. -/
theorem walk_arranged_ascending {t : Tree} (h : t.WellNamed) :
    (t.arranged.walk.map Prod.fst).Pairwise (· < ·) := by
  induction h with
  | file content => simp [arranged, walk]
  | @directory entries distinct named below ih =>
      have hnames : ((arrangedIn entries).map Prod.fst).Nodup := by
        rw [names_arrangedIn]
        exact distinct
      rw [arranged, walk, List.map_cons, List.pairwise_cons, walkIn_eq_flatMap, List.map_flatMap]
      constructor
      · intro names hmem
        obtain ⟨e, he, hmem⟩ := List.mem_flatMap.mp hmem
        simp only [List.map_map, List.mem_map, Function.comp_apply] at hmem
        obtain ⟨v, -, rfl⟩ := hmem
        exact List.nil_lt_cons _ _
      · rw [List.pairwise_flatMap]
        constructor
        · -- below one entry, the names behind its own decide
          intro e he
          rw [List.mem_mergeSort, arrangedIn_eq_map] at he
          obtain ⟨d, hd, rfl⟩ := List.mem_map.mp he
          have hbelow := ih d hd
          rw [List.pairwise_map] at hbelow
          rw [List.map_map, List.pairwise_map]
          apply hbelow.imp
          intro v w hlt
          exact List.cons_lt_cons_self.mpr hlt
        · -- between entries, their own names decide
          apply (ascending_mergeSort hnames).imp
          intro a b hlt x hx y hy
          simp only [List.map_map, List.mem_map, Function.comp_apply] at hx hy
          obtain ⟨v, -, rfl⟩ := hx
          obtain ⟨w, -, rfl⟩ := hy
          exact List.cons_lt_cons_iff.mpr (.inl hlt)

/-! ### Files -/

/-- The files in a tree are those that a walk meets. -/
theorem files_eq_walk {t : Tree} (h : t.WellNamed) :
    t.files = (t.walk.filter fun v => v.2.isFile).map Prod.fst := by
  induction h with
  | file content => simp [files, walk, isFile]
  | @directory entries distinct named below ih =>
      have hblock : ∀ e ∈ entries, e.2.files.map (e.1 :: ·) =
          ((e.2.walk.map fun v => (e.1 :: v.1, v.2)).filter fun v => v.2.isFile).map Prod.fst := by
        intro e he
        rw [ih e he, List.filter_map, List.map_map, List.map_map]
        rfl
      rw [files, walk, List.filter_cons_of_neg (by simp [isFile]), filesIn_eq_flatMap,
        walkIn_eq_flatMap, List.filter_flatMap, List.map_flatMap]
      exact List.flatMap_congr hblock

theorem files_arranged_perm {t : Tree} (h : t.WellNamed) : t.arranged.files.Perm t.files := by
  induction h with
  | file content => exact .refl _
  | @directory entries distinct named below ih =>
      rw [arranged, files, files, filesIn_eq_flatMap, filesIn_eq_flatMap]
      refine (List.Perm.flatMap_right _ (List.mergeSort_perm _ nameLE)).trans ?_
      rw [arrangedIn_eq_map, List.flatMap_map]
      apply List.Perm.flatMap_left
      intro e he
      exact (ih e he).map _

theorem mem_files {t : Tree} (h : t.WellNamed) {names : List String} :
    names ∈ t.files ↔ ∃ content, t.get names = .ok (.file content) := by
  rw [files_eq_walk h, List.mem_map]
  constructor
  · rintro ⟨⟨names, u⟩, hv, rfl⟩
    obtain ⟨hv, hfile⟩ := List.mem_filter.mp hv
    cases u with
    | file content => exact ⟨content, (mem_walk h).mp hv⟩
    | directory entries => cases hfile
  · rintro ⟨content, hget⟩
    exact ⟨(names, .file content), List.mem_filter.mpr ⟨(mem_walk h).mpr hget, rfl⟩, rfl⟩

end EntitySchema.Files.Tree
