import EntitySchema.Proofs.ObjectRoundTrip
import EntitySchema.Replica.Storage

/-!
# Maps and the orders in which they are visited

A map is the list of its entries in ascending order of their keys. A loop over it may visit the
entries in any order, and so may the loops over the maps within its values. Whatever the order,
inserting the entries one by one gives the map again.

## Implementation notes

`Data.sorted` is what loading makes of stored data: every map is built anew from the entries that
are listed. `Data.VisitedAs` does not mention it; the two meet in `Data.HasShape.sorted_eq`.
-/

namespace EntitySchema.Replica

open Schema
open Wire (Kind Value)

/-! ### The order of keys -/

theorem compareKeys_swap (a b : Value) : compareKeys b a = (compareKeys a b).swap := by
  cases a <;> cases b <;> exact @Std.OrientedCmp.eq_swap _ compare _ _ _

/-- Keys of one kind are ordered. -/
theorem compareKeys_trans {a b c : Value} (hkind : a.kind = b.kind) (hkind' : b.kind = c.kind)
    (hab : compareKeys a b = .lt) (hbc : compareKeys b c = .lt) : compareKeys a c = .lt := by
  cases a <;> cases b <;> cases hkind <;> cases c <;> cases hkind' <;>
    exact @Std.TransCmp.lt_trans _ compare _ _ _ _ hab hbc

theorem compareKeys_eq_iff {a b : Value} (hkind : a.kind = b.kind) (hobject : a.kind ≠ .object) :
    compareKeys a b = .eq ↔ a = b := by
  cases a <;> cases b <;> cases hkind
  case object.object.refl => exact absurd rfl hobject
  case entityId.entityId.refl a b =>
    obtain ⟨a⟩ := a
    obtain ⟨b⟩ := b
    simp [compareKeys]
  all_goals simp [compareKeys, Int32.toInt_inj, Int64.toInt_inj]

/-! ### Inserting entries -/

namespace Entries

/-- The keys of the entries ascend. -/
def Ascending (entries : Entries) : Prop :=
  entries.Pairwise fun a b => compareKeys a.1 b.1 = .lt

variable {key : Value} {d : Data} {entries : Entries} {kind : Kind}

/-- A key that is not there yet adds its entry and keeps the others. -/
theorem perm_insert (hfresh : ∀ e ∈ entries, compareKeys key e.1 ≠ .eq) :
    (entries.insert key d).Perm ((key, d) :: entries) := by
  induction entries with
  | nil => exact .refl _
  | cons e rest ih =>
      obtain ⟨k, c⟩ := e
      rw [insert]
      cases hcompare : compareKeys key k with
      | lt => exact .refl _
      | eq => exact absurd hcompare (hfresh (k, c) List.mem_cons_self)
      | gt =>
          have hrest := ih fun e he => hfresh e (List.mem_cons_of_mem _ he)
          exact (hrest.cons (k, c)).trans (.swap (key, d) (k, c) rest)

/-- A key that is not there yet gets its place in the order. -/
theorem Ascending.insert (h : entries.Ascending) (hkinds : ∀ e ∈ entries, e.1.kind = kind)
    (hkey : key.kind = kind) (hfresh : ∀ e ∈ entries, compareKeys key e.1 ≠ .eq) :
    (entries.insert key d).Ascending := by
  induction entries with
  | nil => exact List.pairwise_singleton _ _
  | cons e rest ih =>
      obtain ⟨k, c⟩ := e
      obtain ⟨habove, hrest⟩ := List.pairwise_cons.mp h
      obtain ⟨hk, hkinds⟩ := List.forall_mem_cons.mp hkinds
      obtain ⟨hne, hfresh⟩ := List.forall_mem_cons.mp hfresh
      rw [Entries.insert]
      cases hcompare : compareKeys key k with
      | lt =>
          refine List.pairwise_cons.mpr ⟨fun x hx => ?_, h⟩
          rcases List.mem_cons.mp hx with rfl | hx
          · exact hcompare
          · exact compareKeys_trans (hkey.trans hk.symm) (hk.trans (hkinds x hx).symm) hcompare
              (habove x hx)
      | eq => exact absurd hcompare hne
      | gt =>
          refine List.pairwise_cons.mpr ⟨fun x hx => ?_, ih hrest hkinds hfresh⟩
          rcases List.mem_cons.mp ((perm_insert hfresh).mem_iff.mp hx) with rfl | hx
          · rw [compareKeys_swap, hcompare]
            rfl
          · exact habove x hx

/-- Puts a value in the place of the one under a key. -/
def replace (key : Value) (d : Data) (entries : Entries) : Entries :=
  entries.map fun e => if compareKeys key e.1 = .eq then (key, d) else e

/-- A key that is there gets the new value in the place of the old one. -/
theorem insert_of_mem (h : entries.Ascending) (hkinds : ∀ e ∈ entries, e.1.kind = key.kind)
    (hobject : key.kind ≠ .object) (hmem : key ∈ entries.map Prod.fst) :
    entries.insert key d = entries.replace key d := by
  induction entries with
  | nil => cases hmem
  | cons e rest ih =>
      obtain ⟨k, c⟩ := e
      obtain ⟨habove, hrest⟩ := List.pairwise_cons.mp h
      obtain ⟨hk, hkinds⟩ := List.forall_mem_cons.mp hkinds
      rw [replace, List.map_cons, insert]
      by_cases heq : key = k
      · subst heq
        have hsame : compareKeys key key = .eq := (compareKeys_eq_iff rfl hobject).mpr rfl
        have hothers : ∀ x ∈ rest, ¬ compareKeys key x.1 = .eq := fun x hx => by
          rw [habove x hx]
          exact nofun
        rw [hsame, if_pos rfl, List.map_congr_left fun x hx => if_neg (hothers x hx), List.map_id']
      · have hmem : key ∈ rest.map Prod.fst := by simpa [heq] using hmem
        obtain ⟨x, hx, rfl⟩ := List.mem_map.mp hmem
        have hgt : compareKeys x.1 k = .gt := by
          rw [compareKeys_swap, habove x hx]
          rfl
        rw [hgt, if_neg nofun, ih hrest hkinds hmem]
        rfl

theorem Ascending.replace (h : entries.Ascending) (hkinds : ∀ e ∈ entries, e.1.kind = key.kind)
    (hobject : key.kind ≠ .object) : (entries.replace key d).Ascending := by
  have hsame : ∀ e ∈ entries, (if compareKeys key e.1 = .eq then (key, d) else e).1 = e.1 := by
    intro e he
    split_ifs with heq
    · exact (compareKeys_eq_iff (hkinds e he).symm hobject).mp heq
    · rfl
  refine List.pairwise_map.mpr (h.imp_of_mem fun ha hb hlt => ?_)
  rw [hsame _ ha, hsame _ hb]
  exact hlt

/-- Entries with different keys are put in order, and none is lost. -/
theorem ofList_sorts {order : List (Value × Data)} (hkinds : ∀ e ∈ order, e.1.kind = kind)
    (distinct : order.Pairwise fun a b => compareKeys a.1 b.1 ≠ .eq) :
    (ofList order).Ascending ∧ (ofList order).Perm order := by
  induction order using List.reverseRecOn with
  | nil => exact ⟨List.Pairwise.nil, .refl _⟩
  | append_singleton order e ih =>
      obtain ⟨hdistinct, -, hlast⟩ := List.pairwise_append.mp distinct
      obtain ⟨hascending, hperm⟩ :=
        ih (fun x hx => hkinds x (List.mem_append_left _ hx)) hdistinct
      have hinsert : ofList (order ++ [e]) = (ofList order).insert e.1 e.2 := by
        rw [ofList, List.foldl_append]
        rfl
      have hfresh : ∀ x ∈ ofList order, compareKeys e.1 x.1 ≠ .eq := by
        intro x hx
        have hne := hlast x (hperm.mem_iff.mp hx) e List.mem_cons_self
        rw [compareKeys_swap]
        cases hcompare : compareKeys x.1 e.1 with
        | lt => exact nofun
        | eq => exact absurd hcompare hne
        | gt => exact nofun
      rw [hinsert]
      constructor
      · have hsame : ∀ x ∈ ofList order, x.1.kind = kind := fun x hx =>
          hkinds x (List.mem_append_left _ (hperm.mem_iff.mp hx))
        exact hascending.insert hsame (hkinds e (List.mem_append_right _ List.mem_cons_self)) hfresh
      · calc List.Perm ((ofList order).insert e.1 e.2) (e :: ofList order) := perm_insert hfresh
          List.Perm _ (e :: order) := hperm.cons e
          List.Perm _ (order ++ [e]) := (List.perm_append_singleton e order).symm

/-- Entries are the map of themselves, in whatever order they are visited. -/
theorem ofList_of_perm {order : List (Value × Data)} (h : entries.Ascending)
    (hkinds : ∀ e ∈ entries, e.1.kind = kind) (hperm : order.Perm entries) :
    ofList order = entries := by
  have hdistinct : entries.Pairwise fun a b => compareKeys a.1 b.1 ≠ .eq :=
    h.imp fun hlt => by rw [hlt]; exact nofun
  have hsymm {a b : Value × Data} (hne : compareKeys a.1 b.1 ≠ .eq) :
      compareKeys b.1 a.1 ≠ .eq := by
    intro heq
    rw [compareKeys_swap, heq] at hne
    exact hne rfl
  obtain ⟨hascending, hsorted⟩ := ofList_sorts (fun e he => hkinds e (hperm.mem_iff.mp he))
    ((hperm.pairwise_iff hsymm).mpr hdistinct)
  refine List.Perm.eq_of_pairwise (fun a b _ _ hab hba => ?_) hascending h (hsorted.trans hperm)
  rw [compareKeys_swap, hab] at hba
  cases hba

end Entries

/-! ### Data in some order -/

mutual

/-- The value with the entries of every map in ascending order. -/
def Data.sorted : Data → Data
  | .scalar v => .scalar v
  | .record members => .record (sortedAll members)
  | .absent => .absent
  | .present content => .present content.sorted
  | .list items => .list (sortedAll items)
  | .map entries => .map (Entries.ofList (sortedEntries entries))

/-- The values with their maps in order. -/
def Data.sortedAll : List Data → List Data
  | [] => []
  | d :: ds => d.sorted :: sortedAll ds

/-- The entries with the maps of their values in order. -/
def Data.sortedEntries : List (Value × Data) → List (Value × Data)
  | [] => []
  | (key, d) :: es => (key, d.sorted) :: sortedEntries es

end

namespace Data

theorem sortedAll_eq_map (ds : List Data) : sortedAll ds = ds.map sorted := by
  induction ds with
  | nil => rw [sortedAll, List.map_nil]
  | cons d rest ih => rw [sortedAll, ih, List.map_cons]

theorem sortedEntries_eq_map (es : List (Value × Data)) :
    sortedEntries es = es.map fun e => (e.1, e.2.sorted) := by
  induction es with
  | nil => rw [sortedEntries, List.map_nil]
  | cons e rest ih =>
      obtain ⟨key, d⟩ := e
      rw [sortedEntries, ih, List.map_cons]

theorem sorted_record (members : List Data) :
    (Data.record members).sorted = .record (members.map sorted) := by
  rw [sorted, sortedAll_eq_map]

theorem sorted_list (items : List Data) : (Data.list items).sorted = .list (items.map sorted) := by
  rw [sorted, sortedAll_eq_map]

theorem sorted_map (entries : Entries) :
    (Data.map entries).sorted = .map (Entries.ofList (entries.map fun e => (e.1, e.2.sorted))) := by
  rw [sorted, sortedEntries_eq_map]

/-- The second value is the first one with the entries of every map, at any depth, in an order in
which they may be visited. -/
inductive VisitedAs : Data → Data → Prop
  | scalar (v : Value) : VisitedAs (.scalar v) (.scalar v)
  | record {members : List (Data × Data)} : (∀ p ∈ members, VisitedAs p.1 p.2) →
    VisitedAs (.record (members.map Prod.fst)) (.record (members.map Prod.snd))
  | absent : VisitedAs .absent .absent
  | present {d visited : Data} : VisitedAs d visited → VisitedAs (.present d) (.present visited)
  | list {items : List (Data × Data)} : (∀ p ∈ items, VisitedAs p.1 p.2) →
    VisitedAs (.list (items.map Prod.fst)) (.list (items.map Prod.snd))
  | map {entries : Entries} {order : List (Value × Data × Data)} :
    (order.map fun e => (e.1, e.2.1)).Perm entries → (∀ e ∈ order, VisitedAs e.2.1 e.2.2) →
    VisitedAs (.map entries) (.map (order.map fun e => (e.1, e.2.2)))

theorem VisitedAs.list_of_forall₂ {items visited : List Data}
    (h : List.Forall₂ VisitedAs items visited) : VisitedAs (.list items) (.list visited) := by
  obtain ⟨hlength, hzip⟩ := List.forall₂_iff_zip.mp h
  have hitems : ∀ p ∈ items.zip visited, VisitedAs p.1 p.2 := fun p hp => hzip hp
  have hlist := VisitedAs.list hitems
  rwa [List.map_fst_zip hlength.le, List.map_snd_zip hlength.ge] at hlist

mutual

/-- The order in which the entries are listed is one in which they may be visited. -/
theorem visitedAs_self : (d : Data) → d.VisitedAs d
  | .scalar v => .scalar v
  | .record members => by
      have hself : ∀ p ∈ members.map fun d => (d, d), VisitedAs p.1 p.2 :=
        List.forall_mem_map.mpr (visitedAs_self_all members)
      simpa [Function.comp_def] using VisitedAs.record hself
  | .absent => .absent
  | .present content => .present (visitedAs_self content)
  | .list items => by
      have hself : ∀ p ∈ items.map fun d => (d, d), VisitedAs p.1 p.2 :=
        List.forall_mem_map.mpr (visitedAs_self_all items)
      simpa [Function.comp_def] using VisitedAs.list hself
  | .map entries => by
      have hself : ∀ e ∈ entries.map fun e => (e.1, e.2, e.2), VisitedAs e.2.1 e.2.2 :=
        List.forall_mem_map.mpr (visitedAs_self_entries entries)
      have horder : ((entries.map fun e => (e.1, e.2, e.2)).map fun e => (e.1, e.2.1)).Perm
          entries := by
        simp [Function.comp_def]
      simpa [Function.comp_def] using VisitedAs.map horder hself

theorem visitedAs_self_all : (ds : List Data) → ∀ d ∈ ds, d.VisitedAs d
  | [] => by simp
  | d :: ds => List.forall_mem_cons.mpr ⟨visitedAs_self d, visitedAs_self_all ds⟩

theorem visitedAs_self_entries : (es : List (Value × Data)) → ∀ e ∈ es, e.2.VisitedAs e.2
  | [] => by simp
  | (_, d) :: es => List.forall_mem_cons.mpr ⟨visitedAs_self d, visitedAs_self_entries es⟩

end

/-- The values of a shape, with all counts and lengths within 32-bit words. -/
inductive HasShape (s : Linked) : Shape → Data → Prop
  | scalar {k : Scalar} {v : Value} : v.kind = k.kind → v.Fits → HasShape s (.scalar k) (.scalar v)
  | record {type : String} {members : List Data} : members.length = (s.fieldsOf type).length →
    (∀ p ∈ (s.fieldsOf type).zip members, HasShape s p.1.shape p.2) →
    HasShape s (.reference type) (.record members)
  | absent {inner : Shape} : HasShape s (.option inner) .absent
  | present {inner : Shape} {d : Data} :
    HasShape s inner d → HasShape s (.option inner) (.present d)
  | list {inner : Shape} {items : List Data} : items.length < UInt32.size →
    (∀ d ∈ items, HasShape s inner d) → HasShape s (.list inner) (.list items)
  | map {k : Scalar} {inner : Shape} {entries : Entries} : entries.length < UInt32.size →
    entries.Ascending → (∀ e ∈ entries, e.1.kind = k.kind ∧ e.1.Fits) →
    (∀ e ∈ entries, HasShape s inner e.2) → HasShape s (.map (.scalar k) inner) (.map entries)

theorem exists_mem_zip {α β : Type} {as : List α} {bs : List β} (h : bs.length = as.length) {b : β}
    (hb : b ∈ bs) : ∃ a, (a, b) ∈ as.zip bs := by
  have hsnd : (as.zip bs).map Prod.snd = bs := List.map_snd_zip h.le
  rw [← hsnd] at hb
  obtain ⟨⟨a, _⟩, hp, rfl⟩ := List.mem_map.mp hb
  exact ⟨a, hp⟩

/-- Whatever the order in which its maps are visited, a value is found again. -/
theorem HasShape.sorted_eq {s : Linked} {shape : Shape} {d visited : Data} (h : d.HasShape s shape)
    (hvisited : d.VisitedAs visited) : visited.sorted = d := by
  induction h generalizing visited with
  | scalar _ _ =>
      cases hvisited with
      | scalar v => rw [sorted]
  | @record type members hlength _ ih =>
      cases hvisited with
      | @record members hmembers =>
          rw [sorted_record, List.map_map]
          refine congrArg Data.record (List.map_congr_left fun p hp => ?_)
          obtain ⟨f, hf⟩ := exists_mem_zip hlength (List.mem_map_of_mem (f := Prod.fst) hp)
          exact ih (f, p.1) hf (hmembers p hp)
  | absent =>
      cases hvisited with
      | absent => rw [sorted]
  | present _ ih =>
      cases hvisited with
      | present hcontent => rw [sorted, ih hcontent]
  | list _ _ ih =>
      cases hvisited with
      | @list items hitems =>
          rw [sorted_list, List.map_map]
          refine congrArg Data.list (List.map_congr_left fun p hp => ?_)
          exact ih p.1 (List.mem_map_of_mem hp) (hitems p hp)
  | @map k inner entries _ ascending hkeys _ ih =>
      cases hvisited with
      | @map _ order hperm horder =>
          have hentries : order.map (fun e => (e.1, e.2.2.sorted)) =
              order.map fun e => (e.1, e.2.1) := by
            refine List.map_congr_left fun e he => ?_
            have hmem : (e.1, e.2.1) ∈ entries :=
              hperm.mem_iff.mp (List.mem_map_of_mem (f := fun e => (e.1, e.2.1)) he)
            rw [ih (e.1, e.2.1) hmem (horder e he)]
          rw [sorted_map, List.map_map]
          refine congrArg Data.map ?_
          calc Entries.ofList (order.map fun e => (e.1, e.2.2.sorted))
              = Entries.ofList (order.map fun e => (e.1, e.2.1)) := by rw [hentries]
            _ = entries := Entries.ofList_of_perm ascending (fun e he => (hkeys e he).1) hperm

end Data

end EntitySchema.Replica
