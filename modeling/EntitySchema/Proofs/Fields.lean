import EntitySchema.Wire.Fields
import Mathlib

/-!
# Laws of values under numbered fields

A collection is ascending when its numbers ascend strictly and every number has a value. Storing and
erasing keep it so, and in an ascending collection storing under one number appends there and leaves
every other number as it was.
-/

namespace EntitySchema.Wire.Fields

variable {α : Type}

/-- The numbers ascend strictly and every number has a value. -/
structure Ascending (o : Fields α) : Prop where
  /-- Each number is below all later ones. -/
  sorted : o.entries.Pairwise fun a b => a.1 < b.1
  /-- No number stands without values. -/
  nonempty : ∀ e ∈ o.entries, e.2 ≠ []

theorem ascending_empty : (empty : Fields α).Ascending :=
  ⟨List.Pairwise.nil, by simp [empty]⟩

/-- An entry after appending is an old one, the new one, or an old one that grew. -/
theorem mem_appendEntry {f : FieldId} {as : List α} {es : List (FieldId × List α)}
    {e : FieldId × List α} (h : e ∈ appendEntry f as es) :
    e ∈ es ∨ e = (f, as) ∨ ∃ bs, (f, bs) ∈ es ∧ e = (f, bs ++ as) := by
  induction es with
  | nil => simpa [appendEntry] using h
  | cons x rest ih =>
      obtain ⟨g, bs⟩ := x
      simp only [appendEntry] at h
      split_ifs at h with hlt heq
      · simp only [List.mem_cons] at h ⊢
        tauto
      · subst heq
        rcases List.mem_cons.mp h with rfl | hr
        · exact Or.inr (Or.inr ⟨bs, List.mem_cons_self, rfl⟩)
        · exact Or.inl (List.mem_cons_of_mem _ hr)
      · rcases List.mem_cons.mp h with rfl | hr
        · exact Or.inl List.mem_cons_self
        · rcases ih hr with he | he | ⟨cs, hc, he⟩
          · exact Or.inl (List.mem_cons_of_mem _ he)
          · exact Or.inr (Or.inl he)
          · exact Or.inr (Or.inr ⟨cs, List.mem_cons_of_mem _ hc, he⟩)

theorem sorted_appendEntry (f : FieldId) (as : List α) {es : List (FieldId × List α)}
    (h : es.Pairwise fun a b => a.1 < b.1) :
    (appendEntry f as es).Pairwise fun a b => a.1 < b.1 := by
  induction es with
  | nil => simp [appendEntry]
  | cons x rest ih =>
      obtain ⟨g, bs⟩ := x
      have hg := (List.pairwise_cons.mp h).1
      have hr := (List.pairwise_cons.mp h).2
      simp only [appendEntry]
      split_ifs with hlt heq
      · refine List.pairwise_cons.mpr ⟨?_, h⟩
        intro e he
        rcases List.mem_cons.mp he with rfl | he
        · exact hlt
        · exact UInt32.lt_trans hlt (hg e he)
      · exact List.pairwise_cons.mpr ⟨fun e he => hg e he, hr⟩
      · have hgf : g < f := UInt32.lt_of_le_of_ne (UInt32.not_lt.mp hlt) (Ne.symm heq)
        refine List.pairwise_cons.mpr ⟨?_, ih hr⟩
        intro e he
        rcases mem_appendEntry he with he | rfl | ⟨cs, hc, rfl⟩
        · exact hg e he
        · exact hgf
        · exact hgf

theorem nonempty_appendEntry {f : FieldId} {as : List α} {es : List (FieldId × List α)}
    (ha : as ≠ []) (h : ∀ e ∈ es, e.2 ≠ []) : ∀ e ∈ appendEntry f as es, e.2 ≠ [] := by
  intro e he
  rcases mem_appendEntry he with he | rfl | ⟨bs, _, rfl⟩
  · exact h e he
  · exact ha
  · simp [ha]

theorem Ascending.pushAll {o : Fields α} (h : o.Ascending) (f : FieldId) (as : List α) :
    (o.pushAll f as).Ascending := by
  cases as with
  | nil => exact h
  | cons a as =>
      exact ⟨sorted_appendEntry f (a :: as) h.sorted,
        nonempty_appendEntry (List.cons_ne_nil a as) h.nonempty⟩

/-- Storing one value is storing the list of it. -/
theorem push_eq_pushAll (o : Fields α) (f : FieldId) (a : α) : o.push f a = o.pushAll f [a] := rfl

theorem Ascending.push {o : Fields α} (h : o.Ascending) (f : FieldId) (a : α) :
    (o.push f a).Ascending :=
  push_eq_pushAll o f a ▸ h.pushAll f [a]

theorem Ascending.erase {o : Fields α} (h : o.Ascending) (f : FieldId) : (o.erase f).Ascending :=
  ⟨h.sorted.filter _, fun e he => h.nonempty e (List.mem_of_mem_filter he)⟩

/-- A number above all stored ones gets its entry at the end. -/
theorem appendEntry_of_above {f : FieldId} {as : List α} {es : List (FieldId × List α)}
    (h : ∀ e ∈ es, e.1 < f) : appendEntry f as es = es ++ [(f, as)] := by
  induction es with
  | nil => rfl
  | cons x rest ih =>
      obtain ⟨g, bs⟩ := x
      have hg : g < f := h (g, bs) List.mem_cons_self
      rw [appendEntry, if_neg (UInt32.lt_asymm hg), if_neg (UInt32.ne_of_lt hg).symm,
        ih fun e he => h e (List.mem_cons_of_mem _ he), List.cons_append]

@[simp] theorem pushAll_nil (o : Fields α) (f : FieldId) : o.pushAll f [] = o := rfl

theorem appendEntry_append (f : FieldId) (as bs : List α) (es : List (FieldId × List α)) :
    appendEntry f bs (appendEntry f as es) = appendEntry f (as ++ bs) es := by
  induction es with
  | nil => simp [appendEntry]
  | cons x rest ih =>
      obtain ⟨g, cs⟩ := x
      by_cases hlt : f < g
      · simp [appendEntry, hlt]
      · by_cases heq : f = g
        · simp [appendEntry, heq]
        · simp [appendEntry, hlt, heq, ih]

/-- Storing twice under one number is storing all values at once. -/
theorem pushAll_pushAll (o : Fields α) (f : FieldId) (as bs : List α) :
    (o.pushAll f as).pushAll f bs = o.pushAll f (as ++ bs) := by
  cases as with
  | nil => rfl
  | cons a as =>
      cases bs with
      | nil => simp
      | cons b bs => simp [pushAll, appendEntry_append]

theorem lookup_cons_eq_ite {κ β : Type} [DecidableEq κ] [BEq κ] [LawfulBEq κ] (g : κ) (e : κ × β)
    (es : List (κ × β)) : (e :: es).lookup g = if g = e.1 then some e.2 else es.lookup g := by
  by_cases hg : g = e.1
  · rw [List.lookup_cons, beq_iff_eq.mpr hg, if_pos hg]
  · rw [List.lookup_cons, beq_eq_false_iff_ne.mpr hg, if_neg hg]

/-- What stands under a key is found there if the keys are distinct. -/
theorem lookup_of_mem {κ β : Type} [DecidableEq κ] [BEq κ] [LawfulBEq κ] {es : List (κ × β)}
    (distinct : (es.map Prod.fst).Nodup) {g : κ} {b : β} (h : (g, b) ∈ es) :
    es.lookup g = some b := by
  induction es with
  | nil => cases h
  | cons e rest ih =>
      obtain ⟨hfresh, hrest⟩ := List.nodup_cons.mp distinct
      rw [lookup_cons_eq_ite]
      rcases List.mem_cons.mp h with rfl | h
      · exact if_pos rfl
      · have hne : g ≠ e.1 := by
          intro heq
          exact hfresh (List.mem_map.mpr ⟨(g, b), h, heq⟩)
        rw [if_neg hne]
        exact ih hrest h

theorem lookup_eq_none_of_lt {f : FieldId} {es : List (FieldId × List α)}
    (h : ∀ e ∈ es, f < e.1) : es.lookup f = none := by
  induction es with
  | nil => rfl
  | cons e rest ih =>
      rw [lookup_cons_eq_ite, if_neg (UInt32.ne_of_lt (h e List.mem_cons_self))]
      exact ih fun x hx => h x (List.mem_cons_of_mem e hx)

theorem lookup_appendEntry {es : List (FieldId × List α)} (f g : FieldId) (as : List α)
    (h : es.Pairwise fun a b => a.1 < b.1) :
    ((appendEntry f as es).lookup g).getD [] =
      (es.lookup g).getD [] ++ if g = f then as else [] := by
  induction es with
  | nil => by_cases hg : g = f <;> simp [appendEntry, lookup_cons_eq_ite, hg]
  | cons x rest ih =>
      obtain ⟨k, bs⟩ := x
      have hk := (List.pairwise_cons.mp h).1
      by_cases hlt : f < k
      · -- the number is below all stored ones, so nothing was stored under it
        have hnone : ((k, bs) :: rest).lookup f = none :=
          lookup_eq_none_of_lt fun e he => by
            rcases List.mem_cons.mp he with rfl | he
            · exact hlt
            · exact UInt32.lt_trans hlt (hk e he)
        rw [appendEntry, if_pos hlt, lookup_cons_eq_ite]
        by_cases hg : g = f <;> simp [hg, hnone]
      · by_cases heq : f = k
        · rw [appendEntry, if_neg hlt, if_pos heq, lookup_cons_eq_ite, lookup_cons_eq_ite, heq]
          by_cases hg : g = k <;> simp [hg]
        · rw [appendEntry, if_neg hlt, if_neg heq, lookup_cons_eq_ite, lookup_cons_eq_ite]
          by_cases hg : g = k
          · simp [hg, Ne.symm heq]
          · simpa [hg] using ih (List.pairwise_cons.mp h).2

/-- Storing under one number appends there and leaves every other number as it was. -/
theorem Ascending.values_pushAll {o : Fields α} (h : o.Ascending) (f g : FieldId) (as : List α) :
    (o.pushAll f as).values g = o.values g ++ if g = f then as else [] := by
  cases as with
  | nil => simp
  | cons a as => exact lookup_appendEntry f g (a :: as) h.sorted

theorem lookup_filter_ne {β : Type} (es : List (FieldId × β)) (f g : FieldId) :
    (es.filter fun e => e.1 ≠ f).lookup g = if g = f then none else es.lookup g := by
  induction es with
  | nil => simp
  | cons e rest ih =>
      rw [List.filter_cons, lookup_cons_eq_ite]
      by_cases hkept : e.1 = f
      · rw [if_neg (by simpa using hkept), ih, hkept]
        split_ifs <;> rfl
      · rw [if_pos (by simpa using hkept), lookup_cons_eq_ite]
        by_cases hg : g = e.1
        · rw [if_pos hg, if_pos hg, if_neg (hg ▸ hkept)]
        · rw [if_neg hg, if_neg hg, ih]

/-- Erasing a number leaves nothing under it and every other number as it was. -/
theorem values_erase (o : Fields α) (f g : FieldId) :
    (o.erase f).values g = if g = f then [] else o.values g := by
  rw [values, erase, lookup_filter_ne]
  split_ifs <;> rfl

theorem Ascending.foldl_pushAll {o : Fields α} (h : o.Ascending)
    (groups : List (FieldId × List α)) :
    (groups.foldl (fun o g => o.pushAll g.1 g.2) o).Ascending := by
  induction groups generalizing o with
  | nil => exact h
  | cons g rest ih => exact ih (h.pushAll g.1 g.2)

/-- Groups that are stored under other numbers leave a number as it was. -/
theorem Ascending.values_foldl_of_notMem {o : Fields α} (h : o.Ascending)
    {groups : List (FieldId × List α)} {f : FieldId} (hf : f ∉ groups.map Prod.fst) :
    (groups.foldl (fun o g => o.pushAll g.1 g.2) o).values f = o.values f := by
  induction groups generalizing o with
  | nil => rfl
  | cons g rest ih =>
      simp only [List.map_cons, List.mem_cons, not_or] at hf
      rw [List.foldl_cons, ih (h.pushAll g.1 g.2) hf.2, h.values_pushAll, if_neg hf.1,
        List.append_nil]

/-- Groups that are stored under distinct numbers are found under their numbers. -/
theorem Ascending.values_foldl_of_mem {o : Fields α} (h : o.Ascending)
    {groups : List (FieldId × List α)} (distinct : (groups.map Prod.fst).Nodup)
    {g : FieldId × List α} (hg : g ∈ groups) :
    (groups.foldl (fun o g => o.pushAll g.1 g.2) o).values g.1 = o.values g.1 ++ g.2 := by
  induction groups generalizing o with
  | nil => cases hg
  | cons k rest ih =>
      obtain ⟨hk, hrest⟩ := List.nodup_cons.mp distinct
      rw [List.foldl_cons]
      rcases List.mem_cons.mp hg with rfl | hg
      · rw [(h.pushAll g.1 g.2).values_foldl_of_notMem hk, h.values_pushAll, if_pos rfl]
      · have hne : g.1 ≠ k.1 := fun heq => hk (heq ▸ List.mem_map_of_mem hg)
        rw [ih (h.pushAll k.1 k.2) hrest hg, h.values_pushAll, if_neg hne, List.append_nil]

/-- The values under the number of an entry are those of the entry. -/
theorem Ascending.values_of_mem {o : Fields α} (h : o.Ascending) {e : FieldId × List α}
    (he : e ∈ o.entries) : o.values e.1 = e.2 := by
  obtain ⟨entries⟩ := o
  have hsorted := h.sorted
  clear h
  simp only [values] at *
  induction entries with
  | nil => cases he
  | cons x rest ih =>
      obtain ⟨hx, hrest⟩ := List.pairwise_cons.mp hsorted
      rcases List.mem_cons.mp he with rfl | he
      · rw [lookup_cons_eq_ite, if_pos rfl, Option.getD_some]
      · rw [lookup_cons_eq_ite, if_neg (UInt32.ne_of_lt (hx e he)).symm]
        exact ih he hrest

theorem mem_values {o : Fields α} {f : FieldId} {a : α} (h : a ∈ o.values f) :
    ∃ e ∈ o.entries, a ∈ e.2 := by
  obtain ⟨entries⟩ := o
  simp only [values] at *
  induction entries with
  | nil => cases h
  | cons x rest ih =>
      rw [lookup_cons_eq_ite] at h
      split_ifs at h
      · exact ⟨x, List.mem_cons_self, h⟩
      · obtain ⟨e, he, ha⟩ := ih h
        exact ⟨e, List.mem_cons_of_mem x he, ha⟩

/-- The collection of groups of values, each stored under its number. -/
def ofGroups (groups : List (FieldId × List α)) : Fields α :=
  groups.foldl (fun o g => o.pushAll g.1 g.2) empty

theorem ascending_ofGroups (groups : List (FieldId × List α)) : (ofGroups groups).Ascending :=
  ascending_empty.foldl_pushAll groups

theorem values_ofGroups {groups : List (FieldId × List α)}
    (distinct : (groups.map Prod.fst).Nodup) {g : FieldId × List α} (hg : g ∈ groups) :
    (ofGroups groups).values g.1 = g.2 :=
  ascending_empty.values_foldl_of_mem distinct hg

theorem values_ofGroups_of_notMem {groups : List (FieldId × List α)} {f : FieldId}
    (hf : f ∉ groups.map Prod.fst) : (ofGroups groups).values f = [] :=
  ascending_empty.values_foldl_of_notMem hf

/-- Every value of the collection of some groups is a value of one of them. -/
theorem exists_group_of_mem {groups : List (FieldId × List α)} {e : FieldId × List α} {a : α}
    (he : e ∈ (ofGroups groups).entries) (ha : a ∈ e.2) : ∃ g ∈ groups, a ∈ g.2 := by
  have hfold : ∀ o : Fields α, e ∈ (groups.foldl (fun o g => o.pushAll g.1 g.2) o).entries →
      (∃ d ∈ o.entries, a ∈ d.2) ∨ ∃ g ∈ groups, a ∈ g.2 := by
    clear he
    induction groups with
    | nil => exact fun o he => Or.inl ⟨e, he, ha⟩
    | cons g rest ih =>
        intro o he
        rcases ih (o.pushAll g.1 g.2) he with ⟨d, hd, had⟩ | ⟨k, hk, hak⟩
        · unfold pushAll at hd
          split_ifs at hd
          · exact Or.inl ⟨d, hd, had⟩
          · rcases mem_appendEntry hd with hd | rfl | ⟨bs, hbs, rfl⟩
            · exact Or.inl ⟨d, hd, had⟩
            · exact Or.inr ⟨g, List.mem_cons_self, had⟩
            · rcases List.mem_append.mp had with had | had
              · exact Or.inl ⟨(g.1, bs), hbs, had⟩
              · exact Or.inr ⟨g, List.mem_cons_self, had⟩
        · exact Or.inr ⟨k, List.mem_cons_of_mem g hk, hak⟩
  rcases hfold empty he with ⟨d, hd, -⟩ | h
  · cases hd
  · exact h

theorem length_appendEntry_le (f : FieldId) (as : List α) (es : List (FieldId × List α)) :
    (appendEntry f as es).length ≤ es.length + 1 := by
  induction es with
  | nil => simp [appendEntry]
  | cons x rest ih =>
      obtain ⟨g, bs⟩ := x
      simp only [appendEntry]
      split_ifs
      · simp
      · simp
      · simpa using ih

theorem length_ofGroups_le (groups : List (FieldId × List α)) :
    (ofGroups groups).entries.length ≤ groups.length := by
  have hgrow : ∀ o : Fields α, (groups.foldl (fun o g => o.pushAll g.1 g.2) o).entries.length ≤
      o.entries.length + groups.length := by
    induction groups with
    | nil => simp
    | cons g rest ih =>
        intro o
        have hpush : (o.pushAll g.1 g.2).entries.length ≤ o.entries.length + 1 := by
          unfold pushAll
          split_ifs
          · exact Nat.le_succ _
          · exact length_appendEntry_le g.1 g.2 o.entries
        have hrest := ih (o.pushAll g.1 g.2)
        rw [List.foldl_cons, List.length_cons]
        omega
  simpa [ofGroups, empty] using hgrow empty

/-- Groups with distinct numbers are the only entries of their collection. -/
theorem mem_ofGroups {groups : List (FieldId × List α)} (distinct : (groups.map Prod.fst).Nodup)
    {e : FieldId × List α} (he : e ∈ (ofGroups groups).entries) : e ∈ groups := by
  have hvalues : (ofGroups groups).values e.1 = e.2 := (ascending_ofGroups groups).values_of_mem he
  by_cases hid : e.1 ∈ groups.map Prod.fst
  · obtain ⟨g, hg, hid⟩ := List.mem_map.mp hid
    have hsame : g.2 = e.2 := by rw [← hvalues, ← hid, values_ofGroups distinct hg]
    exact (Prod.ext hid hsame : g = e) ▸ hg
  · rw [values_ofGroups_of_notMem hid] at hvalues
    exact absurd hvalues.symm ((ascending_ofGroups groups).nonempty e he)

end EntitySchema.Wire.Fields
