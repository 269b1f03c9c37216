import EntitySchema.Code.Name
import EntitySchema.Text.Pascal
import Mathlib

/-!
# Names and the identifiers they become

A plain name always has an identifier. Two plain names have the same identifier only if they are
equal or one of them is a path word and the other is that word with an underscore at the end; such
names are `Alike`.

## Implementation notes

Keywords are told from all other names by the mark of a raw identifier, which no plain name holds.
So identifiers differ exactly when the names behind them, with underscores added, do.
-/

namespace EntitySchema.Text

/-- A letter, a digit or an underscore. -/
def isNameChar (c : Char) : Bool := c.isAlphanum || c == '_'

/-- The characters of a plain identifier. -/
theorem isPlainIdentifier_iff {s : String} :
    isPlainIdentifier s = true ↔
      s.toList ≠ ['_'] ∧ ∃ c rest, s.toList = c :: rest ∧ (c.isAlpha || c == '_') = true ∧
        rest.all isNameChar = true := by
  unfold isPlainIdentifier
  split
  · rename_i h
    simp [h]
  · rename_i h
    simp [h]
  · rename_i c rest hne h
    rw [Bool.and_eq_true]
    constructor
    · rintro ⟨hc, hrest⟩
      refine ⟨?_, c, rest, h, hc, hrest⟩
      rw [h]
      rintro ⟨⟩
      exact hne rfl rfl
    · rintro ⟨-, c', rest', h', hc, hrest⟩
      obtain ⟨rfl, rfl⟩ := List.cons.inj (h.symm.trans h')
      exact ⟨hc, hrest⟩

theorem isNameChar_of_mem {s : String} (h : isPlainIdentifier s = true) {c : Char}
    (hc : c ∈ s.toList) : isNameChar c = true := by
  obtain ⟨-, d, rest, hs, hd, hrest⟩ := isPlainIdentifier_iff.mp h
  rw [hs] at hc
  rcases List.mem_cons.mp hc with rfl | hc
  · simp only [isNameChar, Char.isAlphanum, Bool.or_eq_true] at hd ⊢
    tauto
  · exact List.all_eq_true.mp hrest c hc

/-- A plain identifier stays one with letters, digits and underscores at the end. -/
theorem isPlainIdentifier_append {s t : String} (hs : isPlainIdentifier s = true)
    (ht : ∀ c ∈ t.toList, isNameChar c = true) : isPlainIdentifier (s ++ t) = true := by
  obtain ⟨hne, c, rest, hlist, hc, hrest⟩ := isPlainIdentifier_iff.mp hs
  have happend : (s ++ t).toList = c :: (rest ++ t.toList) := by
    rw [String.toList_append, hlist, List.cons_append]
  refine isPlainIdentifier_iff.mpr ⟨?_, c, rest ++ t.toList, happend, hc, ?_⟩
  · rw [happend]
    intro h
    obtain ⟨rfl, hnil⟩ := List.cons.inj h
    rw [(List.append_eq_nil_iff.mp hnil).1] at hlist
    exact hne hlist
  · rw [List.all_append, hrest, Bool.true_and]
    exact List.all_eq_true.mpr ht

theorem isIdentifier_of_isPlainIdentifier {s : String} (h : isPlainIdentifier s = true) :
    isIdentifier s = true := by
  obtain ⟨-, c, rest, hlist, hc, hrest⟩ := isPlainIdentifier_iff.mp h
  unfold isIdentifier
  rw [hlist]
  simp only [Bool.and_eq_true, Bool.or_eq_true, isIdentifierStart] at hc ⊢
  refine ⟨by tauto, List.all_eq_true.mpr fun d hd => ?_⟩
  have hpart := List.all_eq_true.mp hrest d hd
  simp only [isNameChar, isIdentifierPart, Bool.or_eq_true] at hpart ⊢
  tauto

theorem isNameChar_toUpper {c : Char} (h : isNameChar c = true) : isNameChar c.toUpper = true := by
  by_cases hlower : c.isLower
  · have halpha : c.isAlpha = true := by simp [Char.isAlpha, hlower]
    simp [isNameChar, Char.isAlphanum, halpha]
  · rwa [Char.toUpper_eq_of_not_isLower hlower]

/-- The Pascal case of a plain identifier has letters and digits only. -/
theorem isNameChar_of_mem_pascal {s : String} (h : isPlainIdentifier s = true) {c : Char}
    (hc : c ∈ (pascal s).toList) : isNameChar c = true := by
  have hchars : ∀ (cs : List Char) (atStart : Bool), (∀ d ∈ cs, isNameChar d = true) →
      ∀ d ∈ pascalChars atStart cs, isNameChar d = true := by
    intro cs
    induction cs with
    | nil => simp [pascalChars]
    | cons e rest ih =>
        intro atStart hcs d hd
        obtain ⟨he, hrest⟩ := List.forall_mem_cons.mp hcs
        unfold pascalChars at hd
        split_ifs at hd with hdivider hstart
        · exact ih true hrest d hd
        · rcases List.mem_cons.mp hd with rfl | hd
          · exact isNameChar_toUpper he
          · exact ih false hrest d hd
        · rcases List.mem_cons.mp hd with rfl | hd
          · exact he
          · exact ih false hrest d hd
  rw [pascal, String.toList_ofList] at hc
  exact hchars _ true (fun d hd => isNameChar_of_mem h hd) c hc

end EntitySchema.Text

namespace EntitySchema.Code

open Text (isPlainIdentifier)

/-- Two names that one identifier may stand for: equal ones, and a path word beside the same word
with an underscore at the end. -/
def Alike (a b : String) : Prop :=
  a = b ∨ (a ∈ pathWords ∧ b = a ++ "_") ∨ (b ∈ pathWords ∧ a = b ++ "_")
deriving Decidable

/-- No two different names are alike. -/
def Apart (names : List String) : Prop := ∀ a ∈ names, ∀ b ∈ names, Alike a b → a = b
deriving Decidable

theorem Apart.subset {names names' : List String} (h : Apart names) (hsub : names' ⊆ names) :
    Apart names' := fun a ha b hb => h a (hsub ha) b (hsub hb)

theorem sanitize_of_mem {name : String} (h : name ∈ pathWords) : sanitize name = name ++ "_" :=
  if_pos h

theorem sanitize_of_notMem {name : String} (h : name ∉ pathWords) : sanitize name = name := if_neg h

theorem underscored_notMem {name : String} (h : name ∈ pathWords) : name ++ "_" ∉ pathWords := by
  revert name
  decide

theorem sanitize_eq_iff {a b : String} : sanitize a = sanitize b ↔ Alike a b := by
  have hunderscored {c d : String} (hc : c ∈ pathWords) (hd : d ∈ pathWords) : d ≠ c ++ "_" :=
    fun h => underscored_notMem hc (h ▸ hd)
  by_cases ha : a ∈ pathWords <;> by_cases hb : b ∈ pathWords
  · rw [sanitize_of_mem ha, sanitize_of_mem hb]
    constructor
    · intro h
      exact Or.inl (String.append_left_inj "_" |>.mp h)
    · rintro (rfl | ⟨-, h⟩ | ⟨-, h⟩)
      · rfl
      · exact absurd h (hunderscored ha hb)
      · exact absurd h (hunderscored hb ha)
  · rw [sanitize_of_mem ha, sanitize_of_notMem hb]
    constructor
    · exact fun h => Or.inr (Or.inl ⟨ha, h.symm⟩)
    · rintro (rfl | ⟨-, h⟩ | ⟨h, -⟩)
      · exact absurd ha hb
      · exact h.symm
      · exact absurd h hb
  · rw [sanitize_of_notMem ha, sanitize_of_mem hb]
    constructor
    · exact fun h => Or.inr (Or.inr ⟨hb, h⟩)
    · rintro (rfl | ⟨h, -⟩ | ⟨-, h⟩)
      · exact absurd hb ha
      · exact absurd h ha
      · exact h
  · rw [sanitize_of_notMem ha, sanitize_of_notMem hb]
    constructor
    · exact Or.inl
    · rintro (h | ⟨h, -⟩ | ⟨h, -⟩)
      · exact h
      · exact absurd h ha
      · exact absurd h hb

@[simp] theorem sanitize_sanitize (name : String) : sanitize (sanitize name) = sanitize name := by
  by_cases h : name ∈ pathWords
  · rw [sanitize_of_mem h, sanitize_of_notMem (underscored_notMem h)]
  · rw [sanitize_of_notMem h, sanitize_of_notMem h]

theorem isPlainIdentifier_sanitize {name : String} (h : isPlainIdentifier name = true) :
    isPlainIdentifier (sanitize name) = true := by
  by_cases hword : name ∈ pathWords
  · rw [sanitize_of_mem hword]
    exact Text.isPlainIdentifier_append h (by simp [Text.isNameChar])
  · rwa [sanitize_of_notMem hword]

/-- The mark of a raw identifier is no part of a plain one. -/
theorem raw_ne_plain {a b : String} (hb : isPlainIdentifier b = true) : "r#" ++ a ≠ b := by
  rintro rfl
  have hmark : '#' ∈ ("r#" ++ a).toList := by simp
  exact absurd (Text.isNameChar_of_mem hb hmark) (by decide)

theorem isSome_identifier {name : String} (h : isPlainIdentifier name = true) :
    (identifier name).isSome = true := by
  have hspelled := Text.isIdentifier_of_isPlainIdentifier (isPlainIdentifier_sanitize h)
  simp only [identifier]
  split_ifs <;> rfl

/-- Plain names have the same identifier exactly when they are alike. -/
theorem identifier_eq_iff {a b : String} (ha : isPlainIdentifier a = true)
    (hb : isPlainIdentifier b = true) : identifier a = identifier b ↔ Alike a b := by
  have ha' := isPlainIdentifier_sanitize ha
  have hb' := isPlainIdentifier_sanitize hb
  rw [← sanitize_eq_iff]
  constructor
  · intro h
    simp only [identifier, Text.isIdentifier_of_isPlainIdentifier ha',
      Text.isIdentifier_of_isPlainIdentifier hb', if_true] at h
    split_ifs at h with hka hkb hkb
    · exact (String.append_right_inj "r#").mp (Option.some.inj h)
    · exact absurd (Option.some.inj h) (raw_ne_plain hb')
    · exact absurd (Option.some.inj h).symm (raw_ne_plain ha')
    · exact Option.some.inj h
  · intro h
    rw [identifier, identifier, h]

/-- Every name has an identifier, and no two of them have the same. -/
structure Distinct (names : List String) : Prop where
  spelled : ∀ name ∈ names, (identifier name).isSome
  nodup : (names.map identifier).Nodup

/-- Plain names have distinct identifiers when they differ with underscores added. -/
theorem distinct_iff_nodup_sanitize {names : List String}
    (hplain : ∀ name ∈ names, isPlainIdentifier name = true) :
    Distinct names ↔ (names.map sanitize).Nodup := by
  have hpairs : (names.map identifier).Nodup ↔ (names.map sanitize).Nodup := by
    rw [List.Nodup, List.Nodup, List.pairwise_map, List.pairwise_map]
    refine List.Pairwise.iff_of_mem fun {a b} ha hb => ?_
    rw [Ne, Ne, identifier_eq_iff (hplain a ha) (hplain b hb), sanitize_eq_iff]
  exact ⟨fun h => hpairs.mp h.nodup,
    fun h => ⟨fun name hname => isSome_identifier (hplain name hname), hpairs.mpr h⟩⟩

/-- Plain names that differ have distinct identifiers when no two of them are alike. -/
theorem distinct_iff {names : List String}
    (hplain : ∀ name ∈ names, isPlainIdentifier name = true) (hnodup : names.Nodup) :
    Distinct names ↔ Apart names := by
  rw [distinct_iff_nodup_sanitize hplain, List.nodup_map_iff_inj_on hnodup]
  simp only [sanitize_eq_iff, Apart]

end EntitySchema.Code
