import EntitySchema.Files.Discovery
import EntitySchema.Proofs.ModuleFiles
import EntitySchema.Proofs.Words

/-!
# Names and paths of files

Names are compared by the bytes they are stored as, which puts them in the order of their characters.
The components of a path are its parts that lead somewhere, and joining a name to the path of a
directory adds one component. A name has an extension when a point stands in it behind something else,
and the extension is what follows the last point.

## Implementation notes

UTF-8 keeps the order of characters within and between the lengths of their encodings: the first byte
tells the length, longer encodings begin with greater bytes, and the digits to base 64 behind it come
from the most significant one on. So different characters differ within the shorter encoding already,
whatever follows.
-/

namespace EntitySchema.Wire

/-! ### The order of bytes -/

/-- The encodings of characters are in the order of the characters, whatever follows them. -/
theorem utf8EncodeChar_append_lt {c d : Char} (h : c < d) (s t : Bytes) :
    String.utf8EncodeChar c ++ s < String.utf8EncodeChar d ++ t := by
  have hlt : c.val.toNat < d.val.toNat := h
  have hd : d.val.toNat < 0x110000 := by
    rcases d.valid with hd | hd
    · exact hd.trans (by decide)
    · exact hd.2
  have hinj {a b : Nat} (ha : a < UInt8.size) (hb : b < UInt8.size) :
      UInt8.ofNat a = UInt8.ofNat b ↔ a = b := by
    rw [← UInt8.toNat_inj, UInt8.toNat_ofNat_of_lt' ha, UInt8.toNat_ofNat_of_lt' hb]
  -- each digit to base 64 is taken from the quotient before it
  have hsecond (n : Nat) : n / 4096 = n / 64 / 64 := by omega
  have hthird (n : Nat) : n / 262144 = n / 64 / 64 / 64 := by omega
  simp only [String.utf8EncodeChar, hsecond, hthird]
  split_ifs <;>
    simp (disch := simp only [UInt8.size]; omega) only [List.cons_append, List.nil_append,
      List.cons_lt_cons_iff, UInt8.ofNat_lt_iff_lt, hinj] <;>
    omega

theorem flatMap_utf8EncodeChar_lt {cs ds : List Char} (h : cs < ds) :
    cs.flatMap String.utf8EncodeChar < ds.flatMap String.utf8EncodeChar := by
  induction h with
  | @nil d ds =>
      obtain ⟨x, xs, hx⟩ := List.exists_cons_of_ne_nil (String.utf8EncodeChar_ne_nil (c := d))
      rw [List.flatMap_nil, List.flatMap_cons, hx]
      exact List.nil_lt_cons _ _
  | rel hlt =>
      rw [List.flatMap_cons, List.flatMap_cons]
      exact utf8EncodeChar_append_lt hlt _ _
  | cons _ ih =>
      rw [List.flatMap_cons, List.flatMap_cons]
      exact List.append_left_lt ih

theorem utf8_eq_flatMap (s : String) : utf8 s = s.toList.flatMap String.utf8EncodeChar := by
  rw [utf8_eq_toList, ← String.utf8Encode_toList, List.utf8Encode, List.data_toByteArray]

/-- Texts are stored as bytes in the order of their characters. -/
theorem utf8_lt_iff {a b : String} : utf8 a < utf8 b ↔ a < b := by
  have hforth {a b : String} (h : a < b) : utf8 a < utf8 b := by
    rw [utf8_eq_flatMap, utf8_eq_flatMap]
    exact flatMap_utf8EncodeChar_lt h
  constructor
  · intro h
    rcases lt_trichotomy a b with hlt | rfl | hgt
    · exact hlt
    · exact absurd h (List.lt_irrefl _)
    · exact absurd (hforth hgt) (List.lt_asymm h)
  · exact hforth

theorem utf8_le_iff {a b : String} : utf8 a ≤ utf8 b ↔ a ≤ b := by
  rw [← not_lt, ← utf8_lt_iff]
  exact List.not_lt.symm

end EntitySchema.Wire

namespace EntitySchema.Text

/-! ### Components of paths -/

/-- The parts of a path that lead somewhere. -/
def components (path : String) : List String := (pathParts path).filter fun part => !isIdle part

/-- A name that an entry of a directory can have. -/
structure IsEntryName (name : String) : Prop where
  /-- The name leads somewhere. -/
  leads : isIdle name = false
  /-- The name is one part of a path. -/
  undivided : '/' ∉ name.toList

theorem components_append (directory name : String) :
    components (directory ++ "/" ++ name) = components directory ++ components name := by
  rw [components, pathParts_append, List.filter_append]
  rfl

theorem components_empty : components "" = [] := by
  simp [components, pathParts, divide, isIdle]

theorem IsEntryName.components_eq {name : String} (h : IsEntryName name) :
    components name = [name] := by
  rw [components, pathParts_of_notMem h.undivided, List.filter_singleton, h.leads]
  rfl

theorem IsEntryName.startsWith_slash {name : String} (h : IsEntryName name) :
    name.startsWith "/" = false := by
  rw [Bool.eq_false_iff]
  intro hstarts
  rw [String.startsWith_eq_startsWith_toSlice, String.Slice.startsWith_string_iff,
    String.copy_toSlice] at hstarts
  exact h.undivided (hstarts.subset (by simp))

theorem exists_append_slash {directory : String} (h : directory.endsWith "/" = true) :
    ∃ start, directory = start ++ "/" := by
  rw [String.endsWith_eq_endsWith_toSlice, String.Slice.endsWith_string_iff,
    String.copy_toSlice] at h
  obtain ⟨start, hstart⟩ := h
  refine ⟨String.ofList start, ?_⟩
  rw [← String.toList_inj, ← hstart]
  simp

/-- Joining a name to the path of a directory adds it as the last component. -/
theorem components_joinPath (directory : String) {name : String} (h : IsEntryName name) :
    components (joinPath directory name) = components directory ++ [name] := by
  rw [joinPath, h.startsWith_slash, Bool.or_false]
  by_cases hempty : directory = ""
  · rw [if_pos (decide_eq_true hempty), hempty, components_empty, h.components_eq, List.nil_append]
  rw [if_neg (by simpa using hempty)]
  split_ifs with hends
  · -- the slash at the end of the directory is the one that divides
    obtain ⟨start, rfl⟩ := exists_append_slash hends
    have hstart : components (start ++ "/") = components start := by
      have happend := components_append start ""
      rwa [String.append_empty, components_empty, List.append_nil] at happend
    rw [components_append, h.components_eq, hstart]
  · rw [components_append, h.components_eq]

/-- The components of a path to something below a directory are those of the directory and the names
on the way. -/
theorem components_foldl_joinPath (root : String) {names : List String}
    (h : ∀ name ∈ names, IsEntryName name) :
    components (names.foldl joinPath root) = components root ++ names := by
  induction names generalizing root with
  | nil => rw [List.foldl_nil, List.append_nil]
  | cons name rest ih =>
      obtain ⟨hname, hrest⟩ := List.forall_mem_cons.mp h
      rw [List.foldl_cons, ih _ hrest, components_joinPath root hname, List.append_assoc]
      rfl

/-! ### Extensions -/

theorem dotted_eq_empty {parts : List String} (hparts : parts ≠ []) (h : dotted parts = "") :
    parts = [""] := by
  match parts with
  | [part] => rw [← h, dotted, String.intercalate_singleton]
  | part :: next :: rest =>
      rw [dotted, String.intercalate_cons_cons, ← String.toList_inj] at h
      simp at h

theorem segments_eq_empty {name : String} (h : segments name = [""]) : name = "" := by
  have hchars : divide '.' name.toList = [[]] := by
    have hmap : (divide '.' name.toList).map String.ofList = [[]].map String.ofList := h
    exact List.map_injective_iff.mpr (fun _ _ => String.ofList_injective) hmap
  rw [← String.toList_inj, String.toList_empty]
  cases hname : name.toList with
  | nil => rfl
  | cons c rest =>
      obtain ⟨part, parts, hrest⟩ := List.exists_cons_of_ne_nil (divide_ne_nil '.' rest)
      rw [hname, divide, hrest] at hchars
      split_ifs at hchars
      · simp at hchars
      · simp at hchars

/-- What follows the last point of a name is its extension, unless nothing precedes the point. -/
theorem extension?_append (stem : String) {extension : String} (h : '.' ∉ extension.toList) :
    extension? (stem ++ "." ++ extension) = if stem = "" then none else some extension := by
  obtain ⟨last, before, hreverse⟩ : ∃ last before, (segments stem).reverse = last :: before :=
    List.exists_cons_of_ne_nil (by simpa using segments_ne_nil stem)
  have hempty : dotted (last :: before) = "" ↔ stem = "" := by
    constructor
    · intro hdotted
      have hparts := dotted_eq_empty (List.cons_ne_nil _ _) hdotted
      apply segments_eq_empty
      rw [← List.reverse_inj, hreverse, hparts]
      rfl
    · rintro rfl
      have hsegments : segments "" = [""] := by simp [segments, divide]
      rw [hsegments] at hreverse
      rw [← hreverse]
      simp [dotted]
  rw [extension?, segments_append_name stem h, List.reverse_append, hreverse, List.reverse_singleton,
    List.singleton_append]
  simp only [hempty]

theorem extension?_of_notMem {name : String} (h : '.' ∉ name.toList) : extension? name = none := by
  rw [extension?, segments, divide_of_notMem h]
  rfl

/-- A name has an extension without points exactly if it ends with the extension behind a point and
something stands before the point. -/
theorem extension?_eq_some_iff {name extension : String} (h : '.' ∉ extension.toList) :
    extension? name = some extension ↔ ∃ stem, stem ≠ "" ∧ name = stem ++ "." ++ extension := by
  constructor
  · intro hsome
    by_cases hpoint : '.' ∈ name.toList
    · -- the last point of the name is the first one from the end
      obtain ⟨after, before, hname, hafter⟩ :=
        List.eq_append_cons_of_mem (List.mem_reverse.mpr hpoint)
      have hsplit : name =
          String.ofList before.reverse ++ "." ++ String.ofList after.reverse := by
        rw [← String.toList_inj, ← List.reverse_inj, hname]
        simp
      have hlast : '.' ∉ (String.ofList after.reverse).toList := by simpa using hafter
      rw [hsplit, extension?_append _ hlast] at hsome
      split_ifs at hsome with hstem
      rw [← Option.some.inj hsome]
      exact ⟨_, hstem, hsplit⟩
    · rw [extension?_of_notMem hpoint] at hsome
      cases hsome
  · rintro ⟨stem, hstem, rfl⟩
    rw [extension?_append stem h, if_neg hstem]

example : extension? ".json" = none ∧ extension? "..json" = some "json" ∧
    extension? "x.json.bak" = some "bak" := by
  decide

end EntitySchema.Text
