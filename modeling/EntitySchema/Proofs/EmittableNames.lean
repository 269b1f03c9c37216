import EntitySchema.Proofs.ModuleFiles
import EntitySchema.Proofs.RootTables

/-!
# Every linked schema can be generated

Generation fails if a component has no data type or a name cannot be written as an identifier.
Linking excludes both: a component is found with its data type, and every name that reaches the
code, those that are made up from several names included, is an identifier of ASCII characters. Such
a name is written as it stands unless it is a keyword of the generated language. A keyword is written
as a raw identifier, and the four that cannot be raw with an underscore at the end.

## Implementation notes

All names of a schema are plain by validation (`Registry.isPlainIdentifier_names`), and code
mentions no other names (`Registered.meets_placements`), so all its tokens can be spelled.
-/

namespace EntitySchema.Code

open Text (isPlainIdentifier)

/-! ## Names that can be written -/

theorem isPlainIdentifier_of_isKeyword {word : String} (h : IsKeyword word) :
    isPlainIdentifier word = true := by
  have hstrict : ∀ w ∈ strictKeywords, isPlainIdentifier w = true := by decide
  have hreserved : ∀ w ∈ reservedKeywords, isPlainIdentifier w = true := by decide
  rcases h with h | h
  · exact hstrict word h
  · exact hreserved word h

/-- An identifier of ASCII letters, digits and underscores that does not begin with a digit and is
not a single underscore. -/
structure IsAsciiIdentifier (name : String) : Prop where
  nonempty : name ≠ ""
  named : name ≠ "_"
  ascii : ∀ c ∈ name.toList, c.toNat < 128
  characters : ∀ c ∈ name.toList, c.isAlphanum = true ∨ c = '_'
  start : ∀ c ∈ name.toList.head?, c.isDigit = false

/-- A name that can be written in code. -/
structure Emittable (name : String) : Prop where
  /-- It is an identifier by itself. -/
  ascii : IsAsciiIdentifier name
  /-- What is written is an identifier, or one with the mark of a raw identifier, and is never a
  keyword. A keyword is marked or, where that cannot be, extended, and every other name is left as
  it is. -/
  written : ∃ own, identifier name = some own ∧ IsAsciiIdentifier (bare own) ∧ ¬ IsKeyword own ∧
    (own = "r#" ++ name ↔ IsKeyword name ∧ name ∉ placeKeywords) ∧
    (own = name ++ "_" ↔ name ∈ placeKeywords) ∧
    (own = name ↔ ¬ IsKeyword name)

theorem toNat_lt_of_isNameChar {c : Char} (h : Text.isNameChar c = true) : c.toNat < 128 := by
  simp only [Text.isNameChar, Char.isAlphanum, Char.isAlpha, Char.isUpper, Char.isLower,
    Char.isDigit, Bool.or_eq_true, Bool.and_eq_true, decide_eq_true_eq, beq_iff_eq] at h
  rcases h with (((h | h) | h) | rfl)
  · exact lt_of_le_of_lt (UInt32.le_iff_toNat_le.mp h.2) (by decide)
  · exact lt_of_le_of_lt (UInt32.le_iff_toNat_le.mp h.2) (by decide)
  · exact lt_of_le_of_lt (UInt32.le_iff_toNat_le.mp h.2) (by decide)
  · decide

theorem isDigit_eq_false {c : Char} (h : (c.isAlpha || c == '_') = true) : c.isDigit = false := by
  by_contra hdigit
  simp only [Char.isAlpha, Char.isUpper, Char.isLower, Char.isDigit, Bool.or_eq_true,
    Bool.and_eq_true, Bool.not_eq_false, decide_eq_true_eq, beq_iff_eq, ge_iff_le] at h hdigit
  have hnine : c.val ≤ 57 := hdigit.2
  rcases h with ((h | h) | rfl)
  · exact absurd (UInt32.le_trans h.1 hnine) (by decide)
  · exact absurd (UInt32.le_trans h.1 hnine) (by decide)
  · exact absurd hnine (by decide)

theorem isAsciiIdentifier_of_isPlainIdentifier {name : String} (h : isPlainIdentifier name = true) :
    IsAsciiIdentifier name := by
  obtain ⟨hne, c, rest, hlist, hc, -⟩ := Text.isPlainIdentifier_iff.mp h
  constructor
  · rintro rfl
    cases hlist
  · rintro rfl
    exact hne rfl
  · exact fun c hc => toNat_lt_of_isNameChar (Text.isNameChar_of_mem h hc)
  · intro c hc
    simpa [Text.isNameChar] using Text.isNameChar_of_mem h hc
  · rw [hlist]
    rintro d ⟨⟩
    exact isDigit_eq_false hc

theorem ne_append_underscore (name : String) : name ≠ name ++ "_" := by
  intro h
  have hlength := congrArg String.length h
  simp at hlength

theorem identifier_of_isPlainIdentifier {name : String} (h : isPlainIdentifier name = true) :
    identifier name =
      some (if sanitize name ∈ keywords then "r#" ++ sanitize name else sanitize name) := by
  simp only [identifier, Text.isIdentifier_of_isPlainIdentifier (isPlainIdentifier_sanitize h),
    if_true]
  split_ifs <;> rfl

/-- A plain name can be written. -/
theorem emittable_of_isPlainIdentifier {name : String} (h : isPlainIdentifier name = true) :
    Emittable name := by
  have hextended : isPlainIdentifier (name ++ "_") = true :=
    Text.isPlainIdentifier_append h (by simp [Text.isNameChar])
  have hraw : "r#" ++ name ≠ name := raw_ne_plain h
  have hrawExtended : "r#" ++ name ≠ name ++ "_" := raw_ne_plain hextended
  have hne := ne_append_underscore name
  have hmarked : ¬ IsKeyword ("r#" ++ name) := fun hkeyword =>
    raw_ne_plain (isPlainIdentifier_of_isKeyword hkeyword) rfl
  refine ⟨isAsciiIdentifier_of_isPlainIdentifier h, _, identifier_of_isPlainIdentifier h, ?_⟩
  rw [mem_placeKeywords]
  by_cases hpath : name ∈ pathWords
  · -- one of the words that cannot be raw
    have hkeyword : IsKeyword name := isKeyword_iff.mpr (Or.inr hpath)
    have hfree : name ++ "_" ∉ keywords := underscored_notMem_keywords hpath
    have hfresh : ¬ IsKeyword (name ++ "_") := by
      rw [isKeyword_iff, not_or]
      exact ⟨hfree, underscored_notMem hpath⟩
    rw [sanitize_of_mem hpath, if_neg hfree, bare_of_isPlainIdentifier hextended]
    exact ⟨isAsciiIdentifier_of_isPlainIdentifier hextended, hfresh,
      by simp [hpath, hrawExtended.symm], by simp [hpath], by simp [hkeyword, hne.symm]⟩
  · rw [sanitize_of_notMem hpath]
    by_cases hword : name ∈ keywords
    · -- any other keyword
      have hkeyword : IsKeyword name := isKeyword_iff.mpr (Or.inl hword)
      rw [if_pos hword, bare_raw]
      exact ⟨isAsciiIdentifier_of_isPlainIdentifier h, hmarked, by simp [hkeyword, hpath],
        by simp [hpath, hrawExtended], by simp [hkeyword, hraw]⟩
    · have hkeyword : ¬ IsKeyword name := by
        rw [isKeyword_iff, not_or]
        exact ⟨hword, hpath⟩
      rw [if_neg hword, bare_of_isPlainIdentifier h]
      exact ⟨isAsciiIdentifier_of_isPlainIdentifier h, hkeyword, by simp [hkeyword, hraw.symm],
        by simp [hpath, hne], by simp [hkeyword]⟩

/-! ## Code with plain names -/

/-- All names that a token is put together from are plain. -/
def Condition.plainNames : Condition where
  Holds t := ∀ name ∈ t.names, isPlainIdentifier name = true
  word _ := List.forall_mem_nil _
  runtime plain := List.forall_mem_singleton.mpr plain

theorem holds_plainNames_itemIn {package name : String}
    (hpackage : ∀ s ∈ Text.segments package, isPlainIdentifier s = true)
    (hname : isPlainIdentifier name = true) : Condition.plainNames.Holds (itemIn package name) := by
  intro own hown
  rcases List.mem_append.mp hown with hown | hown
  · exact hpackage own (List.mem_of_mem_filter hown)
  · rw [List.mem_singleton.mp hown]
    exact hname

/-- The submodules and the code of a module have plain names. -/
structure Module.IsPlain (m : Module) : Prop where
  children : ∀ name ∈ m.children, isPlainIdentifier name = true
  code : ∀ f ∈ m.fragments, Meets .plainNames (Fragment.code f)

/-- Modules that plain code is placed in have plain names. -/
theorem isPlain_of_placements {placements : List (String × Fragment)}
    (hpackages : ∀ p ∈ placements, ∀ s ∈ Text.segments p.1, s ≠ "" → isPlainIdentifier s = true)
    (hcode : ∀ p ∈ placements, Meets .plainNames (Fragment.code p.2)) {m : Module}
    (hm : m ∈ (ModuleTree.ofPlacements placements).nodes) : m.IsPlain := by
  obtain ⟨hfragments, -, hchildren⟩ := ModuleTree.node_of_placements hm
  constructor
  · intro name hname
    obtain ⟨p, hp, hway⟩ := (hchildren name).mp hname
    have hsegment : name ∈ ModuleTree.modulePath p.1 :=
      hway.subset (List.mem_append_right _ List.mem_cons_self)
    obtain ⟨s, hs, rfl⟩ := List.mem_map.mp hsegment
    obtain ⟨hs, hne⟩ := List.mem_filter.mp hs
    exact isPlainIdentifier_sanitize (hpackages p hp s hs (by simpa using hne))
  · intro f hf
    rw [hfragments] at hf
    obtain ⟨p, hp, rfl⟩ := List.mem_map.mp hf
    exact hcode p (List.mem_of_mem_filter hp)

/-- A module with plain names has a text. -/
theorem Module.IsPlain.exists_content {m : Module} (h : m.IsPlain) (settings : Settings)
    (paths : Paths) :
    ∃ text, GeneratedFile.content settings paths m.fragments m.children = .ok text := by
  have hline : ∀ name ∈ m.children, ∃ line,
      GeneratedFile.declaration settings name = .ok line := by
    intro name hname
    obtain ⟨line, hline, -⟩ := exists_declaredBy (isSome_identifier (h.children name hname))
    exact ⟨line, hline⟩
  have hcode : ∀ f ∈ m.fragments, ∃ code, render paths (Fragment.code f) = .ok code := by
    intro f hf
    obtain ⟨code, hcode, -⟩ := exists_printedAs
      (fun t ht name hname => isSome_identifier (h.code f hf t ht name hname)) paths
    exact ⟨code, hcode⟩
  obtain ⟨lines, hlines⟩ := Schema.exists_mapM_of_forall hline
  obtain ⟨codes, hcodes⟩ := Schema.exists_mapM_of_forall hcode
  exact ⟨_, GeneratedFile.content_eq_ok hlines hcodes⟩

/-- A tree of modules with plain names has files. -/
theorem exists_files {t : ModuleTree} (h : ∀ m ∈ t.nodes, m.IsPlain) (settings : Settings)
    (paths : Paths) : ∃ files, t.files settings paths = .ok files := by
  obtain ⟨files, hfiles, -⟩ :=
    t.exists_filesAt [] fun m hm => (h m hm).exists_content settings paths
  exact ⟨files, hfiles⟩

end EntitySchema.Code

namespace EntitySchema.Schema

open Code (Condition Emittable Fragment Meets ModuleTree Settings)

/-! ## Generation -/

theorem Entry.isPlainIdentifier_variantOf (id : Wire.ComponentId) :
    Text.isPlainIdentifier (variantOf id) = true := by
  have happend : variantOf id = "Component" ++ toString id.toNat := by
    rw [← String.toList_inj, toList_variantOf, String.toList_append]
  rw [happend]
  refine Text.isPlainIdentifier_append (by decide) fun c hc => ?_
  simp [Text.isNameChar, Char.isAlphanum, Code.isDigit_of_mem_toString hc]

namespace Registry

variable {r : Registry} {s : Linked}

/-- All names of a linked schema are plain. -/
theorem isPlainIdentifier_names (linked : r.link = .ok s) :
    ∀ name ∈ s.names, Text.isPlainIdentifier name = true := by
  obtain ⟨hwell, rfl⟩ := link_eq_ok linked
  intro name hname
  rcases List.mem_append.mp hname with hname | hname
  · obtain ⟨t, ht, hname⟩ := List.mem_flatMap.mp hname
    obtain ⟨u, hu, rfl⟩ := List.mem_map.mp ht
    have hu := hwell.typeNames u hu
    obtain ⟨hpackage, hown, -, hfields⟩ := u.promoteBy_keeps hwell.ownData
    rw [hpackage, hown, hfields, List.mem_append, List.mem_cons, List.mem_map] at hname
    rcases hname with hname | rfl | ⟨f, hf, rfl⟩
    · exact hu.package name hname
    · exact hu.name
    · exact hu.fields f hf
  · obtain ⟨c, hc, hname⟩ := List.mem_flatMap.mp hname
    have hnames := hwell.componentNames c hc
    simp only [List.mem_append, List.mem_cons, List.mem_map] at hname
    rcases hname with ((hname | rfl | hname) | ⟨e, he, rfl⟩) | ⟨m, hm, rfl⟩
    · exact hnames.package name hname
    · exact Entry.isPlainIdentifier_variantOf c.id
    · exact hwell.isPlainIdentifier_item _ (component_mem_definedItems hc hname)
    · exact hnames.events e he
    · exact hnames.commands m hm

/-- The code of a linked schema has plain names. -/
theorem Registered.plainNames_placements (registered : r.Registered) (linked : r.link = .ok s)
    {entries : List Entry} (hcomponents : entries.map Entry.component = r.components)
    (hpromoted : ∀ e ∈ entries, e.Promoted s) :
    ∀ p ∈ s.placements entries, Meets .plainNames (Fragment.code p.2) := by
  have hwell := (link_eq_ok linked).1
  apply registered.meets_placements linked hcomponents hpromoted
  constructor
  · have hfixed : ∀ name ∈ dirtyMember :: rootItems, Text.isPlainIdentifier name = true := by decide
    exact fun name hname => List.forall_mem_singleton.mpr (hfixed name hname)
  · intro name hname
    exact List.forall_mem_singleton.mpr (isPlainIdentifier_names linked name hname)
  · intro u hu
    rw [(hwell.typeNames u hu).itemOf_eq]
    exact Code.holds_plainNames_itemIn (hwell.typeNames u hu).package (hwell.typeNames u hu).name
  · intro c hc name hname
    exact Code.holds_plainNames_itemIn (hwell.componentNames c hc).package
      (hwell.isPlainIdentifier_item _ (component_mem_definedItems hc hname))

/-- The modules of a linked schema have plain names. -/
theorem Registered.exists_plain_tree (registered : r.Registered) (linked : r.link = .ok s) :
    ∃ tree, s.moduleTree = .ok tree ∧ ∀ m ∈ tree.nodes, m.IsPlain := by
  obtain ⟨entries, hentries, hcomponents, hpromoted⟩ := registered.exists_entries linked
  refine ⟨_, Linked.moduleTree_of_entries hentries, fun m hm => ?_⟩
  exact Code.isPlain_of_placements (wellPlaced_placements linked hcomponents).segments
    (registered.plainNames_placements linked hcomponents hpromoted) hm

end Registry

namespace Linked

/-- A schema that documents link to is generated under all settings that are accepted. All its names
can be written, and so can all names that its modules and their code are put together from. -/
theorem generate_succeeds {documents : List Document} {s : Linked} {settings : Settings}
    (linked : ofDocuments documents = .ok s) (accepted : settings.validate = .ok ()) :
    (∀ name ∈ s.names, Emittable name) ∧
      ∃ tree files, s.moduleTree = .ok tree ∧ s.generate settings = .ok (tree, files) ∧
        ∀ m ∈ tree.nodes, (∀ name ∈ m.children, Emittable name) ∧
          ∀ f ∈ m.fragments, ∀ token ∈ Fragment.code f, ∀ name ∈ token.names, Emittable name := by
  obtain ⟨r, registered, hlink⟩ := exists_registered linked
  obtain ⟨tree, htree, hplain⟩ := registered.exists_plain_tree hlink
  obtain ⟨paths, hpaths, -⟩ := bind_eq_ok_iff.mp accepted
  obtain ⟨files, hfiles⟩ := Code.exists_files hplain settings paths
  have hgenerate : s.generate settings = .ok (tree, files) := by
    refine bind_eq_ok_iff.mpr ⟨(), mapError_eq_ok accepted, ?_⟩
    refine bind_eq_ok_iff.mpr ⟨paths, mapError_eq_ok hpaths, ?_⟩
    refine bind_eq_ok_iff.mpr ⟨tree, mapError_eq_ok htree, ?_⟩
    exact bind_eq_ok_iff.mpr ⟨files, mapError_eq_ok hfiles, rfl⟩
  refine ⟨fun name hname => ?_, tree, files, htree, hgenerate, fun m hm => ⟨?_, ?_⟩⟩
  · exact Code.emittable_of_isPlainIdentifier (Registry.isPlainIdentifier_names hlink name hname)
  · exact fun name hname =>
      Code.emittable_of_isPlainIdentifier ((hplain m hm).children name hname)
  · exact fun f hf token htoken name hname =>
      Code.emittable_of_isPlainIdentifier ((hplain m hm).code f hf token htoken name hname)

/-- A document with keywords for all its names is generated. -/
theorem generate_succeeds_words :
    ∃ s tree files, ofDocuments [Registry.wordsDocument] = .ok s ∧
      ({} : Settings).validate = .ok () ∧ s.generate {} = .ok (tree, files) ∧
      ∀ name ∈ ["self", "Self", "type", "super", "crate", "Crate", "CrateUpdate", "CrateCrate"],
        name ∈ s.names ∧ Emittable name := by
  obtain ⟨s, linked⟩ : ∃ s, ofDocuments [Registry.wordsDocument] = .ok s := ⟨_, rfl⟩
  have accepted : ({} : Settings).validate = .ok () := by decide
  obtain ⟨hnames, tree, files, -, hgenerate, -⟩ := generate_succeeds linked accepted
  have hmem : ∀ name ∈ ["self", "Self", "type", "super", "crate", "Crate", "CrateUpdate",
      "CrateCrate"], name ∈ s.names := by
    obtain rfl := Except.ok.inj linked
    decide
  exact ⟨s, tree, files, linked, accepted, hgenerate,
    fun name hname => ⟨hmem name hname, hnames name (hmem name hname)⟩⟩

end Linked

end EntitySchema.Schema
