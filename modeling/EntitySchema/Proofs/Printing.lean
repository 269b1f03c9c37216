import EntitySchema.Code.ModuleTree
import EntitySchema.Proofs.Identifiers
import EntitySchema.Proofs.Linking

/-!
# The text of generated code

The rules by which code becomes text, stated by themselves. A name is written as it stands unless it
is a keyword of the generated language; a keyword is written as a raw identifier, and the four that
cannot be raw with an underscore at the end. A path is written segment by segment with `::` between.
Tokens are separated by one blank, but none stands after an opening and before a closing parenthesis
or bracket. A submodule is declared in one line, with a line in front that says where its file is
unless the file is found without being told.

Code whose names are identifiers is printed by these rules, and so are the declarations of
submodules.
-/

namespace EntitySchema.Code

/-! ## Keywords -/

/-- The keywords that are in use. -/
def strictKeywords : List String :=
  ["as", "async", "await", "break", "const", "continue", "crate", "dyn", "else", "enum", "extern",
    "false", "fn", "for", "if", "impl", "in", "let", "loop", "match", "mod", "move", "mut", "pub",
    "ref", "return", "self", "Self", "static", "struct", "super", "trait", "true", "type", "unsafe",
    "use", "where", "while"]

/-- The keywords that are set aside. -/
def reservedKeywords : List String :=
  ["abstract", "become", "box", "do", "final", "gen", "macro", "override", "priv", "try", "typeof",
    "unsized", "virtual", "yield"]

/-- The keywords that cannot be raw identifiers. -/
def placeKeywords : List String := ["crate", "self", "Self", "super"]

/-- A keyword of the generated language, in any of its editions. -/
def IsKeyword (word : String) : Prop := word ∈ strictKeywords ∨ word ∈ reservedKeywords

theorem isKeyword_iff {word : String} : IsKeyword word ↔ word ∈ keywords ∨ word ∈ pathWords := by
  have hstrict : ∀ w ∈ strictKeywords, w ∈ keywords ∨ w ∈ pathWords := by decide
  have hreserved : ∀ w ∈ reservedKeywords, w ∈ keywords ∨ w ∈ pathWords := by decide
  have hkeywords : ∀ w ∈ keywords, w ∈ strictKeywords ∨ w ∈ reservedKeywords := by decide
  have hpathWords : ∀ w ∈ pathWords, w ∈ strictKeywords ∨ w ∈ reservedKeywords := by
    decide
  constructor
  · rintro (h | h)
    · exact hstrict word h
    · exact hreserved word h
  · rintro (h | h)
    · exact hkeywords word h
    · exact hpathWords word h

theorem mem_placeKeywords {word : String} : word ∈ placeKeywords ↔ word ∈ pathWords := by
  simp only [placeKeywords, pathWords, List.mem_cons, List.not_mem_nil, or_false]
  tauto

theorem underscored_notMem_keywords {word : String} (h : word ∈ pathWords) :
    word ++ "_" ∉ keywords := by
  revert word
  decide

/-! ## Names and tokens -/

/-- How a name is written. -/
inductive WrittenName : String → String → Prop
  /-- A keyword is marked as a raw identifier. -/
  | raw {name : String} : IsKeyword name → name ∉ placeKeywords → WrittenName name ("r#" ++ name)
  /-- A keyword that cannot be raw gets an underscore. -/
  | extended {name : String} : name ∈ placeKeywords → WrittenName name (name ++ "_")
  /-- Any other name is written as it stands. -/
  | plain {name : String} : ¬ IsKeyword name → WrittenName name name

/-- How a token is written, as a sequence of words and punctuation marks. -/
inductive Token.SpelledAs (paths : Paths) : Token → List String → Prop
  | word (text : String) : SpelledAs paths (.word text) [text]
  | name {own written : String} : WrittenName own written → SpelledAs paths (.name own) [written]
  | item {package : List String} {own : String} {way : List String} :
    List.Forall₂ WrittenName (package ++ [own]) way →
    SpelledAs paths (.item package own) (paths.root ++ way.flatMap fun step => ["::", step])
  | runtime {own written : String} : WrittenName own written →
    SpelledAs paths (.runtime own) (paths.runtime ++ ["::", written])
  | library : SpelledAs paths .library paths.runtime

/-- No blank stands between a token and the next one: the first opens or the second closes. -/
def Touches (token next : String) : Prop :=
  (token = "(" ∨ token = "[") ∨ next = ")" ∨ next = "]"

/-- The text of a sequence of words and punctuation marks. -/
inductive LaidOut : List String → String → Prop
  | nil : LaidOut [] ""
  | single (token : String) : LaidOut [token] token
  | touching {token next text : String} {rest : List String} : Touches token next →
    LaidOut (next :: rest) text → LaidOut (token :: next :: rest) (token ++ text)
  | apart {token next text : String} {rest : List String} : ¬ Touches token next →
    LaidOut (next :: rest) text → LaidOut (token :: next :: rest) (token ++ " " ++ text)

/-- The text of code. -/
def PrintedAs (paths : Paths) (code : Code) (text : String) : Prop :=
  ∃ spelled, List.Forall₂ (Token.SpelledAs paths) code spelled ∧ LaidOut spelled.flatten text

/-- The declaration of the submodule with a name, given the name of its file. -/
inductive DeclaredBy (fileName name : String) : String → Prop
  /-- The file is found without being told. -/
  | found {written : String} : fileName = "mod.rs" → WrittenName name written →
    DeclaredBy fileName name ("pub mod " ++ written ++ ";")
  /-- The file is named. -/
  | named {written : String} : fileName ≠ "mod.rs" → WrittenName name written →
    DeclaredBy fileName name
      ("#[path = \"" ++ name ++ "/" ++ fileName ++ "\"]" ++ "\n" ++ ("pub mod " ++ written ++ ";"))

/-! ## Printing by the rules -/

/-- The identifier of a name is what is written for it. -/
theorem writtenName_of_identifier {name written : String} (h : identifier name = some written) :
    WrittenName name written := by
  simp only [identifier] at h
  by_cases hpath : name ∈ pathWords
  · rw [sanitize_of_mem hpath, if_neg (underscored_notMem_keywords hpath)] at h
    split_ifs at h
    rw [← Option.some.inj h]
    exact .extended (mem_placeKeywords.mpr hpath)
  · rw [sanitize_of_notMem hpath] at h
    by_cases hword : name ∈ keywords
    · rw [if_pos hword] at h
      rw [← Option.some.inj h]
      exact .raw (isKeyword_iff.mpr (Or.inl hword)) (mt mem_placeKeywords.mp hpath)
    · rw [if_neg hword] at h
      split_ifs at h
      rw [← Option.some.inj h]
      exact .plain (by rw [isKeyword_iff, not_or]; exact ⟨hword, hpath⟩)

/-- A name that has an identifier is written as it. -/
theorem exists_writtenName {name : String} (h : (identifier name).isSome = true) :
    ∃ written, spellName name = .ok written ∧ WrittenName name written := by
  obtain ⟨written, hwritten⟩ := Option.isSome_iff_exists.mp h
  refine ⟨written, ?_, writtenName_of_identifier hwritten⟩
  rw [spellName, hwritten]

/-- The names that the spelling of a token is put together from. -/
def Token.names : Token → List String
  | .word _ | .library => []
  | .name own | .runtime own => [own]
  | .item package own => package ++ [own]

/-- A token whose names have identifiers is spelled. -/
theorem Token.exists_spelledAs {t : Token} (h : ∀ name ∈ t.names, (identifier name).isSome = true)
    (paths : Paths) : ∃ spelled, t.spell paths = .ok spelled ∧ t.SpelledAs paths spelled := by
  cases t with
  | word text => exact ⟨_, rfl, .word text⟩
  | library => exact ⟨_, rfl, .library⟩
  | name own =>
      obtain ⟨written, hspell, hwritten⟩ := exists_writtenName (h own List.mem_cons_self)
      exact ⟨_, bind_eq_ok_iff.mpr ⟨written, hspell, rfl⟩, .name hwritten⟩
  | runtime own =>
      obtain ⟨written, hspell, hwritten⟩ := exists_writtenName (h own List.mem_cons_self)
      exact ⟨_, bind_eq_ok_iff.mpr ⟨written, hspell, rfl⟩, .runtime hwritten⟩
  | item package own =>
      obtain ⟨way, hspell, hwritten⟩ :=
        Schema.exists_mapM_eq_ok fun name hname => exists_writtenName (h name hname)
      exact ⟨_, bind_eq_ok_iff.mpr ⟨way, hspell, rfl⟩, .item hwritten⟩

theorem adjoins_iff {token next : String} : adjoins token next = true ↔ Touches token next := by
  simp [adjoins, Touches, or_assoc]

theorem laidOut_layOut (tokens : List String) : LaidOut tokens (String.join (layOut tokens)) := by
  fun_induction layOut tokens with
  | case1 => exact .nil
  | case2 token =>
      rw [String.join_cons, String.join_nil, String.append_empty]
      exact .single token
  | case3 token next rest htouches ih =>
      rw [String.join_cons]
      exact .touching (adjoins_iff.mp htouches) ih
  | case4 token next rest hapart ih =>
      rw [String.join_cons, String.join_cons, ← String.append_assoc]
      exact .apart (mt adjoins_iff.mpr hapart) ih

/-- Code whose names have identifiers is printed. -/
theorem exists_printedAs {code : Code}
    (h : ∀ t ∈ code, ∀ name ∈ t.names, (identifier name).isSome = true) (paths : Paths) :
    ∃ text, render paths code = .ok text ∧ PrintedAs paths code text := by
  obtain ⟨spelled, hspell, hspelled⟩ :=
    Schema.exists_mapM_eq_ok fun t ht => Token.exists_spelledAs (h t ht) paths
  exact ⟨_, bind_eq_ok_iff.mpr ⟨spelled, hspell, rfl⟩, spelled, hspelled, laidOut_layOut _⟩

/-- A submodule whose name has an identifier is declared. -/
theorem exists_declaredBy {settings : Settings} {name : String}
    (h : (identifier name).isSome = true) :
    ∃ text, GeneratedFile.declaration settings name = .ok text ∧
      DeclaredBy settings.fileName name text := by
  obtain ⟨written, hspell, hwritten⟩ := exists_writtenName h
  rw [GeneratedFile.declaration, hspell]
  by_cases hfile : settings.fileName = "mod.rs"
  · have hlayout : settings.usesDefaultLayout = true := decide_eq_true hfile
    exact ⟨_, by rw [hlayout]; rfl, .found hfile hwritten⟩
  · have hlayout : settings.usesDefaultLayout = false := decide_eq_false hfile
    exact ⟨_, by rw [hlayout]; rfl, .named hfile hwritten⟩

end EntitySchema.Code
