import EntitySchema.Proofs.EmittedPaths
import EntitySchema.Proofs.Printing

/-!
# The files of a tree of modules

Fragments are written into a tree of modules in any order, each for the module of a package or for
the root. The files of the tree are then one for the root and one for every package on the way to a
fragment. A file holds the text of the fragments that were written for its module, in the order they
were written, and declares the submodules of its module.

## Implementation notes

Counting the modules, listing their paths and writing their files are three recursions over the tree.
Each is compared with the list of modules, `ModuleTree.nodes`, and so they agree with each other. The
modules are listed in the lexicographic order of their paths, because submodules ascend by name in
every module: so a module comes before its submodules and siblings ascend. The path of a file divides
at its slashes into the path of its module and the parts of the file name, which keeps the files of
different modules apart.
-/

namespace EntitySchema.Text

theorem pathParts_append (directory name : String) :
    pathParts (directory ++ "/" ++ name) = pathParts directory ++ pathParts name := by
  have hchars : (directory ++ "/" ++ name).toList = directory.toList ++ '/' :: name.toList := by
    simp
  rw [pathParts, hchars, divide_append_cons, List.map_append]
  rfl

theorem pathParts_of_notMem {name : String} (h : '/' ∉ name.toList) : pathParts name = [name] := by
  rw [pathParts, divide_of_notMem h]
  simp

/-- Names without slashes are the first parts of the path they are joined to. -/
theorem pathParts_intercalate {path : List String} (h : ∀ s ∈ path, '/' ∉ s.toList)
    (name : String) :
    pathParts ("/".intercalate (path ++ [name])) = path ++ pathParts name := by
  induction path with
  | nil => rw [List.nil_append, String.intercalate_singleton, List.nil_append]
  | cons s rest ih =>
      obtain ⟨hs, hrest⟩ := List.forall_mem_cons.mp h
      rw [List.cons_append, String.intercalate_cons_of_ne_nil (by simp), pathParts_append,
        pathParts_of_notMem hs, ih hrest]
      rfl

/-- A name that does not begin with a slash is joined to a directory by one slash. -/
theorem joinPath_intercalate {path : List String} (h : ∀ s ∈ path, s ≠ "" ∧ '/' ∉ s.toList)
    {name : String} (relative : name.startsWith "/" = false) :
    joinPath ("/".intercalate path) name = "/".intercalate (path ++ [name]) := by
  rcases List.eq_nil_or_concat' path with rfl | ⟨before, last, rfl⟩
  · rw [List.nil_append, String.intercalate_singleton, joinPath]
    simp
  · obtain ⟨hlast, hslash⟩ := h last (by simp)
    -- the directory ends with the characters of its last name
    have hends : ∃ start, ("/".intercalate (before ++ [last])).toList = start ++ last.toList := by
      cases before with
      | nil => exact ⟨[], by simp⟩
      | cons s rest =>
          rw [String.intercalate_append_of_ne_nil (by simp) (by simp), String.toList_append,
            String.intercalate_singleton]
          exact ⟨_, rfl⟩
    obtain ⟨start, hstart⟩ := hends
    have hchars : last.toList ≠ [] := by simpa using hlast
    have hne : "/".intercalate (before ++ [last]) ≠ "" := by
      intro hempty
      rw [hempty] at hstart
      exact hchars (List.append_eq_nil_iff.mp hstart.symm).2
    have hopen : ("/".intercalate (before ++ [last])).endsWith "/" = false := by
      rw [Bool.eq_false_iff]
      intro hclosed
      rw [String.endsWith_eq_endsWith_toSlice, String.Slice.endsWith_string_iff,
        String.copy_toSlice, hstart] at hclosed
      have hsuffix : ['/'] <:+ last.toList :=
        List.suffix_of_suffix_length_le hclosed (List.suffix_append start last.toList)
          (List.length_pos_iff.mpr hchars)
      exact hslash (hsuffix.subset (by simp))
    rw [joinPath, if_neg (by simp [hne, relative]), hopen, if_neg Bool.false_ne_true,
      String.intercalate_append_of_ne_nil (l := before ++ [last]) (by simp) (by simp),
      String.intercalate_singleton]

/-- Names that are joined one after the other are divided by slashes. -/
theorem foldl_joinPath {path : List String} (h : ∀ s ∈ path, s ≠ "" ∧ '/' ∉ s.toList) :
    path.foldl joinPath "" = "/".intercalate path := by
  induction path using List.reverseRecOn with
  | nil => rfl
  | append_singleton before last ih =>
      obtain ⟨hbefore, hlast⟩ := List.forall_mem_append.mp h
      have hslash := (List.forall_mem_singleton.mp hlast).2
      have hrelative : last.startsWith "/" = false := by
        rw [Bool.eq_false_iff]
        intro hstart
        rw [String.startsWith_eq_startsWith_toSlice, String.Slice.startsWith_string_iff,
          String.copy_toSlice] at hstart
        exact hslash (hstart.subset (by simp))
      rw [List.foldl_append, ih hbefore, List.foldl_cons, List.foldl_nil,
        joinPath_intercalate hbefore hrelative]

end EntitySchema.Text

namespace EntitySchema.Code

/-! ### Names of modules -/

theorem identifier_sanitize (name : String) : identifier (sanitize name) = identifier name := by
  simp [identifier]

/-- A name that can be spelled is not empty and has no slash in it. -/
theorem noSlash_of_identifier {name : String} (h : (identifier name).isSome = true) :
    sanitize name ≠ "" ∧ '/' ∉ (sanitize name).toList := by
  have hkeywords : ∀ k ∈ keywords, k ≠ "" ∧ '/' ∉ k.toList := by decide
  simp only [identifier] at h
  split_ifs at h with hkeyword hidentifier
  · exact hkeywords _ hkeyword
  · unfold Text.isIdentifier at hidentifier
    split at hidentifier
    · cases hidentifier
    · rename_i c rest hchars
      rw [Bool.and_eq_true] at hidentifier
      obtain ⟨hc, hrest⟩ := hidentifier
      refine ⟨?_, ?_⟩
      · intro hempty
        rw [hempty] at hchars
        cases hchars
      · rw [hchars, List.mem_cons]
        rintro (rfl | hmem)
        · exact absurd hc (by decide)
        · exact absurd (List.all_eq_true.mp hrest _ hmem) (by decide)
  · cases h

/-! ### The order of paths -/

/-- A path comes before the paths that go on from it. -/
theorem not_prefix_of_lt {p q : List String} (h : p < q) : ¬ q <+: p :=
  fun hway => hway.le h

theorem lt_of_siblings {parent : List String} {a b : String} (h : parent ++ [a] < parent ++ [b]) :
    a < b := by
  induction parent with
  | nil =>
      cases h with
      | rel h => exact h
      | cons h => cases h
  | cons name rest ih =>
      cases h with
      | rel h => exact absurd h (lt_irrefl name)
      | cons h => exact ih h

/-! ### Writing -/

/-- What is written into a tree of modules. -/
inductive Writing where
  /-- A fragment for the module of a dotted package. -/
  | append (package : String) (fragment : Fragment)
  /-- A fragment for the root. -/
  | root (fragment : Fragment)

namespace Writing

/-- The fragment that is written. -/
def fragment : Writing → Fragment
  | .append _ fragment | .root fragment => fragment

/-- The package of the module that is written to. -/
def package : Writing → String
  | .append package _ => package
  | .root _ => ""

/-- The path of the module that is written to: the sanitized segments of the package. -/
def path : Writing → List String
  | .append package _ => ModuleTree.modulePath package
  | .root _ => []

/-- The tree after a writing. -/
def apply (t : ModuleTree) : Writing → ModuleTree
  | .append package fragment => t.append package fragment
  | .root fragment => t.appendRoot fragment

/-- The package consists of identifiers with points between. -/
def IsNamed (w : Writing) : Prop :=
  ∀ s ∈ Text.segments w.package, s ≠ "" → (identifier s).isSome = true
deriving Decidable

/-- All names in the fragment are identifiers. -/
def IsPrintable (w : Writing) : Prop :=
  ∀ t ∈ w.fragment.code, ∀ name ∈ t.names, (identifier name).isSome = true
deriving Decidable

/-- The writing as a fragment that is placed under a package. -/
def placement (w : Writing) : String × Fragment := (w.package, w.fragment)

theorem modulePath_package (w : Writing) : ModuleTree.modulePath w.package = w.path := by
  cases w <;> rfl

/-- A module on the way to a fragment has a name that can be spelled. -/
theorem IsNamed.exists_segment {w : Writing} (h : w.IsNamed) {name : String} (hname : name ∈ w.path) :
    ∃ s, (identifier s).isSome = true ∧ sanitize s = name := by
  rw [← w.modulePath_package] at hname
  obtain ⟨s, hs, rfl⟩ := List.mem_map.mp hname
  obtain ⟨hs, hne⟩ := List.mem_filter.mp hs
  exact ⟨s, h s hs (by simpa using hne), rfl⟩

end Writing

namespace ModuleTree

/-- The tree after some writings. -/
def ofWritings (ws : List Writing) : ModuleTree := ws.foldl Writing.apply empty

theorem ofWritings_eq (ws : List Writing) :
    ofWritings ws = ofPlacements (ws.map Writing.placement) := by
  have happly : Writing.apply = fun t w => t.append w.placement.1 w.placement.2 := by
    funext t w
    cases w <;> rfl
  rw [ofWritings, ofPlacements, List.foldl_map, happly]

/-! ### The list of modules -/

mutual

theorem count_eq_length (t : ModuleTree) (path : List String) :
    t.count = (t.nodesAt path).length := by
  cases t with
  | node fragments children =>
      rw [count, nodesAt, List.length_cons, countAll_eq_length children path, Nat.add_comm]

theorem countAll_eq_length (children : List (String × ModuleTree)) (path : List String) :
    countAll children = (nodesOf path children).length := by
  cases children with
  | nil => rfl
  | cons c rest =>
      obtain ⟨name, m⟩ := c
      rw [countAll, nodesOf, List.length_append, count_eq_length m (path ++ [name]),
        countAll_eq_length rest path]

end

mutual

theorem pathsAt_eq_map (t : ModuleTree) (path : List String) :
    t.pathsAt path = (t.nodesAt path).map Module.path := by
  cases t with
  | node fragments children =>
      rw [pathsAt, nodesAt, List.map_cons, pathsOf_eq_map children path]

theorem pathsOf_eq_map (children : List (String × ModuleTree)) (path : List String) :
    pathsOf path children = (nodesOf path children).map Module.path := by
  cases children with
  | nil => rfl
  | cons c rest =>
      obtain ⟨name, m⟩ := c
      rw [pathsOf, nodesOf, List.map_append, pathsAt_eq_map m (path ++ [name]),
        pathsOf_eq_map rest path]

end

/-- The paths are those of the modules, in the same order. -/
theorem paths_eq_map (t : ModuleTree) : t.paths = t.nodes.map Module.path := pathsAt_eq_map t []

/-- The modules of an ordered tree come in the lexicographic order of their paths. -/
theorem Ordered.pairwise_nodesAt {t : ModuleTree} (h : t.Ordered) (start : List String) :
    (t.nodesAt start).Pairwise fun m n => m.path < n.path := by
  induction h generalizing start with
  | @node fragments children hsorted hchildren ih =>
      rw [nodesAt, nodesOf_eq_flatMap, List.pairwise_cons, List.pairwise_flatMap]
      refine ⟨?_, fun c hc => ih c hc (start ++ [c.1]), ?_⟩
      · intro m hm
        obtain ⟨c, hc, hm⟩ := List.mem_flatMap.mp hm
        obtain ⟨path, hpath, -⟩ := (hchildren c hc).exists_lookup hm
        calc start = start ++ [] := (List.append_nil start).symm
          _ < start ++ ([c.1] ++ path) := List.append_left_lt (by simp)
          _ = m.path := by rw [hpath, List.append_assoc]
      · refine hsorted.imp_of_mem fun {c d} hc hd hlt m hm n hn => ?_
        obtain ⟨p, hp, -⟩ := (hchildren c hc).exists_lookup hm
        obtain ⟨q, hq, -⟩ := (hchildren d hd).exists_lookup hn
        calc m.path = start ++ c.1 :: p := by rw [hp, List.append_assoc, List.singleton_append]
          _ < start ++ d.1 :: q := List.append_left_lt (List.Lex.rel hlt)
          _ = n.path := by rw [hq, List.append_assoc, List.singleton_append]

theorem ordered_ofWritings (ws : List Writing) : (ofWritings ws).Ordered := by
  rw [ofWritings_eq]
  exact ordered_empty.foldl

theorem mem_childrenAt_ofWritings {ws : List Writing} {path : List String} {name : String} :
    name ∈ (ofWritings ws).childrenAt path ↔ ∃ w ∈ ws, path ++ [name] <+: w.path := by
  rw [ofWritings_eq, ofPlacements, ordered_empty.mem_childrenAt_foldl, childrenAt_empty]
  simp [Writing.placement, Writing.modulePath_package]

theorem fragmentsAt_ofWritings (ws : List Writing) (path : List String) :
    (ofWritings ws).fragmentsAt path =
      (ws.filter fun w => w.path = path).map Writing.fragment := by
  rw [ofWritings_eq, ofPlacements, ordered_empty.fragmentsAt_foldl, fragmentsAt_empty,
    List.filter_map, List.map_map]
  simp [Writing.placement, Writing.modulePath_package, Function.comp_def]

/-- The submodules of a module stand in the ascending order of their names. -/
theorem Ordered.pairwise_childrenAt {t : ModuleTree} (h : t.Ordered) (path : List String) :
    (t.childrenAt path).Pairwise (· < ·) := by
  induction path generalizing t with
  | nil =>
      cases h with
      | node hsorted _ => exact List.pairwise_map.mpr hsorted
  | cons name rest ih =>
      cases h with
      | node _ hchildren => exact ih (ordered_child hchildren name)

/-- A module other than the root is declared by the module above it. -/
theorem Ordered.mem_childrenAt_of_node {t : ModuleTree} (h : t.Ordered)
    {start before : List String} {name : String} {m : Module} (hm : m ∈ t.nodesAt start)
    (hpath : m.path = start ++ (before ++ [name])) : name ∈ t.childrenAt before := by
  induction h generalizing start before with
  | @node fragments children hsorted hchildren ih =>
      rcases mem_nodesAt_node.mp hm with rfl | ⟨c, hc, hm⟩
      · simp at hpath
      · obtain ⟨path, hlookup, -⟩ := (hchildren c hc).exists_lookup hm
        cases before with
        | nil =>
            have hname : c.1 = name := by
              simp only [hlookup, List.append_assoc, List.append_cancel_left_eq, List.nil_append,
                List.singleton_append, List.cons.injEq] at hpath
              exact hpath.1
            exact hname ▸ List.mem_map_of_mem hc
        | cons step before =>
            have hstep : c.1 = step ∧ path = before ++ [name] := by
              simpa [hlookup] using hpath
            obtain ⟨rfl, rfl⟩ := hstep
            rw [childrenAt, child_of_mem hsorted hc]
            exact ih c hc hm hlookup

/-- The modules of written fragments are the root and those on the way to a fragment. -/
theorem mem_paths_ofWritings {ws : List Writing} {path : List String} :
    path ∈ (ofWritings ws).paths ↔ path = [] ∨ ∃ w ∈ ws, path <+: w.path := by
  rw [paths_eq_map, List.mem_map]
  constructor
  · rintro ⟨m, hm, rfl⟩
    rcases List.eq_nil_or_concat' m.path with hroot | ⟨before, name, hpath⟩
    · exact Or.inl hroot
    · have hdeclared := (ordered_ofWritings ws).mem_childrenAt_of_node hm hpath
      rw [mem_childrenAt_ofWritings] at hdeclared
      exact Or.inr (hpath ▸ hdeclared)
  · rintro (rfl | ⟨w, hw, hpath⟩)
    · exact exists_root _ []
    · rw [ofWritings_eq]
      rw [← w.modulePath_package] at hpath
      exact exists_node_of_prefix (List.mem_map_of_mem hw) hpath

/-- A module of written fragments holds those with its path and declares the next names on the way
to fragments further down. -/
theorem node_ofWritings {ws : List Writing} {m : Module} (hm : m ∈ (ofWritings ws).nodes) :
    m.fragments = (ws.filter fun w => w.path = m.path).map Writing.fragment ∧
      m.children.Pairwise (· < ·) ∧
      ∀ name, name ∈ m.children ↔ ∃ w ∈ ws, m.path ++ [name] <+: w.path := by
  obtain ⟨path, hpath, hfragments, hchildren⟩ := (ordered_ofWritings ws).exists_lookup hm
  rw [List.nil_append] at hpath
  subst hpath
  refine ⟨?_, ?_, fun name => ?_⟩
  · rw [hfragments, fragmentsAt_ofWritings]
  · rw [hchildren]
    exact (ordered_ofWritings ws).pairwise_childrenAt m.path
  · rw [hchildren, mem_childrenAt_ofWritings]

end ModuleTree

/-! ### Files -/

section Files

open Schema (exists_mapM_eq_ok)
open ModuleTree (ofWritings)

variable {settings : Settings} {paths : Paths} {ws : List Writing}

/-- The file of the module with a path after some writings. -/
structure FileOf (settings : Settings) (paths : Paths) (ws : List Writing) (path : List String)
    (file : GeneratedFile) : Prop where
  /-- It stands in the directory with the path of the module. -/
  place : file.path = "/".intercalate (path ++ [settings.fileName])
  /-- Behind two fixed lines it declares the submodules, each once and in the order of their names,
  and then holds the code of the fragments that were written for the module, in that order. -/
  text : ∃ children declarations codes,
    children.Pairwise (· < ·) ∧
    (∀ name, name ∈ children ↔ ∃ w ∈ ws, path ++ [name] <+: w.path) ∧
    List.Forall₂ (DeclaredBy settings.fileName) children declarations ∧
    List.Forall₂ (fun w code => PrintedAs paths w.fragment.code code)
      (ws.filter fun w => w.path = path) codes ∧
    file.text = GeneratedFile.header ++ "\n\n" ++ GeneratedFile.silenced ++ "\n\n" ++
      String.join (declarations.map fun line => line ++ "\n") ++
      (if declarations.isEmpty then "" else "\n") ++
      String.join (codes.map fun code => code ++ "\n\n")

theorem GeneratedFile.content_eq_ok {fragments : List Fragment}
    {children declarations codes : List String}
    (hdeclarations : children.mapM (declaration settings) = .ok declarations)
    (hcodes : fragments.mapM (fun f => render paths f.code) = .ok codes) :
    content settings paths fragments children =
      .ok (header ++ "\n\n" ++ silenced ++ "\n\n" ++
        String.join (declarations.map fun line => line ++ "\n") ++
        (if declarations.isEmpty then "" else "\n") ++
        String.join (codes.map fun code => code ++ "\n\n")) := by
  rw [content, hdeclarations, hcodes]
  rfl

/-- The directory of the module with a path. -/
def directoryOf (path : List String) : String := path.foldl Text.joinPath ""

theorem directoryOf_append (path : List String) (name : String) :
    directoryOf (path ++ [name]) = Text.joinPath (directoryOf path) name := by
  rw [directoryOf, List.foldl_append]
  rfl

/-- A file is written for a module. -/
structure Module.WrittenTo (settings : Settings) (paths : Paths) (m : Module)
    (file : GeneratedFile) : Prop where
  place : file.path = Text.joinPath (directoryOf m.path) settings.fileName
  text : GeneratedFile.content settings paths m.fragments m.children = .ok file.text

mutual

/-- The files of a tree whose modules have texts are written for its modules, in the same order. -/
theorem ModuleTree.exists_filesAt (t : ModuleTree) (path : List String)
    (h : ∀ m ∈ t.nodesAt path,
      ∃ text, GeneratedFile.content settings paths m.fragments m.children = .ok text) :
    ∃ files, t.filesAt settings paths (directoryOf path) = .ok files ∧
      List.Forall₂ (Module.WrittenTo settings paths) (t.nodesAt path) files := by
  cases t with
  | node fragments children =>
      rw [ModuleTree.nodesAt] at h ⊢
      obtain ⟨text, htext⟩ := h _ List.mem_cons_self
      obtain ⟨below, hbelow, hwritten⟩ := ModuleTree.exists_filesOf children path fun m hm =>
        h m (List.mem_cons_of_mem _ hm)
      refine ⟨_, bind_eq_ok_iff.mpr ⟨text, htext, bind_eq_ok_iff.mpr ⟨below, hbelow, rfl⟩⟩, ?_⟩
      exact .cons ⟨rfl, htext⟩ hwritten

theorem ModuleTree.exists_filesOf (children : List (String × ModuleTree)) (path : List String)
    (h : ∀ m ∈ ModuleTree.nodesOf path children,
      ∃ text, GeneratedFile.content settings paths m.fragments m.children = .ok text) :
    ∃ files, ModuleTree.filesOf settings paths (directoryOf path) children = .ok files ∧
      List.Forall₂ (Module.WrittenTo settings paths) (ModuleTree.nodesOf path children) files := by
  cases children with
  | nil => exact ⟨[], rfl, .nil⟩
  | cons c rest =>
      obtain ⟨name, m⟩ := c
      rw [ModuleTree.nodesOf] at h ⊢
      obtain ⟨hm, hrest⟩ := List.forall_mem_append.mp h
      obtain ⟨files, hfiles, hwritten⟩ := ModuleTree.exists_filesAt m (path ++ [name]) hm
      obtain ⟨others, hothers, hwrittenRest⟩ := ModuleTree.exists_filesOf rest path hrest
      rw [directoryOf_append] at hfiles
      refine ⟨files ++ others, ?_, List.rel_append hwritten hwrittenRest⟩
      exact bind_eq_ok_iff.mpr ⟨files, hfiles, bind_eq_ok_iff.mpr ⟨others, hothers, rfl⟩⟩

end

/-- The file of a module whose names can be spelled stands in the directory with its path. -/
theorem joinPath_directoryOf (relative : settings.fileName.startsWith "/" = false)
    {path : List String}
    (h : ∀ name ∈ path, ∃ s, (identifier s).isSome = true ∧ sanitize s = name) :
    Text.joinPath (directoryOf path) settings.fileName =
      "/".intercalate (path ++ [settings.fileName]) := by
  have hnames : ∀ name ∈ path, name ≠ "" ∧ '/' ∉ name.toList := by
    intro name hname
    obtain ⟨s, hs, rfl⟩ := h name hname
    exact noSlash_of_identifier hs
  rw [directoryOf, Text.foldl_joinPath hnames, Text.joinPath_intercalate hnames relative]

/-- The modules on the way to named packages have names that can be spelled. -/
theorem exists_segment_of_mem_paths (named : ∀ w ∈ ws, w.IsNamed) {path : List String}
    (hpath : path ∈ (ofWritings ws).paths) :
    ∀ name ∈ path, ∃ s, (identifier s).isSome = true ∧ sanitize s = name := by
  intro name hname
  rcases ModuleTree.mem_paths_ofWritings.mp hpath with rfl | ⟨w, hw, hway⟩
  · cases hname
  · exact (named w hw).exists_segment (hway.subset hname)

/-- A module of written fragments has a text, and a file that is written for it is as it should
be. -/
theorem fileOf_ofWritings (relative : settings.fileName.startsWith "/" = false)
    (named : ∀ w ∈ ws, w.IsNamed) (printable : ∀ w ∈ ws, w.IsPrintable) {m : Module}
    (hm : m ∈ (ofWritings ws).nodes) :
    (∃ text, GeneratedFile.content settings paths m.fragments m.children = .ok text) ∧
      ∀ file, m.WrittenTo settings paths file → FileOf settings paths ws m.path file := by
  obtain ⟨hfragments, hsorted, hchildren⟩ := ModuleTree.node_ofWritings hm
  have hline : ∀ name ∈ m.children, ∃ line, GeneratedFile.declaration settings name = .ok line ∧
      DeclaredBy settings.fileName name line := by
    intro name hname
    obtain ⟨w, hw, hpath⟩ := (hchildren name).mp hname
    have hname : name ∈ w.path := hpath.subset (by simp)
    obtain ⟨s, hs, rfl⟩ := (named w hw).exists_segment hname
    exact exists_declaredBy (identifier_sanitize s ▸ hs)
  have hcode : ∀ f ∈ m.fragments, ∃ code, render paths f.code = .ok code ∧
      PrintedAs paths f.code code := by
    intro f hf
    rw [hfragments] at hf
    obtain ⟨w, hw, rfl⟩ := List.mem_map.mp hf
    exact exists_printedAs (printable w (List.mem_of_mem_filter hw)) paths
  obtain ⟨lines, hlines, hdeclared⟩ := exists_mapM_eq_ok hline
  obtain ⟨codes, hcodes, hprinted⟩ := exists_mapM_eq_ok hcode
  have htext := GeneratedFile.content_eq_ok hlines hcodes
  rw [hfragments, List.forall₂_map_left_iff] at hprinted
  have hpath : m.path ∈ (ofWritings ws).paths := by
    rw [ModuleTree.paths_eq_map]
    exact List.mem_map_of_mem hm
  refine ⟨⟨_, htext⟩, fun file hfile => ⟨?_, ?_⟩⟩
  · rw [hfile.place, joinPath_directoryOf relative (exists_segment_of_mem_paths named hpath)]
  · exact ⟨m.children, lines, codes, hsorted, hchildren, hdeclared, hprinted,
      Except.ok.inj (hfile.text.symm.trans htext)⟩

/-- Files in the directories of different modules have different paths. -/
theorem place_injective (named : ∀ w ∈ ws, w.IsNamed) (name : String) {p q : List String}
    (hp : p ∈ (ofWritings ws).paths) (hq : q ∈ (ofWritings ws).paths)
    (h : "/".intercalate (p ++ [name]) = "/".intercalate (q ++ [name])) : p = q := by
  have hslash : ∀ path ∈ (ofWritings ws).paths, ∀ s ∈ path, '/' ∉ s.toList := by
    intro path hpath s hs
    obtain ⟨s, hspelled, rfl⟩ := exists_segment_of_mem_paths named hpath s hs
    exact (noSlash_of_identifier hspelled).2
  have hparts := congrArg Text.pathParts h
  rw [Text.pathParts_intercalate (hslash p hp), Text.pathParts_intercalate (hslash q hq)] at hparts
  exact List.append_cancel_right hparts

end Files

namespace ModuleTree

/-- The files of written fragments: there is one for the root and one for every package on the way
to a fragment, each in a place of its own, a module before its submodules and siblings by name; a
file holds the text of the fragments that were written for its module and declares its submodules.
The number of modules and the list of their paths agree with the files. -/
theorem files_ofWritings {settings : Settings} {paths : Paths} {ws : List Writing}
    (relative : settings.fileName.startsWith "/" = false) (named : ∀ w ∈ ws, w.IsNamed)
    (printable : ∀ w ∈ ws, w.IsPrintable) :
    ∃ files, (ofWritings ws).files settings paths = .ok files ∧
      (∀ path, path ∈ (ofWritings ws).paths ↔ path = [] ∨ ∃ w ∈ ws, path <+: w.path) ∧
      List.Forall₂ (FileOf settings paths ws) (ofWritings ws).paths files ∧
      (files.map GeneratedFile.path).Nodup ∧
      (ofWritings ws).paths.Pairwise (fun p q => ¬ q <+: p) ∧
      (ofWritings ws).paths.Pairwise (fun p q => ∀ parent a b,
        p = parent ++ [a] → q = parent ++ [b] → a < b) ∧
      (ofWritings ws).count = (ofWritings ws).paths.length ∧
      (ofWritings ws).paths.length = files.length := by
  have hfile (m : Module) (hm : m ∈ (ofWritings ws).nodes) :=
    @fileOf_ofWritings settings paths ws relative named printable m hm
  obtain ⟨files, hfiles, hwritten⟩ :=
    exists_filesAt (ofWritings ws) [] fun m hm => (hfile m hm).1
  have hpaths : List.Forall₂ (FileOf settings paths ws) (ofWritings ws).paths files := by
    rw [paths_eq_map, List.forall₂_map_left_iff]
    rw [List.forall₂_iff_zip] at hwritten ⊢
    refine ⟨hwritten.1, fun {m file} hmem => ?_⟩
    exact (hfile m (List.of_mem_zip hmem).1).2 file (hwritten.2 hmem)
  have hsorted : (ofWritings ws).paths.Pairwise (· < ·) := by
    rw [paths_eq_map]
    exact List.pairwise_map.mpr ((ordered_ofWritings ws).pairwise_nodesAt [])
  have hplaces : files.map GeneratedFile.path =
      (ofWritings ws).paths.map fun path => "/".intercalate (path ++ [settings.fileName]) := by
    have hplace : List.Forall₂ (fun file path =>
        GeneratedFile.path file = "/".intercalate (path ++ [settings.fileName])) files
        (ofWritings ws).paths := (hpaths.imp fun _ _ h => h.place).flip
    exact List.forall₂_eq_eq_eq ▸
      List.forall₂_map_left_iff.mpr (List.forall₂_map_right_iff.mpr hplace)
  refine ⟨files, hfiles, fun path => mem_paths_ofWritings, hpaths, ?_, ?_, ?_, ?_, ?_⟩
  · rw [hplaces]
    have hnodup : (ofWritings ws).paths.Nodup := hsorted.imp fun h => ne_of_lt h
    exact hnodup.map_on fun p hp q hq => place_injective named settings.fileName hp hq
  · exact hsorted.imp fun h => not_prefix_of_lt h
  · refine hsorted.imp fun h parent a b hp hq => ?_
    subst hp hq
    exact lt_of_siblings h
  · rw [count_eq_length _ [], paths_eq_map, List.length_map]
    rfl
  · exact hpaths.length_eq

/-- Writings for two packages with a module between one of them and the root, for a package of words
that cannot stand as they are, and for the root, with the fragments of one package apart. -/
def interleaved : List Writing :=
  [.append "game.ship" [.marker [] "Hull"], .append "self.type" [.marker [] "Raw"],
    .root [.marker [] "Schema"], .append "game.ship" [.marker [] "Hit"]]

theorem files_ofWritings_interleaved :
    (∀ w ∈ interleaved, w.IsNamed) ∧ (∀ w ∈ interleaved, w.IsPrintable) ∧
      ∃ files, (ofWritings interleaved).files {} ⟨[], []⟩ = .ok files ∧ files.length = 5 ∧
        List.Forall₂ (FileOf {} ⟨[], []⟩ interleaved)
          [[], ["game"], ["game", "ship"], ["self_"], ["self_", "type"]] files := by
  have hnamed : ∀ w ∈ interleaved, w.IsNamed := by decide +kernel
  have hprintable : ∀ w ∈ interleaved, w.IsPrintable := by decide +kernel
  have hpaths : (ofWritings interleaved).paths =
      [[], ["game"], ["game", "ship"], ["self_"], ["self_", "type"]] := by decide +kernel
  obtain ⟨files, hfiles, -, hforall, -, -, -, -, hlength⟩ :=
    @files_ofWritings {} ⟨[], []⟩ interleaved (by decide +kernel) hnamed hprintable
  rw [hpaths] at hforall hlength
  exact ⟨hnamed, hprintable, files, hfiles, hlength.symm, hforall⟩

end ModuleTree

end EntitySchema.Code
