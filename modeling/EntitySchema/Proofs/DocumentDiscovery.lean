import EntitySchema.Proofs.FileOrder

/-!
# Documents are found completely and in order

Discovery yields the path of every document below a directory once: of every file, at any depth, whose
name ends with the extension of documents behind a point and something before it. The paths ascend
component by component, and this is the order of a walk that takes each directory before its entries
and the entries by the bytes of their names. So the order in which directories list their entries has
no influence.

## Implementation notes

Discovery sorts the files it meets in listing order. A sorted list is determined by its members, so it
is enough that the files of the arranged tree are the same and are met in order.
-/

namespace EntitySchema.Files

variable {t u : Tree} {root : String}

/-! ### The order of paths -/

theorem pathLE_iff {a b : List String} : pathLE a b = true ↔ a ≤ b := by
  rw [pathLE, Bool.not_eq_true', decide_eq_false_iff_not]
  exact not_lt

theorem sorted_mergeSort (paths : List (List String)) :
    (paths.mergeSort pathLE).Pairwise fun a b => pathLE a b = true := by
  apply List.pairwise_mergeSort
  · intro a b c hab hbc
    rw [pathLE_iff] at *
    exact hab.trans hbc
  · intro a b
    rw [Bool.or_eq_true, pathLE_iff, pathLE_iff]
    exact le_total a b

theorem eq_of_sorted_of_perm {paths others : List (List String)}
    (hpaths : paths.Pairwise fun a b => pathLE a b = true)
    (hothers : others.Pairwise fun a b => pathLE a b = true) (h : paths.Perm others) :
    paths = others := by
  refine List.Perm.eq_of_pairwise ?_ hpaths hothers h
  intro a b _ _ hab hba
  exact le_antisymm (pathLE_iff.mp hab) (pathLE_iff.mp hba)

/-! ### Documents -/

theorem documentsIn_eq_of_perm (h : t.files.Perm u.files) :
    documentsIn root t = documentsIn root u := by
  apply eq_of_sorted_of_perm (sorted_mergeSort _) (sorted_mergeSort _)
  exact (List.mergeSort_perm _ _).trans
    ((h.filter _).trans (List.mergeSort_perm _ _).symm)

/-- The names to the files of an arranged tree ascend. -/
theorem files_arranged_ascending (h : t.WellNamed) : t.arranged.files.Pairwise (· < ·) := by
  rw [Tree.files_eq_walk h.arranged]
  exact (Tree.walk_arranged_ascending h).sublist (List.filter_sublist.map Prod.fst)

/-- The documents in a tree are the documents that the files of the arranged tree hold, in order. -/
theorem documentsIn_eq_filter (h : t.WellNamed) :
    documentsIn root t = t.arranged.files.filter (isDocument root) := by
  apply eq_of_sorted_of_perm (sorted_mergeSort _)
  · apply ((files_arranged_ascending h).filter _).imp
    intro a b hlt
    exact pathLE_iff.mpr hlt.le
  · exact (List.mergeSort_perm _ _).trans ((Tree.files_arranged_perm h).filter _).symm

/-- What the last name on the way decides: a document is named by something and the extension. -/
theorem isDocument_append_iff {before : List String} {name : String} :
    isDocument root (before ++ [name]) = true ↔ ∃ stem, stem ≠ "" ∧ name = stem ++ ".json" := by
  have hextension : '.' ∉ documentExtension.toList := by decide
  rw [isDocument, List.getLast?_concat, Option.getD_some, decide_eq_true_eq,
    Text.extension?_eq_some_iff hextension]
  have hjoin (stem : String) : stem ++ "." ++ documentExtension = stem ++ ".json" := by
    rw [String.append_assoc]
    rfl
  simp only [hjoin]

theorem mem_documentsIn {entries : List (String × Tree)}
    (h : (Tree.directory entries).WellNamed) {names : List String} :
    names ∈ documentsIn root (.directory entries) ↔
      ∃ before stem content, stem ≠ "" ∧ names = before ++ [stem ++ ".json"] ∧
        (Tree.directory entries).get names = .ok (.file content) := by
  rw [documentsIn, List.mem_mergeSort, List.mem_filter, Tree.mem_files h]
  constructor
  · rintro ⟨⟨content, hget⟩, hdocument⟩
    rcases List.eq_nil_or_concat' names with rfl | ⟨before, name, rfl⟩
    · -- no names lead to the directory, which is not a file
      cases hget
    · obtain ⟨stem, hstem, rfl⟩ := isDocument_append_iff.mp hdocument
      exact ⟨before, stem, content, hstem, rfl, hget⟩
  · rintro ⟨before, stem, content, hstem, rfl, hget⟩
    exact ⟨⟨content, hget⟩, isDocument_append_iff.mpr ⟨stem, hstem, rfl⟩⟩

/-- The paths of documents ascend by the bytes of their components. -/
theorem documentPaths_ascending (root : String) (h : t.WellNamed) :
    (documentPaths root t).Pairwise fun p q =>
      (Text.components p).map Wire.utf8 < (Text.components q).map Wire.utf8 := by
  have hfiles : ∀ names ∈ documentsIn root t,
      Text.components (names.foldl Text.joinPath root) = Text.components root ++ names := by
    intro names hnames
    rw [documentsIn, List.mem_mergeSort, List.mem_filter, Tree.mem_files h] at hnames
    obtain ⟨⟨content, hget⟩, -⟩ := hnames
    exact Text.components_foldl_joinPath root (h.get hget).2
  have hascending : (documentsIn root t).Pairwise (· < ·) := by
    rw [documentsIn_eq_filter h]
    exact (files_arranged_ascending h).filter _
  rw [documentPaths, List.pairwise_map]
  apply List.Pairwise.imp_of_mem _ hascending
  intro a b ha hb hlt
  rw [hfiles a ha, hfiles b hb, List.map_append, List.map_append]
  apply List.append_left_lt
  exact List.map_lt (fun x y hxy => Wire.utf8_lt_iff.mpr hxy) hlt

/-- A directory comes before the names that continue its own, whatever their next character. -/
example : Text.components "a/b.json" < Text.components "a-b.json" ∧ "a-b.json" < "a/b.json" := by
  decide

/-! ### Discovery -/

theorem discover_arranged (h : t.WellNamed) : discover root t.arranged = discover root t := by
  rw [discover, discover, Tree.find_arranged h]
  cases hfind : t.find root with
  | error e => rfl
  | ok found =>
      have hsame : documentsIn root found.arranged = documentsIn root found :=
        documentsIn_eq_of_perm (Tree.files_arranged_perm (h.find hfind))
      have hpaths : documentPaths root found.arranged = documentPaths root found := by
        rw [documentPaths, documentPaths, hsame]
      exact congrArg Except.ok hpaths

/-- Discovery does not depend on the order in which directories list their entries. -/
theorem discover_eq_of_relisted (h : t.Relisted u) (ht : t.WellNamed) :
    discover root t = discover root u := by
  obtain ⟨hu, harranged⟩ := h.arranged_eq ht
  calc
    discover root t = discover root t.arranged := (discover_arranged ht).symm
    _ = discover root u.arranged := by rw [harranged]
    _ = discover root u := discover_arranged hu

/-- Below a directory, discovery yields the path of every document once. The paths ascend component
by component, in the order of a walk through the arranged directory, however the directories list
their entries. -/
theorem discover_finds_documents {entries : List (String × Tree)} (named : t.WellNamed)
    (leads : t.find root = .ok (.directory entries)) :
    ∃ paths, discover root t = .ok paths ∧
      (∀ path, path ∈ paths ↔ ∃ before stem content, stem ≠ "" ∧
        (Tree.directory entries).get (before ++ [stem ++ ".json"]) = .ok (.file content) ∧
        path = (before ++ [stem ++ ".json"]).foldl Text.joinPath root) ∧
      paths.Nodup ∧
      (paths.Pairwise fun p q =>
        (Text.components p).map Wire.utf8 < (Text.components q).map Wire.utf8) ∧
      paths = ((Tree.directory entries).arranged.walk.filter fun v =>
        v.2.isFile && isDocument root v.1).map (fun v => v.1.foldl Text.joinPath root) ∧
      ∀ u, t.Relisted u → discover root u = .ok paths := by
  have hnamed : (Tree.directory entries).WellNamed := named.find leads
  have hdiscover : discover root t = .ok (documentPaths root (.directory entries)) := by
    rw [discover, leads]
    rfl
  have hascending := documentPaths_ascending root hnamed
  refine ⟨_, hdiscover, ?_, ?_, hascending, ?_, ?_⟩
  · intro path
    rw [documentPaths, List.mem_map]
    constructor
    · rintro ⟨names, hnames, rfl⟩
      obtain ⟨before, stem, content, hstem, rfl, hget⟩ := (mem_documentsIn hnamed).mp hnames
      exact ⟨before, stem, content, hstem, hget, rfl⟩
    · rintro ⟨before, stem, content, hstem, hget, rfl⟩
      exact ⟨_, (mem_documentsIn hnamed).mpr ⟨before, stem, content, hstem, rfl, hget⟩, rfl⟩
  · apply hascending.imp
    rintro p q hlt rfl
    exact List.lt_irrefl _ hlt
  · rw [documentPaths, documentsIn_eq_filter hnamed, Tree.files_eq_walk hnamed.arranged,
      List.filter_map, List.filter_filter, List.map_map]
    simp only [Function.comp_def, Bool.and_comm]
  · intro u hrelisted
    rw [← discover_eq_of_relisted hrelisted named]
    exact hdiscover

/-- Entries of a directory: a directory with the name of a document, a file that is named by the
extension alone, and a document whose name continues that of a directory. -/
def crowded : List (String × Tree) :=
  [("d.json", .directory [("x.json", .file [])]), (".json", .file []), ("a-b.json", .file []),
    ("a", .directory [("b.json", .file [])])]

theorem documentPaths_crowded : documentPaths "/in" (.directory crowded) =
    ["/in/a/b.json", "/in/a-b.json", "/in/d.json/x.json"] := by
  have hmet : (Tree.directory crowded).files.filter (isDocument "/in") =
      [["d.json", "x.json"], ["a-b.json"], ["a", "b.json"]] := by decide +kernel
  have hsorted : documentsIn "/in" (.directory crowded) =
      [["a", "b.json"], ["a-b.json"], ["d.json", "x.json"]] := by
    apply eq_of_sorted_of_perm (sorted_mergeSort _)
    · decide +kernel
    · rw [hmet]
      exact (List.mergeSort_perm _ _).trans (by decide)
  rw [documentPaths, hsorted]
  cbv

/-- A directory is searched before a file whose name continues its own, also where the file is listed
first, and a directory with the name of a document is searched as well. -/
theorem discover_finds_documents_nested :
    ∃ paths, discover "/in" ((((Tree.empty.put "/in/d.json/x.json" (.file [])).put "/in/.json"
        (.file [])).put "/in/a-b.json" (.file [])).put "/in/a/b.json" (.file [])) = .ok paths ∧
      paths = ["/in/a/b.json", "/in/a-b.json", "/in/d.json/x.json"] ∧
      (paths.Pairwise fun p q =>
        (Text.components p).map Wire.utf8 < (Text.components q).map Wire.utf8) ∧
      discover "/in" (.directory [("in", .directory crowded.reverse)]) = .ok paths := by
  have hmade : (((Tree.empty.put "/in/d.json/x.json" (.file [])).put "/in/.json" (.file [])).put
      "/in/a-b.json" (.file [])).put "/in/a/b.json" (.file []) =
      .directory [("in", .directory crowded)] := rfl
  have named := (((Tree.wellNamed_empty.put "/in/d.json/x.json" (.file [])).put "/in/.json"
    (.file [])).put "/in/a-b.json" (.file [])).put "/in/a/b.json" (.file [])
  rw [hmade] at named ⊢
  obtain ⟨paths, hdiscover, -, -, hascending, -, hlisted⟩ := discover_finds_documents named
    (show Tree.find "/in" _ = .ok (.directory crowded) from rfl)
  refine ⟨paths, hdiscover, ?_, hascending, ?_⟩
  · exact (Except.ok.inj hdiscover).symm.trans documentPaths_crowded
  · apply hlisted
    exact @Tree.Relisted.within [] [] "in" _ _ (.reorder (List.reverse_perm crowded).symm)

end EntitySchema.Files
