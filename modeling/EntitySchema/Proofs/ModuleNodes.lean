import EntitySchema.Code.ModuleTree
import Mathlib

/-!
# What the modules of a tree hold

A tree that fragments were placed in, each under the path of its package, has a module for every
path on the way to one of them. The module with a path holds the fragments that were placed there,
in that order, and declares each of its submodules once.

## Implementation notes

`ModuleTree.nodes` lists the modules, each before its submodules, with all that is known of them.
`ModuleTree.fragmentsAt` and `ModuleTree.childrenAt` look a path up; placing a fragment changes them
in one way. The list of modules agrees with these lookups because the submodules of every module
ascend by name, which placing keeps.
-/

namespace EntitySchema.Code

/-- A module by itself. -/
structure Module where
  /-- The names on the way from the root. -/
  path : List String
  /-- What it holds. -/
  fragments : List Fragment
  /-- The names of its submodules. -/
  children : List String
deriving DecidableEq, Repr, Inhabited

namespace ModuleTree

mutual

/-- The modules of a tree that stands at a path. -/
def nodesAt (path : List String) : ModuleTree → List Module
  | .node fragments children =>
    ⟨path, fragments, children.map Prod.fst⟩ :: nodesOf path children

/-- The modules of several trees that stand below a path. -/
def nodesOf (path : List String) : List (String × ModuleTree) → List Module
  | [] => []
  | (name, m) :: rest => m.nodesAt (path ++ [name]) ++ nodesOf path rest

end

/-- The modules, each before its submodules. -/
def nodes (t : ModuleTree) : List Module := t.nodesAt []

/-- The submodule with a name, or the empty one. -/
def child (name : String) : List (String × ModuleTree) → ModuleTree
  | [] => empty
  | (other, m) :: rest => if name = other then m else child name rest

/-- The fragments of the module with a path. -/
def fragmentsAt : List String → ModuleTree → List Fragment
  | [], .node fragments _ => fragments
  | name :: rest, .node _ children => fragmentsAt rest (child name children)

/-- The names of the submodules of the module with a path. -/
def childrenAt : List String → ModuleTree → List String
  | [], .node _ children => children.map Prod.fst
  | name :: rest, .node _ children => childrenAt rest (child name children)

/-- The submodules of every module ascend by name. -/
inductive Ordered : ModuleTree → Prop
  | node {fragments : List Fragment} {children : List (String × ModuleTree)} :
    children.Pairwise (fun a b => a.1 < b.1) → (∀ c ∈ children, Ordered c.2) →
    Ordered (.node fragments children)

@[simp] theorem fragmentsAt_empty (path : List String) : empty.fragmentsAt path = [] := by
  induction path with
  | nil => rfl
  | cons name rest ih => exact ih

@[simp] theorem childrenAt_empty (path : List String) : empty.childrenAt path = [] := by
  induction path with
  | nil => rfl
  | cons name rest ih => exact ih

theorem ordered_empty : empty.Ordered := .node .nil (by simp)

/-! ### Changing a submodule -/

section Alter

variable {name : String} {change : ModuleTree → ModuleTree} {children : List (String × ModuleTree)}

theorem child_of_forall_ne {key : String} (h : ∀ c ∈ children, key ≠ c.1) :
    child key children = empty := by
  induction children with
  | nil => rfl
  | cons c rest ih =>
      rw [child, if_neg (h c List.mem_cons_self)]
      exact ih fun d hd => h d (List.mem_cons_of_mem c hd)

theorem child_of_mem (hsorted : children.Pairwise fun a b => a.1 < b.1) {c : String × ModuleTree}
    (hc : c ∈ children) : child c.1 children = c.2 := by
  induction children with
  | nil => cases hc
  | cons d rest ih =>
      obtain ⟨hd, hrest⟩ := List.pairwise_cons.mp hsorted
      rcases List.mem_cons.mp hc with rfl | hc
      · rw [child, if_pos rfl]
      · rw [child, if_neg (ne_of_gt (hd c hc)), ih hrest hc]

theorem ordered_child (h : ∀ c ∈ children, c.2.Ordered) (name : String) :
    (child name children).Ordered := by
  induction children with
  | nil => exact ordered_empty
  | cons c rest ih =>
      obtain ⟨hc, hrest⟩ := List.forall_mem_cons.mp h
      rw [child]
      split_ifs
      · exact hc
      · exact ih hrest

/-- The changed submodule stands under its name and every other one is as before. -/
theorem child_alter (hsorted : children.Pairwise fun a b => a.1 < b.1) (key : String) :
    child key (alter name change children) =
      if key = name then change (child name children) else child key children := by
  induction children with
  | nil => rfl
  | cons c rest ih =>
      obtain ⟨other, m⟩ := c
      obtain ⟨hother, hrest⟩ := List.pairwise_cons.mp hsorted
      by_cases heq : name = other
      · subst heq
        by_cases hkey : key = name <;> simp [alter, child, hkey]
      · by_cases hlt : name < other
        · -- the name is new, since it stands before all others
          have hnew : child name ((other, m) :: rest) = empty := by
            refine child_of_forall_ne fun c hc => ?_
            rcases List.mem_cons.mp hc with rfl | hc
            · exact heq
            · exact ne_of_lt (lt_trans hlt (hother c hc))
          rw [alter, if_neg heq, if_pos hlt, child, hnew]
        · rw [alter, if_neg heq, if_neg hlt, child, ih hrest, child, if_neg heq, child]
          by_cases hkey : key = name
          · rw [if_pos hkey, if_neg (hkey ▸ heq), if_pos hkey]
          · rw [if_neg hkey, if_neg hkey]

theorem mem_names_alter {key : String} :
    key ∈ (alter name change children).map Prod.fst ↔ key = name ∨ key ∈ children.map Prod.fst := by
  induction children with
  | nil => simp [alter]
  | cons c rest ih =>
      obtain ⟨other, m⟩ := c
      unfold alter
      split_ifs with heq hlt
      · simp [heq]
      · simp
      · rw [List.map_cons, List.mem_cons, ih, List.map_cons, List.mem_cons]
        tauto

theorem sorted_alter (hsorted : children.Pairwise fun a b => a.1 < b.1) :
    (alter name change children).Pairwise fun a b => a.1 < b.1 := by
  induction children with
  | nil => simp [alter]
  | cons c rest ih =>
      obtain ⟨other, m⟩ := c
      obtain ⟨hother, hrest⟩ := List.pairwise_cons.mp hsorted
      unfold alter
      split_ifs with heq hlt
      · exact List.pairwise_cons.mpr ⟨hother, hrest⟩
      · refine List.pairwise_cons.mpr ⟨fun c hc => ?_, hsorted⟩
        rcases List.mem_cons.mp hc with rfl | hc
        · exact hlt
        · exact lt_trans hlt (hother c hc)
      · have hname : other < name := lt_of_le_of_ne (not_lt.mp hlt) (Ne.symm heq)
        refine List.pairwise_cons.mpr ⟨fun c hc => ?_, ih hrest⟩
        rcases mem_names_alter.mp (List.mem_map_of_mem hc) with hc | hc
        · exact hc ▸ hname
        · obtain ⟨d, hd, hdc⟩ := List.mem_map.mp hc
          exact hdc ▸ hother d hd

theorem mem_alter {c : String × ModuleTree} (hc : c ∈ alter name change children) :
    c ∈ children ∨ ∃ m, c.2 = change m ∧ (m = empty ∨ ∃ d ∈ children, d.2 = m) := by
  induction children with
  | nil =>
      obtain rfl := List.mem_singleton.mp hc
      exact Or.inr ⟨empty, rfl, Or.inl rfl⟩
  | cons d rest ih =>
      obtain ⟨other, m⟩ := d
      unfold alter at hc
      split_ifs at hc with heq hlt
      · rcases List.mem_cons.mp hc with rfl | hc
        · exact Or.inr ⟨m, rfl, Or.inr ⟨(other, m), List.mem_cons_self, rfl⟩⟩
        · exact Or.inl (List.mem_cons_of_mem _ hc)
      · rcases List.mem_cons.mp hc with rfl | hc
        · exact Or.inr ⟨empty, rfl, Or.inl rfl⟩
        · exact Or.inl hc
      · rcases List.mem_cons.mp hc with rfl | hc
        · exact Or.inl List.mem_cons_self
        · rcases ih hc with hc | ⟨k, hk, hempty | ⟨d, hd, hdk⟩⟩
          · exact Or.inl (List.mem_cons_of_mem _ hc)
          · exact Or.inr ⟨k, hk, Or.inl hempty⟩
          · exact Or.inr ⟨k, hk, Or.inr ⟨d, List.mem_cons_of_mem _ hd, hdk⟩⟩

end Alter

/-! ### Placing fragments -/

theorem Ordered.insert {t : ModuleTree} (h : t.Ordered) (path : List String) (f : Fragment) :
    (t.insert path f).Ordered := by
  induction path generalizing t with
  | nil =>
      cases h with
      | node hsorted hchildren => exact .node hsorted hchildren
  | cons name rest ih =>
      cases h with
      | node hsorted hchildren =>
          refine .node (sorted_alter hsorted) fun c hc => ?_
          rcases mem_alter hc with hc | ⟨m, hm, rfl | ⟨d, hd, rfl⟩⟩
          · exact hchildren c hc
          · exact hm ▸ ih ordered_empty
          · exact hm ▸ ih (hchildren d hd)

/-- Placing a fragment adds it to the module with its path and to no other. -/
theorem Ordered.fragmentsAt_insert {t : ModuleTree} (h : t.Ordered) (path target : List String)
    (f : Fragment) :
    (t.insert target f).fragmentsAt path =
      t.fragmentsAt path ++ if path = target then [f] else [] := by
  induction target generalizing t path with
  | nil =>
      obtain ⟨fragments, children⟩ := t
      cases path with
      | nil => rfl
      | cons name rest => simp [ModuleTree.insert, fragmentsAt]
  | cons name rest ih =>
      cases h with
      | @node fragments children hsorted hchildren =>
          cases path with
          | nil => simp [ModuleTree.insert, fragmentsAt]
          | cons key path =>
              rw [ModuleTree.insert, fragmentsAt, child_alter hsorted, fragmentsAt]
              by_cases hkey : key = name
              · rw [if_pos hkey, ih (ordered_child hchildren name), hkey]
                simp
              · simp [hkey]

/-- Placing a fragment adds the modules on the way to it. -/
theorem Ordered.mem_childrenAt_insert {t : ModuleTree} (h : t.Ordered) (path target : List String)
    (f : Fragment) {key : String} :
    key ∈ (t.insert target f).childrenAt path ↔
      key ∈ t.childrenAt path ∨ path ++ [key] <+: target := by
  induction target generalizing t path with
  | nil =>
      obtain ⟨fragments, children⟩ := t
      cases path with
      | nil => simp [ModuleTree.insert, childrenAt]
      | cons name rest => simp [ModuleTree.insert, childrenAt]
  | cons name rest ih =>
      cases h with
      | @node fragments children hsorted hchildren =>
          cases path with
          | nil =>
              rw [ModuleTree.insert, childrenAt, mem_names_alter, childrenAt, List.nil_append,
                List.cons_prefix_cons]
              simp [or_comm]
          | cons step path =>
              rw [ModuleTree.insert, childrenAt, child_alter hsorted, childrenAt, List.cons_append,
                List.cons_prefix_cons]
              by_cases hstep : step = name
              · rw [if_pos hstep, ih (ordered_child hchildren name), hstep]
                simp
              · simp [hstep]

/-! ### The list of modules -/

theorem nodesOf_eq_flatMap (path : List String) (children : List (String × ModuleTree)) :
    nodesOf path children = children.flatMap fun c => c.2.nodesAt (path ++ [c.1]) := by
  induction children with
  | nil => rfl
  | cons c rest ih =>
      obtain ⟨name, m⟩ := c
      rw [nodesOf, ih, List.flatMap_cons]

theorem mem_nodesAt_node {path : List String} {fragments : List Fragment}
    {children : List (String × ModuleTree)} {m : Module} :
    m ∈ (ModuleTree.node fragments children).nodesAt path ↔
      m = ⟨path, fragments, children.map Prod.fst⟩ ∨
        ∃ c ∈ children, m ∈ c.2.nodesAt (path ++ [c.1]) := by
  rw [nodesAt, nodesOf_eq_flatMap, List.mem_cons, List.mem_flatMap]

/-- Every module of an ordered tree holds what is found under its path. -/
theorem Ordered.exists_lookup {t : ModuleTree} (h : t.Ordered) {start : List String} {m : Module}
    (hm : m ∈ t.nodesAt start) :
    ∃ path, m.path = start ++ path ∧ m.fragments = t.fragmentsAt path ∧
      m.children = t.childrenAt path := by
  induction h generalizing start with
  | @node fragments children hsorted _ ih =>
      rcases mem_nodesAt_node.mp hm with rfl | ⟨c, hc, hm⟩
      · exact ⟨[], (List.append_nil start).symm, rfl, rfl⟩
      · obtain ⟨path, hpath, hfragments, hchildren⟩ := ih c hc hm
        refine ⟨c.1 :: path, ?_, ?_, ?_⟩
        · rw [hpath, List.append_assoc, List.singleton_append]
        · rw [fragmentsAt, child_of_mem hsorted hc, hfragments]
        · rw [childrenAt, child_of_mem hsorted hc, hchildren]

/-- No two modules of an ordered tree have the same path. -/
theorem Ordered.eq_of_path {t : ModuleTree} (h : t.Ordered) {m n : Module} (hm : m ∈ t.nodes)
    (hn : n ∈ t.nodes) (hpath : m.path = n.path) : m = n := by
  obtain ⟨p, hp, hfragments, hchildren⟩ := h.exists_lookup hm
  obtain ⟨q, hq, hfragments', hchildren'⟩ := h.exists_lookup hn
  obtain rfl : p = q := by simpa [hp, hq] using hpath
  cases m
  cases n
  simp_all

theorem exists_root (t : ModuleTree) (start : List String) :
    ∃ m ∈ t.nodesAt start, m.path = start := by
  obtain ⟨fragments, children⟩ := t
  exact ⟨_, mem_nodesAt_node.mpr (Or.inl rfl), rfl⟩

/-- Every submodule that a module declares is a module. -/
theorem Ordered.exists_submodule {t : ModuleTree} (h : t.Ordered) {start : List String}
    {m : Module} (hm : m ∈ t.nodesAt start) {name : String} (hname : name ∈ m.children) :
    ∃ n ∈ t.nodesAt start, n.path = m.path ++ [name] := by
  induction h generalizing start with
  | @node fragments children _ _ ih =>
      rcases mem_nodesAt_node.mp hm with rfl | ⟨c, hc, hm⟩
      · obtain ⟨c, hc, rfl⟩ := List.mem_map.mp hname
        obtain ⟨n, hn, hpath⟩ := exists_root c.2 (start ++ [c.1])
        exact ⟨n, mem_nodesAt_node.mpr (Or.inr ⟨c, hc, hn⟩), hpath⟩
      · obtain ⟨n, hn, hpath⟩ := ih c hc hm
        exact ⟨n, mem_nodesAt_node.mpr (Or.inr ⟨c, hc, hn⟩), hpath⟩

theorem Ordered.nodup_childrenAt {t : ModuleTree} (h : t.Ordered) (path : List String) :
    (t.childrenAt path).Nodup := by
  induction path generalizing t with
  | nil =>
      cases h with
      | node hsorted _ => exact (List.pairwise_map.mpr hsorted).imp ne_of_lt
  | cons name rest ih =>
      cases h with
      | node _ hchildren => exact ih (ordered_child hchildren name)

/-! ### Trees of placed fragments -/

/-- The tree of fragments that are placed in the modules of packages. -/
def ofPlacements (placements : List (String × Fragment)) : ModuleTree :=
  placements.foldl (fun t p => t.append p.1 p.2) empty

section Placements

variable {placements : List (String × Fragment)}

theorem Ordered.foldl {t : ModuleTree} (h : t.Ordered) :
    (placements.foldl (fun t p => t.append p.1 p.2) t).Ordered := by
  induction placements generalizing t with
  | nil => exact h
  | cons p rest ih => exact ih (h.insert (modulePath p.1) p.2)

theorem Ordered.fragmentsAt_foldl {t : ModuleTree} (h : t.Ordered) (path : List String) :
    (placements.foldl (fun t p => t.append p.1 p.2) t).fragmentsAt path =
      t.fragmentsAt path ++
        (placements.filter fun p => modulePath p.1 = path).map Prod.snd := by
  induction placements generalizing t with
  | nil => simp
  | cons p rest ih =>
      rw [List.foldl_cons, append, ih (h.insert (modulePath p.1) p.2), h.fragmentsAt_insert,
        List.append_assoc, List.filter_cons]
      by_cases hp : modulePath p.1 = path
      · simp [hp]
      · simp [hp, Ne.symm hp]

theorem Ordered.mem_childrenAt_foldl {t : ModuleTree} (h : t.Ordered) (path : List String)
    {key : String} :
    key ∈ (placements.foldl (fun t p => t.append p.1 p.2) t).childrenAt path ↔
      key ∈ t.childrenAt path ∨ ∃ p ∈ placements, path ++ [key] <+: modulePath p.1 := by
  induction placements generalizing t with
  | nil => simp
  | cons p rest ih =>
      rw [List.foldl_cons, append, ih (h.insert (modulePath p.1) p.2), h.mem_childrenAt_insert,
        List.exists_mem_cons_iff, or_assoc]

/-- A module holds the fragments that were placed under its path and declares, each once, the next
names on the way to fragments further down. -/
theorem node_of_placements {m : Module} (hm : m ∈ (ofPlacements placements).nodes) :
    m.fragments = (placements.filter fun p => modulePath p.1 = m.path).map Prod.snd ∧
      m.children.Nodup ∧
      ∀ key, key ∈ m.children ↔ ∃ p ∈ placements, m.path ++ [key] <+: modulePath p.1 := by
  have hordered : (ofPlacements placements).Ordered := ordered_empty.foldl
  obtain ⟨path, hpath, hfragments, hchildren⟩ := hordered.exists_lookup hm
  rw [List.nil_append] at hpath
  refine ⟨?_, ?_, fun key => ?_⟩
  · rw [hfragments, ofPlacements, ordered_empty.fragmentsAt_foldl, fragmentsAt_empty, hpath]
    rfl
  · rw [hchildren]
    exact hordered.nodup_childrenAt path
  · rw [hchildren, ofPlacements, ordered_empty.mem_childrenAt_foldl, childrenAt_empty, hpath]
    simp

/-- There is a module for every path on the way to a fragment. -/
theorem exists_node_of_prefix {p : String × Fragment} (hp : p ∈ placements) {path : List String}
    (hpath : path <+: modulePath p.1) : ∃ m ∈ (ofPlacements placements).nodes, m.path = path := by
  induction path using List.reverseRecOn with
  | nil => exact exists_root _ []
  | append_singleton path name ih =>
      obtain ⟨m, hm, rfl⟩ := ih ((List.prefix_append path [name]).trans hpath)
      have hname := ((node_of_placements hm).2.2 name).mpr ⟨p, hp, hpath⟩
      exact ordered_empty.foldl.exists_submodule hm hname

end Placements

end ModuleTree

end EntitySchema.Code
