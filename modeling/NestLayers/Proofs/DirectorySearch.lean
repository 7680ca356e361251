import Mathlib.Data.String.Basic
import NestLayers.Proofs.PathPlaces

/-!
# Searching a tree for a directory

A search looks at the entries below a directory in pre-order, and at siblings in increasing order of
their names. This is the lexicographic order of the names that lead to them, where a shorter list
comes before the longer ones that start with it. The search ends at the first entry that settles it:
a directory of the name, an entry whose path is too long, or a directory that is nested too deep.
So what it finds is the least list with this last name, and depends on nothing but the set of
directories.
-/

namespace NestLayers.FileTree

variable {tree before after : FileTree} {place : Place} {name : String} {names other : List String}
  {depth : Nat} {directory root path : Path} {result : Except FileFault (Option Path)}
  {answer : Option Path}

/-! ## The first directory of a name -/

/-- The names lead from a place to a directory with a given last name, and no such directory comes
before it in pre-order. -/
structure IsFirst (tree : FileTree) (place : Place) (name : String) (names : List String) :
    Prop where
  last : names.getLast? = some name
  directory : tree.get? (place ++ names) = some .directory
  least : ∀ other : List String, other.getLast? = some name →
    tree.get? (place ++ other) = some .directory → names ≤ other

/-- There is one first directory of a name. -/
theorem IsFirst.unique (h : tree.IsFirst place name names) (hother : tree.IsFirst place name other) :
    names = other :=
  le_antisymm (h.least other hother.last hother.directory)
    (hother.least names h.last h.directory)

/-- Names that others start with do not come after them. -/
theorem le_of_isPrefix {short long : List String} (h : short <+: long) : short ≤ long :=
  not_lt.mp h.le

/-- A list with a last name is not empty. -/
theorem ne_nil_of_getLast? (h : names.getLast? = some name) : names ≠ [] := by
  rintro rfl
  simp at h

/-- The first directory stays the first one while every new directory of its name lies below it or
is it. -/
theorem IsFirst.mono (h : before.IsFirst place name names)
    (hdirectories : before.KeepsDirectories after)
    (hnew : ∀ other : List String, other.getLast? = some name →
      after.get? (place ++ other) = some .directory →
        before.get? (place ++ other) = some .directory ∨ names <+: other) :
    after.IsFirst place name names := by
  refine ⟨h.last, hdirectories _ h.directory, fun other hlast hdirectory => ?_⟩
  rcases hnew other hlast hdirectory with hold | hprefix
  · exact h.least other hlast hold
  · exact le_of_isPrefix hprefix

/-- The names that lead from a place to the directories of a name below it. -/
def directoriesNamed (tree : FileTree) (place : Place) (name : String) : List (List String) :=
  (tree.entries.map (·.1.drop place.length)).filter fun names =>
    names.getLast? == some name && tree.isDirectoryAt (place ++ names)

private theorem mem_directoriesNamed :
    names ∈ tree.directoriesNamed place name ↔
      names.getLast? = some name ∧ tree.get? (place ++ names) = some .directory := by
  simp only [directoriesNamed, List.mem_filter, Bool.and_eq_true, beq_iff_eq, isDirectoryAt]
  refine ⟨And.right, fun h => ⟨?_, h⟩⟩
  have hmem := mem_entries (by simp [ne_nil_of_getLast? h.1]) h.2
  exact List.mem_map.mpr ⟨_, hmem, List.drop_left⟩

/-- The first directory of a name below a root, whether or not a search gets to it. -/
def search (tree : FileTree) (root : Path) (name : String) : Option Path :=
  if tree.isDirectory root then (tree.directoriesNamed root.place name).min?.map root.below
  else none

/-- What is found is the first directory of the name. -/
theorem search_eq_some (hroot : tree.isDirectory root = true) :
    tree.search root name = some path ↔
      ∃ names, tree.IsFirst root.place name names ∧ path = root.below names := by
  rw [search, if_pos hroot]
  simp only [Option.map_eq_some_iff, List.min?_eq_some_iff, mem_directoriesNamed]
  constructor
  · rintro ⟨names, ⟨⟨hlast, hdirectory⟩, hleast⟩, rfl⟩
    exact ⟨names, ⟨hlast, hdirectory, fun other hother hget => hleast other ⟨hother, hget⟩⟩, rfl⟩
  · rintro ⟨names, h, rfl⟩
    exact ⟨names, ⟨⟨h.last, h.directory⟩, fun other hother => h.least other hother.1 hother.2⟩, rfl⟩

/-- Nothing is found if no directory has the name. -/
theorem search_eq_none (hroot : tree.isDirectory root = true) :
    tree.search root name = none ↔
      ∀ names : List String, names.getLast? = some name →
        tree.get? (root.place ++ names) ≠ some .directory := by
  rw [search, if_pos hroot, Option.map_eq_none_iff, List.min?_eq_none_iff,
    List.eq_nil_iff_forall_not_mem]
  simp only [mem_directoriesNamed, not_and]

/-! ## What settles a search -/

/-- How an entry below a directory settles a search for a name, by the names that lead to it. The
search may be nested up to a depth. -/
inductive Settles (tree : FileTree) (name : String) (depth : Nat) (place : Place)
    (directory : Path) : List String → Except FileFault (Option Path) → Prop
  /-- The file system does not take the path of the entry. -/
  | tooLong {names : List String} (hne : names ≠ []) (hentry : tree.get? (place ++ names) ≠ none)
    (hlong : longestPath < (directory.below names).toString.utf8ByteSize) :
    Settles tree name depth place directory names (.error (.nameTooLong (directory.below names)))
  /-- The entry is a directory of the name. -/
  | found {names : List String} (hlast : names.getLast? = some name)
    (hdirectory : tree.get? (place ++ names) = some .directory)
    (hshort : (directory.below names).toString.utf8ByteSize ≤ longestPath) :
    Settles tree name depth place directory names (.ok (some (directory.below names)))
  /-- The entry is another directory, and the search must not be nested deeper. -/
  | nested {names : List String} (hlength : names.length = depth)
    (hdirectory : tree.get? (place ++ names) = some .directory)
    (hlast : names.getLast? ≠ some name)
    (hshort : names ≠ [] → (directory.below names).toString.utf8ByteSize ≤ longestPath) :
    Settles tree name depth place directory names (.error .nestedTooDeep)

/-- An entry settles a search in one way. -/
theorem Settles.unique {result' : Except FileFault (Option Path)}
    (h : tree.Settles name depth place directory names result)
    (h' : tree.Settles name depth place directory names result') : result = result' := by
  cases h with
  | tooLong hne _ hlong =>
    cases h' with
    | tooLong => rfl
    | found _ _ hshort => omega
    | nested _ _ _ hshort => exact absurd (hshort hne) (by omega)
  | found hlast _ hshort =>
    cases h' with
    | tooLong _ _ hlong => omega
    | found => rfl
    | nested _ _ hother => exact absurd hlast hother
  | nested _ _ hlast hshort =>
    cases h' with
    | tooLong hne _ hlong => exact absurd (hshort hne) (by omega)
    | found hother => exact absurd hother hlast
    | nested => rfl

private theorem Settles.ne_none (h : tree.Settles name depth place directory names result) :
    result ≠ .ok none := by
  cases h <;> simp

/-- What settles a search is there. -/
theorem Settles.get?_ne_none (h : tree.Settles name depth place directory names result) :
    tree.get? (place ++ names) ≠ none := by
  cases h with
  | tooLong _ hentry => exact hentry
  | found _ hdirectory => simp [hdirectory]
  | nested _ hdirectory => simp [hdirectory]

/-- Every directory of the name settles a search, by its path or because this is too long. -/
theorem exists_settles (hlast : names.getLast? = some name)
    (hdirectory : tree.get? (place ++ names) = some .directory) :
    ∃ result, tree.Settles name depth place directory names result := by
  by_cases hlong : longestPath < (directory.below names).toString.utf8ByteSize
  · exact ⟨_, .tooLong (ne_nil_of_getLast? hlast) (by simp [hdirectory]) hlong⟩
  · exact ⟨_, .found hlast hdirectory (Nat.le_of_not_lt hlong)⟩

/-- What settles the search below another directory that is looked at settles the whole search. -/
theorem settles_cons_iff {child : String} (hchild : child ≠ name) (hshort : IsShort directory child) :
    tree.Settles name (depth + 1) place directory (child :: names) result ↔
      tree.Settles name depth (place ++ [child]) (directory.below [child]) names result := by
  have hplace : place ++ [child] ++ names = place ++ child :: names := by simp
  have hpath : (directory.below [child]).below names = directory.below (child :: names) := by
    simp [Path.below]
  have hlast : (child :: names).getLast? = some name ↔ names.getLast? = some name := by
    cases names with
    | nil => simp [hchild]
    | cons second rest => simp
  constructor
  · intro h
    cases h with
    | tooLong _ hentry hlong =>
      rw [← hpath] at hlong ⊢
      refine .tooLong ?_ (by rwa [hplace]) hlong
      rintro rfl
      exact absurd hshort (by simpa [IsShort, entryPath, Path.below] using hlong)
    | found hname hdirectory hsize =>
      rw [← hpath] at hsize ⊢
      exact .found (hlast.mp hname) (by rwa [hplace]) hsize
    | nested hlength hdirectory hname hsize =>
      refine .nested (by simpa using hlength) (by rwa [hplace]) (fun h => hname (hlast.mpr h)) ?_
      rw [hpath]
      exact fun _ => hsize (List.cons_ne_nil _ _)
  · intro h
    cases h with
    | tooLong _ hentry hlong =>
      rw [hplace] at hentry
      rw [hpath] at hlong ⊢
      exact .tooLong (List.cons_ne_nil _ _) hentry hlong
    | found hname hdirectory hsize =>
      rw [hplace] at hdirectory
      rw [hpath] at hsize ⊢
      exact .found (hlast.mpr hname) hdirectory hsize
    | nested hlength hdirectory hname hsize =>
      rw [hplace] at hdirectory
      rw [hpath] at hsize
      refine .nested (by simpa using hlength) hdirectory (fun h => hname (hlast.mp h)) fun _ => ?_
      cases names with
      | nil => exact hshort
      | cons second rest => exact hsize (List.cons_ne_nil _ _)

/-! ## The search -/

/-- In a tree where each place stands once, the children of a directory come in strict order. -/
theorem IsDistinct.pairwise_children_lt (h : tree.IsDistinct) (place : Place) :
    (tree.children place).Pairwise (· < ·) := by
  refine ((tree.pairwise_children place).and (h.nodup_children place)).imp ?_
  rintro a b ⟨hle, hne⟩
  by_contra hlt
  exact hne (String.le_antisymm hle (String.not_lt.mp hlt))

/-- A search among some entries comes to a result: the first of them that settles it does so with
this result, or none of them settles it and nothing is found. -/
def ComesTo (tree : FileTree) (name : String) (depth : Nat) (place : Place) (directory : Path)
    (among : List String → Prop) (result : Except FileFault (Option Path)) : Prop :=
  (result = .ok none ∧ ∀ names, among names → ∀ other,
    ¬ tree.Settles name depth place directory names other) ∨
  ∃ names, among names ∧ tree.Settles name depth place directory names result ∧
    ∀ other, among other → ∀ result', tree.Settles name depth place directory other result' →
      names ≤ other

/-- What a search comes to at a child of a directory. -/
def searchChild (tree : FileTree) (name : String) (depth : Nat) (place : Place) (directory : Path)
    (child : String) : Except FileFault (Option Path) := do
  match ← tree.findEntry place directory child with
  | some .directory =>
    if child = name then return some (entryPath directory child)
    else tree.searchFrom name depth (place ++ [child]) (entryPath directory child)
  | _ => return none

/-- **Step.** If the search below the directories that a child may be comes to what it should, then
so does the search at the child. -/
theorem comesTo_searchChild (h : tree.IsProper) {child : String}
    (hchild : tree.get? (place ++ [child]) ≠ none)
    (ih : tree.get? (place ++ [child]) = some .directory →
      tree.ComesTo name depth (place ++ [child]) (directory.below [child]) (fun _ => True)
        (tree.searchFrom name depth (place ++ [child]) (directory.below [child]))) :
    tree.ComesTo name (depth + 1) place directory (·.head? = some child)
      (tree.searchChild name depth place directory child) := by
  have hleast : ∀ other : List String, other.head? = some child → ∀ result',
      tree.Settles name (depth + 1) place directory other result' → [child] ≤ other := by
    intro other hhead _ _
    obtain ⟨rest, rfl⟩ := List.head?_eq_some_iff.mp hhead
    exact le_of_isPrefix ⟨rest, rfl⟩
  unfold searchChild
  cases hfind : tree.findEntry place directory child with
  | error fault =>
    obtain ⟨hlong, rfl⟩ := findEntry_eq_error.mp hfind
    exact .inr ⟨[child], rfl, .tooLong (by simp) hchild (Nat.lt_of_not_le hlong), hleast⟩
  | ok entry =>
    obtain ⟨hshort, hget⟩ := findEntry_eq_ok.mp hfind
    rcases entry with _ | _ | content
    · exact absurd hget hchild
    · change ComesTo _ _ _ _ _ _ (if child = name then _ else _)
      split
      · rename_i hname
        exact .inr ⟨[child], rfl, .found (by simp [hname]) hget hshort, hleast⟩
      · rename_i hname
        rcases ih hget with ⟨hnone, hothers⟩ | ⟨names, -, hnames, hfirst⟩
        · refine .inl ⟨hnone, fun other hhead result' hother => ?_⟩
          obtain ⟨rest, rfl⟩ := List.head?_eq_some_iff.mp hhead
          exact hothers rest trivial _ ((settles_cons_iff hname hshort).mp hother)
        · refine .inr ⟨child :: names, rfl, (settles_cons_iff hname hshort).mpr hnames, ?_⟩
          intro other hhead result' hother
          obtain ⟨rest, rfl⟩ := List.head?_eq_some_iff.mp hhead
          have hle := hfirst rest trivial _ ((settles_cons_iff hname hshort).mp hother)
          exact List.cons_le_cons child hle
    · -- a regular file does not settle the search, and has nothing below it
      refine .inl ⟨rfl, fun other hhead result' hother => ?_⟩
      obtain ⟨rest, rfl⟩ := List.head?_eq_some_iff.mp hhead
      have hplace : place ++ child :: rest = place ++ [child] ++ rest := by simp
      obtain rfl : rest = [] := by
        by_contra hrest
        obtain ⟨entry, hentry⟩ := Option.ne_none_iff_exists'.mp (hplace ▸ hother.get?_ne_none)
        simp [h.get?_of_append hentry hrest] at hget
      cases hother with
      | tooLong _ _ hlong => exact absurd hshort (Nat.not_le_of_lt hlong)
      | found _ hdirectory => simp [hget] at hdirectory
      | nested _ hdirectory => simp [hget] at hdirectory

/-- The directory that a search starts from does not settle it. -/
theorem Settles.ne_nil (h : tree.Settles name depth place directory names result)
    (hdepth : depth ≠ 0) : names ≠ [] := by
  rintro rfl
  cases h with
  | tooLong hne => exact hne rfl
  | found hlast => cases hlast
  | nested hlength => exact hdepth hlength.symm

/-- What settles a search lies below a child, or is one. -/
theorem Settles.exists_child (hproper : tree.IsProper)
    (h : tree.Settles name (depth + 1) place directory names result) :
    ∃ child rest, names = child :: rest ∧ child ∈ tree.children place := by
  obtain ⟨child, rest, rfl⟩ := List.exists_cons_of_ne_nil (h.ne_nil depth.succ_ne_zero)
  obtain ⟨entry, hentry⟩ := Option.ne_none_iff_exists'.mp h.get?_ne_none
  refine ⟨child, rest, rfl, ?_⟩
  cases rest with
  | nil => exact mem_children hentry
  | cons second rest =>
    have hplace : place ++ child :: second :: rest = place ++ [child] ++ second :: rest := by simp
    exact mem_children (hproper.get?_of_append (hplace ▸ hentry) (List.cons_ne_nil _ _))

/-- **Run.** A search comes to what the first entry that settles it says. -/
theorem comesTo_searchFrom (h : tree.IsProper) (hplace : tree.get? place = some .directory) :
    tree.ComesTo name depth place directory (fun _ => True)
      (tree.searchFrom name depth place directory) := by
  induction depth generalizing place directory with
  | zero =>
    refine .inr ⟨[], trivial, .nested rfl (by simpa using hplace) (by simp) (by simp), ?_⟩
    exact fun other _ _ _ => le_of_isPrefix List.nil_prefix
  | succ depth ih =>
    have hchild (child : String) (hmem : child ∈ tree.children place) :
        tree.ComesTo name (depth + 1) place directory (·.head? = some child)
          (tree.searchChild name depth place directory child) :=
      comesTo_searchChild h (mem_children_iff.mp hmem) ih
    change ComesTo _ _ _ _ _ _
      ((tree.children place).findSomeM? (tree.searchChild name depth place directory))
    by_cases hnone : (tree.children place).findSomeM?
        (tree.searchChild name depth place directory) = .ok none
    · refine .inl ⟨hnone, fun names _ result hnames => ?_⟩
      obtain ⟨child, rest, rfl, hmem⟩ := hnames.exists_child h
      have hask := findSomeM?_eq_none.mp hnone child hmem
      rcases hchild child hmem with ⟨-, hothers⟩ | ⟨first, -, hfirst, -⟩
      · exact hothers _ rfl _ hnames
      · exact hfirst.ne_none hask
    · obtain ⟨front, child, back, hchildren, hfront, hask⟩ := (findSomeM?_eq_iff hnone).mp rfl
      rw [← hask] at hnone ⊢
      rcases hchild child (by simp [hchildren]) with ⟨hnothing, -⟩ | ⟨first, hhead, hfirst, hleast⟩
      · exact absurd hnothing hnone
      refine .inr ⟨first, trivial, hfirst, fun other _ result hother => ?_⟩
      obtain ⟨second, rest, rfl, hmem⟩ := hother.exists_child h
      obtain ⟨names, rfl⟩ := List.head?_eq_some_iff.mp hhead
      have hsorted := h.distinct.pairwise_children_lt place
      rw [hchildren] at hmem hsorted
      rcases List.mem_append.mp hmem with hbefore | hafter
      · -- a child before this one settles nothing
        rcases hchild second (by simp [hchildren, hbefore]) with
          ⟨-, hothers⟩ | ⟨found, -, hfound, -⟩
        · exact absurd hother (hothers _ rfl _)
        · exact absurd (hfront second hbefore) hfound.ne_none
      · rcases List.mem_cons.mp hafter with rfl | hafter
        · exact hleast _ rfl _ hother
        · have hback := (List.pairwise_cons.mp (List.pairwise_append.mp hsorted).2.1).1
          exact (List.cons_lt_cons_iff.mpr (.inl (hback second hafter))).le

/-! ## Searching below a root -/

private theorem find_of_isDirectory (h : tree.isDirectory root = true) :
    tree.find root = .ok (some .directory) := by
  rw [find_eq_directory]
  exact ⟨_, locate_of_isDirectory h, (isDirectory_iff.mp h).2 _ root.place_mem_way⟩

/-- A lookup tells whether there is a directory. -/
theorem isDirectory_of_find {entry : Option Entry} (h : tree.find path = .ok entry) :
    tree.isDirectory path = (entry == some .directory) := by
  unfold find at h
  unfold isDirectory at?
  split at h <;> simp_all

/-- Below a directory everything is searched. -/
theorem findDirectory_of_isDirectory (h : tree.isDirectory root = true) :
    tree.findDirectory root name = tree.searchFrom name deepestNesting root.place root := by
  unfold findDirectory
  rw [find_of_isDirectory h, locate_of_isDirectory h]
  rfl

/-- Nothing is searched below what is no directory. -/
theorem findDirectory_of_not_isDirectory (h : tree.isDirectory root ≠ true) :
    tree.findDirectory root name = (tree.find root).map fun _ => none := by
  unfold findDirectory
  cases hfind : tree.find root with
  | error fault => rfl
  | ok entry =>
    rw [isDirectory_of_find hfind] at h
    rcases entry with _ | _ | content
    · rfl
    · exact absurd (beq_self_eq_true _) h
    · rfl

/-- The root of a search that is not refused can be looked up. -/
theorem exists_find_of_findDirectory (h : tree.findDirectory root name = .ok answer) :
    ∃ entry, tree.find root = .ok entry := by
  obtain ⟨entry, hentry, -⟩ := except_bind_eq_ok.mp h
  exact ⟨entry, hentry⟩

/-- A search below a directory comes to what the first entry that settles it says. -/
theorem comesTo_findDirectory (h : tree.IsProper) (hroot : tree.isDirectory root = true)
    (name : String) :
    tree.ComesTo name deepestNesting root.place root (fun _ => True)
      (tree.findDirectory root name) := by
  rw [findDirectory_of_isDirectory hroot]
  exact comesTo_searchFrom h ((isDirectory_iff.mp hroot).2 _ root.place_mem_way)

/-- **A search that is not refused finds the first directory of the name.** -/
theorem eq_search_of_findDirectory (h : tree.IsProper)
    (hfind : tree.findDirectory root name = .ok answer) : answer = tree.search root name := by
  by_cases hroot : tree.isDirectory root = true
  swap
  · rw [findDirectory_of_not_isDirectory hroot] at hfind
    obtain ⟨_, -, rfl⟩ := except_map_eq_ok.mp hfind
    rw [search, if_neg hroot]
  rcases hfind ▸ comesTo_findDirectory h hroot name with ⟨hnone, hothers⟩ | ⟨names, -, hnames, hleast⟩
  · obtain rfl := Except.ok.inj hnone
    refine ((search_eq_none hroot).mpr fun names hlast hdirectory => ?_).symm
    obtain ⟨result, hresult⟩ := exists_settles hlast hdirectory
    exact hothers names trivial result hresult
  · cases hnames with
    | found hlast hdirectory =>
      refine ((search_eq_some hroot).mpr ⟨names, ⟨hlast, hdirectory, ?_⟩, rfl⟩).symm
      intro other hother hget
      obtain ⟨result, hresult⟩ := exists_settles hother hget
      exact hleast other trivial result hresult

/-- The file system takes the path that a search finds. -/
theorem size_of_findDirectory (h : tree.IsProper)
    (hfind : tree.findDirectory root name = .ok (some path)) :
    path.toString.utf8ByteSize ≤ longestPath := by
  by_cases hroot : tree.isDirectory root = true
  · rcases hfind ▸ comesTo_findDirectory h hroot name with ⟨hnone, -⟩ | ⟨names, -, hnames, -⟩
    · cases hnone
    · cases hnames with
      | found _ _ hshort => exact hshort
  · rw [findDirectory_of_not_isDirectory hroot] at hfind
    obtain ⟨_, -, hnone⟩ := except_map_eq_ok.mp hfind
    cases hnone

/-- No entry settles a search before what the search has found. -/
theorem not_settles_of_findDirectory (h : tree.IsProper) (hroot : tree.isDirectory root = true)
    (hfind : tree.findDirectory root name = .ok answer)
    (hbefore : ∀ names, answer = some (root.below names) → other < names) :
    ¬ tree.Settles name deepestNesting root.place root other result := by
  intro hother
  rcases hfind ▸ comesTo_findDirectory h hroot name with ⟨-, hothers⟩ | ⟨names, -, hnames, hleast⟩
  · exact hothers other trivial result hother
  · cases hnames with
    | found => exact absurd (hleast other trivial result hother) (not_le.mpr (hbefore names rfl))

/-- A search finds the first directory of a name, if no entry before it settles the search. -/
theorem findDirectory_of_isFirst (h : tree.IsProper) (hroot : tree.isDirectory root = true)
    (hfirst : tree.IsFirst root.place name names)
    (hshort : (root.below names).toString.utf8ByteSize ≤ longestPath)
    (hothers : ∀ other < names, ∀ result,
      ¬ tree.Settles name deepestNesting root.place root other result) :
    tree.findDirectory root name = .ok (some (root.below names)) := by
  have hfound : tree.Settles name deepestNesting root.place root names _ :=
    .found hfirst.last hfirst.directory hshort
  rcases comesTo_findDirectory h hroot name with ⟨-, hnone⟩ | ⟨other, -, hother, hleast⟩
  · exact absurd hfound (hnone names trivial _)
  · rcases (hleast names trivial _ hfound).eq_or_lt with rfl | hlt
    · exact hother.unique hfound
    · exact absurd hother (hothers other hlt _)

/-- An entry that settles a search settles it in any tree that has it and the directory that it may
be. -/
theorem Settles.mono (h : after.Settles name depth place directory names result)
    (hentry : before.get? (place ++ names) ≠ none)
    (hdirectory : after.get? (place ++ names) = some .directory →
      before.get? (place ++ names) = some .directory) :
    before.Settles name depth place directory names result := by
  cases h with
  | tooLong hne _ hlong => exact .tooLong hne hentry hlong
  | found hlast hget hshort => exact .found hlast (hdirectory hget) hshort
  | nested hlength hget hlast hshort => exact .nested hlength (hdirectory hget) hlast hshort

/-! ## Roots that are too long -/

/-- Names that lead to one that is too long do so as long as no directory goes. -/
theorem KeepsDirectories.follow_nameTooLong (h : before.KeepsDirectories after)
    (hfollow : before.follow place names = .error .nameTooLong) :
    after.follow place names = .error .nameTooLong := by
  induction names generalizing place with
  | nil => cases hfollow
  | cons name names ih =>
    rw [FileTree.follow] at hfollow ⊢
    split at hfollow
    · rename_i hplace
      rw [h place hplace]
      dsimp only
      split at hfollow
      · rename_i hlong
        rw [if_pos hlong]
      · rename_i hlong
        rw [if_neg hlong]
        exact ih hfollow
    · cases hfollow
    · cases hfollow

/-- A path stays too long. -/
theorem KeepsDirectories.locate_nameTooLong (h : before.KeepsDirectories after)
    (hlocate : before.locate path = .error .nameTooLong) :
    after.locate path = .error .nameTooLong := by
  unfold FileTree.locate at hlocate ⊢
  split at hlocate
  · cases hlocate
  · split at hlocate
    · rename_i hlong
      rw [if_pos hlong]
      simp [*]
    · rename_i hnull hlong
      rw [if_neg hnull, if_neg hlong]
      exact h.follow_nameTooLong hlocate

/-- A path that is refused is too long. -/
theorem find_eq_ok_iff : (∃ entry, tree.find path = .ok entry) ↔
    tree.locate path ≠ .error .nameTooLong := by
  unfold find
  split <;> simp_all

/-! ## Trees that change -/

/-- The later tree has all directories of the earlier one, and its new directories lie inside the
one that a search below the root answered. Regular files may have come and gone everywhere, but the
new ones below the root have paths that the file system takes. -/
structure GrowsInside (before : FileTree) (root : Path) (answer : Option Path) (after : FileTree) :
    Prop where
  directories : before.KeepsDirectories after
  inside : ∀ place, after.get? place = some .directory → before.get? place ≠ some .directory →
    ∃ names, answer = some (root.below names) ∧ root.place ++ names <+: place
  files : ∀ names content, after.contentAt? (root.place ++ names) = some content →
    before.contentAt? (root.place ++ names) = none →
      (root.below names).toString.utf8ByteSize ≤ longestPath

/-- Where nothing was found there are no new directories. -/
theorem GrowsInside.keepsDirectories (h : before.GrowsInside root none after) :
    after.KeepsDirectories before := by
  intro place hafter
  by_contra hbefore
  obtain ⟨names, hnone, -⟩ := h.inside place hafter hbefore
  cases hnone

/-- What settles a search in the later tree did so before, unless it is inside the directory that was
found. -/
theorem GrowsInside.settles (h : before.GrowsInside root answer after)
    {result : Except FileFault (Option Path)}
    (hsettles : after.Settles name deepestNesting root.place root other result)
    (hother : ∀ names, answer = some (root.below names) → ¬ names ≤ other) :
    before.Settles name deepestNesting root.place root other result := by
  have hdirectory : after.get? (root.place ++ other) = some .directory →
      before.get? (root.place ++ other) = some .directory := by
    intro hafter
    by_contra hbefore
    obtain ⟨names, hanswer, hinside⟩ := h.inside _ hafter hbefore
    exact hother names hanswer (le_of_isPrefix ((List.prefix_append_right_inj _).mp hinside))
  refine hsettles.mono (fun hnone => ?_) hdirectory
  -- a new entry is a regular file, at which a search gives up only if its path is too long
  obtain ⟨entry, hentry⟩ := Option.ne_none_iff_exists'.mp hsettles.get?_ne_none
  cases entry with
  | directory => simp [hdirectory hentry] at hnone
  | file content =>
    have hshort := h.files other content (contentAt?_eq_some.mpr hentry)
      (by rw [contentAt?, hnone])
    cases hsettles with
    | tooLong _ _ hlong => omega
    | found _ hget => simp [hget] at hentry
    | nested _ hget => simp [hget] at hentry

/-- Below what is no directory there is nothing later either. -/
theorem GrowsInside.findDirectory_eq_none (h : before.GrowsInside root none after)
    (hroot : before.isDirectory root ≠ true) (hfind : ∃ entry, before.find root = .ok entry) :
    after.findDirectory root name = .ok none := by
  have hlong : after.locate root ≠ .error .nameTooLong := fun hlong =>
    find_eq_ok_iff.mp hfind (h.keepsDirectories.locate_nameTooLong hlong)
  obtain ⟨entry, hentry⟩ := find_eq_ok_iff.mpr hlong
  rw [findDirectory_of_not_isDirectory (mt h.keepsDirectories.isDirectory hroot), hentry]
  rfl

/-- **The answer stays the same.** -/
theorem GrowsInside.findDirectory_eq (hbefore : before.IsProper) (hafter : after.IsProper)
    (h : before.GrowsInside root answer after)
    (hanswer : before.findDirectory root name = .ok answer) :
    after.findDirectory root name = .ok answer := by
  by_cases hroot : before.isDirectory root = true
  swap
  · have hfind := exists_find_of_findDirectory hanswer
    rw [findDirectory_of_not_isDirectory hroot] at hanswer
    obtain ⟨_, -, rfl⟩ := except_map_eq_ok.mp hanswer
    exact h.findDirectory_eq_none hroot hfind
  have hcomes := comesTo_findDirectory hafter (h.directories.isDirectory hroot) name
  rcases hanswer ▸ comesTo_findDirectory hbefore hroot name with
    ⟨hnone, hothers⟩ | ⟨names, -, hnames, hleast⟩
  · obtain rfl := Except.ok.inj hnone
    rcases hcomes with ⟨hnone, -⟩ | ⟨other, -, hother, -⟩
    · exact hnone
    · exact absurd (h.settles hother (by simp)) (hothers other trivial _)
  · cases hnames with
    | found hlast hget hshort =>
      have hfound : after.Settles name deepestNesting root.place root names _ :=
        .found hlast (h.directories _ hget) hshort
      rcases hcomes with ⟨-, hnone⟩ | ⟨other, -, hother, hfirst⟩
      · exact absurd hfound (hnone names trivial _)
      rcases (hfirst names trivial _ hfound).eq_or_lt with rfl | hlt
      · exact hother.unique hfound
      · -- an entry that settles the later search first settled the earlier one
        have hold := h.settles hother fun found heq hle => by
          obtain rfl : names = found := by simpa [Path.below] using heq
          exact absurd hlt (not_lt.mpr hle)
        exact absurd (hleast other trivial _ hold) (not_le.mpr hlt)

end NestLayers.FileTree
