import Mathlib.Data.List.Basic
import NestLayers.FileTree
import NestLayers.Proofs.Outcomes
import NestLayers.Proofs.Paths

/-!
# What operations do to a file tree

A file tree is observed through the contents of its regular files and through its directories.
Making directories changes no content. Putting a file changes the content at one place, whether
or not a temporary file was there in between, and a refused put changes none. Clearing a
directory takes away the regular files directly in it. None of them removes a directory, so what
a path leads to stays where it was.
-/

namespace NestLayers.FileTree

/-- The content of the regular file at a place. -/
def contentAt? (tree : FileTree) (place : Place) : Option Content :=
  match tree.get? place with
  | some (.file content) => some content
  | _ => none

/-- Every directory of the first tree is one of the second tree. -/
def KeepsDirectories (before after : FileTree) : Prop :=
  ∀ place, before.get? place = some .directory → after.get? place = some .directory

variable {tree before middle after : FileTree} {place other : Place}

/-- Contents are those of files. -/
theorem contentAt?_eq_some {content : Content} :
    tree.contentAt? place = some content ↔ tree.get? place = some (.file content) := by
  unfold contentAt?
  split <;> simp_all

/-- What stands at a place decides its content. -/
theorem contentAt?_congr (h : after.get? place = before.get? place) :
    after.contentAt? place = before.contentAt? place := by
  simp only [contentAt?, h]

/-- The same directory or the same content is the same entry. -/
theorem get?_eq_of_contentAt? (hdirectory : after.get? place = some .directory ↔
      before.get? place = some .directory)
    (hcontent : after.contentAt? place = before.contentAt? place) :
    after.get? place = before.get? place := by
  unfold contentAt? at hcontent
  rcases hafter : after.get? place with _ | _ | content <;>
    rcases hbefore : before.get? place with _ | _ | content' <;>
    simp_all

/-- Keeping directories is reflexive. -/
theorem KeepsDirectories.refl (tree : FileTree) : tree.KeepsDirectories tree :=
  fun _ h => h

/-- Keeping directories is transitive. -/
theorem KeepsDirectories.trans (h₁ : before.KeepsDirectories middle)
    (h₂ : middle.KeepsDirectories after) : before.KeepsDirectories after :=
  fun place h => h₂ place (h₁ place h)

/-! ## Following paths -/

/-- A name leads on from a directory. -/
theorem follow_cons_eq_ok {name : String} {names : List String} :
    tree.follow place (name :: names) = .ok other ↔
      tree.get? place = some .directory ∧ name.utf8ByteSize ≤ longestName ∧
        tree.follow (if name = ".." then place.dropLast else place ++ [name]) names =
          .ok other := by
  rw [follow]
  split
  · rename_i hplace
    split
    · rename_i hlong
      simp only [reduceCtorEq, hplace, false_iff, not_and]
      omega
    · rename_i hlong
      simp [hplace, Nat.le_of_not_lt hlong]
  · simp [*]
  · simp [*]

/-- Names lead where they led as long as no directory goes. -/
theorem KeepsDirectories.follow (h : before.KeepsDirectories after) {names : List String}
    (hfollow : before.follow place names = .ok other) : after.follow place names = .ok other := by
  induction names generalizing place with
  | nil => exact hfollow
  | cons name names ih =>
    obtain ⟨hplace, hlength, hrest⟩ := follow_cons_eq_ok.mp hfollow
    exact follow_cons_eq_ok.mpr ⟨h place hplace, hlength, ih hrest⟩

/-- Names lead through the place that the first of them lead to. -/
theorem exists_of_follow_append {first second : List String}
    (h : tree.follow place (first ++ second) = .ok other) :
    ∃ middle, tree.follow place first = .ok middle ∧ tree.follow middle second = .ok other := by
  induction first generalizing place with
  | nil => exact ⟨place, rfl, h⟩
  | cons name names ih =>
    obtain ⟨hplace, hlength, hrest⟩ := follow_cons_eq_ok.mp h
    obtain ⟨middle, hfirst, hsecond⟩ := ih hrest
    exact ⟨middle, follow_cons_eq_ok.mpr ⟨hplace, hlength, hfirst⟩, hsecond⟩

/-- Names without double dots lead down. -/
theorem eq_append_of_follow {names : List String} (hdots : ".." ∉ names)
    (h : tree.follow place names = .ok other) : other = place ++ names := by
  induction names generalizing place with
  | nil => simpa [follow, eq_comm] using h
  | cons name names ih =>
    rw [List.mem_cons, not_or] at hdots
    obtain ⟨-, -, hrest⟩ := follow_cons_eq_ok.mp h
    rw [if_neg (Ne.symm hdots.1)] at hrest
    simpa using ih hdots.2 hrest

/-- A path leads to a place if it can be passed on and its names lead there. -/
theorem locate_eq_ok {path : Path} :
    tree.locate path = .ok place ↔
      path.hasNull = false ∧ path.toString.utf8ByteSize ≤ longestPath ∧
        tree.follow [] path.parts = .ok place := by
  unfold locate
  split
  · simp [*]
  · split
    · rename_i hnull hlong
      simp only [reduceCtorEq, false_iff, not_and]
      omega
    · rename_i hnull hlong
      simp [hnull, Nat.le_of_not_lt hlong]

/-- A path leads to the same place if the directories stay. -/
theorem KeepsDirectories.locate (h : before.KeepsDirectories after) {path : Path}
    (hlocate : before.locate path = .ok place) : after.locate path = .ok place := by
  rw [locate_eq_ok] at hlocate ⊢
  exact ⟨hlocate.1, hlocate.2.1, h.follow hlocate.2.2⟩

/-- A path whose last name is no double dot leads to a place of that name. -/
theorem exists_of_locate {path : Path} (hparts : path.parts ≠ []) (hname : path.name ≠ "..")
    (h : tree.locate path = .ok place) : ∃ above, place = above ++ [path.name] := by
  obtain ⟨-, -, hfollow⟩ := locate_eq_ok.mp h
  have hlast : path.name = path.parts.getLast hparts := by
    simp [Path.name, List.getLast?_eq_some_getLast hparts]
  rw [← List.dropLast_concat_getLast hparts] at hfollow
  obtain ⟨above, -, hstep⟩ := exists_of_follow_append hfollow
  refine ⟨above, ?_⟩
  rw [hlast] at hname ⊢
  exact eq_append_of_follow (by simpa [eq_comm] using hname) hstep

/-- The names of a place that a path leads to are of an ordinary size. -/
theorem size_le_of_locate {path : Path} (h : tree.locate path = .ok place) :
    ∀ name ∈ place, name.utf8ByteSize ≤ longestName := by
  have hfollow : ∀ names place, (∀ name ∈ place, name.utf8ByteSize ≤ longestName) → ∀ other,
      tree.follow place names = .ok other → ∀ name ∈ other, name.utf8ByteSize ≤ longestName := by
    intro names
    induction names with
    | nil =>
      rintro place hplace other ⟨⟩
      exact hplace
    | cons first names ih =>
      intro place hplace other h
      obtain ⟨-, hsize, hrest⟩ := follow_cons_eq_ok.mp h
      refine ih _ (fun name hname => ?_) other hrest
      split at hname
      · exact hplace name ((List.dropLast_sublist _).subset hname)
      · rcases List.mem_append.mp hname with hname | hname
        · exact hplace name hname
        · rwa [List.mem_singleton.mp hname]
  exact hfollow path.parts [] (by simp) place (locate_eq_ok.mp h).2.2

/-! ## Making directories -/

/-- Whatever is new in the second tree has names of an ordinary size. -/
def NamesFit (before after : FileTree) : Prop :=
  ∀ place, after.get? place ≠ none → before.get? place = none →
    ∀ name ∈ place, name.utf8ByteSize ≤ longestName

/-- Nothing is new in the same tree. -/
theorem NamesFit.refl (tree : FileTree) : tree.NamesFit tree :=
  fun _ hsome hnone => absurd hnone hsome

/-- New names fit in two steps if they do in each. -/
theorem NamesFit.trans (h₁ : before.NamesFit middle) (h₂ : middle.NamesFit after) :
    before.NamesFit after := by
  intro place hafter hbefore
  by_cases hmiddle : middle.get? place = none
  · exact h₂ place hafter hmiddle
  · exact h₁ place hmiddle hbefore

/-- An entry at a place that a path leads to has names of an ordinary size. -/
theorem namesFit_insert {path : Path} {entry : Entry} {located : FileTree}
    (h : located.locate path = .ok place) : tree.NamesFit (tree.insert place entry) := by
  intro other hafter hbefore
  by_cases hother : other = place
  · exact hother ▸ size_le_of_locate h
  · rw [get?_insert_of_ne hother] at hafter
    exact absurd hbefore hafter

/-- A tree with the same contents and at least the same directories. New directories have names of
an ordinary size. -/
structure GrowsTo (before after : FileTree) : Prop where
  contentAt? : ∀ place, after.contentAt? place = before.contentAt? place
  directories : before.KeepsDirectories after
  names : before.NamesFit after

/-- Growing is reflexive. -/
theorem GrowsTo.refl (tree : FileTree) : tree.GrowsTo tree :=
  ⟨fun _ => rfl, .refl tree, .refl tree⟩

/-- Growing is transitive. -/
theorem GrowsTo.trans (h₁ : before.GrowsTo middle) (h₂ : middle.GrowsTo after) :
    before.GrowsTo after :=
  ⟨fun place => (h₂.contentAt? place).trans (h₁.contentAt? place),
    h₁.directories.trans h₂.directories, h₁.names.trans h₂.names⟩

/-- Trees with the same entries at every place have grown in no way. -/
theorem GrowsTo.of_get?_eq (h : ∀ place, after.get? place = before.get? place) :
    before.GrowsTo after :=
  ⟨fun place => contentAt?_congr (h place), fun place hplace => (h place).trans hplace,
    fun place hafter hbefore => absurd ((h place).trans hbefore) hafter⟩

/-- A directory where nothing stood is no content. -/
theorem growsTo_insert_directory {path : Path} (hlocate : tree.locate path = .ok place)
    (h : tree.get? place = none) : tree.GrowsTo (tree.insert place .directory) := by
  have hplace : place ≠ [] := by
    rintro rfl
    simp [get?] at h
  refine ⟨fun other => ?_, fun other hdirectory => ?_, namesFit_insert hlocate⟩
  · by_cases hother : other = place
    · subst hother
      simp [FileTree.contentAt?, get?_insert_self hplace, h]
    · exact contentAt?_congr (get?_insert_of_ne hother)
  · have hother : other ≠ place := by
      rintro rfl
      simp [h] at hdirectory
    rw [get?_insert_of_ne hother]
    exact hdirectory

/-- A new directory lets the tree grow. -/
theorem growsTo_makeDirectory {path : Path} (h : tree.makeDirectory path = .ok after) :
    tree.GrowsTo after := by
  unfold makeDirectory at h
  split at h
  · simp at h
  · rename_i hlocate
    split at h
    · simp at h
    · rename_i hnone
      cases h
      exact growsTo_insert_directory hlocate hnone

/-- A directory that is ensured is made, or it is there. -/
theorem ensureDirectory_cases {path : Path} (h : tree.ensureDirectory path = .ok after) :
    tree.makeDirectory path = .ok after ∨ after = tree ∧ tree.isDirectory path = true := by
  unfold ensureDirectory at h
  split at h
  · rename_i hmade
    cases h
    exact .inl hmade
  · split at h
    · rename_i hdirectory
      cases h
      exact .inr ⟨rfl, hdirectory⟩
    · cases h

/-- **Run.** What holds between a tree and itself, is passed on from step to step, and holds where a
directory of the way is made also holds where directories are made, even if this is refused. -/
theorem makeDirectoriesUp_induction {T : FileTree → FileTree → Prop} (refl : ∀ tree, T tree tree)
    (trans : ∀ {before middle after}, T before middle → T middle after → T before after)
    (tree : FileTree) (start : PathStart) (depth : Nat) (names : List String)
    (step : ∀ {tree after above}, above <:+ names →
      tree.makeDirectory ⟨start, above.reverse⟩ = .ok after → T tree after) :
    T tree (tree.makeDirectoriesUp start depth names).1 := by
  induction depth generalizing names with
  | zero => exact refl tree
  | succ depth ih =>
    unfold makeDirectoriesUp
    cases names with
    | nil => exact refl tree
    | cons name above =>
      have ih := ih above fun habove => step (habove.trans (List.suffix_cons name above))
      have hself := List.suffix_refl (name :: above)
      dsimp only
      split
      · rename_i hmade
        exact step hself hmade
      · split
        · rename_i hmade
          rwa [hmade] at ih
        · rename_i hmade
          rw [hmade] at ih
          split
          · rename_i hdone
            rcases ensureDirectory_cases hdone with hmade | ⟨rfl, -⟩
            · exact trans ih (step hself hmade)
            · exact ih
          · exact ih
      · exact refl tree

/-- Making directories changes no content, even if it is refused on the way. -/
theorem growsTo_makeDirectoriesUp (tree : FileTree) (start : PathStart) (depth : Nat)
    (names : List String) : tree.GrowsTo (tree.makeDirectoriesUp start depth names).1 :=
  makeDirectoriesUp_induction .refl .trans tree start depth names fun _ => growsTo_makeDirectory

/-- Making the directories of a path changes no content. -/
theorem growsTo_makeDirectories (tree : FileTree) (path : Path) :
    tree.GrowsTo (tree.makeDirectories path).1 :=
  growsTo_makeDirectoriesUp tree path.start deepestNesting path.parts.reverse

/-! ## Putting a file -/

/-- A tree that differs from another one in the content at one place, and keeps its
directories. -/
structure Puts (before : FileTree) (place : Place) (content : Content) (after : FileTree) :
    Prop where
  self : after.contentAt? place = some content
  other : ∀ other, other ≠ place → after.contentAt? other = before.contentAt? other
  directories : before.KeepsDirectories after
  names : before.NamesFit after

/-- A tree may grow before a file is put. -/
theorem GrowsTo.puts {content : Content} (h₁ : before.GrowsTo middle)
    (h₂ : middle.Puts place content after) : before.Puts place content after :=
  ⟨h₂.self, fun other hother => (h₂.other other hother).trans (h₁.contentAt? other),
    h₁.directories.trans h₂.directories, h₁.names.trans h₂.names⟩

/-- Nothing stands at the place of a temporary file before it is made. -/
theorem get?_of_temporaryPlace? {directory : Place} {name : String} {attempts : Nat}
    (h : tree.temporaryPlace? directory name attempts = some place) :
    place ≠ [] ∧ tree.get? place = none := by
  induction attempts with
  | zero => simp [temporaryPlace?] at h
  | succ attempts ih =>
    unfold temporaryPlace? at h
    dsimp only at h
    split at h
    · rename_i hfree
      cases h
      exact ⟨by simp, hfree⟩
    · exact ih h

/-- Taking a temporary file away again leaves every place as it was. -/
theorem get?_erase_insert (entry : Entry) (hplace : place ≠ []) (hfree : tree.get? place = none)
    (other : Place) : ((tree.insert place entry).erase place).get? other = tree.get? other := by
  by_cases hother : other = place
  · subst hother
    rw [get?_erase_self hplace, hfree]
  · rw [get?_erase_of_ne hother, get?_insert_of_ne hother]

/-- A file that is moved into place has a name, and stands where the path leads to. -/
theorem replaceFile_eq_ok {temporary : Place} {path : Path} {content : Content}
    (h : tree.replaceFile temporary path content = .ok after) :
    path.parts ≠ [] ∧ path.name ≠ ".." ∧
      ∃ place, place ≠ [] ∧ tree.locate path = .ok place ∧ tree.get? place ≠ some .directory ∧
        after = (tree.erase temporary).insert place (.file content) := by
  unfold replaceFile at h
  split at h
  · simp at h
  · rename_i hname
    simp only [Bool.or_eq_true, List.isEmpty_iff, beq_iff_eq, not_or] at hname
    split at h
    · simp at h
    · rename_i place hlocate
      split at h
      · simp at h
      · rename_i hdirectory
        cases h
        obtain ⟨above, rfl⟩ := exists_of_locate hname.1 hname.2 hlocate
        exact ⟨hname.1, hname.2, _, by simp, hlocate,
          by simpa [isDirectoryAt] using hdirectory, rfl⟩

/-- A file is put by a temporary file, which is moved into place. -/
theorem exists_of_putFile_eq_none {path : Path} {content : Content}
    (h : tree.putFile path content = (after, none)) :
    ∃ shown temporary, tree.locate (temporaryPath path) = .ok shown ∧
      tree.temporaryPlace? shown.dropLast path.name temporaryAttempts = some temporary ∧
      (tree.insert temporary (.file content)).replaceFile temporary path content = .ok after := by
  unfold putFile at h
  split at h
  · cases h
  · rename_i shown hshown
    split at h
    · cases h
    · rename_i temporary htemporary
      dsimp only at h
      split at h
      · cases h
      · rename_i done hdone
        cases h
        exact ⟨shown, temporary, hshown, htemporary, hdone⟩

/-- A refused put leaves every place as it was. -/
theorem get?_putFile_of_fault {path : Path} {content : Content} {fault : FileFault}
    (h : tree.putFile path content = (after, some fault)) (place : Place) :
    after.get? place = tree.get? place := by
  unfold putFile at h
  split at h
  · cases h
    rfl
  · split at h
    · cases h
      rfl
    · rename_i temporary htemporary
      obtain ⟨hne, hfree⟩ := get?_of_temporaryPlace? htemporary
      dsimp only at h
      split at h
      · cases h
        exact get?_erase_insert (.file content) hne hfree place
      · simp at h

/-- A regular file where no directory stood changes the content at its place only. -/
theorem puts_insert_file {path : Path} {located : FileTree} (content : Content)
    (hlocate : located.locate path = .ok place) (hplace : place ≠ [])
    (hdirectory : tree.get? place ≠ some .directory) :
    tree.Puts place content (tree.insert place (.file content)) where
  self := contentAt?_eq_some.mpr (get?_insert_self hplace)
  other _ hother := contentAt?_congr (get?_insert_of_ne hother)
  directories := by
    intro other hother
    rw [get?_insert_of_ne, hother]
    rintro rfl
    exact hdirectory hother
  names := namesFit_insert hlocate

/-- A regular file at a free place makes and hides no directory. -/
theorem get?_insert_file_eq_directory {content : Content} (hplace : place ≠ [])
    (hfree : tree.get? place = none) :
    (tree.insert place (.file content)).get? other = some .directory ↔
      tree.get? other = some .directory := by
  by_cases hother : other = place
  · subst hother
    simp [get?_insert_self hplace, hfree]
  · rw [get?_insert_of_ne hother]

/-- A put that is not refused changes the content at the place that the path leads to, and no
other one: the temporary file is gone. -/
theorem puts_putFile {path : Path} {content : Content}
    (h : tree.putFile path content = (after, none)) :
    ∃ place, after.locate path = .ok place ∧ tree.Puts place content after := by
  obtain ⟨shown, temporary, -, htemporary, hdone⟩ := exists_of_putFile_eq_none h
  obtain ⟨hne, hfree⟩ := get?_of_temporaryPlace? htemporary
  obtain ⟨-, -, place, hplace, hlocate, hdirectory, rfl⟩ := replaceFile_eq_ok hdone
  -- Without the temporary file the tree is the one before it was made.
  have herased := get?_erase_insert (.file content) hne hfree
  rw [ne_eq, get?_insert_file_eq_directory hne hfree, ← herased] at hdirectory
  have hputs := (GrowsTo.of_get?_eq herased).puts (puts_insert_file content hlocate hplace hdirectory)
  refine ⟨place, KeepsDirectories.locate ?_ hlocate, hputs⟩
  intro other hother
  exact hputs.directories other ((get?_insert_file_eq_directory hne hfree).mp hother)

/-! ## Listing and clearing a directory -/

/-- What stands below the top directory is among the entries. -/
theorem mem_entries {entry : Entry} (hplace : place ≠ []) (h : tree.get? place = some entry) :
    (place, entry) ∈ tree.entries := by
  rw [get?, if_neg hplace] at h
  obtain ⟨front, back, hentries, -⟩ := List.lookup_eq_some_iff.mp h
  simp [hentries]

/-- The name of what stands at another place, if this is directly below the place. -/
def childName? (place other : Place) : Option String :=
  match other.getLast? with
  | some name => if other.dropLast = place then some name else none
  | none => none

/-- A child is below its directory. -/
theorem eq_append_of_childName? {other : Place} {name : String}
    (h : childName? place other = some name) : other = place ++ [name] := by
  unfold childName? at h
  split at h
  · rename_i last hlast
    rw [Option.ite_none_right_eq_some] at h
    obtain ⟨rfl, hname⟩ := h
    rw [← Option.some.inj hname]
    exact (List.dropLast_append_getLast? _ hlast).symm
  · cases h

/-- Children are the names of entries, in order. -/
theorem children_eq (tree : FileTree) (place : Place) :
    tree.children place =
      Text.inOrder ((tree.entries.map (·.1)).filterMap (childName? place)) := by
  rw [List.filterMap_map]
  rfl

/-- The children of a directory are the names of what stands in it. -/
theorem mem_children_iff {name : String} :
    name ∈ tree.children place ↔ tree.get? (place ++ [name]) ≠ none := by
  rw [children_eq, (Text.perm_inOrder _).mem_iff, List.mem_filterMap]
  constructor
  · rintro ⟨other, hmem, hname⟩
    obtain rfl := eq_append_of_childName? hname
    obtain ⟨entry, hentry, hplace⟩ := List.mem_map.mp hmem
    rw [get?, if_neg (by simp), ne_eq, List.lookup_eq_none_iff]
    exact fun hnone => by simpa [hplace] using hnone entry hentry
  · intro h
    obtain ⟨entry, hentry⟩ := Option.ne_none_iff_exists'.mp h
    exact ⟨_, List.mem_map_of_mem (mem_entries (by simp) hentry), by simp [childName?]⟩

/-- What stands in a directory is among its children. -/
theorem mem_children {name : String} {entry : Entry}
    (h : tree.get? (place ++ [name]) = some entry) : name ∈ tree.children place :=
  mem_children_iff.mpr (by simp [h])

/-- The path of an entry ends with its name. -/
@[simp] theorem name_entryPath (directory : Path) (name : String) :
    (entryPath directory name).name = name := by
  simp [entryPath, Path.name]

/-- The file system takes the path of a name in a directory. -/
def IsShort (directory : Path) (name : String) : Prop :=
  (entryPath directory name).toString.utf8ByteSize ≤ longestPath

variable {directory : Path} {name : String} {names : List String} {removed : List Path}

/-- The file system takes the path of any name in the directory. -/
def LeavesRoom (directory : Path) : Prop :=
  directory.toString.utf8ByteSize + longestName < longestPath

/-- It is decided by the size of the path. -/
instance (directory : Path) : Decidable (LeavesRoom directory) :=
  inferInstanceAs (Decidable (_ < _))

/-- Where there is room for any name, paths are short. -/
theorem LeavesRoom.isShort (h : LeavesRoom directory) (hname : name.utf8ByteSize ≤ longestName) :
    IsShort directory name := by
  have hsize := directory.size_concat_le name
  unfold LeavesRoom at h
  unfold IsShort entryPath
  omega

/-- A lookup tells the entry if its path is short. -/
theorem findEntry_eq_ok {entry : Option Entry} :
    tree.findEntry place directory name = .ok entry ↔
      IsShort directory name ∧ tree.get? (place ++ [name]) = entry := by
  unfold findEntry IsShort
  dsimp only
  split
  · rename_i hlong
    simp only [reduceCtorEq, false_iff, not_and]
    omega
  · rename_i hlong
    simp [Nat.le_of_not_lt hlong]

/-- A lookup fails only if its path is too long. -/
theorem findEntry_eq_error {fault : FileFault} :
    tree.findEntry place directory name = .error fault ↔
      ¬ IsShort directory name ∧ fault = .nameTooLong (entryPath directory name) := by
  unfold findEntry IsShort
  dsimp only
  split
  · rename_i hlong
    simp [hlong, eq_comm]
  · rename_i hlong
    simp [Nat.le_of_not_lt hlong]

/-- **What is listed in a directory** are the regular files there, if the file system takes the path
of everything there. -/
theorem filesIn_eq_ok {files : List Path} (hlocate : tree.locate directory = .ok place) :
    tree.filesIn directory = .ok files ↔
      (∀ name ∈ tree.children place, IsShort directory name) ∧
        files = (tree.children place).filterMap fun name =>
          (tree.contentAt? (place ++ [name])).map fun _ => entryPath directory name := by
  have hok (hshort : ∀ name ∈ tree.children place, IsShort directory name) :
      tree.filesIn directory = .ok ((tree.children place).filterMap fun name =>
        (tree.contentAt? (place ++ [name])).map fun _ => entryPath directory name) := by
    unfold filesIn
    rw [hlocate]
    refine filterMapM_eq_ok fun name hname => ?_
    rw [findEntry_eq_ok.mpr ⟨hshort name hname, rfl⟩, contentAt?]
    rcases tree.get? (place ++ [name]) with _ | _ | content <;> rfl
  constructor
  · intro h
    have hshort : ∀ name ∈ tree.children place, IsShort directory name := by
      intro name hname
      have hfiles := h
      unfold filesIn at hfiles
      rw [hlocate] at hfiles
      obtain ⟨answer, hanswer⟩ := exists_of_filterMapM_eq_ok hfiles name hname
      obtain ⟨entry, hentry, -⟩ := except_bind_eq_ok.mp hanswer
      exact (findEntry_eq_ok.mp hentry).1
    exact ⟨hshort, Except.ok.inj (h.symm.trans (hok hshort))⟩
  · rintro ⟨hshort, rfl⟩
    exact hok hshort

/-- A listing is refused for something in the directory that is too long. -/
theorem filesIn_eq_error {fault : FileFault} (h : tree.filesIn directory = .error fault) :
    ∃ place name, tree.locate directory = .ok place ∧ tree.get? (place ++ [name]) ≠ none ∧
      ¬ IsShort directory name ∧ fault = .nameTooLong (entryPath directory name) := by
  unfold filesIn at h
  split at h
  · cases h
  rename_i place hlocate
  obtain ⟨name, hname, hask⟩ := exists_of_filterMapM_eq_error h
  have hfind : tree.findEntry place directory name = .error fault := by
    rcases except_bind_eq_error.mp hask with hfind | ⟨entry, -, hentry⟩
    · exact hfind
    · rcases entry with _ | _ | content <;> cases hentry
  exact ⟨place, name, hlocate, mem_children_iff.mp hname, findEntry_eq_error.mp hfind⟩

/-- **Step.** Clearing some names takes away nothing but regular files of these names. -/
theorem get?_clearNames (tree : FileTree) (place : Place) (directory : Path) (names : List String)
    (other : Place) :
    (tree.clearNames place directory names).1.get? other = tree.get? other ∨
      (tree.clearNames place directory names).1.get? other = none ∧
        ∃ name content, other = place ++ [name] ∧ tree.get? other = some (.file content) := by
  induction names generalizing tree with
  | nil => exact .inl rfl
  | cons name names ih =>
    rw [clearNames]
    split
    · exact .inl rfl
    · rename_i content hfind
      obtain ⟨-, hget⟩ := findEntry_eq_ok.mp hfind
      have ih := ih (tree.erase (place ++ [name]))
      by_cases hother : other = place ++ [name]
      · subst hother
        rw [get?_erase_self (by simp)] at ih
        exact .inr ⟨ih.elim id And.left, name, content, rfl, hget⟩
      · rwa [get?_erase_of_ne hother] at ih
    · exact ih tree

/-- Clearing some names that can be looked up takes away every regular file of these names. -/
theorem get?_clearNames_self (hmem : name ∈ names)
    (hcontent : tree.contentAt? (place ++ [name]) ≠ none)
    (h : (tree.clearNames place directory names).2 = .ok removed) :
    (tree.clearNames place directory names).1.get? (place ++ [name]) = none ∧
      entryPath directory name ∈ removed := by
  induction names generalizing tree removed with
  | nil => cases hmem
  | cons first names ih =>
    rw [clearNames] at h ⊢
    split at h
    · cases h
    · rename_i content hfind
      obtain ⟨rest, hrest, rfl⟩ := except_map_eq_ok.mp h
      by_cases hfirst : name = first
      · subst hfirst
        refine ⟨?_, List.mem_cons_self⟩
        have hget := (tree.erase (place ++ [name])).get?_clearNames place directory names
          (place ++ [name])
        rw [get?_erase_self (by simp)] at hget
        exact hget.elim id And.left
      · have hne : place ++ [name] ≠ place ++ [first] := by simpa using hfirst
        obtain ⟨hget, hremoved⟩ := ih ((List.mem_cons.mp hmem).resolve_left hfirst)
          (by rwa [contentAt?_congr (get?_erase_of_ne hne)]) hrest
        exact ⟨hget, List.mem_cons_of_mem _ hremoved⟩
    · rename_i entry hentry hfind
      refine ih ((List.mem_cons.mp hmem).resolve_left ?_) hcontent h
      rintro rfl
      obtain ⟨content, hcontent⟩ := Option.ne_none_iff_exists'.mp hcontent
      obtain ⟨-, rfl⟩ := findEntry_eq_ok.mp hfind
      exact hentry content (contentAt?_eq_some.mp hcontent)

/-- Names are cleared if all of them can be looked up. -/
theorem exists_clearNames_eq_ok :
    (∃ removed, (tree.clearNames place directory names).2 = .ok removed) ↔
      ∀ name ∈ names, IsShort directory name := by
  induction names generalizing tree with
  | nil => simp [clearNames]
  | cons name names ih =>
    rw [clearNames, List.forall_mem_cons]
    split
    · rename_i fault hfind
      simp [(findEntry_eq_error.mp hfind).1]
    · rename_i content hfind
      rw [← @ih (tree.erase (place ++ [name]))]
      simp [(findEntry_eq_ok.mp hfind).1, except_map_eq_ok]
    · rename_i entry _ hfind
      rw [← @ih tree]
      simp [(findEntry_eq_ok.mp hfind).1]

/-- **Clearing a directory** takes away nothing but regular files directly in it, even if it is
refused on the way. -/
theorem get?_clearFiles (tree : FileTree) (directory : Path) (other : Place) :
    (tree.clearFiles directory).1.get? other = tree.get? other ∨
      (tree.clearFiles directory).1.get? other = none ∧
        ∃ place name content, tree.locate directory = .ok place ∧ other = place ++ [name] ∧
          tree.get? other = some (.file content) := by
  unfold clearFiles
  cases hlocate : tree.locate directory with
  | error obstacle => exact .inl rfl
  | ok place =>
    refine (tree.get?_clearNames place directory _ other).imp_right ?_
    rintro ⟨hnone, name, content, hother, hget⟩
    exact ⟨hnone, place, name, content, rfl, hother, hget⟩

/-- No regular file is left directly in a cleared directory, and all that were there are told. -/
theorem contentAt?_clearFiles_self (hlocate : tree.locate directory = .ok place)
    (h : (tree.clearFiles directory).2 = .ok removed) (name : String) :
    (tree.clearFiles directory).1.contentAt? (place ++ [name]) = none ∧
      (tree.contentAt? (place ++ [name]) ≠ none → entryPath directory name ∈ removed) := by
  have hcleared : tree.contentAt? (place ++ [name]) ≠ none →
      (tree.clearFiles directory).1.get? (place ++ [name]) = none ∧
        entryPath directory name ∈ removed := by
    intro hcontent
    obtain ⟨content, hget⟩ := Option.ne_none_iff_exists'.mp hcontent
    unfold clearFiles at h ⊢
    rw [hlocate] at h ⊢
    exact get?_clearNames_self (mem_children (contentAt?_eq_some.mp hget)) hcontent h
  refine ⟨?_, fun hcontent => (hcleared hcontent).2⟩
  by_cases hcontent : tree.contentAt? (place ++ [name]) = none
  · rcases tree.get?_clearFiles directory (place ++ [name]) with hget | ⟨hget, -⟩
    · rw [contentAt?_congr hget, hcontent]
    · rw [contentAt?, hget]
  · rw [contentAt?, (hcleared hcontent).1]

/-- Clearing a directory changes nothing outside of it. -/
theorem get?_clearFiles_of_ne (hlocate : tree.locate directory = .ok place)
    (hother : ∀ name, other ≠ place ++ [name]) :
    (tree.clearFiles directory).1.get? other = tree.get? other := by
  refine (tree.get?_clearFiles directory other).resolve_right ?_
  rintro ⟨-, _, name, -, hlocate', rfl, -⟩
  obtain rfl := Except.ok.inj (hlocate.symm.trans hlocate')
  exact hother name rfl

/-- Clearing a directory neither makes nor removes one. -/
theorem get?_clearFiles_eq_directory (directory : Path) (other : Place) :
    (tree.clearFiles directory).1.get? other = some .directory ↔
      tree.get? other = some .directory := by
  rcases tree.get?_clearFiles directory other with hget | ⟨hget, _, -, content, -, -, hfile⟩
  · rw [hget]
  · simp [hget, hfile]

/-- A directory is cleared if the file system takes the path of everything there. -/
theorem exists_clearFiles_snd_eq_ok (hlocate : tree.locate directory = .ok place) :
    (∃ removed, (tree.clearFiles directory).2 = .ok removed) ↔
      ∀ name ∈ tree.children place, IsShort directory name := by
  unfold clearFiles
  rw [hlocate]
  exact exists_clearNames_eq_ok

end NestLayers.FileTree
