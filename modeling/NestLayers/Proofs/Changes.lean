import NestLayers.Proofs.PathPlaces

/-!
# What changes make of a tree

Whatever is written into a project comes about by three kinds of changes: a directory is made with
those above it, the regular files directly in a directory are removed, or a file is written. What
some changes make of a tree is told place by place. It depends on which changes they are and not
on their order, as long as no written file is removed or written over by a later change.
-/

namespace NestLayers

/-- A change of a file tree. -/
inductive Change
  /-- A directory is made, with those above it. -/
  | make (directory : Path)
  /-- The regular files directly in a directory are removed. -/
  | clear (directory : Path)
  /-- A file is written, and the directories above it are made. -/
  | write (file : Path) (content : Content)
  deriving DecidableEq, Repr

namespace Change

/-- The path that a change is about. -/
def path : Change → Path
  | .make directory => directory
  | .clear directory => directory
  | .write file _ => file

/-- The change makes a directory at the place. -/
def Makes : Change → Place → Prop
  | .make directory, place => place ∈ directory.way
  | .clear _, _ => False
  | .write file _, place => place ∈ file.parent.way

/-- The change removes a regular file at the place. -/
def Clears : Change → Place → Prop
  | .clear directory, place => ∃ name, place = directory.place ++ [name]
  | _, _ => False

/-- The change writes a file at the place. -/
def Writes : Change → Place → Prop
  | .write file _, place => place = file.place
  | _, _ => False

variable {directory file : Path} {content : Content} {place : Place}

/-- Making a directory makes its way. -/
@[simp] theorem makes_make : (make directory).Makes place ↔ place ∈ directory.way := Iff.rfl

/-- Clearing a directory makes none. -/
@[simp] theorem makes_clear : ¬ (clear directory).Makes place := id

/-- Writing a file makes the way to its parent. -/
@[simp] theorem makes_write : (write file content).Makes place ↔ place ∈ file.parent.way := Iff.rfl

/-- Making a directory clears nothing. -/
@[simp] theorem clears_make : ¬ (make directory).Clears place := id

/-- Clearing a directory clears its children. -/
@[simp] theorem clears_clear :
    (clear directory).Clears place ↔ ∃ name, place = directory.place ++ [name] := Iff.rfl

/-- Writing a file clears nothing. -/
@[simp] theorem clears_write : ¬ (write file content).Clears place := id

/-- Making a directory writes nothing. -/
@[simp] theorem writes_make : ¬ (make directory).Writes place := id

/-- Clearing a directory writes nothing. -/
@[simp] theorem writes_clear : ¬ (clear directory).Writes place := id

/-- Writing a file writes its place. -/
@[simp] theorem writes_write : (write file content).Writes place ↔ place = file.place := Iff.rfl

/-- What is written at a place is written by the path of a file. -/
theorem exists_of_writes {change : Change} (h : change.Writes place) :
    ∃ file content, change = .write file content ∧ place = file.place := by
  cases change with
  | write file content => exact ⟨file, content, rfl, h⟩
  | make _ | clear _ => exact absurd h id

end Change

namespace FileTree

variable {tree before middle after : FileTree} {changes : List Change} {place : Place} {path : Path}

/-- What changes make of a tree: the written files and the made directories are there, no other
regular file is left where files are removed, and every other place is as it was. Directories are
made only where no regular file stood, unless it was removed. -/
structure Becomes (before : FileTree) (changes : List Change) (after : FileTree) : Prop where
  written : ∀ file content, .write file content ∈ changes →
    after.get? file.place = some (.file content)
  made : ∀ place, ∀ change ∈ changes, change.Makes place → after.get? place = some .directory
  cleared : ∀ place, (∀ change ∈ changes, ¬ change.Writes place ∧ ¬ change.Makes place) →
    (∃ change ∈ changes, change.Clears place) →
      after.get? place = (before.get? place).filter (· == .directory)
  kept : ∀ place, (∀ change ∈ changes, ¬ change.Writes place ∧ ¬ change.Makes place) →
    (∀ change ∈ changes, ¬ change.Clears place) → after.get? place = before.get? place
  free : ∀ place, ∀ change ∈ changes, change.Makes place → before.contentAt? place ≠ none →
    ∃ other ∈ changes, other.Clears place
  directories : before.KeepsDirectories after
  reaches : before.Reaches after

namespace Becomes

/-- Without changes the tree stays. -/
theorem refl (tree : FileTree) : tree.Becomes [] tree where
  written := by simp
  made := by simp
  cleared := by simp
  kept _ _ _ := rfl
  free := by simp
  directories := .refl tree
  reaches := .refl

/-- What stands at a place that no change makes or writes was there before. -/
theorem get?_of_eq_some (h : before.Becomes changes after) {entry : Entry}
    (hplace : ∀ change ∈ changes, ¬ change.Writes place ∧ ¬ change.Makes place)
    (hentry : after.get? place = some entry) : before.get? place = some entry := by
  by_cases hclears : ∃ change ∈ changes, change.Clears place
  · rw [h.cleared place hplace hclears] at hentry
    exact (Option.filter_eq_some_iff.mp hentry).1
  · push Not at hclears
    rwa [h.kept place hplace hclears] at hentry

/-- A directory was there before or is made. -/
theorem get?_eq_directory_iff (h : before.Becomes changes after) :
    after.get? place = some .directory ↔
      before.get? place = some .directory ∨ ∃ change ∈ changes, change.Makes place := by
  constructor
  · intro hafter
    by_cases hmakes : ∃ change ∈ changes, change.Makes place
    · exact .inr hmakes
    · push Not at hmakes
      refine .inl (h.get?_of_eq_some (fun change hchange => ⟨?_, hmakes change hchange⟩) hafter)
      intro hwrites
      obtain ⟨file, content, rfl, rfl⟩ := Change.exists_of_writes hwrites
      rw [h.written file content hchange] at hafter
      cases hafter
  · rintro (hbefore | ⟨change, hchange, hmakes⟩)
    · exact h.directories place hbefore
    · exact h.made place change hchange hmakes

/-- A content stays if the changes neither write nor remove a file there. -/
theorem contentAt?_eq (h : before.Becomes changes after)
    (hwrites : ∀ change ∈ changes, ¬ change.Writes place)
    (hclears : ∀ change ∈ changes, ¬ change.Clears place) :
    after.contentAt? place = before.contentAt? place := by
  by_cases hmakes : ∃ change ∈ changes, change.Makes place
  · obtain ⟨change, hchange, hmakes⟩ := hmakes
    have hnone : before.contentAt? place = none := by
      by_contra hsome
      obtain ⟨other, hother, hclear⟩ := h.free place change hchange hmakes hsome
      exact hclears other hother hclear
    rw [hnone, contentAt?, h.made place change hchange hmakes]
  · push Not at hmakes
    exact contentAt?_congr (h.kept place
      (fun change hchange => ⟨hwrites change hchange, hmakes change hchange⟩) hclears)

/-- Where files are removed and none is written, there is none afterwards. -/
theorem contentAt?_eq_none (h : before.Becomes changes after)
    (hwrites : ∀ change ∈ changes, ¬ change.Writes place)
    (hclears : ∃ change ∈ changes, change.Clears place) : after.contentAt? place = none := by
  by_cases hmakes : ∃ change ∈ changes, change.Makes place
  · obtain ⟨change, hchange, hmakes⟩ := hmakes
    rw [contentAt?, h.made place change hchange hmakes]
  · push Not at hmakes
    have hafter := h.cleared place
      (fun change hchange => ⟨hwrites change hchange, hmakes change hchange⟩) hclears
    rw [contentAt?, hafter]
    rcases before.get? place with _ | _ | content <;> rfl

/-- Where no file is written and no directory is made, a place has what it had, or only the
directory of it. -/
theorem get?_eq_or_eq_filter (h : before.Becomes changes after)
    (hplace : ∀ change ∈ changes, ¬ change.Writes place ∧ ¬ change.Makes place) :
    after.get? place = before.get? place ∨
      after.get? place = (before.get? place).filter (· == .directory) := by
  by_cases hclears : ∃ change ∈ changes, change.Clears place
  · exact .inr (h.cleared place hplace hclears)
  · push Not at hclears
    exact .inl (h.kept place hplace hclears)

/-- A regular file is there as long as none is removed, be it written over. -/
theorem contentAt?_ne_none (h : before.Becomes changes after)
    (hclears : ∀ change ∈ changes, ¬ change.Clears place)
    (hbefore : before.contentAt? place ≠ none) : after.contentAt? place ≠ none := by
  by_cases hwrites : ∃ change ∈ changes, change.Writes place
  · obtain ⟨change, hchange, hwrites⟩ := hwrites
    obtain ⟨file, content, rfl, rfl⟩ := Change.exists_of_writes hwrites
    rw [contentAt?_eq_some.mpr (h.written file content hchange)]
    exact Option.some_ne_none _
  · push Not at hwrites
    rwa [h.contentAt?_eq hwrites hclears]

/-- **Changes one after another.** They make of a tree what all of them together make of it, if no
file that is written first is written over or removed. -/
theorem append {first second : List Change} (h₁ : before.Becomes first middle)
    (h₂ : middle.Becomes second after)
    (hkept : ∀ file content, .write file content ∈ first →
      ∀ change ∈ second, ¬ change.Writes file.place ∧ ¬ change.Clears file.place) :
    before.Becomes (first ++ second) after where
  written := by
    intro file content hchange
    rcases List.mem_append.mp hchange with hchange | hchange
    · have hmiddle := contentAt?_eq_some.mpr (h₁.written file content hchange)
      refine contentAt?_eq_some.mp ?_
      rw [h₂.contentAt?_eq (fun change hmem => (hkept file content hchange change hmem).1)
        (fun change hmem => (hkept file content hchange change hmem).2), hmiddle]
    · exact h₂.written file content hchange
  made := by
    intro place change hchange hmakes
    rcases List.mem_append.mp hchange with hchange | hchange
    · exact h₂.directories place (h₁.made place change hchange hmakes)
    · exact h₂.made place change hchange hmakes
  cleared := by
    intro place hplace hclears
    obtain ⟨hplace₁, hplace₂⟩ := List.forall_mem_append.mp hplace
    by_cases hclears₁ : ∃ change ∈ first, change.Clears place
    · have hlater := h₂.get?_eq_or_eq_filter hplace₂
      rw [h₁.cleared place hplace₁ hclears₁] at hlater
      simpa [Option.filter_filter] using hlater
    · have hclears₂ : ∃ change ∈ second, change.Clears place := by
        obtain ⟨change, hchange, hclear⟩ := hclears
        rcases List.mem_append.mp hchange with hchange | hchange
        · exact absurd ⟨change, hchange, hclear⟩ hclears₁
        · exact ⟨change, hchange, hclear⟩
      push Not at hclears₁
      rw [h₂.cleared place hplace₂ hclears₂, h₁.kept place hplace₁ hclears₁]
  kept := by
    intro place hplace hclears
    obtain ⟨hplace₁, hplace₂⟩ := List.forall_mem_append.mp hplace
    obtain ⟨hclears₁, hclears₂⟩ := List.forall_mem_append.mp hclears
    rw [h₂.kept place hplace₂ hclears₂, h₁.kept place hplace₁ hclears₁]
  free := by
    intro place change hchange hmakes hcontent
    by_contra hclears
    push Not at hclears
    obtain ⟨hclears₁, hclears₂⟩ := List.forall_mem_append.mp hclears
    rcases List.mem_append.mp hchange with hchange | hchange
    · obtain ⟨other, hother, hclear⟩ := h₁.free place change hchange hmakes hcontent
      exact hclears₁ other hother hclear
    · -- the later changes find the regular file that was there, or one that was written over it
      obtain ⟨other, hother, hclear⟩ := h₂.free place change hchange hmakes
        (h₁.contentAt?_ne_none hclears₁ hcontent)
      exact hclears₂ other hother hclear
  directories := h₁.directories.trans h₂.directories
  reaches := h₁.reaches.trans h₂.reaches

/-- **The order is of no account.** The same changes make the same of a tree. -/
theorem get?_congr {others : List Change} {after' : FileTree} (h : before.Becomes changes after)
    (h' : before.Becomes others after') (hsame : ∀ change, change ∈ others ↔ change ∈ changes)
    (place : Place) : after.get? place = after'.get? place := by
  by_cases hwrites : ∃ change ∈ changes, change.Writes place
  · obtain ⟨change, hchange, hwrites⟩ := hwrites
    obtain ⟨file, content, rfl, rfl⟩ := Change.exists_of_writes hwrites
    rw [h.written file content hchange, h'.written file content ((hsame _).mpr hchange)]
  by_cases hmakes : ∃ change ∈ changes, change.Makes place
  · obtain ⟨change, hchange, hmakes⟩ := hmakes
    rw [h.made place change hchange hmakes, h'.made place change ((hsame _).mpr hchange) hmakes]
  push Not at hwrites hmakes
  have hplace : ∀ change ∈ changes, ¬ change.Writes place ∧ ¬ change.Makes place :=
    fun change hchange => ⟨hwrites change hchange, hmakes change hchange⟩
  have hplace' : ∀ change ∈ others, ¬ change.Writes place ∧ ¬ change.Makes place :=
    fun change hchange => hplace change ((hsame _).mp hchange)
  by_cases hclears : ∃ change ∈ changes, change.Clears place
  · obtain ⟨change, hchange, hclear⟩ := hclears
    rw [h.cleared place hplace ⟨change, hchange, hclear⟩,
      h'.cleared place hplace' ⟨change, (hsame _).mpr hchange, hclear⟩]
  · push Not at hclears
    rw [h.kept place hplace hclears,
      h'.kept place hplace' fun change hchange => hclears change ((hsame _).mp hchange)]

end Becomes

/-! ## Making directories -/

/-- Making a directory whose parent is there makes the directory of its path. -/
theorem makeDirectory_eq_ok (h : tree.makeDirectory path = .ok after) :
    path.IsUsable ∧ ∀ place, after.get? place =
      if place ∈ path.way then some .directory else tree.get? place := by
  unfold makeDirectory at h
  split at h
  · cases h
  · rename_i found hlocate
    split at h
    · cases h
    · rename_i hfree
      cases h
      obtain ⟨husable, rfl, hparent⟩ := locate_eq_ok_iff.mp hlocate
      have hne : path.place ≠ [] := by
        intro hnil
        simp [hnil, get?] at hfree
      refine ⟨husable, fun place => ?_⟩
      by_cases hplace : place = path.place
      · subst hplace
        rw [get?_insert_self hne, if_pos path.place_mem_way]
      · rw [get?_insert_of_ne hplace]
        split
        · rename_i hmem
          exact hparent place ((Path.mem_way_iff.mp hmem).resolve_right hplace)
        · rfl

/-- Where a path leads to a directory there is nothing to make. -/
theorem get?_of_isDirectory (h : tree.isDirectory path = true) (place : Place) :
    tree.get? place = if place ∈ path.way then some .directory else tree.get? place := by
  split
  · rename_i hmem
    exact (isDirectory_iff.mp h).2 place hmem
  · rfl

private theorem ensureDirectory_eq_ok (h : tree.ensureDirectory path = .ok after) :
    path.IsUsable ∧ ∀ place, after.get? place =
      if place ∈ path.way then some .directory else tree.get? place := by
  rcases ensureDirectory_cases h with hmade | ⟨rfl, hdirectory⟩
  · exact makeDirectory_eq_ok hmade
  · exact ⟨(isDirectory_iff.mp hdirectory).1, get?_of_isDirectory hdirectory⟩

/-- Making directories makes those of the way of their path, and no other ones. -/
theorem makeDirectoriesUp_eq_none {start : PathStart} {depth : Nat} {names : List String}
    (h : tree.makeDirectoriesUp start depth names = (after, none)) :
    (Path.mk start names.reverse).IsUsable ∧ ∀ place, after.get? place =
      if place ∈ (Path.mk start names.reverse).way then some .directory else tree.get? place := by
  induction depth generalizing names after with
  | zero => cases h
  | succ depth ih =>
    unfold makeDirectoriesUp at h
    cases names with
    | nil =>
      cases h
      refine ⟨⟨rfl, by cases start <;> decide, by simp⟩, fun place => ?_⟩
      by_cases hplace : place = []
      · simp [hplace, Path.way, get?]
      · simp [hplace, Path.way]
    | cons name above =>
      dsimp only at h
      split at h
      · rename_i hmade
        cases h
        exact makeDirectory_eq_ok hmade
      · split at h
        · cases h
        · rename_i made hmade
          split at h
          · rename_i hdone
            cases h
            -- the directories above are made first, and they are on the way
            obtain ⟨-, habove⟩ := ih hmade
            obtain ⟨husable, hdone⟩ := ensureDirectory_eq_ok hdone
            refine ⟨husable, fun place => ?_⟩
            rw [hdone]
            split
            · rfl
            · rename_i hmem
              rw [habove, if_neg]
              intro hmem'
              refine hmem (Path.mem_way_iff.mpr (.inl ?_))
              simpa [Path.parent] using hmem'
          · cases h
      · simp only [Prod.mk.injEq, ite_eq_left_iff, Bool.not_eq_true, reduceCtorEq, imp_false,
          Bool.not_eq_false] at h
        obtain ⟨rfl, hdirectory⟩ := h
        exact ⟨(isDirectory_iff.mp hdirectory).1, get?_of_isDirectory hdirectory⟩

/-- **Making directories is a change.** -/
theorem becomes_makeDirectories (h : tree.makeDirectories path = (after, none)) :
    path.IsUsable ∧ tree.Becomes [.make path] after := by
  have hgrows := tree.growsTo_makeDirectories path
  have hreaches := tree.reaches_makeDirectories path
  obtain ⟨husable, hget⟩ := makeDirectoriesUp_eq_none h
  rw [h] at hgrows hreaches
  rw [List.reverse_reverse] at husable hget
  refine ⟨husable, ?_⟩
  exact
    { written := by simp
      made := by
        intro place change hchange hmakes
        cases List.mem_singleton.mp hchange
        have hmem : place ∈ path.way := hmakes
        rw [hget, if_pos hmem]
      cleared := by simp
      kept := by
        intro place hplace _
        have hmakes : place ∉ path.way := (hplace _ List.mem_cons_self).2
        rw [hget, if_neg hmakes]
      free := by
        intro place change hchange hmakes hcontent
        cases List.mem_singleton.mp hchange
        have hmem : place ∈ path.way := hmakes
        rw [← hgrows.contentAt?, contentAt?, hget, if_pos hmem] at hcontent
        exact absurd rfl hcontent
      directories := hgrows.directories
      reaches := hreaches }

/-! ## Writing a file -/

/-- A file that is put takes its place, and every other place is as it was. -/
theorem putFile_eq_none {content : Content} (h : tree.putFile path content = (after, none)) :
    path.IsUsable ∧ path.place = path.parent.place ++ [path.name] ∧
      tree.get? path.place ≠ some .directory ∧
      ∀ place, after.get? place =
        if place = path.place then some (.file content) else tree.get? place := by
  obtain ⟨shown, temporary, -, htemporary, hdone⟩ := exists_of_putFile_eq_none h
  obtain ⟨hne, hfree⟩ := get?_of_temporaryPlace? htemporary
  obtain ⟨hparts, hdots, found, hfound, hlocate, hdirectory, rfl⟩ := replaceFile_eq_ok hdone
  obtain ⟨husable, rfl, -⟩ := locate_eq_ok_iff.mp hlocate
  have herased := get?_erase_insert (.file content) hne hfree
  rw [ne_eq, get?_insert_file_eq_directory hne hfree] at hdirectory
  refine ⟨husable, Path.place_eq_append hparts hdots, hdirectory, fun place => ?_⟩
  split
  · rename_i hplace
    rw [hplace, get?_insert_self hfound]
  · rename_i hplace
    rw [get?_insert_of_ne hplace, herased]

/-- A file can be put where its directory is there and no directory stands in its place, if there is
a name for its temporary file. -/
theorem exists_putFile_eq {shown temporary : Place} (husable : path.IsUsable)
    (hparts : path.parts ≠ []) (hdots : path.name ≠ "..")
    (hway : ∀ place ∈ path.parent.way, tree.get? place = some .directory)
    (hplace : tree.get? path.place ≠ some .directory)
    (hshown : tree.locate (temporaryPath path) = .ok shown)
    (htemporary : tree.temporaryPlace? shown.dropLast path.name temporaryAttempts = some temporary)
    (content : Content) : ∃ after, tree.putFile path content = (after, none) := by
  obtain ⟨hne, hfree⟩ := get?_of_temporaryPlace? htemporary
  have hlocate : (tree.insert temporary (.file content)).locate path = .ok path.place := by
    refine locate_eq_ok_iff.mpr ⟨husable, rfl, fun place hmem => ?_⟩
    rw [get?_insert_of_ne, hway place hmem]
    rintro rfl
    rw [hway _ hmem] at hfree
    cases hfree
  have hdirectory : (tree.insert temporary (.file content)).isDirectoryAt path.place = false := by
    rw [isDirectoryAt, beq_eq_false_iff_ne, ne_eq, get?_insert_file_eq_directory hne hfree]
    exact hplace
  have hreplace : ∃ after, (tree.insert temporary (.file content)).replaceFile temporary path
      content = .ok after := by
    unfold replaceFile
    rw [if_neg (by simp [hparts, hdots]), hlocate]
    simp only [hdirectory, Bool.false_eq_true, if_false]
    exact ⟨_, rfl⟩
  obtain ⟨after, hafter⟩ := hreplace
  refine ⟨after, ?_⟩
  unfold putFile
  rw [hshown]
  dsimp only
  rw [htemporary]
  dsimp only
  rw [hafter]

end FileTree

variable {s s' : Session} {path : Path}

/-- **Writing a file is a change.** -/
theorem becomes_of_writeFile_eq_ok {text : String} {size : Nat}
    (h : writeFile path text s = .ok size s') :
    path.IsUsable ∧ path.place = path.parent.place ++ [path.name] ∧
      s.tree.Becomes [.write path (.text text)] s'.tree := by
  obtain ⟨made, hmade, hput⟩ := writeFile_eq_ok h
  have hmake := (FileTree.becomes_makeDirectories hmade).2
  have hreaches := made.reaches_putFile path (.text text)
  obtain ⟨_, -, hputs⟩ := FileTree.puts_putFile hput
  obtain ⟨husable, hlast, hdirectory, hget⟩ := FileTree.putFile_eq_none hput
  rw [hput] at hreaches
  have hbecomes : s.tree.Becomes [.write path (.text text)] s'.tree :=
    { written := by
        intro file content hchange
        cases List.mem_singleton.mp hchange
        rw [hget, if_pos rfl]
      made := by
        intro place change hchange hmakes
        cases List.mem_singleton.mp hchange
        exact hputs.directories place (hmake.made place _ List.mem_cons_self hmakes)
      cleared := by simp
      kept := by
        intro place hplace _
        obtain ⟨hwrites, hmakes⟩ := hplace _ List.mem_cons_self
        have hne : place ≠ path.place := hwrites
        rw [hget, if_neg hne]
        exact hmake.kept place (by simpa using hmakes) (by simp)
      free := by
        intro place change hchange hmakes hcontent
        cases List.mem_singleton.mp hchange
        obtain ⟨other, hother, hclears⟩ :=
          hmake.free place _ List.mem_cons_self hmakes hcontent
        cases List.mem_singleton.mp hother
        exact absurd hclears Change.clears_make
      directories := hmake.directories.trans hputs.directories
      reaches := hmake.reaches.trans hreaches }
  exact ⟨husable, hlast, hbecomes⟩

/-! ## Removing files -/

/-- The file system takes the path, and the path of everything directly below it. -/
structure FileTree.IsListed (tree : FileTree) (path : Path) : Prop where
  usable : path.IsUsable
  short : ∀ name, tree.get? (path.place ++ [name]) ≠ none → IsShort path name

/-- What stands in a directory can be listed where there was more. -/
theorem FileTree.IsListed.mono {before after : FileTree} (h : before.IsListed path)
    (hentries : ∀ place, before.get? place = none → after.get? place = none) :
    after.IsListed path :=
  ⟨h.usable, fun name hentry => h.short name (mt (hentries _) hentry)⟩

/-- What is there stands in a directory, and a path leads there that goes straight down from
directories. -/
theorem FileTree.find_eq_directory_of_get? {tree : FileTree} {name : String}
    (hsound : tree.IsSound) (husable : path.IsUsable)
    (hway : ∀ place ∈ path.way, place <+: path.place ∨ tree.get? place = some .directory)
    (hentry : tree.get? (path.place ++ [name]) ≠ none) :
    tree.find path = .ok (some .directory) := by
  obtain ⟨entry, hentry⟩ := Option.ne_none_iff_exists'.mp hentry
  have hplace := hsound.rooted _ _ _ hentry
  have hparent : ∀ place ∈ path.parent.way, tree.get? place = some .directory := by
    intro place hmem
    rcases hway place (Path.mem_way_iff.mpr (.inl hmem)) with ⟨rest, hrest⟩ | hget
    · exact hsound.directory_of_append (hrest ▸ hplace)
    · exact hget
  exact find_eq_directory.mpr
    ⟨path.place, locate_eq_ok_iff.mpr ⟨husable, rfl, hparent⟩, hplace⟩

/-- Files of a directory are removed where none is left in it, no directory has changed and all else
is as it was. -/
theorem FileTree.becomes_clear {before after : FileTree}
    (hself : ∀ name, after.contentAt? (path.place ++ [name]) = none)
    (hother : ∀ place, (∀ name, place ≠ path.place ++ [name]) →
      after.get? place = before.get? place)
    (hdirectories : ∀ place, after.get? place = some .directory ↔
      before.get? place = some .directory)
    (hreaches : before.Reaches after) : before.Becomes [.clear path] after where
  written := by simp
  made := by simp
  cleared := by
    rintro place - ⟨change, hchange, hclears⟩
    obtain rfl := List.mem_singleton.mp hchange
    obtain ⟨name, rfl⟩ := hclears
    have hnone := hself name
    have hdirectory := hdirectories (path.place ++ [name])
    unfold contentAt? at hnone
    rcases hafter : after.get? (path.place ++ [name]) with _ | _ | content
    · rcases hbefore : before.get? (path.place ++ [name]) with _ | _ | content
      · rfl
      · simp [hafter, hbefore] at hdirectory
      · rfl
    · rw [hdirectory.mp hafter]
      rfl
    · simp [hafter] at hnone
  kept := by
    intro place _ hclears
    exact hother place fun name hname => hclears _ List.mem_cons_self ⟨name, hname⟩
  free := by simp
  directories := fun place => (hdirectories place).mpr
  reaches := hreaches

/-- **Removing the files of a directory is a change.** The path may lead to no directory, but then
there is nothing to remove, if it leads straight down from directories. -/
theorem becomes_of_clearFiles_eq_ok {removed : List Path} (hsound : s.tree.IsSound)
    (hnames : ∀ name ∈ path.parts, name = ".." ∨ Path.IsEntryName name)
    (hway : ∀ place ∈ path.way, place <+: path.place ∨ s.tree.get? place = some .directory)
    (h : clearFiles path s = .ok removed s') :
    s.tree.IsListed path ∧ s.tree.Becomes [.clear path] s'.tree := by
  obtain ⟨entry, hfind, hcases⟩ := clearFiles_eq_ok h
  have husable := FileTree.isUsable_of_find hnames hfind
  rcases hcases with ⟨rfl, hclear⟩ | ⟨hdirectory, -, rfl⟩
  · obtain ⟨above, hlocate, -⟩ := FileTree.find_eq_directory.mp hfind
    obtain ⟨-, rfl, -⟩ := FileTree.locate_eq_ok_iff.mp hlocate
    obtain ⟨htree, hremoved⟩ : (s.tree.clearFiles path).1 = s'.tree ∧
        (s.tree.clearFiles path).2 = .ok removed := by
      simp [hclear]
    have hshort := (FileTree.exists_clearFiles_snd_eq_ok hlocate).mp ⟨removed, hremoved⟩
    refine ⟨⟨husable, fun name hentry => hshort name (FileTree.mem_children_iff.mpr hentry)⟩, ?_⟩
    rw [← htree]
    exact FileTree.becomes_clear
      (fun name => (FileTree.contentAt?_clearFiles_self hlocate hremoved name).1)
      (fun place hplace => FileTree.get?_clearFiles_of_ne hlocate hplace)
      (s.tree.get?_clearFiles_eq_directory path) (s.tree.reaches_clearFiles path)
  · have hnone (name : String) : s'.tree.get? (path.place ++ [name]) = none := by
      by_contra hentry
      have hdirectory' := FileTree.find_eq_directory_of_get? hsound husable hway hentry
      exact hdirectory (Except.ok.inj (hfind.symm.trans hdirectory'))
    refine ⟨⟨husable, fun name hentry => absurd (hnone name) hentry⟩,
      FileTree.becomes_clear (fun name => ?_) (fun _ _ => rfl) (fun _ => Iff.rfl) .refl⟩
    rw [FileTree.contentAt?, hnone]

/-! ## Names -/

/-- The names in the path of a change are double dots and names that files can have, and a file is
written below its parent. -/
structure Change.IsNamed (change : Change) : Prop where
  names : ∀ name ∈ change.path.parts, name = ".." ∨ Path.IsEntryName name
  below : ∀ file content, change = .write file content →
    file.place = file.parent.place ++ [file.name]

/-- Making a directory is named if its path is. -/
theorem Change.isNamed_make {directory : Path}
    (h : ∀ name ∈ directory.parts, name = ".." ∨ Path.IsEntryName name) :
    (make directory).IsNamed :=
  ⟨h, by simp⟩

/-- Clearing a directory is named if its path is. -/
theorem Change.isNamed_clear {directory : Path}
    (h : ∀ name ∈ directory.parts, name = ".." ∨ Path.IsEntryName name) :
    (clear directory).IsNamed :=
  ⟨h, by simp⟩

/-- Writing a file is named if its path is. -/
theorem Change.isNamed_write {file : Path} {content : Content}
    (h : ∀ name ∈ file.parts, name = ".." ∨ Path.IsEntryName name)
    (hbelow : file.place = file.parent.place ++ [file.name]) : (write file content).IsNamed :=
  ⟨h, by simpa using hbelow⟩

/-- A change makes and writes at places of names that files can have, below directories that it
makes. -/
theorem Change.IsNamed.above {change : Change} (h : change.IsNamed) {place : Place} {name : String}
    (hplace : change.Makes (place ++ [name]) ∨ change.Writes (place ++ [name])) :
    change.Makes place ∧ Path.IsEntryName name := by
  have hentry {path : Path} (hparts : ∀ name ∈ path.parts, name = ".." ∨ Path.IsEntryName name)
      (hmem : place ++ [name] ∈ path.way) : Path.IsEntryName name := by
    obtain ⟨hname, hdots⟩ := Path.mem_parts_of_mem_way hmem (show name ∈ place ++ [name] by simp)
    exact (hparts name hname).resolve_left hdots
  cases change with
  | make directory =>
    obtain hmem : place ++ [name] ∈ directory.way := by simpa using hplace
    exact ⟨Path.mem_way_of_append hmem, hentry h.names hmem⟩
  | clear directory => simp at hplace
  | write file content =>
    rcases hplace with hmem | heq
    · have hmem : place ++ [name] ∈ file.parent.way := hmem
      refine ⟨Path.mem_way_of_append hmem, hentry (fun other hother => ?_) hmem⟩
      exact h.names other (List.mem_of_mem_dropLast hother)
    · have heq : place ++ [name] = file.place := heq
      have hmem : place ++ [name] ∈ file.way := heq ▸ file.place_mem_way
      rw [h.below file content rfl] at heq
      obtain ⟨rfl, -⟩ := List.append_inj' heq rfl
      exact ⟨file.parent.place_mem_way, hentry h.names hmem⟩

/-- Changes with names that files can have keep a tree sound. -/
theorem FileTree.Becomes.isSound {before after : FileTree} {changes : List Change}
    (h : before.Becomes changes after) (hsound : before.IsSound)
    (hchanges : ∀ change ∈ changes, change.IsNamed) : after.IsSound := by
  have habove {place : Place} {name : String} {entry : Entry}
      (hentry : after.get? (place ++ [name]) = some entry) :
      after.get? place = some .directory ∧ Path.IsEntryName name := by
    by_cases hplace : ∃ change ∈ changes,
        change.Makes (place ++ [name]) ∨ change.Writes (place ++ [name])
    · obtain ⟨change, hchange, hplace⟩ := hplace
      obtain ⟨hmakes, hname⟩ := (hchanges change hchange).above hplace
      exact ⟨h.made place change hchange hmakes, hname⟩
    · push Not at hplace
      have hbefore := h.get?_of_eq_some
        (fun change hchange => ⟨(hplace change hchange).2, (hplace change hchange).1⟩) hentry
      exact ⟨h.directories place (hsound.rooted _ _ _ hbefore), hsound.named _ _ _ hbefore⟩
  exact
    { distinct := h.reaches.isDistinct hsound.distinct
      rooted := fun _ _ _ hentry => (habove hentry).1
      named := fun _ _ _ hentry => (habove hentry).2 }

end NestLayers
