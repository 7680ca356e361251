import NestLayers.Proofs.FileFaults
import NestLayers.Proofs.LayerRuns
import NestLayers.Proofs.RepeatedChanges

/-!
# Writing a layer again

What was written can be written again. The directories of a file are still there, no directory
stands in its place, and where a name was free for its temporary file it is free still: the files
and directories of a layer have no such names. So a layer that was written is settled in the tree,
whatever else is written afterwards, and writing it again succeeds and makes the same changes.
-/

namespace NestLayers

namespace FileTree

variable {before middle after tree : FileTree} {change : Change} {changes : List Change}
  {path : Path}

/-! ## Temporary files -/

/-- The place has the name of a temporary file. -/
def IsTemporary (place : Place) : Prop :=
  ∃ above name random, place = above ++ [temporaryName name random]

/-- The name of a temporary file ends in a letter that no name of a generated file ends in. -/
theorem getLast?_temporaryName (name random : String) :
    (temporaryName name random).toList.getLast? = some 'p' := by
  simp [temporaryName, List.getLast?_cons, List.getLast?_append]

private theorem temporaryName_ne (name random : String) : temporaryName name random ≠ name := by
  intro heq
  have hlength := congrArg String.length heq
  have hends : ".".length = 1 ∧ ".tmp".length = 4 := by decide
  simp only [temporaryName, String.length_append] at hlength
  omega

/-- There is a name for a temporary file wherever no free name was taken. -/
theorem exists_temporaryPlace?_eq {directory temporary : Place} {name : String} {attempts : Nat}
    (hfree : ∀ random, before.get? (directory ++ [temporaryName name random]) = none →
      after.get? (directory ++ [temporaryName name random]) = none)
    (h : before.temporaryPlace? directory name attempts = some temporary) :
    ∃ place, after.temporaryPlace? directory name attempts = some place := by
  induction attempts with
  | zero => cases h
  | succ attempts ih =>
    unfold temporaryPlace? at h ⊢
    dsimp only at h ⊢
    split
    · exact ⟨_, rfl⟩
    · rename_i entry hafter
      split at h
      · rename_i hbefore
        rw [hfree _ hbefore] at hafter
        cases hafter
      · exact ih h

/-! ## Trees that can be written to as before -/

/-- The directories of a tree are there in a later one, and so are the free names for temporary
files. -/
structure StaysOpen (before after : FileTree) : Prop where
  directories : before.KeepsDirectories after
  free : ∀ place, IsTemporary place → before.get? place = none → after.get? place = none

private theorem StaysOpen.refl (tree : FileTree) : tree.StaysOpen tree :=
  ⟨.refl tree, fun _ _ => id⟩

private theorem StaysOpen.trans (h₁ : before.StaysOpen middle) (h₂ : middle.StaysOpen after) :
    before.StaysOpen after :=
  ⟨h₁.directories.trans h₂.directories,
    fun place hplace hfree => h₂.free place hplace (h₁.free place hplace hfree)⟩

/-- A tree stays open if its changes put nothing at a free name for a temporary file. -/
theorem Undergoes.staysOpen (h : before.Undergoes changes after)
    (hputs : ∀ change ∈ changes, ∀ place, IsTemporary place → change.Puts place →
      before.get? place ≠ none) : before.StaysOpen after :=
  ⟨h.keepsDirectories, fun place hplace hfree =>
    h.get?_eq_none (fun change hchange hput => hputs change hchange place hplace hput hfree) hfree⟩

/-- The trees have the same directories, and there is nothing new in the later one. -/
structure SameRoom (before after : FileTree) : Prop where
  directories : before.KeepsDirectories after
  back : after.KeepsDirectories before
  entries : ∀ place, before.get? place = none → after.get? place = none

/-- Having the same room is reflexive. -/
theorem SameRoom.refl (tree : FileTree) : tree.SameRoom tree :=
  ⟨.refl tree, .refl tree, fun _ => id⟩

private theorem SameRoom.staysOpen (h : before.SameRoom after) : before.StaysOpen after :=
  ⟨h.directories, fun place _ => h.entries place⟩

/-- There is the same room after a change that puts things only where something is already. -/
theorem SameRoom.becomes (h : tree.SameRoom before) (hbecomes : before.Becomes [change] after)
    (hmakes : ∀ place, change.Makes place → tree.get? place = some .directory)
    (hwrites : ∀ place, change.Writes place → tree.get? place ≠ none) : tree.SameRoom after := by
  have hundergoes := Undergoes.single hbecomes
  refine ⟨h.directories.trans hbecomes.directories, ?_, fun place hfree => ?_⟩
  · intro place hplace
    rcases hundergoes.get?_eq_directory_iff.mp hplace with hbefore | ⟨other, hother, hmake⟩
    · exact h.back place hbefore
    · obtain rfl := List.mem_singleton.mp hother
      exact hmakes place hmake
  · refine hundergoes.get?_eq_none (List.forall_mem_singleton.mpr ?_) (h.entries place hfree)
    rintro (hput | hput)
    · exact hwrites place hput hfree
    · rw [hmakes place hput] at hfree
      cases hfree

end FileTree

variable {s s' t : Session} {path : Path}

/-- **A file that was written can be written again**, as long as no directory takes its place. -/
theorem exists_writeFile_again {text : String} {size : Nat}
    (h : writeFile path text s = .ok size s') (hopen : s'.tree.StaysOpen t.tree)
    (hplace : t.tree.get? path.place ≠ some .directory) :
    ∃ size' t', writeFile path text t = .ok size' t' := by
  obtain ⟨husable, hlast, hbecomes⟩ := becomes_of_writeFile_eq_ok h
  have hway : ∀ place ∈ path.parent.way, t.tree.get? place = some .directory := fun place hmem =>
    hopen.directories place (hbecomes.made place _ List.mem_cons_self hmem)
  obtain ⟨made, -, hput⟩ := writeFile_eq_ok h
  obtain ⟨shown, temporary, hshown, htemporary, hdone⟩ := FileTree.exists_of_putFile_eq_none hput
  obtain ⟨hparts, hdots, -⟩ := FileTree.replaceFile_eq_ok hdone
  obtain ⟨-, -, -, hget⟩ := FileTree.putFile_eq_none hput
  obtain ⟨_, -, hputs⟩ := FileTree.puts_putFile hput
  -- a temporary file has another name than the file, so that a free name stays free
  have hfree : ∀ random,
      made.get? (shown.dropLast ++ [FileTree.temporaryName path.name random]) = none →
        t.tree.get? (shown.dropLast ++ [FileTree.temporaryName path.name random]) = none := by
    intro random hnone
    refine hopen.free _ ⟨_, _, _, rfl⟩ ((hget _).trans ?_)
    rw [if_neg, hnone]
    intro heq
    rw [hlast] at heq
    exact FileTree.temporaryName_ne _ _ (List.singleton_inj.mp (List.append_inj' heq rfl).2)
  obtain ⟨place, hfound⟩ := FileTree.exists_temporaryPlace?_eq hfree htemporary
  obtain ⟨after, hafter⟩ := FileTree.exists_putFile_eq husable hparts hdots hway hplace
    ((hputs.directories.trans hopen.directories).locate hshown) hfound (.text text)
  have hparent := FileTree.isDirectory_iff.mpr ⟨husable.parent, hway⟩
  rw [writeFile_run, ensureDirectory_run, FileTree.makeDirectories_of_isDirectory hparent]
  dsimp only [Session.record]
  rw [hafter]
  exact ⟨_, _, rfl⟩

/-- Work on items one after another is done if each step is done and keeps what it needs. -/
theorem exists_mapM_eq_ok {α β : Type} {work : α → Work β} {inv : Session → Prop} {items : List α}
    (hstep : ∀ item ∈ items, ∀ s, inv s → ∃ result s', work item s = .ok result s' ∧ inv s')
    (hs : inv s) : ∃ results s', items.mapM work s = .ok results s' ∧ inv s' := by
  induction items generalizing s with
  | nil => exact ⟨[], s, rfl, hs⟩
  | cons item items ih =>
    obtain ⟨hitem, hitems⟩ := List.forall_mem_cons.mp hstep
    obtain ⟨result, s₁, hfirst, hs₁⟩ := hitem s hs
    obtain ⟨results, s₂, hrest, hs₂⟩ := ih hitems hs₁
    exact ⟨result :: results, s₂, mapM_cons_eq_ok.mpr ⟨result, s₁, results, hfirst, hrest, rfl⟩, hs₂⟩

/-- The files of a directory that can be listed are removed. -/
theorem exists_clearFiles_eq_ok {path : Path} (h : s.tree.IsListed path) :
    ∃ removed s', clearFiles path s = .ok removed s' := by
  rw [clearFiles_run, FileTree.find_of_isUsable h.usable]
  dsimp only
  split
  · rename_i hdirectory
    have hfind : s.tree.find path = .ok (some .directory) := by
      rw [FileTree.find_of_isUsable h.usable, hdirectory]
    obtain ⟨removed, hremoved⟩ :=
      (FileTree.exists_clearFiles_snd_eq_ok (FileTree.locate_of_find hfind)).mpr fun name hname =>
        h.short name (FileTree.mem_children_iff.mp hname)
    rcases hclear : s.tree.clearFiles path with ⟨tree, fault | cleared⟩
    · rw [hclear] at hremoved
      cases hremoved
    · exact ⟨_, _, rfl⟩
  · exact ⟨[], s, rfl⟩

/-! ## Changes below a directory -/

/-- The file system takes the paths on the way down to a path. -/
theorem Path.IsUsable.of_prefix {base : Path} {front names : List String}
    (h : (base.below names).IsUsable) (hfront : front <+: names) : (base.below front).IsUsable := by
  obtain ⟨rest, rfl⟩ := hfront
  induction rest using List.reverseRecOn with
  | nil => rwa [List.append_nil] at h
  | append_singleton rest name ih =>
    rw [← List.append_assoc] at h
    exact ih (Path.parent_below base _ name ▸ h.parent)

/-- The change is made below a directory, at a path that the file system takes. -/
structure Change.IsWithin (change : Change) (base : Path) : Prop where
  usable : change.path.IsUsable
  below : ∃ names, change.path = base.below names ∧ ".." ∉ names

/-- What a change below a directory puts is on the way to it, or the file system takes the path that
leads there. -/
theorem Change.IsWithin.of_puts {change : Change} {base : Path} {place : Place}
    (h : change.IsWithin base) (hputs : change.Puts place) :
    place ∈ base.way ∨ ∃ front, place = base.place ++ front ∧ (base.below front).IsUsable := by
  have hway : place ∈ change.path.way := by
    cases change with
    | make directory => exact hputs.resolve_left Change.writes_make
    | clear directory => simp [Change.Puts] at hputs
    | write file content =>
      exact hputs.elim (fun heq => heq ▸ Path.place_mem_way _) Path.mem_way_of_parent
  obtain ⟨names, hpath, hdots⟩ := h.below
  have husable := h.usable
  rw [hpath] at hway husable
  rcases (Path.mem_way_below base hdots).mp hway with hbase | ⟨front, hfront, rfl⟩
  · exact .inl hbase
  · exact .inr ⟨front, rfl, husable.of_prefix hfront⟩

/-- What is listed inside of a directory can be listed after changes below this directory. -/
theorem FileTree.IsListed.undergoes {before after : FileTree} {changes : List Change} {base : Path}
    {directory : String} (h : before.IsListed (base / directory))
    (hdirectory : Path.IsEntryPath directory)
    (hway : ∀ place ∈ base.way, place <+: base.place ∨ before.get? place = some .directory)
    (hundergoes : before.Undergoes changes after)
    (hchanges : ∀ change ∈ changes, change.IsWithin base) : after.IsListed (base / directory) := by
  have hpath := hdirectory.inside.div_eq base
  have hplace := Path.place_below base hdirectory.inside.2
  rw [hpath] at h ⊢
  refine ⟨h.usable, fun name hentry => ?_⟩
  by_cases hold : before.get? ((base.below (Path.ofString directory).parts).place ++ [name]) = none
  swap
  · exact h.short name hold
  obtain ⟨change, hchange, hputs⟩ : ∃ change ∈ changes,
      change.Puts ((base.below (Path.ofString directory).parts).place ++ [name]) := by
    by_contra hnone
    push Not at hnone
    exact hentry (hundergoes.get?_eq_none hnone hold)
  rcases (hchanges change hchange).of_puts hputs with hbase | ⟨front, hfront, husable⟩
  · -- what is on the way to the directory is above it, or was there already
    rcases hway _ hbase with habove | hget
    · have hlength := habove.length_le
      simp [hplace] at hlength
    · rw [hget] at hold
      cases hold
  · rw [hplace, List.append_assoc] at hfront
    rw [← List.append_cancel_left hfront] at husable
    rw [IsShort, entryPath]
    simpa [Path.below] using husable.size

/-- Changes below the directory that a search has found are of no account for the search. -/
theorem FileTree.growsInside_of_isWithin {before after : FileTree} {changes : List Change}
    {source base : Path} {name : String} (hsound : before.IsSound)
    (hfind : before.findDirectory source name = .ok (some base))
    (hway : ∀ place ∈ base.way, before.get? place = some .directory)
    (hundergoes : before.Undergoes changes after)
    (hchanges : ∀ change ∈ changes, change.IsWithin base) :
    before.GrowsInside source (some base) after := by
  have hsearch := (eq_search_of_findDirectory hsound.toIsProper hfind).symm
  obtain ⟨names, hfirst, rfl⟩ := (search_eq_some (isDirectory_of_search hsearch)).mp hsearch
  have hdots : ".." ∉ names := fun hmem => (hsound.isEntryName hfirst.directory hmem).ne_dots rfl
  have hputs {change : Change} {place : Place} (hchange : change ∈ changes)
      (hput : change.Puts place) (hnew : before.get? place ≠ some .directory) :
      ∃ front, place = source.place ++ names ++ front ∧
        ((source.below names).below front).IsUsable := by
    rcases (hchanges change hchange).of_puts hput with hbase | hfront
    · exact absurd (hway place hbase) hnew
    · rwa [source.place_below hdots] at hfront
  refine ⟨hundergoes.keepsDirectories, fun place hafter hnew => ?_, fun other content hafter hnew => ?_⟩
  · rcases hundergoes.get?_eq_directory_iff.mp hafter with hold | ⟨change, hchange, hmakes⟩
    · exact absurd hold hnew
    · obtain ⟨front, rfl, -⟩ := hputs hchange (.inr hmakes) hnew
      exact ⟨names, rfl, List.prefix_append _ _⟩
  · have hcontent := contentAt?_eq_some.mp hafter
    have hother : before.get? (source.place ++ other) ≠ some .directory := fun hold => by
      cases (hundergoes.keepsDirectories _ hold).symm.trans hcontent
    obtain ⟨change, hchange, hput⟩ : ∃ change ∈ changes, change.Puts (source.place ++ other) := by
      by_contra hnone
      push Not at hnone
      have hold : before.get? (source.place ++ other) = none := by
        rcases hget : before.get? (source.place ++ other) with _ | _ | content'
        · rfl
        · exact absurd hget hother
        · simp [contentAt?, hget] at hnew
      cases (hundergoes.get?_eq_none hnone hold).symm.trans hcontent
    obtain ⟨front, hfront, husable⟩ := hputs hchange hput hother
    rw [List.append_assoc] at hfront
    rw [List.append_cancel_left hfront, ← Path.below_below]
    exact husable.size

/-- A search finds the same where there is nothing new. -/
theorem FileTree.SameRoom.growsInside {before after : FileTree} (h : before.SameRoom after)
    (root : Path) (answer : Option Path) : before.GrowsInside root answer after where
  directories := h.directories
  inside place hafter hnew := absurd (h.back place hafter) hnew
  files names content hafter hnew := by
    have hcontent := contentAt?_eq_some.mp hafter
    rcases hget : before.get? (root.place ++ names) with _ | _ | content'
    · cases (h.entries _ hget).symm.trans hcontent
    · cases (h.directories _ hget).symm.trans hcontent
    · simp [contentAt?, hget] at hnew

/-! ## Files of a layer -/

/-- The file goes below the directory that it is written to, and no part of its path is the name of
a temporary file. -/
structure Artifact.IsPlaced (a : Artifact) : Prop where
  inside : Path.IsInside a.path
  ne_nil : (Path.ofString a.path).parts ≠ []
  names : ∀ name ∈ (Path.ofString a.path).parts, name.toList.getLast? ≠ some 'p'

/-- The file stands in the tree, and can be written again. -/
structure Artifact.IsSettled (a : Artifact) (base : Path) (tree : FileTree) : Prop where
  written : ∃ (s s' : Session) (file : FileRecord),
    Exporter.writeArtifact base a s = .ok file s' ∧ s'.tree.StaysOpen tree
  content : tree.contentAt? (base / a.path).place ≠ none

namespace Exporter

variable {base : Path} {a : Artifact} {file : FileRecord}

private theorem exists_of_writeArtifact_eq_ok (h : writeArtifact base a s = .ok file s') :
    ∃ size s₁, writeFile (base / a.path) a.content s = .ok size s₁ ∧ s'.tree = s₁.tree := by
  rw [writeArtifact_run] at h
  split at h
  · cases h
  · rename_i size s₁ hwrite
    obtain ⟨-, rfl⟩ := EStateM.Result.ok.inj h
    exact ⟨size, s₁, reporting_eq_ok.mp hwrite, rfl⟩

end Exporter

namespace Artifact

variable {a : Artifact} {base : Path} {tree after : FileTree} {changes : List Change} {place : Place}

/-- The directories of a settled file are there. -/
theorem IsSettled.way (h : a.IsSettled base tree) :
    ∀ place ∈ (base / a.path).parent.way, tree.get? place = some .directory := by
  intro place hplace
  obtain ⟨s, s', file, hwrite, hopen⟩ := h.written
  obtain ⟨size, s₁, hfile, htree⟩ := Exporter.exists_of_writeArtifact_eq_ok hwrite
  obtain ⟨-, -, hbecomes⟩ := becomes_of_writeFile_eq_ok hfile
  exact hopen.directories place (htree ▸ hbecomes.made place _ List.mem_cons_self hplace)

/-- The file system takes the path of a settled file. -/
theorem IsSettled.isUsable (h : a.IsSettled base tree) : (base / a.path).IsUsable := by
  obtain ⟨s, s', file, hwrite, -⟩ := h.written
  obtain ⟨size, s₁, hfile, -⟩ := Exporter.exists_of_writeArtifact_eq_ok hwrite
  exact (becomes_of_writeFile_eq_ok hfile).1

/-- A file stays settled while it is not removed. -/
theorem IsSettled.undergoes (h : a.IsSettled base tree) (hundergoes : tree.Undergoes changes after)
    (hopen : tree.StaysOpen after)
    (hclears : ∀ change ∈ changes, ¬ change.Clears (base / a.path).place) :
    a.IsSettled base after := by
  obtain ⟨s, s', file, hwrite, hbefore⟩ := h.written
  exact ⟨⟨s, s', file, hwrite, hbefore.trans hopen⟩,
    hundergoes.contentAt?_ne_none hclears h.content⟩

/-- **A settled file can be written again**, and there is the same room afterwards. -/
theorem IsSettled.exists_writeArtifact_eq_ok (h : a.IsSettled base tree)
    (hroom : tree.SameRoom t.tree) :
    ∃ file t', Exporter.writeArtifact base a t = .ok file t' ∧ tree.SameRoom t'.tree := by
  obtain ⟨s, s', file, hwrite, hopen⟩ := h.written
  obtain ⟨size, s₁, hfile, htree⟩ := Exporter.exists_of_writeArtifact_eq_ok hwrite
  have hcontent : tree.get? (base / a.path).place ≠ none ∧
      tree.get? (base / a.path).place ≠ some .directory := by
    obtain ⟨content, hcontent⟩ := Option.ne_none_iff_exists'.mp h.content
    rw [FileTree.contentAt?_eq_some.mp hcontent]
    simp
  obtain ⟨size', t₁, hagain⟩ := exists_writeFile_again hfile
    (htree ▸ hopen.trans hroom.staysOpen) fun hget => hcontent.2 (hroom.back _ hget)
  obtain ⟨-, -, hbecomes⟩ := becomes_of_writeFile_eq_ok hagain
  have hartifact : Exporter.writeArtifact base a t =
      .ok (Exporter.fileRecord base a) (t₁.record (.artifactWritten (base / a.path))) := by
    rw [Exporter.writeArtifact_run, reporting_eq_ok.mpr hagain]
  refine ⟨_, _, hartifact, hroom.becomes hbecomes h.way ?_⟩
  rintro place rfl
  exact hcontent.1

/-- A placed artifact adds its names to a path. -/
theorem IsPlaced.div_eq (h : a.IsPlaced) (base : Path) :
    base / a.path = base.below (Path.ofString a.path).parts :=
  h.inside.div_eq base

/-- What is put at the name of a temporary file is on the way to the directory of the file. -/
theorem IsPlaced.mem_way_of_puts (h : a.IsPlaced) {content : Content}
    (hplace : FileTree.IsTemporary place)
    (hputs : (Change.write (base / a.path) content).Puts place) : place ∈ base.way := by
  obtain ⟨above, name, random, rfl⟩ := hplace
  have hmem : above ++ [FileTree.temporaryName name random] ∈ (base / a.path).way :=
    hputs.elim (fun heq => heq ▸ Path.place_mem_way _) Path.mem_way_of_parent
  rw [h.div_eq, Path.mem_way_below _ h.inside.2] at hmem
  rcases hmem with hmem | ⟨front, hfront, heq⟩
  · exact hmem
  rcases List.eq_nil_or_concat' front with rfl | ⟨first, last, rfl⟩
  · rw [heq, List.append_nil]
    exact base.place_mem_way
  · rw [← List.append_assoc] at heq
    have hlast := List.singleton_inj.mp (List.append_inj' heq rfl).2
    refine absurd (FileTree.getLast?_temporaryName name random) ?_
    rw [hlast]
    exact h.names last (hfront.subset (by simp))

private theorem IsPlaced.way_subset (h : a.IsPlaced) (base : Path) :
    ∀ place ∈ base.way, place ∈ (base / a.path).parent.way := by
  intro place hplace
  rw [h.div_eq, ← List.dropLast_concat_getLast h.ne_nil, Path.parent_below]
  refine (Path.mem_way_below base fun hdots => h.inside.2 ?_).mpr (.inl hplace)
  exact List.mem_of_mem_dropLast hdots

end Artifact

/-! ## Layers -/

/-- The files of the layer go below its target directory, and so do the directories that it
replaces. -/
structure LayerOutput.IsPlaced (output : LayerOutput) : Prop where
  resets : ∀ directory ∈ output.resetDirectories, Path.IsEntryPath directory
  artifacts : ∀ a ∈ output.artifacts, a.IsPlaced

/-- What is removed and written below the target directory of a layer. -/
def LayerOutput.refills (output : LayerOutput) (base : Path) : List Change :=
  (output.resetDirectories.map fun directory => .clear (base / directory)) ++
    output.artifacts.map fun a => .write (base / a.path) (.text a.content)

/-- The files of the layer stand in the tree, and can be written again. -/
structure LayerOutput.IsSettled (output : LayerOutput) (base : Path) (tree : FileTree) : Prop where
  resets : ∀ directory ∈ output.resetDirectories, tree.IsListed (base / directory)
  artifacts : ∀ a ∈ output.artifacts, a.IsSettled base tree

namespace Exporter

variable {α β : Type} {exporter : Exporter} {output : LayerOutput} {base : Path} {tree : FileTree}
  {removed : List Path} {files : List FileRecord} {s₁ s₂ s₃ : Session}

/-- Work on items one after another makes their changes one after another. -/
theorem undergoes_of_mapM_eq_ok {work : α → Work β} {items : List α} {results : List β}
    (change : α → Change)
    (hstep : ∀ item ∈ items, ∀ (result : β) (s s' : Session), s.tree.Nears base →
      work item s = .ok result s' →
        s.tree.Becomes [change item] s'.tree ∧ (change item).IsNamed)
    (hs : s.tree.Nears base) (h : items.mapM work s = .ok results s') :
    s.tree.Undergoes (items.map change) s'.tree ∧ s'.tree.Nears base := by
  induction items generalizing s results with
  | nil =>
    obtain ⟨-, rfl⟩ := EStateM.Result.ok.inj h
    exact ⟨.nil _, hs⟩
  | cons item items ih =>
    obtain ⟨result, s₁, rest, hfirst, hrest, -⟩ := mapM_cons_eq_ok.mp h
    obtain ⟨hbecomes, hnamed⟩ := hstep item List.mem_cons_self result s s₁ hs hfirst
    obtain ⟨hothers, hnears⟩ := ih
      (fun other hother => hstep other (List.mem_cons_of_mem _ hother))
      (hs.becomes hbecomes (by simpa using hnamed)) hrest
    exact ⟨.cons hbecomes hothers, hnears⟩

section Names

variable (hnames : ∀ name ∈ base.parts, name = ".." ∨ Path.IsEntryName name)

include hnames

private theorem undergoes_of_reset_eq_ok {directories : List String}
    (hdirectories : ∀ directory ∈ directories, Path.IsEntryPath directory)
    (hs : s.tree.Nears base) (h : reset base directories s = .ok removed s') :
    s.tree.Undergoes (directories.map fun directory => .clear (base / directory)) s'.tree ∧
      s'.tree.Nears base := by
  obtain ⟨lists, s₁, hlists, hremoved⟩ := bind_eq_ok.mp h
  obtain ⟨-, rfl⟩ := EStateM.Result.ok.inj hremoved
  exact undergoes_of_mapM_eq_ok _ (fun directory hdirectory _ _ _ hs hwork =>
    (becomes_of_clearFiles_inside (hdirectories directory hdirectory) hnames hs
      (reporting_eq_ok.mp hwork)).2) hs hlists

/-- The directories that were emptied one after another can be listed afterwards. -/
theorem isListed_of_mapM_eq_ok {directories : List String} {lists : List (List Path)}
    (hdirectories : ∀ directory ∈ directories, Path.IsEntryPath directory)
    (hs : s.tree.Nears base)
    (h : directories.mapM (fun directory => reporting (.clearRefused (base / directory))
      (clearFiles (base / directory))) s = .ok lists s') :
    ∀ directory ∈ directories, s'.tree.IsListed (base / directory) := by
  induction directories generalizing s lists with
  | nil => simp
  | cons directory directories ih =>
    obtain ⟨hfirst, hrest⟩ := List.forall_mem_cons.mp hdirectories
    obtain ⟨removed, s₁, others, hclear, hclears, -⟩ := mapM_cons_eq_ok.mp h
    obtain ⟨hlisted, hbecomes, hnamed⟩ :=
      becomes_of_clearFiles_inside hfirst hnames hs (reporting_eq_ok.mp hclear)
    have hs₁ : s₁.tree.Nears base := hs.becomes hbecomes (by simpa using hnamed)
    obtain ⟨hundergoes, -⟩ := undergoes_of_mapM_eq_ok _ (fun directory hdirectory _ _ _ hs hwork =>
      (becomes_of_clearFiles_inside (hrest directory hdirectory) hnames hs
        (reporting_eq_ok.mp hwork)).2) hs₁ hclears
    refine List.forall_mem_cons.mpr ⟨hlisted.mono fun place hnone => ?_, ih hrest hs₁ hclears⟩
    refine (FileTree.Undergoes.cons hbecomes hundergoes).get?_eq_none (fun change hchange => ?_) hnone
    rcases List.mem_cons.mp hchange with rfl | hchange
    · simp [Change.Puts]
    · obtain ⟨other, -, rfl⟩ := List.mem_map.mp hchange
      simp [Change.Puts]

private theorem undergoes_of_writeArtifacts_eq_ok {artifacts : List Artifact}
    (hs : s.tree.Nears base) (h : artifacts.mapM (writeArtifact base) s = .ok files s') :
    s.tree.Undergoes (artifacts.map fun a => .write (base / a.path) (.text a.content)) s'.tree ∧
      s'.tree.Nears base :=
  undergoes_of_mapM_eq_ok _ (fun _ _ _ _ _ _ hwork => becomes_of_writeArtifact_eq_ok hnames hwork)
    hs h

/-- The files of a layer are settled when all of them are written. -/
theorem isSettled_of_writeArtifacts_eq_ok {artifacts : List Artifact}
    (hplaced : ∀ a ∈ artifacts, a.IsPlaced) (hs : s.tree.Nears base)
    (h : artifacts.mapM (writeArtifact base) s = .ok files s') :
    ∀ a ∈ artifacts, a.IsSettled base s'.tree := by
  induction artifacts generalizing s files with
  | nil => simp
  | cons a artifacts ih =>
    obtain ⟨hfirst, hrest⟩ := List.forall_mem_cons.mp hplaced
    obtain ⟨file, s₁, others, hwrite, hwrites, -⟩ := mapM_cons_eq_ok.mp h
    obtain ⟨hbecomes, hnamed⟩ := becomes_of_writeArtifact_eq_ok hnames hwrite
    have hs₁ : s₁.tree.Nears base := hs.becomes hbecomes (by simpa using hnamed)
    obtain ⟨hundergoes, -⟩ := undergoes_of_writeArtifacts_eq_ok hnames hs₁ hwrites
    refine List.forall_mem_cons.mpr ⟨?_, ih hrest hs₁ hwrites⟩
    have hsettled : a.IsSettled base s₁.tree := by
      refine ⟨⟨s, s₁, file, hwrite, .refl _⟩, ?_⟩
      rw [FileTree.contentAt?_eq_some.mpr (hbecomes.written _ _ List.mem_cons_self)]
      exact Option.some_ne_none _
    refine hsettled.undergoes hundergoes (hundergoes.staysOpen fun change hchange place htemporary
      hputs => ?_) fun change hchange => ?_
    · obtain ⟨other, hother, rfl⟩ := List.mem_map.mp hchange
      have hway := (hrest other hother).mem_way_of_puts htemporary hputs
      rw [hbecomes.made place _ List.mem_cons_self (hfirst.way_subset base place hway)]
      exact Option.some_ne_none _
    · obtain ⟨other, -, rfl⟩ := List.mem_map.mp hchange
      exact Change.clears_write

/-- **A layer is settled when it is written.** -/
theorem isSettled_of_steps (hplaced : output.IsPlaced) (hs : s₁.tree.Nears base)
    (hreset : reset base output.resetDirectories s₁ = .ok removed s₂)
    (hfiles : output.artifacts.mapM (writeArtifact base) s₂ = .ok files s₃) :
    s₁.tree.Undergoes (output.refills base) s₃.tree ∧ s₃.tree.Nears base ∧
      output.IsSettled base s₃.tree := by
  obtain ⟨hclear, hs₂⟩ := undergoes_of_reset_eq_ok hnames hplaced.resets hs hreset
  obtain ⟨hwrite, hs₃⟩ := undergoes_of_writeArtifacts_eq_ok hnames hs₂ hfiles
  have hsettled := isSettled_of_writeArtifacts_eq_ok hnames hplaced.artifacts hs₂ hfiles
  refine ⟨hclear.append hwrite, hs₃, fun directory hdirectory => ?_, hsettled⟩
  obtain ⟨lists, s₄, hlists, hremoved⟩ := bind_eq_ok.mp hreset
  obtain ⟨-, rfl⟩ := EStateM.Result.ok.inj hremoved
  have hlisted := isListed_of_mapM_eq_ok hnames hplaced.resets hs hlists directory hdirectory
  refine hlisted.undergoes (hplaced.resets directory hdirectory) hs₂.way hwrite fun change hmem => ?_
  obtain ⟨a, ha, rfl⟩ := List.mem_map.mp hmem
  exact ⟨(hsettled a ha).isUsable, _, (hplaced.artifacts a ha).div_eq base,
    (hplaced.artifacts a ha).inside.2⟩

/-- **A settled layer can be written again**, and there is the same room afterwards. -/
theorem exists_write_again (hlive : exporter.dryRun = false) (hplaced : output.IsPlaced)
    (hsettled : output.IsSettled base tree) (hroom : tree.SameRoom s₁.tree)
    (hs : s₁.tree.Nears base) (htarget : exporter.targetDirectory output s = .ok base s₁) :
    ∃ e s', exporter.write output s = .ok e s' ∧ tree.SameRoom s'.tree := by
  have hresets : ∀ directory ∈ output.resetDirectories, ∀ s : Session,
      tree.SameRoom s.tree ∧ s.tree.Nears base → ∃ removed s',
        reporting (.clearRefused (base / directory)) (clearFiles (base / directory)) s =
          .ok removed s' ∧ tree.SameRoom s'.tree ∧ s'.tree.Nears base := by
    rintro directory hdirectory s ⟨hroom, hs⟩
    obtain ⟨removed, s', hclear⟩ :=
      exists_clearFiles_eq_ok ((hsettled.resets directory hdirectory).mono hroom.entries)
    obtain ⟨-, hbecomes, hnamed⟩ := becomes_of_clearFiles_inside
      (hplaced.resets directory hdirectory) hnames hs hclear
    exact ⟨removed, s', reporting_eq_ok.mpr hclear, hroom.becomes hbecomes (by simp) (by simp),
      hs.becomes hbecomes (by simpa using hnamed)⟩
  obtain ⟨lists, s₂, hlists, hroom₂, -⟩ := exists_mapM_eq_ok hresets ⟨hroom, hs⟩
  have hwrites : ∀ a ∈ output.artifacts, ∀ s : Session, tree.SameRoom s.tree → ∃ file s',
      writeArtifact base a s = .ok file s' ∧ tree.SameRoom s'.tree :=
    fun a ha s => (hsettled.artifacts a ha).exists_writeArtifact_eq_ok
  obtain ⟨files, s₃, hfiles, hroom₃⟩ := exists_mapM_eq_ok hwrites hroom₂
  obtain ⟨e, s', hwrite, htree⟩ := exists_write_eq_ok hlive htarget
    (bind_eq_ok.mpr ⟨lists, s₂, hlists, rfl⟩) hfiles
  exact ⟨e, s', hwrite, htree ▸ hroom₃⟩

end Names

end Exporter

end NestLayers
