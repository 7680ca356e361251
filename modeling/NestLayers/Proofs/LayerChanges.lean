import Mathlib.Data.List.Forall2
import NestLayers.Proofs.ResourceDirectory

/-!
# The changes of a layer

Writing a layer of a resource makes the directory of the resource, removes the files of the
directories that the layer replaces, and writes its files. In a sound tree these are its changes,
all of them and no others, and the tree that they leave is sound again.
-/

namespace NestLayers

/-- The changes that a layer makes when it is written below a directory. -/
def LayerOutput.changes (output : LayerOutput) (base : Path) : List Change :=
  [.make base] ++ (output.resetDirectories.map fun directory => .clear (base / directory)) ++
    output.artifacts.map fun a => .write (base / a.path) (.text a.content)

/-- The record tells of a file below a directory: its paths, its size in bytes, its lines and its
digest. An unended last line counts as well. -/
structure FileRecord.Tells (file : FileRecord) (base : Path) (a : Artifact) : Prop where
  relative : file.relative = a.path
  path : file.path = (base / a.path).toString
  size : file.size = a.content.toUTF8.size
  lines : file.lines = a.content.toList.count '\n' +
    if a.content.toList.getLast?.all (· == '\n') then 0 else 1
  digest : file.digest = Text.Digest.sha256 a.content

/-- A file is reported as it is. -/
theorem FileRecord.tells_iff {file : FileRecord} {base : Path} {a : Artifact} :
    file.Tells base a ↔ file = Exporter.fileRecord base a := by
  have hlines : Text.countLines a.content = a.content.toList.count '\n' +
      if a.content.toList.getLast?.all (· == '\n') then 0 else 1 := by
    unfold Text.countLines
    cases hlast : a.content.toList.getLast? with
    | none => simp [List.getLast?_eq_none_iff.mp hlast]
    | some c => by_cases hc : c = '\n' <;> simp [hc]
  constructor
  · rintro ⟨hrelative, hpath, hsize, hcount, hdigest⟩
    rw [← hlines] at hcount
    cases file
    simp only [Exporter.fileRecord, FileRecord.mk.injEq]
    exact ⟨hrelative, hpath, hsize, hcount, hdigest⟩
  · rintro rfl
    exact ⟨rfl, rfl, rfl, hlines, rfl⟩

/-- Files are reported as they are, in their order. -/
theorem FileRecord.forall₂_tells_iff {files : List FileRecord} {base : Path}
    {artifacts : List Artifact} :
    List.Forall₂ (fun file a => file.Tells base a) files artifacts ↔
      files = artifacts.map (Exporter.fileRecord base) := by
  simp only [tells_iff]
  rw [← List.forall₂_eq_eq_eq, List.forall₂_map_right_iff]

/-- The export tells what is written when a layer is written below a directory. -/
structure Export.IsOf (e : Export) (output : LayerOutput) (base : Path) : Prop where
  layer : e.layer = output.layer.name
  target : e.target = base.toString
  files : List.Forall₂ (fun file a => file.Tells base a) e.files output.artifacts

/-- A directory inside of another one, by names that files can have. -/
structure Path.IsEntryPath (text : String) : Prop where
  inside : IsInside text
  names : ∀ name ∈ (ofString text).parts, IsEntryName name

/-- What is inside of a directory is at a place below it. -/
theorem Path.IsInside.place_div {text : String} (h : IsInside text) (base : Path) :
    (base / text).place = base.place ++ (ofString text).parts := by
  rw [h.div_eq]
  exact base.place_below h.2

/-- The tree is sound, and leads to a directory by a path. -/
structure FileTree.Holds (tree : FileTree) (base : Path) : Prop where
  sound : tree.IsSound
  way : ∀ place ∈ base.way, tree.get? place = some .directory

/-- The directory is still there after changes. -/
theorem FileTree.Holds.becomes {before after : FileTree} {base : Path} {changes : List Change}
    (h : before.Holds base) (hbecomes : before.Becomes changes after)
    (hnamed : ∀ change ∈ changes, change.IsNamed) : after.Holds base :=
  ⟨hbecomes.isSound h.sound hnamed, fun place hplace =>
    hbecomes.directories place (h.way place hplace)⟩

/-- The tree is sound, and a path leads towards a directory in it: where it leaves the directories
that are there, it goes straight down. -/
structure FileTree.Nears (tree : FileTree) (base : Path) : Prop where
  sound : tree.IsSound
  way : ∀ place ∈ base.way, place <+: base.place ∨ tree.get? place = some .directory

private theorem FileTree.Holds.nears {tree : FileTree} {base : Path} (h : tree.Holds base) :
    tree.Nears base :=
  ⟨h.sound, fun place hplace => .inr (h.way place hplace)⟩

/-- Named changes stay near the directory. -/
theorem FileTree.Nears.becomes {before after : FileTree} {base : Path} {changes : List Change}
    (h : before.Nears base) (hbecomes : before.Becomes changes after)
    (hnamed : ∀ change ∈ changes, change.IsNamed) : after.Nears base :=
  ⟨hbecomes.isSound h.sound hnamed, fun place hplace =>
    (h.way place hplace).imp_right (hbecomes.directories place)⟩

variable {α β : Type} {s s' : Session}

/-- **Changes in a loop.** Work on items one after another makes the changes of all of them, if no
item writes over or removes a file of an item before it. -/
theorem becomes_of_mapM_eq_ok {base : Path} {work : α → Work β} {items : List α}
    {results : List β} (change : α → Change)
    (hstep : ∀ item ∈ items, ∀ (result : β) (s s' : Session), s.tree.Holds base →
      work item s = .ok result s' →
        s.tree.Becomes [change item] s'.tree ∧ (change item).IsNamed)
    (hkept : items.Pairwise fun first second => ∀ file content,
      change first = .write file content →
        ¬ (change second).Writes file.place ∧ ¬ (change second).Clears file.place)
    (hs : s.tree.Holds base) (h : items.mapM work s = .ok results s') :
    s.tree.Becomes (items.map change) s'.tree ∧ s'.tree.Holds base := by
  induction items generalizing s results with
  | nil =>
    obtain ⟨-, rfl⟩ := EStateM.Result.ok.inj h
    exact ⟨.refl _, hs⟩
  | cons item items ih =>
    obtain ⟨result, s₁, rest, hfirst, hrest, -⟩ := mapM_cons_eq_ok.mp h
    obtain ⟨hitem, hitems⟩ := List.pairwise_cons.mp hkept
    obtain ⟨hbecomes, hnamed⟩ := hstep item List.mem_cons_self result s s₁ hs hfirst
    have hs₁ : s₁.tree.Holds base := hs.becomes hbecomes (by simpa using hnamed)
    obtain ⟨hothers, hholds⟩ := ih
      (fun other hother => hstep other (List.mem_cons_of_mem _ hother)) hitems hs₁ hrest
    refine ⟨hbecomes.append hothers fun file content hwrite other hother => ?_, hholds⟩
    obtain ⟨second, hsecond, rfl⟩ := List.mem_map.mp hother
    exact hitem second hsecond file content (List.mem_singleton.mp hwrite).symm

namespace Exporter

variable {exporter : Exporter} {output : LayerOutput} {base : Path} {result : Export}

/-- Removing the files of a directory inside of another one is a change. -/
theorem becomes_of_clearFiles_inside {directory : String} {removed : List Path}
    (hdirectory : Path.IsEntryPath directory)
    (hbase : ∀ name ∈ base.parts, name = ".." ∨ Path.IsEntryName name) (hs : s.tree.Nears base)
    (h : clearFiles (base / directory) s = .ok removed s') :
    s.tree.IsListed (base / directory) ∧ s.tree.Becomes [.clear (base / directory)] s'.tree ∧
      (Change.clear (base / directory)).IsNamed := by
  have hpath : base / directory = base.below (Path.ofString directory).parts :=
    hdirectory.inside.div_eq base
  have hdots := hdirectory.inside.2
  rw [hpath] at h ⊢
  have hnames : ∀ name ∈ (base.below (Path.ofString directory).parts).parts,
      name = ".." ∨ Path.IsEntryName name := by
    intro name hname
    rcases List.mem_append.mp hname with hname | hname
    · exact hbase name hname
    · exact .inr (hdirectory.names name hname)
  have hway : ∀ place ∈ (base.below (Path.ofString directory).parts).way,
      place <+: (base.below (Path.ofString directory).parts).place ∨
        s.tree.get? place = some .directory := by
    intro place hplace
    rw [base.place_below hdots]
    rcases (Path.mem_way_below base hdots).mp hplace with hplace | ⟨front, hfront, rfl⟩
    · exact (hs.way place hplace).imp_left fun habove => habove.trans (List.prefix_append _ _)
    · exact .inl ((List.prefix_append_right_inj _).mpr hfront)
  obtain ⟨hlisted, hbecomes⟩ := becomes_of_clearFiles_eq_ok hs.sound hnames hway h
  exact ⟨hlisted, hbecomes, Change.isNamed_clear hnames⟩

/-- Writing a file of a layer is a change. -/
theorem becomes_of_writeArtifact_eq_ok {a : Artifact} {file : FileRecord}
    (hbase : ∀ name ∈ base.parts, name = ".." ∨ Path.IsEntryName name)
    (h : writeArtifact base a s = .ok file s') :
    s.tree.Becomes [.write (base / a.path) (.text a.content)] s'.tree ∧
      (Change.write (base / a.path) (.text a.content)).IsNamed := by
  rw [writeArtifact_run] at h
  split at h
  · cases h
  · rename_i s₁ hwrite
    obtain ⟨rfl, rfl⟩ := EStateM.Result.ok.inj h
    obtain ⟨husable, hbelow, hbecomes⟩ := becomes_of_writeFile_eq_ok (reporting_eq_ok.mp hwrite)
    refine ⟨hbecomes, Change.isNamed_write (fun name hname => ?_) hbelow⟩
    rcases Path.mem_parts_div hname with hmem | hmem
    · exact hbase name hmem
    · exact (Path.isPlainName_of_mem_ofString hmem).imp id (husable.isEntryName hname)

/-- The files of a layer are reported as they were rendered. -/
theorem files_of_mapM_eq_ok {artifacts : List Artifact} {files : List FileRecord}
    (h : artifacts.mapM (writeArtifact base) s = .ok files s') :
    files = artifacts.map (fileRecord base) := by
  induction artifacts generalizing s files with
  | nil => exact (EStateM.Result.ok.inj h).1.symm
  | cons a artifacts ih =>
    obtain ⟨file, s₁, rest, hfirst, hrest, rfl⟩ := mapM_cons_eq_ok.mp h
    have hfile : file = fileRecord base a := by
      rw [writeArtifact_run] at hfirst
      split at hfirst
      · cases hfirst
      · exact (EStateM.Result.ok.inj hfirst).1.symm
    rw [List.map_cons, hfile, ih hrest]

/-- **Writing a layer of a resource makes its changes.** -/
theorem becomes_of_write_eq_ok (hlive : exporter.dryRun = false) (hsound : s.tree.IsSound)
    (hnames : ∀ name ∈ exporter.settings.sourcePath.parts, name = ".." ∨ Path.IsPlainName name)
    (htarget : output.target = .resource)
    (hdirectories : ∀ directory ∈ output.resetDirectories, Path.IsEntryPath directory)
    (hdistinct : ∀ base : Path, (output.artifacts.map fun a => (base / a.path).place).Nodup)
    (h : exporter.write output s = .ok result s') :
    ∃ base, base = s.tree.resourcePath exporter.settings.sourcePath
        (Naming.kebab output.resource) ∧
      (∃ answer, s.tree.findDirectory exporter.settings.sourcePath
        (Naming.kebab output.resource) = .ok answer) ∧
      base.IsUsable ∧ result.IsOf output base ∧ s.tree.Becomes (output.changes base) s'.tree ∧
      s'.tree.IsSound := by
  obtain ⟨base, s₁, removed, s₂, files, s₃, hbase, hreset, hfiles, rfl, htree⟩ :=
    exists_of_write_eq_ok hlive h
  rw [targetDirectory, htarget] at hbase
  obtain ⟨husable, hmake, hnamed⟩ :=
    becomes_of_resourceDirectory_eq_ok hlive hsound hnames hbase
  have hpath := eq_resourcePath_of_resourceDirectory hsound.toIsProper hbase
  obtain ⟨answer, hfind, -⟩ := exists_of_resourceDirectory_eq_ok hbase
  have hholds₁ : s₁.tree.Holds base :=
    ⟨hmake.isSound hsound (by simpa using hnamed), fun place hplace =>
      hmake.made place _ List.mem_cons_self hplace⟩
  obtain ⟨lists, s₄, hlists, hremoved⟩ := bind_eq_ok.mp hreset
  obtain ⟨-, rfl⟩ := EStateM.Result.ok.inj hremoved
  obtain ⟨hclear, hholds₂⟩ := becomes_of_mapM_eq_ok
    (fun directory => .clear (base / directory))
    (fun directory hdirectory _ _ _ hs hwork => (becomes_of_clearFiles_inside
      (hdirectories directory hdirectory) hnamed.names hs.nears (reporting_eq_ok.mp hwork)).2)
    (List.pairwise_of_forall (by simp)) hholds₁ hlists
  obtain ⟨hwrite, hholds₃⟩ := becomes_of_mapM_eq_ok
    (fun a => .write (base / a.path) (.text a.content))
    (fun a _ _ _ _ _ hwork => becomes_of_writeArtifact_eq_ok hnamed.names hwork)
    (by
      refine (List.pairwise_map.mp (hdistinct base)).imp fun hne file content heq => ?_
      obtain ⟨rfl, -⟩ := Change.write.inj heq
      exact ⟨hne, id⟩) hholds₂ hfiles
  have hrecords := FileRecord.forall₂_tells_iff.mpr (files_of_mapM_eq_ok hfiles)
  refine ⟨base, hpath, ⟨answer, hfind⟩, husable, ⟨rfl, rfl, hrecords⟩, ?_,
    htree ▸ hholds₃.sound⟩
  rw [htree]
  exact (hmake.append hclear (by simp)).append hwrite (by simp)

end Exporter

end NestLayers
