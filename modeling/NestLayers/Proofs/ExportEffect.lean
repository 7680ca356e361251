import NestLayers.Exporter
import NestLayers.Proofs.SessionEffects

/-!
# What writing a layer does to a project

A layer is written in three steps: its target directory is found or made, the regular files of
the directories that it replaces are removed, and its files are written one after the other. The
effect of the whole on the regular files is exact: the files of the layer, none of those that
were removed, and every other one as it was. Where a file is refused, the effect is that of the
layer without this file and those after it.
-/

namespace NestLayers

/-- A text that leads from a directory to something inside of it: a relative path without double
dots. -/
def Path.IsInside (text : String) : Prop :=
  (ofString text).isAbsolute = false ∧ ".." ∉ (ofString text).parts

/-- It is decided by the names of the path. -/
instance (text : String) : Decidable (Path.IsInside text) :=
  inferInstanceAs (Decidable (_ ∧ _))

/-- A text inside adds its names to a path. -/
theorem Path.IsInside.div_eq {text : String} (h : IsInside text) (base : Path) :
    base / text = { base with parts := base.parts ++ (ofString text).parts } := by
  change base.join (ofString text) = _
  rw [join, if_neg (by simp [h.1])]

namespace FileTree

variable {tree before middle after : FileTree} {base directory : Path} {place : Place}

/-- What lies inside of a directory stands below it. -/
theorem exists_of_locate_inside {text : String} (h : Path.IsInside text)
    (hlocate : tree.locate (base / text) = .ok place) :
    ∃ top, tree.follow [] base.parts = .ok top ∧ place = top ++ (Path.ofString text).parts := by
  rw [h.div_eq] at hlocate
  obtain ⟨top, hbase, htext⟩ := exists_of_follow_append (locate_eq_ok.mp hlocate).2.2
  exact ⟨top, hbase, eq_append_of_follow h.2 htext⟩

/-- Different paths inside of a directory lead to different places. -/
theorem ofString_eq_of_locate {first second : String} (hfirst : Path.IsInside first)
    (hsecond : Path.IsInside second) (hlocate₁ : tree.locate (base / first) = .ok place)
    (hlocate₂ : tree.locate (base / second) = .ok place) :
    Path.ofString first = Path.ofString second := by
  obtain ⟨top, hbase, hplace⟩ := exists_of_locate_inside hfirst hlocate₁
  obtain ⟨top', hbase', hplace'⟩ := exists_of_locate_inside hsecond hlocate₂
  obtain rfl : top = top' := Except.ok.inj (hbase.symm.trans hbase')
  have hparts : (Path.ofString first).parts = (Path.ofString second).parts :=
    List.append_cancel_left (hplace.symm.trans hplace')
  have hstart : (Path.ofString first).start = (Path.ofString second).start := by
    have h₁ := hfirst.1
    have h₂ := hsecond.1
    simp only [Path.isAbsolute, bne_eq_false_iff_eq] at h₁ h₂
    rw [h₁, h₂]
  exact (Path.mk.injEq ..).mpr ⟨hstart, hparts⟩

/-- A place is that of a name directly in the directory that a path leads to. -/
def IsEntry (tree : FileTree) (directory : Path) (name : String) (place : Place) : Prop :=
  ∃ above, tree.locate directory = .ok above ∧ tree.get? above = some .directory ∧
    place = above ++ [name]

private theorem KeepsDirectories.isEntry (h : before.KeepsDirectories after) {name : String}
    (hentry : before.IsEntry directory name place) : after.IsEntry directory name place := by
  obtain ⟨above, hlocate, habove, rfl⟩ := hentry
  exact ⟨above, h.locate hlocate, h above habove, rfl⟩

/-- A place is that of one name, in one directory. -/
theorem IsEntry.unique {other : FileTree} {directory' : Path} {name name' : String}
    (h : tree.IsEntry directory name place) (h' : other.IsEntry directory' name' place) :
    name = name' ∧ ∃ above, tree.locate directory = .ok above ∧
      other.locate directory' = .ok above := by
  obtain ⟨above, hlocate, -, rfl⟩ := h
  obtain ⟨above', hlocate', -, hplace⟩ := h'
  obtain ⟨rfl, hname⟩ := List.append_inj' hplace rfl
  exact ⟨by simpa using hname, above, hlocate, hlocate'⟩

/-- A directory is found where it stands. -/
theorem find_eq_directory {path : Path} :
    tree.find path = .ok (some .directory) ↔
      ∃ above, tree.locate path = .ok above ∧ tree.get? above = some .directory := by
  unfold find
  split <;> simp_all

/-! ## Clearing directories -/

/-- The regular files directly in some directories are gone, those among them that were there
are listed, and nothing else has changed. -/
structure Clears (before : FileTree) (directories removed : List Path) (after : FileTree) :
    Prop where
  directory_iff : ∀ place,
    after.get? place = some .directory ↔ before.get? place = some .directory
  cleared : ∀ directory ∈ directories, ∀ name place,
    before.IsEntry directory name place → after.contentAt? place = none
  kept : ∀ place, (∀ directory ∈ directories, ∀ name, ¬ before.IsEntry directory name place) →
    after.contentAt? place = before.contentAt? place
  listed : ∀ directory ∈ directories, ∀ name place, before.IsEntry directory name place →
    before.contentAt? place ≠ none →
      ∃ other ∈ directories, before.IsEntry other name place ∧ entryPath other name ∈ removed

/-- No directory is removed with the files. -/
theorem Clears.keepsDirectories {directories removed : List Path}
    (h : before.Clears directories removed after) : before.KeepsDirectories after :=
  fun place => (h.directory_iff place).mpr

/-- The entries of a directory are the same after directories were cleared. -/
theorem Clears.isEntry_iff {directories removed : List Path}
    (h : before.Clears directories removed after) {name : String} :
    after.IsEntry directory name place ↔ before.IsEntry directory name place :=
  ⟨KeepsDirectories.isEntry fun place => (h.directory_iff place).mp, h.keepsDirectories.isEntry⟩

private theorem Clears.nil (tree : FileTree) : tree.Clears [] [] tree where
  directory_iff _ := Iff.rfl
  cleared := by simp
  kept _ _ := rfl
  listed := by simp

/-- Clearing directories puts no file anywhere. -/
theorem Clears.contentAt?_eq_none {directories removed : List Path}
    (h : before.Clears directories removed after) (hnone : before.contentAt? place = none) :
    after.contentAt? place = none := by
  by_cases hentry : ∃ directory ∈ directories, ∃ name, before.IsEntry directory name place
  · obtain ⟨directory, hmem, name, hentry⟩ := hentry
    exact h.cleared directory hmem name place hentry
  · push Not at hentry
    rw [h.kept place hentry, hnone]

/-- Clearing a directory and then others clears all of them. -/
theorem Clears.cons {directories removed rest : List Path}
    (h₁ : before.Clears [directory] removed middle) (h₂ : middle.Clears directories rest after) :
    before.Clears (directory :: directories) (removed ++ rest) after where
  directory_iff place := (h₂.directory_iff place).trans (h₁.directory_iff place)
  cleared := by
    intro other hother name place hentry
    rcases List.mem_cons.mp hother with rfl | hother
    · exact h₂.contentAt?_eq_none (h₁.cleared other List.mem_cons_self name place hentry)
    · exact h₂.cleared other hother name place (h₁.isEntry_iff.mpr hentry)
  kept := by
    intro place hplace
    rw [List.forall_mem_cons] at hplace
    rw [h₂.kept place, h₁.kept place (List.forall_mem_singleton.mpr hplace.1)]
    intro other hother name hentry
    exact hplace.2 other hother name (h₁.isEntry_iff.mp hentry)
  listed := by
    intro other hother name place hentry hcontent
    by_cases hfirst : ∃ name, before.IsEntry directory name place
    · obtain ⟨_, hfirst⟩ := hfirst
      obtain ⟨rfl, -⟩ := hfirst.unique hentry
      obtain ⟨found, hfound, hentry', hmem⟩ :=
        h₁.listed directory List.mem_cons_self _ place hfirst hcontent
      obtain rfl := List.mem_singleton.mp hfound
      exact ⟨found, List.mem_cons_self, hentry', List.mem_append_left _ hmem⟩
    · -- The first directory does not hold the file, so it is there for the others.
      push Not at hfirst
      have hmiddle := h₁.kept place (List.forall_mem_singleton.mpr hfirst)
      rcases List.mem_cons.mp hother with rfl | hother
      · exact absurd hentry (hfirst name)
      · obtain ⟨found, hfound, hentry', hmem⟩ := h₂.listed other hother name place
          (h₁.isEntry_iff.mpr hentry) (hmiddle ▸ hcontent)
        exact ⟨found, List.mem_cons_of_mem _ hfound, h₁.isEntry_iff.mp hentry',
          List.mem_append_right _ hmem⟩

/-- Clearing a directory takes away the regular files directly in it. -/
theorem clears_clearFiles {path : Path} {above : Place} {removed : List Path}
    (hlocate : tree.locate path = .ok above) (habove : tree.get? above = some .directory)
    (h : (tree.clearFiles path).2 = .ok removed) :
    tree.Clears [path] removed (tree.clearFiles path).1 where
  directory_iff := tree.get?_clearFiles_eq_directory path
  cleared := by
    intro directory hmem name place hentry
    obtain rfl := List.mem_singleton.mp hmem
    obtain ⟨_, hlocate', -, rfl⟩ := hentry
    exact (contentAt?_clearFiles_self hlocate' h name).1
  kept := by
    intro place hplace
    refine contentAt?_congr (get?_clearFiles_of_ne hlocate fun name hname => ?_)
    exact hplace path List.mem_cons_self name ⟨above, hlocate, habove, hname⟩
  listed := by
    intro directory hmem name place hentry hcontent
    obtain rfl := List.mem_singleton.mp hmem
    refine ⟨directory, hmem, hentry, ?_⟩
    obtain ⟨_, hlocate', -, rfl⟩ := hentry
    exact (contentAt?_clearFiles_self hlocate' h name).2 hcontent

/-- What is not a directory has nothing to clear. -/
theorem clears_of_not_directory {path : Path}
    (h : ¬ ∃ above, tree.locate path = .ok above ∧ tree.get? above = some .directory) :
    tree.Clears [path] [] tree := by
  have hnone : ∀ name place, ¬ tree.IsEntry path name place := by
    rintro name place ⟨above, hlocate, habove, -⟩
    exact h ⟨above, hlocate, habove⟩
  exact ⟨fun _ => Iff.rfl, by simp [hnone], fun _ _ => rfl, by simp [hnone]⟩

/-! ## Writing files -/

/-- Some files stand at their paths, and nothing else has changed but for new directories. -/
structure Writes (before : FileTree) (base : Path) (artifacts : List Artifact)
    (after : FileTree) : Prop where
  written : ∀ a ∈ artifacts, after.at? (base / a.path) = some (.file (.text a.content))
  kept : ∀ place, (∀ a ∈ artifacts, after.locate (base / a.path) ≠ .ok place) →
    after.contentAt? place = before.contentAt? place
  directories : before.KeepsDirectories after

end FileTree

namespace Exporter

variable {s s' : Session} {stop : Stop} {base : Path}

/-! ## The steps of writing a layer -/

/-- A written file is recorded. -/
theorem writeArtifact_run (base : Path) (a : Artifact) (s : Session) :
    writeArtifact base a s =
      match reporting (.writeRefused a.path (base / a.path)) (writeFile (base / a.path) a.content)
        s with
      | .error stop s => .error stop s
      | .ok _ s => .ok (fileRecord base a) (s.record (.artifactWritten (base / a.path))) := by
  unfold writeArtifact
  simp only [bind_run]
  cases reporting (.writeRefused a.path (base / a.path)) (writeFile (base / a.path) a.content) s <;>
    rfl

/-- A written file stands where its path leads to, and no other content changes. -/
theorem puts_of_writeArtifact_eq_ok {a : Artifact} {file : FileRecord}
    (h : writeArtifact base a s = .ok file s') :
    ∃ place, s'.tree.locate (base / a.path) = .ok place ∧
      s.tree.Puts place (.text a.content) s'.tree := by
  rw [writeArtifact_run] at h
  split at h
  · simp at h
  · rename_i s₁ hwrite
    cases h
    have hputs := puts_of_writeFile_eq_ok (reporting_eq_ok.mp hwrite)
    exact hputs

/-- A refused file changes no content, and a failure names it. -/
theorem writeArtifact_eq_error {a : Artifact} (h : writeArtifact base a s = .error stop s') :
    s.tree.GrowsTo s'.tree ∧
      ∃ fault, stop = .crash (.fault fault) ∨
        stop = .failure (.writeRefused a.path (base / a.path) fault) := by
  rw [writeArtifact_run] at h
  split at h
  · rename_i hwrite
    cases h
    obtain ⟨inner, hinner, hstop⟩ := exists_of_reporting_eq_error hwrite
    refine ⟨growsTo_of_writeFile_eq_error hinner, ?_⟩
    obtain rfl | ⟨fault, -, rfl⟩ := hstop
    · obtain ⟨fault, rfl, -⟩ := writeFile_eq_error hinner
      exact ⟨fault, .inl rfl⟩
    · exact ⟨fault, .inr rfl⟩
  · simp at h

/-- **Run.** Writing files removes no directory, and changes no content but at their places. -/
theorem kept_of_mapM_eq_ok {artifacts : List Artifact} {files : List FileRecord}
    (h : artifacts.mapM (writeArtifact base) s = .ok files s') :
    s.tree.KeepsDirectories s'.tree ∧
      ∀ place, (∀ a ∈ artifacts, s'.tree.locate (base / a.path) ≠ .ok place) →
        s'.tree.contentAt? place = s.tree.contentAt? place := by
  induction artifacts generalizing s files with
  | nil =>
    cases h
    exact ⟨.refl _, fun _ _ => rfl⟩
  | cons a artifacts ih =>
    obtain ⟨file, s₁, rest, hfirst, hrest, -⟩ := mapM_cons_eq_ok.mp h
    obtain ⟨place, hlocate, hputs⟩ := puts_of_writeArtifact_eq_ok hfirst
    obtain ⟨hdirectories, hkept⟩ := ih hrest
    refine ⟨hputs.directories.trans hdirectories, fun other hother => ?_⟩
    rw [hkept other fun b hb => hother b (List.mem_cons_of_mem _ hb), hputs.other]
    rintro rfl
    exact hother a List.mem_cons_self (hdirectories.locate hlocate)

/-- **The last file that is written to a path is the one that stands there.** -/
theorem at?_of_mapM_eq_ok {front rest : List Artifact} {a : Artifact} {files : List FileRecord}
    (ha : Path.IsInside a.path) (hrest : ∀ b ∈ rest, Path.IsInside b.path)
    (hlast : ∀ b ∈ rest, Path.ofString b.path ≠ Path.ofString a.path)
    (h : (front ++ a :: rest).mapM (writeArtifact base) s = .ok files s') :
    s'.tree.at? (base / a.path) = some (.file (.text a.content)) := by
  induction front generalizing s files with
  | nil =>
    obtain ⟨file, s₁, others, hfirst, hothers, -⟩ := mapM_cons_eq_ok.mp h
    obtain ⟨place, hlocate, hputs⟩ := puts_of_writeArtifact_eq_ok hfirst
    obtain ⟨hdirectories, hkept⟩ := kept_of_mapM_eq_ok hothers
    have hplace := hdirectories.locate hlocate
    have hcontent : s'.tree.contentAt? place = some (.text a.content) := by
      rw [hkept place, hputs.self]
      intro b hb hlocate'
      exact hlast b hb (FileTree.ofString_eq_of_locate (hrest b hb) ha hlocate' hplace)
    simp only [FileTree.at?, hplace]
    exact FileTree.contentAt?_eq_some.mp hcontent
  | cons first front ih =>
    obtain ⟨file, s₁, others, -, hothers, -⟩ := mapM_cons_eq_ok.mp h
    exact ih hothers

/-- Files of different paths stand at their paths, and nothing else has changed but for new
directories. -/
theorem writes_of_mapM_eq_ok {artifacts : List Artifact} {files : List FileRecord}
    (hinside : ∀ a ∈ artifacts, Path.IsInside a.path)
    (hdistinct : (artifacts.map fun a => Path.ofString a.path).Nodup)
    (h : artifacts.mapM (writeArtifact base) s = .ok files s') :
    s.tree.Writes base artifacts s'.tree := by
  obtain ⟨hdirectories, hkept⟩ := kept_of_mapM_eq_ok h
  refine ⟨fun a ha => ?_, hkept, hdirectories⟩
  obtain ⟨front, rest, rfl⟩ := List.append_of_mem ha
  rw [List.map_append, List.map_cons, List.nodup_append, List.nodup_cons] at hdistinct
  have hrest : ∀ b ∈ rest, Path.IsInside b.path := fun b hb => hinside b (by simp [hb])
  refine at?_of_mapM_eq_ok (hinside a ha) hrest (fun b hb hpath => ?_) h
  exact hdistinct.2.1.1 (hpath ▸ List.mem_map_of_mem hb)

/-- Clearing a path clears the directory that it leads to, if it leads to one. -/
theorem clears_of_clearFiles_eq_ok {path : Path} {removed : List Path}
    (h : clearFiles path s = .ok removed s') : s.tree.Clears [path] removed s'.tree := by
  obtain ⟨entry, hfind, ⟨rfl, hclear⟩ | ⟨hdirectory, rfl, rfl⟩⟩ := clearFiles_eq_ok h
  · obtain ⟨above, hlocate, habove⟩ := FileTree.find_eq_directory.mp hfind
    have hclears := FileTree.clears_clearFiles hlocate habove (congrArg Prod.snd hclear)
    rwa [hclear] at hclears
  · refine FileTree.clears_of_not_directory fun hpath => hdirectory ?_
    exact Except.ok.inj (hfind.symm.trans (FileTree.find_eq_directory.mpr hpath))

/-- Removing the files of some directories clears them. -/
theorem clears_of_reset_eq_ok {directories : List String} {removed : List Path}
    (h : reset base directories s = .ok removed s') :
    s.tree.Clears (directories.map (base / ·)) removed s'.tree := by
  induction directories generalizing s removed with
  | nil =>
    cases h
    exact .nil _
  | cons directory directories ih =>
    obtain ⟨lists, s₁, hlists, h⟩ := bind_eq_ok.mp h
    cases h
    obtain ⟨first, s₁, rest, hfirst, hrest, rfl⟩ := mapM_cons_eq_ok.mp hlists
    have hreset : reset base directories s₁ = .ok rest.flatten s' :=
      bind_eq_ok.mpr ⟨rest, s', hrest, rfl⟩
    exact .cons (clears_of_clearFiles_eq_ok (reporting_eq_ok.mp hfirst)) (ih hreset)

/-- Where removing files stops, no file to write is to blame. -/
theorem reset_eq_error {directories : List String}
    (h : reset base directories s = .error stop s') :
    ∃ fault, stop = .crash (.fault fault) ∨
      ∃ directory, stop = .failure (.clearRefused directory fault) := by
  obtain hlists | ⟨lists, s₁, -, h⟩ := bind_eq_error.mp h
  · obtain ⟨-, directory, -, -, s₁, -, -, hstop⟩ := exists_of_mapM_eq_error hlists
    obtain ⟨inner, hinner, hstop⟩ := exists_of_reporting_eq_error hstop
    obtain rfl | ⟨fault, -, rfl⟩ := hstop
    · obtain ⟨fault, rfl⟩ := clearFiles_eq_error hinner
      exact ⟨fault, .inl rfl⟩
    · exact ⟨fault, .inr ⟨_, rfl⟩⟩
  · simp at h

variable {exporter : Exporter} {output : LayerOutput}

/-- The directory of a resource is found, or made if this is no dry run. -/
theorem resourceDirectory_run (exporter : Exporter) (resource : String) (s : Session) :
    exporter.resourceDirectory resource true s =
      let source := exporter.settings.sourcePath
      let name := Naming.kebab resource
      match s.tree.findDirectory source name with
      | .error fault => .error (.crash (.fault fault)) s
      | .ok (some found) => .ok found (s.record (.resourceFound resource found))
      | .ok none =>
        if exporter.dryRun then .ok (source / name) s
        else
          match ensureDirectory (source / name) s with
          | .error stop s => .error stop s
          | .ok _ s => .ok (source / name) (s.record (.resourceMade (source / name))) := by
  unfold resourceDirectory findDirectory
  dsimp only
  rw [bind_run, look_run]
  rcases s.tree.findDirectory exporter.settings.sourcePath (Naming.kebab resource) with
    fault | _ | found
  · rfl
  · cases exporter.dryRun with
    | true => rfl
    | false =>
      simp only [Bool.not_false, Bool.and_self, if_true, bind_run, Bool.false_eq_true, if_false]
      cases ensureDirectory (exporter.settings.sourcePath / Naming.kebab resource) s <;> rfl
  · rfl

/-- The directory of a resource is what a search finds, or a new one. -/
theorem exists_of_resourceDirectory_eq_ok {resource : String}
    (h : exporter.resourceDirectory resource true s = .ok base s') :
    ∃ answer, s.tree.findDirectory exporter.settings.sourcePath (Naming.kebab resource) =
        .ok answer ∧
      (answer = some base ∧ s'.tree = s.tree ∨
        answer = none ∧ base = exporter.settings.sourcePath / Naming.kebab resource ∧
          if exporter.dryRun then s'.tree = s.tree
          else s.tree.makeDirectories base = (s'.tree, none)) := by
  rw [resourceDirectory_run] at h
  dsimp only at h
  split at h
  · cases h
  · rename_i found hfound
    obtain ⟨rfl, rfl⟩ := EStateM.Result.ok.inj h
    exact ⟨_, hfound, .inl ⟨rfl, rfl⟩⟩
  · rename_i hnone
    refine ⟨none, hnone, .inr ⟨rfl, ?_⟩⟩
    split at h
    · rename_i hdry
      obtain ⟨rfl, rfl⟩ := EStateM.Result.ok.inj h
      exact ⟨rfl, by rw [if_pos hdry]⟩
    · rename_i hlive
      rw [ensureDirectory_run] at h
      split at h
      · cases h
      · rename_i hensure
        split at hensure
        · cases hensure
        · rename_i made hmade
          obtain ⟨-, rfl⟩ := EStateM.Result.ok.inj hensure
          obtain ⟨rfl, rfl⟩ := EStateM.Result.ok.inj h
          refine ⟨rfl, ?_⟩
          rw [if_neg hlive]
          exact hmade

/-- The directory of a resource is not found or made only where the file system refuses it. -/
theorem resourceDirectory_eq_error {resource : String}
    (h : exporter.resourceDirectory resource true s = .error stop s') :
    ∃ fault, stop = .crash (.fault fault) := by
  rw [resourceDirectory_run] at h
  dsimp only at h
  split at h
  · cases h
    exact ⟨_, rfl⟩
  · cases h
  · split at h
    · cases h
    · rw [ensureDirectory_run] at h
      split at h <;> cases h
      rename_i hensure
      split at hensure <;> cases hensure
      exact ⟨_, rfl⟩

/-- Finding or making the target directory changes no content. -/
theorem growsTo_of_targetDirectory_eq_ok (h : exporter.targetDirectory output s = .ok base s') :
    s.tree.GrowsTo s'.tree := by
  unfold targetDirectory at h
  cases htarget : output.target <;> rw [htarget] at h
  case models =>
    cases h
    exact .refl _
  case info =>
    obtain ⟨answer, s₁, hanswer, h⟩ := bind_eq_ok.mp h
    obtain ⟨-, rfl⟩ := isDirectory_eq_ok hanswer
    cases answer <;> cases h
    exact .refl _
  case resource =>
    obtain ⟨-, -, ⟨-, htree⟩ | ⟨-, -, hmade⟩⟩ := exists_of_resourceDirectory_eq_ok h
    · exact htree ▸ .refl _
    · split at hmade
      · exact hmade ▸ .refl _
      · have hgrows := s.tree.growsTo_makeDirectories base
        rwa [hmade] at hgrows

/-- Where finding the target directory stops, no file to write is to blame. -/
theorem targetDirectory_eq_error (h : exporter.targetDirectory output s = .error stop s') :
    (∃ fault, stop = .crash (.fault fault)) ∨
      stop = .failure (.infoDirectoryMissing exporter.settings.infoPath) := by
  unfold targetDirectory at h
  cases htarget : output.target <;> rw [htarget] at h
  case models => simp at h
  case info =>
    obtain hstop | ⟨answer, s₁, -, h⟩ := bind_eq_error.mp h
    · obtain hlook | ⟨entry, s₁, -, hanswer⟩ := bind_eq_error.mp hstop
      · obtain ⟨fault, -, rfl, -⟩ := look_eq_error.mp hlook
        exact .inl ⟨fault, rfl⟩
      · cases hanswer
    · cases answer <;> cases h
      exact .inr rfl
  case resource => exact .inl (resourceDirectory_eq_error h)

/-! ## Writing a layer -/

/-- The report about a layer whose files were written. -/
def report (output : LayerOutput) (base : Path) (removed : List Path) (files : List FileRecord) :
    Export :=
  { layer := output.layer.name
    target := base.toString
    files
    removed := removed.map Path.toString
    dryRun := false }

/-- A layer is written in three steps. -/
theorem write_run (hlive : exporter.dryRun = false) (output : LayerOutput) (s : Session) :
    exporter.write output s =
      match exporter.targetDirectory output s with
      | .error stop s => .error stop s
      | .ok base s =>
        match reset base output.resetDirectories s with
        | .error stop s => .error stop (s.record (.timed ("export " ++ output.layer.name)))
        | .ok removed s =>
          match output.artifacts.mapM (writeArtifact base) s with
          | .error stop s => .error stop (s.record (.timed ("export " ++ output.layer.name)))
          | .ok files s =>
            .ok (report output base removed files)
              ((s.record (.timed ("export " ++ output.layer.name))).record
                (.layerWritten output.layer files.length
                  (report output base removed files).size base false)) := by
  unfold write
  rw [bind_run]
  cases exporter.targetDirectory output s with
  | error stop s => rfl
  | ok base s =>
    dsimp only
    rw [bind_run, timed, hlive, if_neg Bool.false_ne_true, bind_run]
    cases reset base output.resetDirectories s with
    | error stop s => rfl
    | ok removed s =>
      dsimp only
      rw [bind_run]
      cases output.artifacts.mapM (writeArtifact base) s with
      | error stop s => rfl
      | ok files s => rfl

/-- What writing a layer below a directory has done to the regular files of a project. The tree
`ready` is the one in which the directory was found or made; a directory of `before` is one of
`ready` too. -/
structure Effect (base : Path) (output : LayerOutput) (before ready after : FileTree)
    (removed : List String) : Prop where
  /-- Finding or making the directory changes no content. -/
  grows : before.GrowsTo ready
  /-- Every file of the layer stands at its path. -/
  written : ∀ a ∈ output.artifacts, after.at? (base / a.path) = some (.file (.text a.content))
  /-- Every other regular file directly in a replaced directory is gone. -/
  cleared : ∀ directory ∈ output.resetDirectories, ∀ name place,
    ready.IsEntry (base / directory) name place →
      (∀ a ∈ output.artifacts, after.locate (base / a.path) ≠ .ok place) →
        after.contentAt? place = none
  /-- Every regular file directly in a replaced directory is listed. -/
  listed : ∀ directory ∈ output.resetDirectories, ∀ name place,
    ready.IsEntry (base / directory) name place → before.contentAt? place ≠ none →
      (FileTree.entryPath (base / directory) name).toString ∈ removed
  /-- There is a regular file at any other place if there was one, with the same content. -/
  kept : ∀ place,
    (∀ directory ∈ output.resetDirectories, ∀ name,
      ¬ ready.IsEntry (base / directory) name place) →
        (∀ a ∈ output.artifacts, after.locate (base / a.path) ≠ .ok place) →
          after.contentAt? place = before.contentAt? place
  directories : before.KeepsDirectories after

/-- The three steps of writing a layer have its effect. -/
theorem effect_of_steps {s₁ s₂ s₃ : Session} {removed : List Path} {files : List FileRecord}
    (hartifacts : ∀ a ∈ output.artifacts, Path.IsInside a.path)
    (hdirectories : ∀ directory ∈ output.resetDirectories, Path.IsInside directory)
    (hdistinct : (output.artifacts.map fun a => Path.ofString a.path).Nodup)
    (htarget : exporter.targetDirectory output s = .ok base s₁)
    (hreset : reset base output.resetDirectories s₁ = .ok removed s₂)
    (hfiles : output.artifacts.mapM (writeArtifact base) s₂ = .ok files s₃) :
    Effect base output s.tree s₁.tree s₃.tree (removed.map Path.toString) := by
  have hready := growsTo_of_targetDirectory_eq_ok htarget
  have hclears := clears_of_reset_eq_ok hreset
  have hwrites := writes_of_mapM_eq_ok hartifacts hdistinct hfiles
  refine
    { grows := hready
      written := hwrites.written
      cleared := ?_
      listed := ?_
      kept := ?_
      directories :=
        (hready.directories.trans hclears.keepsDirectories).trans hwrites.directories }
  · intro directory hdirectory name place hentry hplace
    rw [hwrites.kept place hplace]
    exact hclears.cleared _ (List.mem_map_of_mem hdirectory) name place hentry
  · intro directory hdirectory name place hentry hcontent
    obtain ⟨_, hmem, hentry', hlisted⟩ := hclears.listed _ (List.mem_map_of_mem hdirectory) name
      place hentry (by rwa [hready.contentAt?])
    -- The file may be listed under another text, but that one leads to the same directory.
    obtain ⟨other, hother, rfl⟩ := List.mem_map.mp hmem
    obtain ⟨-, above, hlocate, hlocate'⟩ := hentry.unique hentry'
    have hpath : Path.ofString other = Path.ofString directory :=
      FileTree.ofString_eq_of_locate (hdirectories other hother)
        (hdirectories directory hdirectory) hlocate' hlocate
    have hbase : base / other = base / directory := congrArg base.join hpath
    rw [← hbase]
    exact List.mem_map_of_mem hlisted
  · intro place hentry hplace
    rw [hwrites.kept place hplace, hclears.kept place, hready.contentAt?]
    simpa using hentry

/-- A layer is written if each of the three steps is done. -/
theorem exists_write_eq_ok (hlive : exporter.dryRun = false) {s₁ s₂ s₃ : Session}
    {removed : List Path} {files : List FileRecord}
    (htarget : exporter.targetDirectory output s = .ok base s₁)
    (hreset : reset base output.resetDirectories s₁ = .ok removed s₂)
    (hfiles : output.artifacts.mapM (writeArtifact base) s₂ = .ok files s₃) :
    ∃ result done, exporter.write output s = .ok result done ∧ done.tree = s₃.tree := by
  rw [write_run hlive, htarget]
  dsimp only
  rw [hreset]
  dsimp only
  rw [hfiles]
  exact ⟨_, _, rfl, rfl⟩

/-- A layer that is written has gone through the three steps. -/
theorem exists_of_write_eq_ok (hlive : exporter.dryRun = false) {result : Export}
    (h : exporter.write output s = .ok result s') :
    ∃ base s₁ removed s₂ files s₃,
      exporter.targetDirectory output s = .ok base s₁ ∧
        reset base output.resetDirectories s₁ = .ok removed s₂ ∧
        output.artifacts.mapM (writeArtifact base) s₂ = .ok files s₃ ∧
        result = report output base removed files ∧ s'.tree = s₃.tree := by
  rw [write_run hlive] at h
  split at h
  · simp at h
  · rename_i base s₁ htarget
    split at h
    · simp at h
    · rename_i removed s₂ hreset
      split at h
      · simp at h
      · rename_i files s₃ hfiles
        cases h
        exact ⟨base, s₁, removed, s₂, files, s₃, htarget, hreset, hfiles, rfl, rfl⟩

/-- A failure to write a file stops between the first files of the layer and the rest. -/
theorem exists_of_write_eq_refused (hlive : exporter.dryRun = false) {relative : String}
    {path : Path} {fault : FileFault}
    (h : exporter.write output s = .error (.failure (.writeRefused relative path fault)) s') :
    ∃ base s₁ removed s₂ first a rest files s₃,
      exporter.targetDirectory output s = .ok base s₁ ∧
        reset base output.resetDirectories s₁ = .ok removed s₂ ∧
        output.artifacts = first ++ a :: rest ∧
        first.mapM (writeArtifact base) s₂ = .ok files s₃ ∧
        s₃.tree.GrowsTo s'.tree ∧ relative = a.path ∧ path = base / a.path := by
  rw [write_run hlive] at h
  split at h
  · rename_i htarget
    cases h
    obtain ⟨_, hstop⟩ | hstop := targetDirectory_eq_error htarget <;> simp at hstop
  · rename_i base s₁ htarget
    split at h
    · rename_i hreset
      cases h
      obtain ⟨_, hstop | ⟨_, hstop⟩⟩ := reset_eq_error hreset <;> simp at hstop
    · rename_i removed s₂ hreset
      split at h
      · rename_i s₄ hfiles
        cases h
        obtain ⟨first, a, rest, files, s₃, hsplit, hfirst, hrefused⟩ :=
          exists_of_mapM_eq_error hfiles
        obtain ⟨hgrows, _, hstop⟩ := writeArtifact_eq_error hrefused
        simp only [reduceCtorEq, Stop.failure.injEq, Failure.writeRefused.injEq, false_or] at hstop
        exact ⟨base, s₁, removed, s₂, first, a, rest, files, s₃, htarget, hreset, hsplit, hfirst,
          hgrows, hstop.1, hstop.2.1⟩
      · simp at h

/-- **The effect of writing a layer.** A layer that is written has its files at their paths below
the target directory; the other regular files directly in the directories that it replaces are
gone and listed; every further regular file is as it was, no other one exists, and no directory
is removed. Where a file is refused, the regular files are those of the same layer with the files
before the refused one only. -/
theorem write_effect (exporter : Exporter) (output : LayerOutput) (s : Session)
    (hlive : exporter.dryRun = false)
    (hartifacts : ∀ a ∈ output.artifacts, Path.IsInside a.path)
    (hdirectories : ∀ directory ∈ output.resetDirectories, Path.IsInside directory)
    (hdistinct : (output.artifacts.map fun a => Path.ofString a.path).Nodup) :
    (∀ result s', exporter.write output s = .ok result s' →
      ∃ base ready, exporter.targetDirectory output s = .ok base ready ∧
        result.target = base.toString ∧
        Effect base output s.tree ready.tree s'.tree result.removed) ∧
    (∀ relative path fault s',
      exporter.write output s = .error (.failure (.writeRefused relative path fault)) s' →
        ∃ first a rest result done, output.artifacts = first ++ a :: rest ∧ relative = a.path ∧
          exporter.write { output with artifacts := first } s = .ok result done ∧
          s.tree.KeepsDirectories s'.tree ∧
          ∀ place, s'.tree.contentAt? place = done.tree.contentAt? place) := by
  constructor
  · intro result s' h
    obtain ⟨base, s₁, removed, s₂, files, s₃, htarget, hreset, hfiles, rfl, htree⟩ :=
      exists_of_write_eq_ok hlive h
    refine ⟨base, s₁, htarget, rfl, ?_⟩
    rw [htree]
    exact effect_of_steps hartifacts hdirectories hdistinct htarget hreset hfiles
  · intro relative path fault s' h
    obtain ⟨base, s₁, removed, s₂, first, a, rest, files, s₃, htarget, hreset, hsplit, hfirst,
      hgrows, hrelative, -⟩ := exists_of_write_eq_refused hlive h
    -- The target directory and the replaced directories do not depend on the files.
    have htarget' : exporter.targetDirectory { output with artifacts := first } s =
      .ok base s₁ := htarget
    obtain ⟨result, done, hwrite, htree⟩ := exists_write_eq_ok hlive htarget' hreset hfirst
    have hsublist : first.Sublist output.artifacts := by
      rw [hsplit]
      exact List.sublist_append_left first (a :: rest)
    have heffect : Effect base { output with artifacts := first } s.tree s₁.tree s₃.tree
        (removed.map Path.toString) :=
      effect_of_steps (fun a ha => hartifacts a (hsublist.subset ha)) hdirectories
        (hdistinct.sublist (hsublist.map _)) htarget' hreset hfirst
    refine ⟨first, a, rest, result, done, hsplit, hrelative, hwrite,
      heffect.directories.trans hgrows.directories, ?_⟩
    rw [htree]
    exact hgrows.contentAt?

/-- An exporter for a small project. -/
def sampleExporter : Exporter :=
  { settings := { modelDir := ⟨.current, ["models"]⟩ } }

/-- A project with a file in a directory that a layer replaces. -/
def sampleProject : Session :=
  { tree := ⟨[(["models"], .directory), (["models", "dto"], .directory),
      (["models", "dto", "old.ts"], .file (.text "old"))]⟩ }

/-- A layer that replaces the directory. -/
def sampleOutput (artifacts : List Artifact) : LayerOutput :=
  { layer := .model, target := .models, resetDirectories := ["dto"], artifacts }

/-- Whether a layer was written. -/
def isWritten : EStateM.Result Stop Session Export → Bool
  | .ok _ _ => true
  | .error _ _ => false

/-- Whether a file of a layer was refused. -/
def isRefused : EStateM.Result Stop Session Export → Bool
  | .error (.failure (.writeRefused _ _ _)) _ => true
  | _ => false

/-- A small layer is written, and a larger one is refused after its first file. -/
theorem write_effect_sample :
    (∃ (result : Export) (s' ready : Session) (base : Path),
      sampleExporter.write (sampleOutput [⟨"dto/new.ts", "new"⟩]) sampleProject = .ok result s' ∧
        Effect base (sampleOutput [⟨"dto/new.ts", "new"⟩]) sampleProject.tree ready.tree s'.tree
          result.removed) ∧
    (∃ stop s' first result done,
      sampleExporter.write (sampleOutput [⟨"dto/new.ts", "new"⟩, ⟨"dto", ""⟩]) sampleProject =
          .error stop s' ∧
        sampleExporter.write (sampleOutput first) sampleProject = .ok result done ∧
        ∀ place, s'.tree.contentAt? place = done.tree.contentAt? place) := by
  constructor
  · have hwritten : isWritten (sampleExporter.write (sampleOutput [⟨"dto/new.ts", "new"⟩])
        sampleProject) = true := by
      decide +kernel
    unfold isWritten at hwritten
    split at hwritten
    · rename_i result s' hwrite
      obtain ⟨base, ready, -, -, heffect⟩ := (write_effect sampleExporter
        (sampleOutput [⟨"dto/new.ts", "new"⟩]) sampleProject rfl (by decide +kernel)
        (by decide +kernel) (by decide +kernel)).1 result s' hwrite
      exact ⟨result, s', ready, base, hwrite, heffect⟩
    · simp at hwritten
  · have hrefused : isRefused (sampleExporter.write
        (sampleOutput [⟨"dto/new.ts", "new"⟩, ⟨"dto", ""⟩]) sampleProject) = true := by
      decide +kernel
    unfold isRefused at hrefused
    split at hrefused
    · rename_i relative path fault s' hwrite
      obtain ⟨first, a, rest, result, done, -, -, hfirst, -, hcontent⟩ := (write_effect
        sampleExporter (sampleOutput [⟨"dto/new.ts", "new"⟩, ⟨"dto", ""⟩]) sampleProject rfl
        (by decide +kernel) (by decide +kernel) (by decide +kernel)).2 relative path fault s' hwrite
      exact ⟨_, s', first, result, done, hwrite, hfirst, hcontent⟩
    · simp at hrefused

end Exporter

end NestLayers
