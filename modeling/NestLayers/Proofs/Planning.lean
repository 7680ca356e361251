import NestLayers.Proofs.DryRun
import NestLayers.Proofs.FileFaults
import NestLayers.Proofs.ModelImports

/-!
# Planning a layer

To plan a layer is to tell the paths that its files would be written to. These are the paths that
are reported when it is written, but telling them looks for the target directory in the same way as
writing does. So a plan that is no dry run makes the directory of a resource that has none.

Main statement: a plan changes the tree exactly if the directory of a resource is looked for in vain
and is free to be made, it adds nothing but directories on the way to it, and the layer is reported
with the paths of the plan when it is written, in the tree before the plan and in the tree after it.
-/

namespace NestLayers

namespace FileTree

variable {tree before middle after : FileTree} {path source : Path} {place : Place}
  {start : PathStart} {name : String} {names : List String} {obstacle : Obstacle}

/-! ## Paths that are free -/

/-- A directory can be made at the path: nothing stands there, and the directory above is there. -/
def CanMake (tree : FileTree) (path : Path) : Prop :=
  ∃ place, tree.locate path = .ok place ∧ tree.get? place = none

/-- The path leads to nothing, because nothing stands there or a directory on its way is missing. -/
def Lacks (tree : FileTree) (path : Path) : Prop :=
  tree.locate path = .error .missing ∨ tree.CanMake path

/-- Directories can be made towards the path: it leads to nothing, and a directory on its way that
can be made is fewer levels up than calls may be nested. -/
def IsFree (tree : FileTree) (depth : Nat) (path : Path) : Prop :=
  tree.Lacks path ∧ ∃ front rest, path.parts = front ++ rest ∧ rest.length < depth ∧
    tree.CanMake ⟨path.start, front⟩

/-- What stops the first names stops all of them. -/
theorem follow_append_of_error {first : List String}
    (h : tree.follow place first = .error obstacle) (second : List String) :
    tree.follow place (first ++ second) = .error obstacle := by
  induction first generalizing place with
  | nil => cases h
  | cons name first ih =>
    rw [List.cons_append]
    rw [follow] at h ⊢
    cases hplace : tree.get? place with
    | none => simpa [hplace] using h
    | some entry =>
      cases entry with
      | file content => simpa [hplace] using h
      | directory =>
        simp only [hplace] at h ⊢
        split
        · rename_i hlong
          rwa [if_pos hlong] at h
        · rename_i hlong
          rw [if_neg hlong] at h
          exact ih h

/-- Where a directory on the way is missing, the path above leads to nothing. -/
theorem lacks_above (h : tree.locate ⟨start, names ++ [name]⟩ = .error .missing) :
    tree.Lacks ⟨start, names⟩ := by
  have hparent : (Path.mk start (names ++ [name])).parent = ⟨start, names⟩ := by
    simp [Path.parent]
  unfold Lacks CanMake
  rw [locate] at h
  split at h
  · cases h
  · rename_i hnull
    split at h
    · cases h
    · rename_i hlong
      have hnull' : (Path.mk start names).hasNull ≠ true := fun hnames =>
        hnull (Path.hasNull_of_parent (hparent ▸ hnames))
      have hlong' := Path.size_parent_le (Nat.not_lt.mp hlong)
      rw [hparent] at hlong'
      rw [locate, if_neg hnull', if_neg (Nat.not_lt.mpr hlong')]
      cases hfollow : tree.follow [] names with
      | error obstacle =>
        rw [follow_append_of_error hfollow] at h
        exact .inl h
      | ok above =>
        refine .inr ⟨above, rfl, ?_⟩
        rw [follow_append hfollow, follow] at h
        cases habove : tree.get? above with
        | none => rfl
        | some entry =>
          rw [habove] at h
          cases entry with
          | file content => cases h
          | directory =>
            dsimp only at h
            split at h <;> cases h

/-- Where a directory on the way is missing, the path is free exactly if the one above is. -/
theorem isFree_succ_iff {depth : Nat}
    (h : tree.locate ⟨start, names ++ [name]⟩ = .error .missing) :
    tree.IsFree (depth + 1) ⟨start, names ++ [name]⟩ ↔ tree.IsFree depth ⟨start, names⟩ := by
  constructor
  · rintro ⟨-, front, rest, hparts, hlength, hfront⟩
    refine ⟨lacks_above h, ?_⟩
    rcases List.eq_nil_or_concat' rest with rfl | ⟨rest, last, rfl⟩
    · obtain ⟨place, hplace, -⟩ := hfront
      rw [List.append_nil] at hparts
      rw [← hparts] at hplace
      cases h.symm.trans hplace
    · rw [← List.append_assoc] at hparts
      exact ⟨front, rest, List.append_inj_left' hparts rfl, by simpa using hlength, hfront⟩
  · rintro ⟨-, front, rest, hparts, hlength, hfront⟩
    dsimp only at hparts
    exact ⟨.inl h, front, rest ++ [name], by simp [hparts], by simpa using hlength, hfront⟩

/-- A directory is made where nothing stands; one above it may be missing; or the path leads to
something. -/
theorem makeDirectory_cases (tree : FileTree) (path : Path) :
    (∃ place, tree.locate path = .ok place ∧ tree.get? place = none ∧
        tree.makeDirectory path = .ok (tree.insert place .directory)) ∨
      tree.locate path = .error .missing ∧ tree.makeDirectory path = .error (.missing path) ∨
      ¬ tree.Lacks path ∧ ∃ fault, (∀ other, fault ≠ .missing other) ∧
        tree.makeDirectory path = .error fault := by
  unfold makeDirectory Lacks CanMake
  cases hlocate : tree.locate path with
  | ok place =>
    dsimp only
    cases hplace : tree.get? place with
    | none => exact .inl ⟨place, rfl, hplace, rfl⟩
    | some entry => exact .inr (.inr ⟨by simp [hplace], .fileExists path, by simp, rfl⟩)
  | error obstacle =>
    cases obstacle with
    | missing => exact .inr (.inl ⟨rfl, rfl⟩)
    | notADirectory => exact .inr (.inr ⟨by simp, _, by simp [Obstacle.fault], rfl⟩)
    | nameTooLong => exact .inr (.inr ⟨by simp, _, by simp [Obstacle.fault], rfl⟩)
    | nullCharacter => exact .inr (.inr ⟨by simp, _, by simp [Obstacle.fault], rfl⟩)

/-! ## What is made -/

/-- The tree gains directories on the way of a path, and is the same otherwise. -/
def Gains (before : FileTree) (path : Path) (after : FileTree) : Prop :=
  ∀ place, after.get? place = before.get? place ∨
    before.get? place = none ∧ after.get? place = some .directory ∧ place ∈ path.way

private theorem Gains.refl (tree : FileTree) (path : Path) : tree.Gains path tree :=
  fun _ => .inl rfl

private theorem Gains.trans (h₁ : before.Gains path middle) (h₂ : middle.Gains path after) :
    before.Gains path after := by
  intro place
  rcases h₂ place with heq | ⟨hnone, hdirectory, hway⟩
  · rw [heq]
    exact h₁ place
  · rcases h₁ place with heq | ⟨-, hmade, -⟩
    · exact .inr ⟨heq ▸ hnone, hdirectory, hway⟩
    · rw [hmade] at hnone
      cases hnone

/-- Where all directories of the way are made and no content is changed, the tree gains them. -/
theorem GrowsTo.gains (hgrows : before.GrowsTo after)
    (h : ∀ place, after.get? place =
      if place ∈ path.way then some .directory else before.get? place) :
    before.Gains path after := by
  intro place
  rw [h place]
  split
  · rename_i hway
    cases hplace : before.get? place with
    | none => exact .inr ⟨rfl, rfl, hway⟩
    | some entry =>
      cases entry with
      | directory => exact .inl rfl
      | file content =>
        have hcontent := hgrows.contentAt? place
        rw [contentAt?_eq_some.mpr hplace, contentAt?_eq_some, h place, if_pos hway] at hcontent
        cases hcontent
  · exact .inl rfl

/-- **Run.** New directories are on the way to the path, even if making them is refused. -/
theorem gains_makeDirectories (tree : FileTree) (path : Path) :
    tree.Gains path (tree.makeDirectories path).1 := by
  refine makeDirectoriesUp_induction (Gains.refl · path) .trans tree _ _ _ ?_
  intro tree after above habove hmade place
  refine ((growsTo_makeDirectory hmade).gains (makeDirectory_eq_ok hmade).2 place).imp_right ?_
  rintro ⟨hnone, hdirectory, hway⟩
  obtain ⟨front, hfront, rfl⟩ := Path.mem_way.mp hway
  have hparts : above.reverse <+: path.parts := by
    rwa [← List.reverse_suffix, List.reverse_reverse]
  exact ⟨hnone, hdirectory, Path.mem_way.mpr ⟨front, hfront.trans hparts, rfl⟩⟩

private theorem not_lacks_nil (start : PathStart) : ¬ tree.Lacks ⟨start, []⟩ := by
  have hlocate : tree.locate ⟨start, []⟩ = .ok [] := by
    cases start <;> rfl
  simp [Lacks, CanMake, hlocate, get?]

/-- **Step.** A directory is made where nothing stands. If one above it is missing, more may be made
after those above. Otherwise nothing is made. -/
theorem makeDirectoriesUp_cons_cases (tree : FileTree) (depth : Nat) (above : List String) :
    let path : Path := ⟨start, above.reverse ++ [name]⟩
    let inner := (tree.makeDirectoriesUp start depth above).1
    let outer := (tree.makeDirectoriesUp start (depth + 1) (name :: above)).1
    (∃ place, tree.locate path = .ok place ∧ tree.get? place = none ∧
        outer = tree.insert place .directory) ∨
      tree.locate path = .error .missing ∧ inner.GrowsTo outer ∧ (inner = tree → outer = tree) ∨
      ¬ tree.Lacks path ∧ outer = tree := by
  rw [← List.reverse_cons]
  simp only [makeDirectoriesUp]
  rcases tree.makeDirectory_cases ⟨start, (name :: above).reverse⟩ with
    ⟨place, hplace, hnone, hmade⟩ | ⟨hmissing, hrefused⟩ | ⟨hlacks, fault, hfault, hrefused⟩
  · exact .inl ⟨place, hplace, hnone, by rw [hmade]⟩
  · refine .inr (.inl ⟨hmissing, ?_⟩)
    rw [hrefused]
    dsimp only
    split
    · rename_i hmade
      rw [hmade]
      exact ⟨.refl _, id⟩
    · rename_i hmade
      rw [hmade]
      split
      · rename_i hdone
        rcases ensureDirectory_cases hdone with hdone | ⟨rfl, -⟩
        · refine ⟨growsTo_makeDirectory hdone, ?_⟩
          rintro rfl
          cases hrefused.symm.trans hdone
        · exact ⟨.refl _, id⟩
      · exact ⟨.refl _, id⟩
  · refine .inr (.inr ⟨hlacks, ?_⟩)
    rw [hrefused]
    cases fault with
    | missing other => exact absurd rfl (hfault other)
    | _ => rfl

/-- **Run.** Towards a free path a directory is made that was not there. -/
theorem exists_made_of_isFree {depth : Nat} (h : tree.IsFree depth ⟨start, names.reverse⟩) :
    ∃ place, tree.get? place = none ∧
      (tree.makeDirectoriesUp start depth names).1.get? place = some .directory := by
  induction depth generalizing names with
  | zero =>
    obtain ⟨-, front, rest, -, hlength, -⟩ := h
    cases hlength
  | succ depth ih =>
    cases names with
    | nil => exact absurd h.1 (not_lacks_nil start)
    | cons name above =>
      rw [List.reverse_cons] at h
      rcases tree.makeDirectoriesUp_cons_cases depth above with
        ⟨place, -, hnone, hmade⟩ | ⟨hmissing, hgrows, -⟩ | ⟨hlacks, -⟩
      · have hplace : place ≠ [] := by
          rintro rfl
          simp [get?] at hnone
        exact ⟨place, hnone, hmade ▸ get?_insert_self hplace⟩
      · -- a directory above is made, and stays whatever follows
        obtain ⟨place, hnone, hnew⟩ := ih ((isFree_succ_iff hmissing).mp h)
        exact ⟨place, hnone, hgrows.directories place hnew⟩
      · exact absurd h.1 hlacks

/-- **Run.** Where the path is not free nothing is made. -/
theorem makeDirectoriesUp_of_not_isFree {depth : Nat}
    (h : ¬ tree.IsFree depth ⟨start, names.reverse⟩) :
    (tree.makeDirectoriesUp start depth names).1 = tree := by
  induction depth generalizing names with
  | zero => rfl
  | succ depth ih =>
    cases names with
    | nil => rfl
    | cons name above =>
      rw [List.reverse_cons] at h
      rcases tree.makeDirectoriesUp_cons_cases depth above with
        ⟨place, hplace, hnone, -⟩ | ⟨hmissing, -, hsame⟩ | ⟨-, hsame⟩
      · exact absurd ⟨.inr ⟨place, hplace, hnone⟩, _, [], (List.append_nil _).symm, by simp, place,
          hplace, hnone⟩ h
      · exact hsame (ih fun hfree => h ((isFree_succ_iff hmissing).mpr hfree))
      · exact hsame

/-- **Making directories changes a tree exactly if the path is free.** -/
theorem makeDirectories_ne_self_iff :
    (tree.makeDirectories path).1 ≠ tree ↔ tree.IsFree deepestNesting path := by
  have hpath : Path.mk path.start path.parts.reverse.reverse = path := by
    rw [List.reverse_reverse]
  unfold makeDirectories
  constructor
  · intro hne
    by_contra hfree
    exact hne (makeDirectoriesUp_of_not_isFree (by rwa [hpath]))
  · intro hfree hsame
    obtain ⟨place, hnone, hmade⟩ := exists_made_of_isFree (hpath.symm ▸ hfree)
    rw [hsame, hnone] at hmade
    cases hmade

/-! ## Where the directory is found once it is made -/

/-- What stands below a path that goes straight down is reached by it. -/
theorem Nears.locate (h : tree.Nears source) (husable : source.IsUsable)
    (hdirectory : tree.get? (source.place ++ names) = some .directory) :
    tree.locate source = .ok source.place := by
  refine locate_eq_ok_iff.mpr ⟨husable, rfl, fun other hother => ?_⟩
  rcases h.way other (Path.mem_way_of_parent hother) with ⟨rest, hrest⟩ | hthere
  · rw [← hrest, List.append_assoc] at hdirectory
    exact h.sound.directory_of_append hdirectory
  · exact hthere

/-- **A directory that is made for a resource is the one that is found for it.** -/
theorem resourcePath_of_made (hnears : before.Nears source) (hafter : after.IsSound)
    (hpath : before.resourcePath source name = source / name)
    (h : before.Becomes [.make (source / name)] after) :
    after.resourcePath source name = source / name := by
  cases hbefore : before.locate source with
  | ok place =>
    obtain ⟨-, rfl, -⟩ := locate_eq_ok_iff.mp hbefore
    have hsame : after.resourcePath source name = before.resourcePath source name := by
      refine resourcePath_of_becomes hnears.sound hafter hbefore h
        fun _ change hchange place hmakes => ?_
      cases List.mem_singleton.mp hchange
      rw [hpath]
      exact .inl hmakes
    rw [hsame, hpath]
  | error obstacle =>
    cases hlocate : after.locate source with
    | error obstacle => simp [resourcePath, search, isDirectory, at?, hlocate]
    | ok place =>
      obtain ⟨husable, rfl, -⟩ := locate_eq_ok_iff.mp hlocate
      by_cases hname : Path.IsPlainName name
      swap
      · exact resourcePath_of_not_isPlainName hafter hlocate hname
      -- nothing stood below the source directory, for no path led to it
      have hnothing : ∀ names, before.get? (source.place ++ names) ≠ some .directory := by
        intro names hdirectory
        rw [hnears.locate husable hdirectory] at hbefore
        cases hbefore
      rcases resourcePath_cases hafter.toIsProper hlocate with ⟨names, hfirst, hfound⟩ | ⟨-, hfound⟩
      swap
      · exact hfound
      have hdots : ".." ∉ [name] := by simpa using Ne.symm hname.ne_dots
      have hnames := ne_nil_of_getLast? hfirst.last
      rcases h.get?_eq_directory_iff.mp hfirst.directory with hold | ⟨change, hchange, hmade⟩
      · exact absurd hold (hnothing names)
      · cases List.mem_singleton.mp hchange
        rw [Change.makes_make, div_of_isPlainName hname, Path.mem_way_below source hdots] at hmade
        rcases hmade with hway | ⟨front, hfront, hplace⟩
        · rcases hnears.way _ hway with habove | hold
          · have hlength := habove.length_le
            rw [List.length_append] at hlength
            exact absurd (List.length_eq_zero_iff.mp (by omega)) hnames
          · exact absurd hold (hnothing names)
        · obtain rfl := List.append_cancel_left hplace
          rcases List.prefix_cons_iff.mp hfront with rfl | ⟨rest, rfl, hrest⟩
          · exact absurd rfl hnames
          · rw [hfound, List.prefix_nil.mp hrest, div_of_isPlainName hname]

end FileTree

private theorem edits_sameTree : Edits SameTree where
  left _ h := h
  right _ h := h
  tree_eq h := h
  setTree _ _ := rfl

namespace Exporter

open Generator (sessionOf)

variable {exporter : Exporter} {output : LayerOutput} {base : Path} {paths : List Path}
  {result : Export} {s s' s₁ t t' : Session}

/-! ## What a plan does to the tree -/

/-- The directory of the resource of a layer is looked for in vain, and is to be made. -/
structure Misses (exporter : Exporter) (output : LayerOutput) (tree : FileTree) : Prop where
  live : exporter.dryRun = false
  target : output.target = .resource
  notFound : tree.findDirectory exporter.settings.sourcePath (Naming.kebab output.resource) =
    .ok none

/-- The directory that would be made for the resource of a layer. -/
def newDirectory (exporter : Exporter) (output : LayerOutput) : Path :=
  exporter.settings.sourcePath / Naming.kebab output.resource

/-- A plan finds the target directory, and tells the paths of the files below it. -/
theorem plan_eq_ok_iff :
    exporter.plan output s = .ok paths s' ↔
      ∃ base, exporter.targetDirectory output s = .ok base s' ∧
        paths = output.artifacts.map (base / ·.path) := by
  unfold plan
  rw [bind_eq_ok]
  constructor
  · rintro ⟨base, s₁, hbase, hpaths⟩
    obtain ⟨rfl, rfl⟩ := EStateM.Result.ok.inj hpaths
    exact ⟨base, hbase, rfl⟩
  · rintro ⟨base, hbase, rfl⟩
    exact ⟨base, s', hbase, rfl⟩

private theorem sessionOf_plan (output : LayerOutput) (s : Session) :
    sessionOf (exporter.plan output s) = sessionOf (exporter.targetDirectory output s) := by
  unfold plan
  rw [bind_run]
  cases exporter.targetDirectory output s <;> rfl

private theorem tree_targetDirectory_of_misses (h : exporter.Misses output s.tree) :
    (sessionOf (exporter.targetDirectory output s)).tree =
      (s.tree.makeDirectories (exporter.newDirectory output)).1 := by
  rw [targetDirectory, h.target]
  dsimp only
  rw [resourceDirectory_run]
  simp only [h.notFound, h.live, ensureDirectory_run, newDirectory]
  rcases s.tree.makeDirectories (exporter.settings.sourcePath / Naming.kebab output.resource) with
    ⟨made, _ | fault⟩ <;> rfl

private theorem tree_targetDirectory_of_not_misses (h : ¬ exporter.Misses output s.tree) :
    (sessionOf (exporter.targetDirectory output s)).tree = s.tree := by
  rw [targetDirectory]
  cases htarget : output.target with
  | models => rfl
  | info =>
    dsimp only
    unfold isDirectory entryAt
    simp only [bind_run, look_run]
    cases s.tree.find exporter.settings.infoPath with
    | error fault => rfl
    | ok entry =>
      dsimp only [pure_run]
      split <;> rfl
  | resource =>
    dsimp only
    rw [resourceDirectory_run]
    dsimp only
    split
    · rfl
    · rfl
    · rename_i hnone
      split
      · rfl
      · rename_i hlive
        exact absurd ⟨by simpa using hlive, htarget, hnone⟩ h

/-! ## What a plan tells -/

/-- A layer that is written is reported with the paths of its files below its target directory. -/
theorem exists_of_write_eq_ok_paths (h : exporter.write output s = .ok result s') :
    ∃ base s₁, exporter.targetDirectory output s = .ok base s₁ ∧
      result.paths = (output.artifacts.map (base / ·.path)).map Path.toString := by
  have hpaths (base : Path) : (output.artifacts.map (fileRecord base)).map (·.path) =
      (output.artifacts.map (base / ·.path)).map Path.toString := by
    rw [List.map_map, List.map_map]
    rfl
  cases hlive : exporter.dryRun with
  | false =>
    obtain ⟨base, s₁, removed, s₂, files, s₃, hbase, -, hfiles, rfl, -⟩ :=
      exists_of_write_eq_ok hlive h
    refine ⟨base, s₁, hbase, ?_⟩
    rw [← hpaths, ← files_of_mapM_eq_ok hfiles]
    rfl
  | true =>
    have hdry : exporter.dry = exporter := by
      rw [dry, ← hlive]
    rw [← hdry] at h ⊢
    rw [write_dry_run] at h
    cases hbase : exporter.dry.targetDirectory output s with
    | error stop s₁ => simp [hbase] at h
    | ok base s₁ =>
      rw [hbase] at h
      obtain ⟨rfl, -⟩ := EStateM.Result.ok.inj h
      exact ⟨base, s₁, rfl, hpaths base⟩

/-- The target directory depends on the tree only. -/
theorem exists_targetDirectory_eq_ok_of_tree_eq (htree : t.tree = s.tree)
    (h : exporter.targetDirectory output t = .ok base t') :
    ∃ s', exporter.targetDirectory output s = .ok base s' := by
  have hagree := edits_sameTree.toReads.targetDirectory exporter (fun _ => edits_sameTree) output
    t s htree
  rw [h] at hagree
  obtain ⟨_, s', hs', rfl, -⟩ := hagree.exists_of_ok
  exact ⟨s', hs'⟩

/-- The target directory is the same once it was found or made. -/
theorem targetDirectory_again (hnears : s.tree.Nears exporter.settings.sourcePath)
    (hnames : ∀ name ∈ exporter.settings.sourcePath.parts, name = ".." ∨ Path.IsPlainName name)
    {again : Path} (h : exporter.targetDirectory output s = .ok base s₁)
    (hagain : exporter.targetDirectory output s₁ = .ok again s') : again = base := by
  by_cases htree : s₁.tree = s.tree
  · obtain ⟨_, hsame⟩ := exists_targetDirectory_eq_ok_of_tree_eq htree hagain
    rw [h] at hsame
    exact (EStateM.Result.ok.inj hsame).1.symm
  · have hmisses : exporter.Misses output s.tree := by
      by_contra hnot
      have hkept := tree_targetDirectory_of_not_misses hnot
      rw [h] at hkept
      exact htree hkept
    rw [targetDirectory, hmisses.target] at h hagain
    obtain ⟨answer, -, ⟨-, hsame⟩ | ⟨-, hnew, -⟩⟩ := exists_of_resourceDirectory_eq_ok h
    · exact absurd hsame htree
    · have hbase := eq_resourcePath_of_resourceDirectory hnears.sound.toIsProper h
      obtain ⟨-, hbecomes, hnamed⟩ :=
        becomes_of_resourceDirectory_eq_ok hmisses.live hnears.sound hnames h
      have hsound := hbecomes.isSound hnears.sound (by simpa using hnamed)
      rw [eq_resourcePath_of_resourceDirectory hsound.toIsProper hagain, hnew]
      refine FileTree.resourcePath_of_made hnears hsound (hbase.symm.trans hnew) ?_
      rwa [← hnew]

/-- **Planning a layer.** A plan changes the tree exactly if it is no dry run, the layer is one of a
resource whose directory is looked for in vain, and that directory is free to be made; all that it
adds are directories on the way to it. Whenever the layer is written in the same tree, the plan is told and
has the reported paths, in order. The same paths are reported if the layer is written after the
plan, where the path of the source directory goes straight down from the directories that are
there. -/
theorem plan_predicts_write (exporter : Exporter) (output : LayerOutput) (s : Session) :
    ((sessionOf (exporter.plan output s)).tree ≠ s.tree ↔
      exporter.Misses output s.tree ∧
        s.tree.IsFree FileTree.deepestNesting (exporter.newDirectory output)) ∧
    s.tree.Gains (exporter.newDirectory output) (sessionOf (exporter.plan output s)).tree ∧
    (∀ t result t', t.tree = s.tree → exporter.write output t = .ok result t' →
      ∃ paths s₁, exporter.plan output s = .ok paths s₁ ∧
        result.paths = paths.map Path.toString) ∧
    (s.tree.Nears exporter.settings.sourcePath →
      (∀ name ∈ exporter.settings.sourcePath.parts, name = ".." ∨ Path.IsPlainName name) →
      ∀ paths s₁ result s₂, exporter.plan output s = .ok paths s₁ →
        exporter.write output s₁ = .ok result s₂ → result.paths = paths.map Path.toString) := by
  rw [sessionOf_plan]
  refine ⟨?_, ?_, ?_, ?_⟩
  · by_cases hmisses : exporter.Misses output s.tree
    · rw [tree_targetDirectory_of_misses hmisses, FileTree.makeDirectories_ne_self_iff]
      exact (and_iff_right hmisses).symm
    · rw [tree_targetDirectory_of_not_misses hmisses]
      simp [hmisses]
  · by_cases hmisses : exporter.Misses output s.tree
    · rw [tree_targetDirectory_of_misses hmisses]
      exact s.tree.gains_makeDirectories _
    · rw [tree_targetDirectory_of_not_misses hmisses]
      exact .refl _ _
  · intro t result t' htree hwrite
    obtain ⟨base, t₁, hbase, hpaths⟩ := exists_of_write_eq_ok_paths hwrite
    obtain ⟨s₁, hplan⟩ := exists_targetDirectory_eq_ok_of_tree_eq htree hbase
    exact ⟨_, s₁, plan_eq_ok_iff.mpr ⟨base, hplan, rfl⟩, hpaths⟩
  · intro hnears hnames paths s₁ result s₂ hplan hwrite
    obtain ⟨base, hbase, rfl⟩ := plan_eq_ok_iff.mp hplan
    obtain ⟨again, _, hagain, hpaths⟩ := exists_of_write_eq_ok_paths hwrite
    rw [hpaths, targetDirectory_again hnears hnames hbase hagain]

/-- An exporter for a project with this source directory. -/
def invoiceExporter (sourceDir : Path) : Exporter :=
  { settings := { sourceDir } }

/-- A layer of a resource. -/
def invoiceOutput : LayerOutput :=
  { layer := .module, resource := "invoice", artifacts := [⟨"invoice.module.ts", "a\n"⟩] }

/-- A project whose source directory is empty. -/
def bareProject : Session :=
  { tree := ⟨[(["src"], .directory)]⟩ }

/-- The source directory. -/
def plainSource : Path := ⟨.current, ["src"]⟩

/-- The layer is planned and then written. -/
theorem plan_predicts_write_invoice :
    ∃ paths s₁ result s₂ again s₃,
      (invoiceExporter plainSource).plan invoiceOutput bareProject = .ok paths s₁ ∧
      s₁.tree ≠ bareProject.tree ∧
      (invoiceExporter plainSource).write invoiceOutput bareProject = .ok result s₂ ∧
      result.paths = paths.map Path.toString ∧
      (invoiceExporter plainSource).write invoiceOutput s₁ = .ok again s₃ ∧
      again.paths = paths.map Path.toString := by
  obtain ⟨hchanged, -, hbefore, hafter⟩ :=
    plan_predicts_write (invoiceExporter plainSource) invoiceOutput bareProject
  obtain ⟨result, hwrite⟩ := Generator.exists_of_stopOf_eq_none
    (show Generator.stopOf ((invoiceExporter plainSource).write invoiceOutput bareProject) = none by
      decide +kernel)
  obtain ⟨paths, s₁, hplan, hpaths⟩ := hbefore _ _ _ rfl hwrite
  have hs₁ : s₁ = sessionOf ((invoiceExporter plainSource).plan invoiceOutput bareProject) := by
    rw [hplan]
    rfl
  obtain ⟨again, hagain⟩ := Generator.exists_of_stopOf_eq_none
    (show Generator.stopOf ((invoiceExporter plainSource).write invoiceOutput s₁) = none by
      rw [hs₁]
      decide +kernel)
  have hnears : bareProject.tree.Nears (invoiceExporter plainSource).settings.sourcePath :=
    ⟨FileTree.isSound_of_entries (FileTree.isProper_of_entries (by decide) (by decide)) (by decide),
      by decide +kernel⟩
  have hnames : ∀ name ∈ (invoiceExporter plainSource).settings.sourcePath.parts,
      Path.IsEntryName name := by
    decide +kernel
  refine ⟨paths, s₁, result, _, again, _, hplan, ?_, hwrite, hpaths, hagain,
    hafter hnears (fun name hname => .inr (hnames name hname).toIsPlainName) _ _ _ _ hplan hagain⟩
  rw [hs₁]
  have hfree : bareProject.tree.CanMake ((invoiceExporter plainSource).newDirectory invoiceOutput) :=
    ⟨["src", "invoice"], by decide +kernel, by decide +kernel⟩
  exact hchanged.mpr ⟨⟨rfl, rfl, by decide +kernel⟩, .inr hfree, _, [], (List.append_nil _).symm,
    by decide, hfree⟩

/-- A project with a directory of the resource further down. -/
def deepProject : Session :=
  { tree := ⟨[(["src"], .directory), (["src", "alpha"], .directory),
      (["src", "alpha", "invoice"], .directory)]⟩ }

/-- A path to the source directory through one that is made on the way. -/
def detouredSource : Path := ⟨.current, ["gen", "..", "src"]⟩

/-- A plan leaves a directory that was not there. It may be the one through which another directory
of the resource is found when the layer is written. -/
theorem plan_leaves_directories :
    (bareProject.tree.get? ["src", "invoice"] = none ∧
      (sessionOf ((invoiceExporter plainSource).plan invoiceOutput bareProject)).tree.get?
        ["src", "invoice"] = some .directory) ∧
    ∃ paths s₁ result s₂,
      (invoiceExporter detouredSource).plan invoiceOutput deepProject = .ok paths s₁ ∧
      (invoiceExporter detouredSource).write invoiceOutput s₁ = .ok result s₂ ∧
      paths.map Path.toString = ["gen/../src/invoice/invoice.module.ts"] ∧
      result.paths = ["gen/../src/alpha/invoice/invoice.module.ts"] := by
  refine ⟨by decide +kernel, ?_⟩
  have hplan : (valueOf ((invoiceExporter detouredSource).plan invoiceOutput deepProject)).map
      (·.map Path.toString) = some ["gen/../src/invoice/invoice.module.ts"] := by
    decide +kernel
  have hwrite : (valueOf ((invoiceExporter detouredSource).write invoiceOutput
      (sessionOf ((invoiceExporter detouredSource).plan invoiceOutput deepProject)))).map
        Export.paths = some ["gen/../src/alpha/invoice/invoice.module.ts"] := by
    decide +kernel
  obtain ⟨paths, hpaths, htold⟩ := Option.map_eq_some_iff.mp hplan
  obtain ⟨result, hresult, hreported⟩ := Option.map_eq_some_iff.mp hwrite
  exact ⟨paths, _, result, _, eq_ok_of_valueOf hpaths, eq_ok_of_valueOf hresult, htold, hreported⟩

end Exporter

end NestLayers
