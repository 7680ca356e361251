import NestLayers.Proofs.Lookups
import NestLayers.Proofs.ResourceSeparation

/-!
# Faults that are not reported

Most of what the file system refuses in a run is reported as a failure. What is not reported stops
the run all the same: a path that is too long when it is looked up, a search for the directory of a
resource that meets such a path or is nested too deep, whatever is in the way when this directory is
made, and a file whose path has a null character or lacks too many directories. Nothing else stops a
run without a report, as long as the definition units are text.
-/

namespace NestLayers

variable {α : Type}

/-! ## Writing a layer -/

/-- Reported work stops without a report only for what is no refusal. -/
theorem crash_of_reporting {cause : FileFault → Failure} {work : Work α} {s s' : Session}
    {crash : Crash} (h : reporting cause work s = .error (.crash crash) s') :
    work s = .error (.crash crash) s' ∧ ∀ fault, crash = .fault fault → fault.isRefusal = false := by
  unfold reporting at h
  split at h
  · rename_i fault s₁ hwork
    split at h
    · cases h
    · rename_i hrefusal
      cases h
      refine ⟨hwork, fun other hother => ?_⟩
      cases hother
      simpa using hrefusal
  · rename_i hfaults
    refine ⟨h, fun fault hfault => ?_⟩
    subst hfault
    exact absurd h (hfaults fault s')

/-- A file is written, or this is reported, unless something prevents it. -/
theorem Exporter.writeArtifact_eq_crash {base : Path} {a : Artifact} {cause : Crash}
    {s s' : Session} (h : writeArtifact base a s = .error (.crash cause) s') :
    ∃ fault, cause = .fault fault ∧ s.tree.Prevents (base / a.path) a.content fault := by
  rw [writeArtifact_run] at h
  split at h
  · rename_i stop s₁ hreporting
    cases h
    obtain ⟨hwrite, hrefusal⟩ := crash_of_reporting hreporting
    obtain ⟨fault, hfault, hmake | ⟨made, hmake, hput⟩⟩ := writeFile_eq_error hwrite
    all_goals cases hfault
    · exact ⟨fault, rfl, (FileTree.prevents_of_makeDirectories hmake _).resolve_left
        (by simp [hrefusal])⟩
    · rcases FileTree.isRefusal_of_putFile hput with htrue | ⟨rfl, hnull⟩
      · cases htrue.symm.trans (hrefusal fault rfl)
      · exact ⟨_, rfl, .null hnull⟩
  · cases h

/-- Entries are not taken away only because the file system refuses it. -/
theorem FileTree.isRefusal_of_clearNames {tree : FileTree} {place : Place} {path : Path}
    {names : List String} {fault : FileFault}
    (h : (tree.clearNames place path names).2 = .error fault) : fault.isRefusal = true := by
  induction names generalizing tree with
  | nil => cases h
  | cons name names ih =>
    rw [clearNames] at h
    split at h
    · rename_i hfind
      cases h
      obtain ⟨-, rfl⟩ := findEntry_eq_error.mp hfind
      rfl
    · dsimp only at h
      cases hrest : ((tree.erase (place ++ [name])).clearNames place path names).2 with
      | ok removed =>
        rw [hrest] at h
        cases h
      | error other =>
        rw [hrest] at h
        cases h
        exact ih hrest
    · exact ih h

namespace Exporter

variable {exporter : Exporter} {output : LayerOutput} {base : Path} {cause : Crash}
  {s s' : Session}

/-- Replacing a directory is reported if it is refused. -/
theorem reset_ne_crash {directories : List String} :
    reset base directories s ≠ .error (.crash cause) s' := by
  intro h
  rcases bind_eq_error.mp h with h | ⟨removed, s₁, -, h⟩
  · obtain ⟨before, directory, after, lists, s₁, -, -, hstop⟩ := exists_of_mapM_eq_error h
    obtain ⟨hclear, hrefusal⟩ := crash_of_reporting hstop
    rw [clearFiles_run] at hclear
    split at hclear
    · rename_i fault hfind
      cases hclear
      obtain ⟨rfl, -⟩ := FileTree.find_eq_error hfind
      cases hrefusal _ rfl
    · split at hclear
      · split at hclear
        · rename_i fault hcleared
          cases hclear
          unfold FileTree.clearFiles at hcleared
          split at hcleared
          · cases hcleared
          · have htrue := FileTree.isRefusal_of_clearNames (congrArg Prod.snd hcleared)
            cases htrue.symm.trans (hrefusal _ rfl)
        · cases hclear
      · cases hclear
  · cases h

/-- What stops the writing of a layer without a report, and the tree in which it does. -/
inductive Escapes (exporter : Exporter) (output : LayerOutput) (s : Session) (stopped : FileTree) :
    FileFault → Prop
  /-- The path of the info directory is too long to be looked up. -/
  | info (htarget : output.target = .info) (hlong : ¬ exporter.settings.infoPath.IsUsable) :
    Escapes exporter output s stopped (.nameTooLong exporter.settings.infoPath)
  /-- The directory of the resource is looked for, and this is refused. -/
  | search {fault : FileFault} (htarget : output.target = .resource)
    (hfind : s.tree.findDirectory exporter.settings.sourcePath (Naming.kebab output.resource) =
      .error fault) : Escapes exporter output s stopped fault
  /-- The directory of the resource is not found, and making it is refused. -/
  | directory {fault : FileFault} (htarget : output.target = .resource)
    (hlive : exporter.dryRun = false)
    (hfind : s.tree.findDirectory exporter.settings.sourcePath (Naming.kebab output.resource) =
      .ok none)
    (hmade : s.tree.makeDirectories (exporter.settings.sourcePath / Naming.kebab output.resource) =
      (stopped, some fault)) : Escapes exporter output s stopped fault
  /-- Something prevents that a file is written, for all that the file system would take. -/
  | file {fault : FileFault} {base : Path} {s₁ : Session} {a : Artifact}
    (hlive : exporter.dryRun = false) (hbase : exporter.targetDirectory output s = .ok base s₁)
    (ha : a ∈ output.artifacts)
    (hprevents : s₁.tree.Prevents (base / a.path) a.content fault) :
    Escapes exporter output s stopped fault

private theorem targetDirectory_eq_crash
    (h : exporter.targetDirectory output s = .error (.crash cause) s') :
    ∃ fault, cause = .fault fault ∧ exporter.Escapes output s s'.tree fault := by
  unfold targetDirectory at h
  cases htarget : output.target with
  | models =>
    rw [htarget] at h
    cases h
  | info =>
    rw [htarget] at h
    rcases bind_eq_error.mp h with hlook | ⟨answer, s₁, -, hrest⟩
    · have hlooks : Looks s.tree (· = exporter.settings.infoPath)
          (isDirectory exporter.settings.infoPath) := Looks.isDirectory rfl
      obtain ⟨-, path, rfl, rfl, hlong⟩ := hlooks.tooLong rfl hlook
      exact ⟨_, rfl, .info htarget hlong⟩
    · split at hrest <;> cases hrest
  | resource =>
    rw [htarget] at h
    dsimp only at h
    rw [resourceDirectory_run] at h
    dsimp only at h
    split at h
    · rename_i hfind
      cases h
      exact ⟨_, rfl, .search htarget hfind⟩
    · cases h
    · rename_i hfind
      split at h
      · cases h
      · rename_i hlive
        rw [ensureDirectory_run] at h
        split at h
        · rename_i hensure
          cases h
          split at hensure
          · rename_i hmade
            cases hensure
            exact ⟨_, rfl, .directory htarget (by simpa using hlive) hfind hmade⟩
          · cases hensure
        · cases h

/-- **Why a layer is not written without a report.** -/
theorem escapes_of_write_eq_crash (h : exporter.write output s = .error (.crash cause) s') :
    ∃ fault, cause = .fault fault ∧ exporter.Escapes output s s'.tree fault := by
  rcases bind_eq_error.mp h with htarget | ⟨base, s₁, hbase, hrest⟩
  · exact targetDirectory_eq_crash htarget
  · rcases bind_eq_error.mp hrest with htimed | ⟨_, s₂, -, hdone⟩
    · obtain ⟨s₂, hwork, -⟩ := timed_eq_error.mp htimed
      split at hwork
      · cases hwork
      · rename_i hlive
        rcases bind_eq_error.mp hwork with hreset | ⟨removed, s₃, hreset, hwrite⟩
        · exact absurd hreset reset_ne_crash
        · rcases bind_eq_error.mp hwrite with hfiles | ⟨files, s₄, -, hpure⟩
          · obtain ⟨front, a, rest, files, s₄, hsplit, hfront, hstop⟩ :=
              exists_of_mapM_eq_error hfiles
            obtain ⟨fault, rfl, hprevents⟩ := writeArtifact_eq_crash hstop
            have hkeeps := (clears_of_reset_eq_ok hreset).keepsDirectories.trans
              (kept_of_mapM_eq_ok hfront).1
            exact ⟨fault, rfl, .file (by simpa using hlive) hbase (by simp [hsplit])
              (hprevents.of_keepsDirectories hkeeps)⟩
          · cases hpure
    · cases hdone

/-- A layer of a resource is not written, and this is not reported, if the search for its directory
is refused, or ends in vain and the directory cannot be made. -/
theorem exists_write_eq_crash {fault : FileFault} (htarget : output.target = .resource)
    (h : s.tree.findDirectory exporter.settings.sourcePath (Naming.kebab output.resource) =
        .error fault ∨
      exporter.dryRun = false ∧
        s.tree.findDirectory exporter.settings.sourcePath (Naming.kebab output.resource) =
          .ok none ∧
        ∃ made, s.tree.makeDirectories
          (exporter.settings.sourcePath / Naming.kebab output.resource) = (made, some fault)) :
    ∃ s', exporter.write output s = .error (.crash (.fault fault)) s' := by
  have hdirectory : ∃ s', exporter.targetDirectory output s = .error (.crash (.fault fault)) s' := by
    rw [targetDirectory, htarget]
    dsimp only
    rw [resourceDirectory_run]
    dsimp only
    rcases h with hfind | ⟨hlive, hfind, made, hmade⟩
    · rw [hfind]
      exact ⟨s, rfl⟩
    · rw [hfind, ensureDirectory_run, hmade]
      simp [hlive]
  obtain ⟨s', hs'⟩ := hdirectory
  exact ⟨s', bind_eq_error.mpr (.inl hs')⟩

end Exporter

namespace Generator

variable {g : Generator} {layer : Layer} {layers : List Layer} {token name : String}
  {n : ResourceName} {output : LayerOutput} {e : Export} {report report' : Report} {cause : Crash}
  {start before middle after : FileTree} {s s' t t' : Session}

/-! ## The layers of a resource -/

/-- What stops a run without a report: a path that is looked up when a layer is rendered, or the
writing of a layer that is rendered after others were written. -/
inductive Escapes (g : Generator) (name : String) (s s' : Session) : FileFault → Prop
  /-- A path that is looked up is too long, or a name in it. -/
  | lookup {path : Path} (hlooked : g.LooksUp s'.tree name path) (hlong : ¬ path.IsUsable) :
    Escapes g name s s' (.nameTooLong path)
  /-- A layer is rendered, and cannot be written. -/
  | write {layers : List Layer} {report report' : Report} {layer : Layer} {output : LayerOutput}
    {fault : FileFault} {s₀ t t₁ : Session} (hstart : s₀.tree = s.tree)
    (hlayers : ∀ layer ∈ layers, layer ∈ Layer.packageLayers)
    (hruns : g.runLayers layers name report s₀ = .ok report' t)
    (houtput : g.layerOutput layer name t = .ok output t₁)
    (hescapes : g.exporter.Escapes output t₁ s'.tree fault) : Escapes g name s s' fault

/-- Every unit of the later tree was there before. -/
def FewerUnits (g : Generator) (before after : FileTree) : Prop :=
  ∀ location name content, IsUnitName name →
    after.contentAt? ((g.store.directory location).place ++ [name]) = some content →
      before.contentAt? ((g.store.directory location).place ++ [name]) = some content

/-- A layer of a package may remove units, and writes none. -/
theorem fewerUnits_of_becomes {base : Path} (hisOf : output.IsOf layer n)
    (hbecomes : before.Becomes (output.changes base) after) : g.FewerUnits before after := by
  intro location name content hname hcontent
  have hwrites : ∀ change ∈ output.changes base,
      ¬ change.Writes ((g.store.directory location).place ++ [name]) :=
    fun change hchange => not_writes_of_isUnitName hisOf hchange hname _
  by_cases hclears : ∃ change ∈ output.changes base,
      change.Clears ((g.store.directory location).place ++ [name])
  · rw [hbecomes.contentAt?_eq_none hwrites hclears] at hcontent
    cases hcontent
  · push Not at hclears
    rwa [hbecomes.contentAt?_eq hwrites hclears] at hcontent

/-- **Step.** A layer of a package that is rendered and written leaves a sound tree with text for
units. -/
theorem isSound_of_runLayer_eq_ok
    (hnames : ∀ part ∈ g.exporter.settings.sourcePath.parts, part = ".." ∨ Path.IsPlainName part)
    (hsound : t.tree.IsSound) (htext : g.store.AreText t.tree)
    (hlayer : layer ∈ Layer.packageLayers) (h : g.runLayer layer name t = .ok e t') :
    t'.tree.IsSound ∧ g.store.AreText t'.tree := by
  obtain ⟨output, t₁, t₂, -, hwrite, hisOf, htree, htree', -, -⟩ :=
    exists_of_runLayer_eq_ok hlayer h
  rw [htree']
  rw [← htree] at hsound htext
  by_cases hlive : g.exporter.dryRun = false
  · have hdirectories : ∀ directory ∈ output.resetDirectories, Path.IsEntryPath directory := by
      rw [hisOf.resetDirectories_eq]
      exact fun directory => Layer.isEntryPath_of_replaced
    obtain ⟨base, -, -, -, -, hbecomes, hsound'⟩ := Exporter.becomes_of_write_eq_ok hlive hsound
      hnames hisOf.target_eq hdirectories hisOf.nodup_places hwrite
    exact ⟨hsound', fun location name bytes hname hcontent => htext location name bytes hname
      (fewerUnits_of_becomes hisOf hbecomes location name _ hname hcontent)⟩
  · have hreads := reads_between t₁.tree t₁.registry
    obtain ⟨hkept, -⟩ := keeps_of_agrees
      (hreads.write g.exporter (fun h => absurd h hlive) output) hwrite
    rw [hkept]
    exact ⟨hsound, htext⟩

/-- **Run.** Layers of a package that are rendered and written leave such a tree. -/
theorem isSound_of_runLayers_eq_ok
    (hnames : ∀ part ∈ g.exporter.settings.sourcePath.parts, part = ".." ∨ Path.IsPlainName part)
    (hsound : t.tree.IsSound) (htext : g.store.AreText t.tree)
    (hlayers : ∀ layer ∈ layers, layer ∈ Layer.packageLayers)
    (h : g.runLayers layers name report t = .ok report' t') :
    t'.tree.IsSound ∧ g.store.AreText t'.tree := by
  induction layers generalizing t report with
  | nil =>
    obtain ⟨-, rfl⟩ := EStateM.Result.ok.inj h
    exact ⟨hsound, htext⟩
  | cons layer layers ih =>
    obtain ⟨hlayer, hrest⟩ := List.forall_mem_cons.mp hlayers
    rw [g.runLayers_cons] at h
    obtain ⟨e, t₁, hfirst, hothers⟩ := bind_eq_ok.mp h
    obtain ⟨hsound₁, htext₁⟩ := isSound_of_runLayer_eq_ok hnames hsound htext hlayer hfirst
    exact ih hsound₁ htext₁ hrest hothers

/-- Layers stop at one of them, after those before it were written. -/
theorem exists_of_runLayers_eq_error {stop : Stop}
    (h : g.runLayers layers name report t = .error stop t') :
    ∃ front layer rest report' t₁, layers = front ++ layer :: rest ∧
      g.runLayers front name report t = .ok report' t₁ ∧
      g.runLayer layer name t₁ = .error stop t' := by
  induction layers generalizing t report with
  | nil => cases h
  | cons layer layers ih =>
    rw [g.runLayers_cons] at h
    rcases bind_eq_error.mp h with hfirst | ⟨e, t₁, hfirst, hothers⟩
    · exact ⟨[], layer, layers, report, t, rfl, rfl, hfirst⟩
    · obtain ⟨front, other, rest, report', t₂, rfl, hfront, hstop⟩ := ih hothers
      refine ⟨layer :: front, other, rest, report', t₂, rfl, ?_, hstop⟩
      rw [g.runLayers_cons]
      exact bind_eq_ok.mpr ⟨e, t₁, hfirst, hfront⟩

/-- All layers of a run but the last one are layers of a package. -/
theorem mem_packageLayers_of_parts {front rest : List Layer} {last : Layer}
    (h : layer.parts = front ++ last :: rest) : ∀ other ∈ front, other ∈ Layer.packageLayers := by
  intro other hother
  by_cases hpackage : layer = .package
  · have hparts : layer.parts = Layer.packageLayers := by rw [hpackage]; rfl
    exact hparts ▸ h ▸ List.mem_append_left _ hother
  · have hone : layer.parts = [layer] := by
      cases layer with
      | package => exact absurd rfl hpackage
      | _ => rfl
    rw [hone] at h
    have hlength := congrArg List.length h
    simp only [List.length_append, List.length_cons, List.length_nil] at hlength
    rw [List.length_eq_zero_iff.mp (by omega : front.length = 0)] at hother
    cases hother

/-- A run that stops without a report. -/
theorem exists_escapes_of_run
    (hnames : ∀ part ∈ g.exporter.settings.sourcePath.parts, part = ".." ∨ Path.IsPlainName part)
    (hsound : s.tree.IsSound) (htext : g.store.AreText s.tree)
    (h : g.run token name s = .error (.crash cause) s') :
    ∃ fault, cause = .fault fault ∧ g.Escapes name s s' fault := by
  cases htoken : resolveLayer token with
  | error failure =>
    rw [run, htoken] at h
    cases h
  | ok layer =>
    rw [g.run_of_resolveLayer htoken] at h
    rcases bind_eq_error.mp h with hprepare | ⟨done, s₁, hprepare, hparts⟩
    · unfold prepare at hprepare
      split at hprepare
      · rcases bind_eq_error.mp hprepare with hfind | ⟨unit, s₁, -, hdone⟩
        · obtain ⟨htree, path, rfl, hlooked, hlong⟩ :=
            (Looks.findUnit g hsound htext name).tooLong rfl hfind
          exact ⟨_, rfl, .lookup (htree ▸ hlooked) hlong⟩
        · cases hdone
      · cases hprepare
    · have htree : s₁.tree = s.tree := by
        rcases g.ahead_of_prepare_eq_ok hprepare with rfl | ⟨models, hahead⟩
        · rfl
        · exact hahead.1
      rw [← htree] at hsound htext
      rcases bind_eq_error.mp hparts with htimed | ⟨report, s₂, -, hdone⟩
      · obtain ⟨s₂, hlayers, rfl⟩ := timed_eq_error.mp htimed
        obtain ⟨front, last, rest, report, t, hsplit, hfront, hlast⟩ :=
          exists_of_runLayers_eq_error hlayers
        have hpackage := mem_packageLayers_of_parts hsplit
        obtain ⟨hsound', htext'⟩ :=
          isSound_of_runLayers_eq_ok hnames hsound htext hpackage hfront
        have hlooks := Looks.layerOutput g hsound' htext' last name
        obtain ⟨t₂, hwork, rfl⟩ := timed_eq_error.mp hlast
        rcases bind_eq_error.mp hwork with houtput | ⟨output, t₁, houtput, hwrite⟩
        · obtain ⟨hkept, path, rfl, hlooked, hlong⟩ := hlooks.tooLong rfl houtput
          rw [← hkept] at hlooked
          exact ⟨_, rfl, .lookup hlooked hlong⟩
        · obtain ⟨fault, rfl, hescapes⟩ := Exporter.escapes_of_write_eq_crash hwrite
          exact ⟨fault, rfl, .write htree hpackage hfront houtput hescapes⟩
      · cases hdone

/-- **What is wrong with the directory of a resource is not reported.** -/
theorem exists_run_eq_crash {unit : Location × Path} {fault : FileFault}
    (htoken : resolveLayer token = .ok .package) (hname : name ≠ "")
    (hunit : g.findUnit name s = .ok unit t)
    (h : s.tree.findDirectory g.exporter.settings.sourcePath
        (g.conventions.resourceName name).kebab = .error fault ∨
      g.exporter.dryRun = false ∧
        s.tree.findDirectory g.exporter.settings.sourcePath
          (g.conventions.resourceName name).kebab = .ok none ∧
        ∃ made, s.tree.makeDirectories (g.exporter.settings.sourcePath /
          (g.conventions.resourceName name).kebab) = (made, some fault)) :
    ∃ s', g.run token name s = .error (.crash (.fault fault)) s' := by
  obtain ⟨models, htree, -⟩ := g.exists_ahead_of_findUnit_eq_ok hunit
  rw [← htree, ← g.kebab_camel name] at h
  -- the module is rendered from the name alone, and is the first layer to be written
  have hisOf := Layer.isOf_moduleOutput (g.conventions.resourceName name)
  rw [← hisOf.resource_eq] at h
  obtain ⟨s₁, hwrite⟩ := @Exporter.exists_write_eq_crash g.exporter _
    (t.record (.rendering .module)) _ hisOf.target_eq h
  have hmodule : g.runLayer .module name t =
      .error (.crash (.fault fault)) (s₁.record (.timed Layer.module.name)) := by
    refine timed_eq_error.mpr ⟨s₁, bind_eq_error.mpr (.inr ⟨_, _, ?_, hwrite⟩), rfl⟩
    rw [g.layerOutput_module hname]
    rfl
  have hneeds : Layer.package.parts.any Layer.needsIdentifier = true := by decide
  rw [g.run_eq htoken hname, if_pos hneeds]
  have hlayers (report : Report) : g.runLayers Layer.packageLayers name report t =
      .error (.crash (.fault fault)) (s₁.record (.timed Layer.module.name)) := by
    rw [Layer.packageLayers, g.runLayers_cons]
    exact bind_eq_error.mpr (.inl hmodule)
  exact ⟨_, bind_eq_error.mpr (.inr ⟨unit, t, hunit, bind_eq_error.mpr (.inl
    (timed_eq_error.mpr ⟨_, hlayers _, rfl⟩))⟩)⟩

/-- **What is not reported.** Let the tree be sound and its definition units text. A run ends with a
report or with a failure, or else it stops for one of the reasons of `Escapes`: a path that is looked
up is too long, the search for the directory of the resource is refused, this directory is not there
and cannot be made, or a file has a path that the file system cannot be asked about. If the unit of
the resource is found, then the run of a package never reports that the search is refused, nor that
the directory cannot be made. -/
theorem run_reports_or_escapes
    (hnames : ∀ part ∈ g.exporter.settings.sourcePath.parts, part = ".." ∨ Path.IsPlainName part)
    (hsound : s.tree.IsSound) (htext : g.store.AreText s.tree) (token name : String) :
    ((∃ report s', g.run token name s = .ok report s') ∨
      (∃ failure s', g.run token name s = .error (.failure failure) s') ∨
      ∃ fault s', g.run token name s = .error (.crash (.fault fault)) s' ∧
        g.Escapes name s s' fault) ∧
    ∀ unit s₁ fault, resolveLayer token = .ok .package → name ≠ "" →
      g.findUnit name s = .ok unit s₁ →
      (s.tree.findDirectory g.exporter.settings.sourcePath
          (g.conventions.resourceName name).kebab = .error fault ∨
        g.exporter.dryRun = false ∧
          s.tree.findDirectory g.exporter.settings.sourcePath
            (g.conventions.resourceName name).kebab = .ok none ∧
          ∃ made, s.tree.makeDirectories (g.exporter.settings.sourcePath /
            (g.conventions.resourceName name).kebab) = (made, some fault)) →
      ∃ s', g.run token name s = .error (.crash (.fault fault)) s' := by
  refine ⟨?_, fun unit s₁ fault htoken hname hunit h =>
    exists_run_eq_crash htoken hname hunit h⟩
  cases hrun : g.run token name s with
  | ok report s' => exact .inl ⟨report, s', rfl⟩
  | error stop s' =>
    cases stop with
    | failure failure => exact .inr (.inl ⟨failure, s', rfl⟩)
    | crash cause =>
      obtain ⟨fault, rfl, hescapes⟩ := exists_escapes_of_run hnames hsound htext hrun
      exact .inr (.inr ⟨fault, s', rfl, hescapes⟩)

end Generator

/-! ## A file in the place of a directory -/

private theorem DefinitionStore.areText_of_entries {store : DefinitionStore} {tree : FileTree}
    (h : ∀ e ∈ tree.entries, match e.2 with
      | .file (.binary _) => False
      | _ => True) : store.AreText tree := by
  intro location name bytes _ hcontent
  exact h _ (FileTree.mem_entries (by simp) (FileTree.contentAt?_eq_some.mp hcontent))

namespace Generator

/-- A project with a regular file where the directory of a resource would be made. -/
def occupiedProject : Session :=
  { tree := ⟨[(["prisma"], .directory), (["prisma", "schema"], .directory),
      (["prisma", "schema", "models"], .directory),
      (["prisma", "schema", "models", "order.prisma"], .file (.text
        "// Order\nmodel Order \x7b\n  id Int @id // key\n\x7d\n")),
      (["src"], .directory), (["src", "order"], .file (.text "x"))]⟩ }

/-- The path of this file. -/
def occupiedPath : Path := ⟨.current, ["src", "order"]⟩

private theorem isSound_occupied : occupiedProject.tree.IsSound :=
  FileTree.isSound_of_entries
    (FileTree.isProper_of_entries (by decide +kernel) (by decide +kernel)) (by decide +kernel)

private theorem areText_occupied : defaultGenerator.store.AreText occupiedProject.tree := by
  refine DefinitionStore.areText_of_entries ?_
  simp [occupiedProject]

private theorem stopOf_run_occupied :
    stopOf (defaultGenerator.run "package" "order" occupiedProject) =
      some (.crash (.fault (.fileExists occupiedPath))) := by
  decide +kernel

/-- Although all units are text, the run of a package can stop without a report. -/
theorem run_package_stops_unreported :
    occupiedProject.tree.IsSound ∧ defaultGenerator.store.AreText occupiedProject.tree ∧
      (∀ report s', defaultGenerator.run "package" "order" occupiedProject ≠ .ok report s') ∧
      ∀ failure s', defaultGenerator.run "package" "order" occupiedProject ≠
        .error (.failure failure) s' := by
  have hrun := eq_error_of_stopOf_eq_some stopOf_run_occupied
  refine ⟨isSound_occupied, areText_occupied, fun report s' hok => ?_, fun failure s' hfailed => ?_⟩
  · cases hrun.symm.trans hok
  · cases hrun.symm.trans hfailed

/-- The file is in the way of the directory, which is neither found nor can be made. -/
theorem run_reports_or_escapes_occupied :
    ∃ s', defaultGenerator.run "package" "order" occupiedProject =
        .error (.crash (.fault (.fileExists occupiedPath))) s' ∧
      defaultGenerator.Escapes "order" occupiedProject s' (.fileExists occupiedPath) := by
  have hnames : ∀ part ∈ defaultGenerator.exporter.settings.sourcePath.parts,
      part = ".." ∨ Path.IsPlainName part := by
    have hentries : ∀ part ∈ defaultGenerator.exporter.settings.sourcePath.parts,
        Path.IsEntryName part := by
      decide +kernel
    exact fun part hpart => .inr (hentries part hpart).toIsPlainName
  have hunit : stopOf (defaultGenerator.findUnit "order" occupiedProject) = none := by
    decide +kernel
  obtain ⟨unit, hunit⟩ := exists_of_stopOf_eq_none hunit
  have hfind : occupiedProject.tree.findDirectory defaultGenerator.exporter.settings.sourcePath
      (defaultGenerator.conventions.resourceName "order").kebab = .ok none := by
    decide +kernel
  have hmade : occupiedProject.tree.makeDirectories (defaultGenerator.exporter.settings.sourcePath /
      (defaultGenerator.conventions.resourceName "order").kebab) =
        (occupiedProject.tree, some (.fileExists occupiedPath)) := by
    decide +kernel
  obtain ⟨hends, hcrash⟩ :=
    run_reports_or_escapes hnames isSound_occupied areText_occupied "package" "order"
  obtain ⟨s', hrun⟩ := hcrash unit _ _ resolveLayer_package (by decide) hunit
    (.inr ⟨rfl, hfind, _, hmade⟩)
  obtain ⟨report, s₁, hok⟩ | ⟨failure, s₁, hfailed⟩ | ⟨fault, s₁, hstopped, hescapes⟩ := hends
  · cases hrun.symm.trans hok
  · cases hrun.symm.trans hfailed
  · cases hrun.symm.trans hstopped
    exact ⟨_, hrun, hescapes⟩

end Generator

end NestLayers
