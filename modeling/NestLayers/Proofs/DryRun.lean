import NestLayers.Proofs.ResourceSeparation

/-!
# Dry runs

A dry run only looks at the tree. The layers of a package are rendered from the tree as it is, and
the directory of the resource is the one that would be found or made. A run that writes sees another
tree with every layer; but what it has written so far changes neither the definition units nor where
the directory of the resource is found. So it reports the same.
-/

namespace NestLayers

/-! ## What a dry run reports -/

/-- What a dry run would report in place of an export: nothing is removed. -/
def Export.asDry (e : Export) : Export :=
  { e with removed := [], dryRun := true }

/-- What a dry run would report in place of a report. -/
def Report.asDry (r : Report) : Report :=
  { r with dryRun := true, exports := r.exports.map Export.asDry }

private theorem Report.asDry_addExport (r : Report) (e : Export) (elapsed : Float) :
    (r.addExport e elapsed).asDry = r.asDry.addExport e.asDry elapsed := by
  simp [addExport, asDry, Export.asDry, Export.size, Export.lines]

namespace Exporter

variable {exporter : Exporter} {output : LayerOutput} {base : Path} {e : Export}
  {s s' s₁ t t₁ : Session}

/-- The exporter in a dry run. -/
def dry (exporter : Exporter) : Exporter :=
  { exporter with dryRun := true }

/-- A dry run plans the files and writes none. -/
theorem write_dry_run (output : LayerOutput) (s : Session) :
    exporter.dry.write output s =
      match exporter.dry.targetDirectory output s with
      | .error stop s => .error stop s
      | .ok base s =>
        let result : Export :=
          { layer := output.layer.name
            target := base.toString
            files := output.artifacts.map (fileRecord base)
            dryRun := true }
        .ok result ((s.record (.timed ("export " ++ output.layer.name))).record
          (.layerWritten output.layer result.files.length result.size base true)) := by
  unfold write
  rw [bind_run]
  cases exporter.dry.targetDirectory output s <;> rfl

/-- A dry run reports the files that a layer has. -/
theorem exists_isOf_of_write_dry (h : exporter.dry.write output s = .ok e s') :
    ∃ base, e.IsOf output base := by
  rw [write_dry_run] at h
  cases htarget : exporter.dry.targetDirectory output s with
  | error stop s₁ => simp [htarget] at h
  | ok base s₁ =>
    rw [htarget] at h
    obtain ⟨rfl, -⟩ := EStateM.Result.ok.inj h
    exact ⟨base, rfl, rfl, FileRecord.forall₂_tells_iff.mpr rfl⟩

/-- A layer that is written is reported by a dry run if its directory is told. -/
theorem exists_write_dry_eq_ok (hlive : exporter.dryRun = false)
    (h : exporter.write output s = .ok e s')
    (htarget : ∀ base s₁, exporter.targetDirectory output s = .ok base s₁ →
      ∃ t₁, exporter.dry.targetDirectory output t = .ok base t₁ ∧ t₁.tree = t.tree ∧
        t₁.registry = t.registry) :
    ∃ t', exporter.dry.write output t = .ok e.asDry t' ∧ t'.tree = t.tree ∧
      t'.registry = t.registry := by
  obtain ⟨base, s₁, removed, s₂, files, s₃, hbase, -, hfiles, rfl, -⟩ :=
    exists_of_write_eq_ok hlive h
  obtain ⟨t₁, ht₁, htree, hregistry⟩ := htarget base s₁ hbase
  rw [write_dry_run, ht₁, files_of_mapM_eq_ok hfiles]
  exact ⟨_, rfl, htree, hregistry⟩

/-- The directory of a resource is told by a dry run wherever it would be found in the same
place. -/
theorem exists_targetDirectory_dry_of_resource (htarget : output.target = .resource)
    (h : exporter.targetDirectory output s = .ok base s₁) (hs : s.tree.IsProper)
    (ht : t.tree.IsProper) {answer : Option Path}
    (hfind : t.tree.findDirectory exporter.settings.sourcePath (Naming.kebab output.resource) =
      .ok answer)
    (hpath : t.tree.resourcePath exporter.settings.sourcePath (Naming.kebab output.resource) =
      s.tree.resourcePath exporter.settings.sourcePath (Naming.kebab output.resource)) :
    ∃ t₁, exporter.dry.targetDirectory output t = .ok base t₁ ∧ t₁.tree = t.tree ∧
      t₁.registry = t.registry := by
  unfold targetDirectory at h ⊢
  rw [htarget] at h ⊢
  rw [eq_resourcePath_of_resourceDirectory hs h, ← hpath]
  exact @exists_resourceDirectory_eq_ok t exporter.dry rfl output.resource answer ht hfind

/-- The directory of a layer that is written is the one that a dry run tells. -/
theorem exists_targetDirectory_dry_eq_ok (h : exporter.targetDirectory output s = .ok base s₁) :
    ∃ t₁, exporter.dry.targetDirectory output s = .ok base t₁ ∧ t₁.tree = s.tree ∧
      t₁.registry = s.registry := by
  cases htarget : output.target with
  | models =>
    unfold targetDirectory at h ⊢
    rw [htarget] at h ⊢
    obtain ⟨rfl, rfl⟩ := EStateM.Result.ok.inj h
    exact ⟨_, rfl, rfl, rfl⟩
  | info =>
    unfold targetDirectory at h ⊢
    rw [htarget] at h ⊢
    -- an answer is all that is asked for, so the session stays the same
    obtain ⟨answer, s₂, hanswer, hrest⟩ := bind_eq_ok.mp h
    obtain ⟨-, rfl⟩ := isDirectory_eq_ok hanswer
    have hsame : s₁ = s₂ := by
      split at hrest
      · exact (EStateM.Result.ok.inj hrest).2.symm
      · cases hrest
    rw [hsame] at h
    exact ⟨_, h, rfl, rfl⟩
  | resource =>
    unfold targetDirectory at h ⊢
    rw [htarget] at h ⊢
    dsimp only at h ⊢
    -- what is found or to be made is told, in a dry run without making it
    obtain ⟨answer, hfind, hanswer⟩ := exists_of_resourceDirectory_eq_ok h
    rw [resourceDirectory_run]
    dsimp only [dry]
    rw [hfind]
    rcases hanswer with ⟨rfl, -⟩ | ⟨rfl, rfl, -⟩
    · exact ⟨_, rfl, rfl, rfl⟩
    · exact ⟨s, rfl, rfl, rfl⟩

end Exporter

namespace Generator

variable {g : Generator} {layer : Layer} {token name : String} {n : ResourceName}
  {layers : List Layer} {report report' : Report} {e : Export} {s s' s₁ t : Session}

/-- The generator in a dry run. -/
def dry (g : Generator) : Generator :=
  { g with exporter := g.exporter.dry }

/-! ## A dry run changes nothing -/

/-- A dry run tells the same wherever the trees are the same and the registry tells the same. -/
theorem agrees_run_dry_of_reads (g : Generator) {R : Session → Session → Prop} (hR : Reads R)
    (hregistry : Agrees R g.registry g.registry) (token name : String) :
    Agrees R (g.dry.run token name) (g.dry.run token name) := by
  cases htoken : resolveLayer token with
  | error failure =>
    unfold run
    rw [htoken]
    exact .fail failure
  | ok layer =>
    rw [g.dry.run_of_resolveLayer htoken]
    refine Agrees.bind ?_ fun _ => ?_
    · unfold prepare
      split
      · exact (Agrees.bind hregistry fun _ => hR.resolve _ _).bind fun _ => .pure _
      · exact .pure _
    · have hlayers (report : Report) : Agrees R (g.dry.runLayers layer.parts name report)
          (g.dry.runLayers layer.parts name report) :=
        .foldlM _ (fun layer _ report => (hR.runLayer (fun hlive => by cases hlive)
          (hR.layerOutput g.dry hregistry layer name)).bind fun _ => .pure _) _
      exact Agrees.bind (fun s t hsession => hR.timed _ _ (hlayers _ s t hsession)) fun report =>
        (hR.record _ _).bind fun _ => .pure _

/-- A dry run tells the same in all sessions with one tree. -/
theorem agrees_run_dry (g : Generator) (tree : FileTree) (token name : String) :
    Agrees (Same tree) (g.dry.run token name) (g.dry.run token name) :=
  g.agrees_run_dry_of_reads (reads_same tree) (g.agrees_registry_same tree) token name

private theorem tree_run_dry (g : Generator) (token name : String) (s : Session) :
    (sessionOf (g.dry.run token name s)).tree = s.tree := by
  have hagree := g.agrees_run_dry s.tree token name s s ⟨rfl, rfl, rfl⟩
  generalize g.dry.run token name s = result at hagree ⊢
  cases result with
  | ok report t =>
    obtain ⟨_, _, -, -, hsame⟩ := hagree.exists_of_ok
    exact hsame.1
  | error stop t =>
    obtain ⟨_, -, hsame⟩ := hagree.exists_of_error
    exact hsame.1

/-! ## A dry run reports what is rendered -/

/-- **Step.** A dry run renders a layer and leaves the session that rendering leaves. -/
theorem exists_of_runLayer_dry_eq_ok (h : g.dry.runLayer layer name s = .ok e s') :
    ∃ output s₁, g.layerOutput layer name s = .ok output s₁ ∧ (∃ base, e.IsOf output base) ∧
      s'.tree = s₁.tree ∧ s'.registry = s₁.registry := by
  obtain ⟨output, s₁, s₂, houtput, hwrite, rfl⟩ := g.dry.runLayer_eq_ok.mp h
  have hreads := reads_between s₁.tree s₁.registry
  have hkept := keeps_of_agrees (hreads.write g.dry.exporter (fun hlive => by cases hlive) output)
    hwrite
  exact ⟨output, s₁, houtput, Exporter.exists_isOf_of_write_dry hwrite, hkept⟩

/-- **Run.** What is reported of layers in a dry run is what they are rendered to one after
another. -/
theorem exists_mapM_of_runLayers_dry_eq_ok {R : Session → Session → Prop} (hR : Reads R)
    (hregistry : Agrees R g.registry g.registry)
    (hleft : ∀ {s s' t : Session}, s'.tree = s.tree → s'.registry = s.registry → R s t → R s' t)
    (hsession : R s t) (h : g.dry.runLayers layers name report s = .ok report' s') :
    ∃ exports outputs t', report'.exports = report.exports ++ exports ∧
      layers.mapM (g.layerOutput · name) t = .ok outputs t' ∧
      List.Forall₂ (fun e output => ∃ base, Export.IsOf e output base) exports outputs := by
  induction layers generalizing s t report with
  | nil =>
    obtain ⟨rfl, -⟩ := EStateM.Result.ok.inj h
    exact ⟨[], [], t, by simp, rfl, .nil⟩
  | cons layer layers ih =>
    rw [runLayers_cons] at h
    obtain ⟨e, s₁, hlayer, hrest⟩ := bind_eq_ok.mp h
    obtain ⟨output, s₂, houtput, hisOf, htree, hkept⟩ := exists_of_runLayer_dry_eq_ok hlayer
    have hagree := hR.layerOutput g hregistry layer name s t hsession
    rw [houtput] at hagree
    obtain ⟨_, t₁, houtput', rfl, hsession₁⟩ := hagree.exists_of_ok
    obtain ⟨exports, outputs, t', hexports, houtputs, hforall⟩ :=
      ih (hleft htree hkept hsession₁) hrest
    refine ⟨e :: exports, output :: outputs, t', ?_, ?_, .cons hisOf hforall⟩
    · rw [hexports, Report.addExport, List.append_assoc, List.singleton_append]
    · exact mapM_cons_eq_ok.mpr ⟨output, t₁, outputs, houtput', houtputs, rfl⟩

/-- A session that is ahead of another one has its tree. -/
theorem reads_ahead (g : Generator) (models : Registry) : Reads (g.Ahead models) where
  left _ h := h
  right _ h := h
  tree_eq h := h.1

/-- Sessions of which one is ahead are given the same registry. -/
theorem agrees_registry_ahead (g : Generator) (models : Registry) :
    Agrees (g.Ahead models) g.registry g.registry := by
  intro s t h
  obtain ⟨t', hregistry, htree, hs, ht⟩ := h.exists_registry_eq_ok
  rw [g.registry_of_some h.2.1, hregistry]
  exact .ok rfl ⟨htree, hs, .inl ht⟩

/-- What is reported by a dry run is what is generated. -/
theorem exists_generate_of_run_dry_eq_ok (h : g.dry.run token name s = .ok report s') :
    ∃ outputs t, g.generate token name s = .ok outputs t ∧
      List.Forall₂ (fun e output => ∃ base, Export.IsOf e output base) report.exports outputs := by
  obtain ⟨layer, s₀, htoken, hprepare, hparts⟩ := g.dry.run_eq_ok.mp h
  obtain ⟨report', s₂, hlayers, rfl, -⟩ := g.dry.runParts_eq_ok.mp hparts
  have houtputs : ∃ exports outputs t, report'.exports = exports ∧
      layer.parts.mapM (g.layerOutput · name) s = .ok outputs t ∧
      List.Forall₂ (fun e output => ∃ base, Export.IsOf e output base) exports outputs := by
    rcases g.dry.ahead_of_prepare_eq_ok hprepare with rfl | ⟨models, hahead⟩
    · exact exists_mapM_of_runLayers_dry_eq_ok (reads_same s₀.tree)
        (g.agrees_registry_same s₀.tree)
        (fun htree hkept hsame => ⟨htree.trans hsame.1, hsame.2.1, hkept.trans hsame.2.2⟩)
        ⟨rfl, rfl, rfl⟩ hlayers
    · exact exists_mapM_of_runLayers_dry_eq_ok (g.reads_ahead models)
        (g.agrees_registry_ahead models)
        (fun htree hkept hahead => ⟨htree.trans hahead.1, hkept.trans hahead.2.1, hahead.2.2⟩)
        hahead hlayers
  obtain ⟨_, outputs, t, rfl, hgenerate, hforall⟩ := houtputs
  refine ⟨outputs, t, ?_, hforall⟩
  rw [generate, htoken]
  exact hgenerate

/-! ## A dry run reports what would be written -/

/-- A layer that is written is reported by a dry run in the same session. -/
theorem exists_runLayer_dry_eq_ok (hlive : g.exporter.dryRun = false)
    (h : g.runLayer layer name s = .ok e s') :
    ∃ t', g.dry.runLayer layer name s = .ok e.asDry t' := by
  obtain ⟨output, s₁, s₂, houtput, hwrite, -⟩ := g.runLayer_eq_ok.mp h
  obtain ⟨t₁, hdry, -⟩ := Exporter.exists_write_dry_eq_ok hlive hwrite fun base s₃ hbase =>
    Exporter.exists_targetDirectory_dry_eq_ok hbase
  exact ⟨_, g.dry.runLayer_eq_ok.mpr ⟨output, s₁, t₁, houtput, hdry, rfl⟩⟩

/-- **Step.** A layer that is written later on is reported by a dry run at the start. -/
theorem exists_runLayer_dry_eq_ok_of_isLater (hlive : g.exporter.dryRun = false)
    (hn : g.conventions.resourceName name = n) (hlayer : layer ∈ Layer.packageLayers)
    (hproject : g.IsDefaultProject t.tree) (hlater : g.IsLater n t.tree s.tree)
    (hsearch : ∃ answer, t.tree.findDirectory g.settings.sourcePath n.kebab = .ok answer)
    {models : Registry} (hs : s.registry = some models) (ht : t.registry = some models)
    (h : g.runLayer layer name s = .ok e s') :
    (∃ t', g.dry.runLayer layer name t = .ok e.asDry t' ∧ t'.tree = t.tree ∧
      t'.registry = some models) ∧ g.IsLater n t.tree s'.tree ∧ s'.registry = some models := by
  have hsome {s s' : Session} (hs : s.registry = some models) (hfollows : g.Follows s s') :
      s'.registry = some models := by
    rcases hfollows with hsame | ⟨hnone, -⟩
    · rw [hsame, hs]
    · cases hs.symm.trans hnone
  obtain ⟨output, s₁, s₂, houtput, hwrite, hisOf, htree, htree', -, hfollows⟩ :=
    exists_of_runLayer_eq_ok hlayer h
  have hcamel := g.kebab_camel name
  rw [hn] at hisOf hcamel
  obtain ⟨-, -, -, -, hstep⟩ := becomes_of_write_eq_ok (by rw [htree]; exact hlater.project)
    hlive hisOf hcamel hwrite
  rw [htree] at hstep
  obtain ⟨t₁, houtput'⟩ := exists_layerOutput_eq_ok hlayer hlater.project hproject
    hlater.units.symm (fun known s₃ hknown => by
      rw [g.registry_of_some hs] at hknown
      obtain ⟨rfl, -⟩ := EStateM.Result.ok.inj hknown
      exact ⟨t, g.registry_of_some ht⟩) houtput
  obtain ⟨htree₁, hfollows₁⟩ := follows_of_layerOutput_eq_ok houtput'
  obtain ⟨t₂, hdry, htree₂, hkept⟩ : ∃ t₂, g.exporter.dry.write output t₁ = .ok e.asDry t₂ ∧
      t₂.tree = t₁.tree ∧ t₂.registry = t₁.registry := by
    obtain ⟨answer, hfind⟩ := hsearch
    rw [← htree₁, ← hproject.exporter, ← hcamel, ← hisOf.resource_eq] at hfind
    refine Exporter.exists_write_dry_eq_ok hlive hwrite fun base s₃ hbase =>
      Exporter.exists_targetDirectory_dry_of_resource hisOf.target_eq hbase
        (htree ▸ hlater.project.sound.toIsProper) (htree₁ ▸ hproject.sound.toIsProper) hfind ?_
    rw [hproject.exporter, htree, htree₁, hisOf.resource_eq, hcamel]
    exact hlater.base_eq.symm
  refine ⟨⟨_, g.dry.runLayer_eq_ok.mpr ⟨output, t₁, t₂, houtput', hdry, rfl⟩,
    htree₂.trans htree₁, hkept.trans (hsome ht hfollows₁)⟩, ?_, hsome hs hfollows⟩
  rw [htree']
  exact hlater.trans hstep

/-- **Run.** Layers that are written one after another are reported by a dry run. -/
theorem exists_runLayers_dry_eq_ok (hlive : g.exporter.dryRun = false)
    (hn : g.conventions.resourceName name = n)
    (hlayers : ∀ layer ∈ layers, layer ∈ Layer.packageLayers)
    (hproject : g.IsDefaultProject t.tree) (hlater : g.IsLater n t.tree s.tree)
    (hsearch : ∃ answer, t.tree.findDirectory g.settings.sourcePath n.kebab = .ok answer)
    {models : Registry} (hs : s.registry = some models) (ht : t.registry = some models)
    (h : g.runLayers layers name report s = .ok report' s') :
    ∃ t', g.dry.runLayers layers name report.asDry t = .ok report'.asDry t' := by
  induction layers generalizing s t report with
  | nil =>
    obtain ⟨rfl, -⟩ := EStateM.Result.ok.inj h
    exact ⟨t, rfl⟩
  | cons layer layers ih =>
    obtain ⟨hlayer, hrest⟩ := List.forall_mem_cons.mp hlayers
    rw [runLayers_cons] at h
    obtain ⟨e, s₁, hfirst, h⟩ := bind_eq_ok.mp h
    obtain ⟨⟨t₁, hdry, htree, hkept⟩, hlater₁, hs₁⟩ :=
      exists_runLayer_dry_eq_ok_of_isLater hlive hn hlayer hproject hlater hsearch hs ht hfirst
    obtain ⟨t', ht'⟩ := ih hrest (by rwa [htree]) (by rwa [htree]) (by rwa [htree]) hs₁ hkept h
    rw [Report.asDry_addExport] at ht'
    exact ⟨t', by rw [runLayers_cons]; exact bind_eq_ok.mpr ⟨e.asDry, t₁, hdry, ht'⟩⟩

/-- A package has a name, and its definition unit is found first. -/
theorem exists_registry_of_prepare_eq_ok {done : PUnit} (hname : name ≠ "")
    (h : g.prepare .package name s = .ok done s') :
    ∃ models, s'.registry = some models ∧ s'.tree = s.tree := by
  rw [prepare, if_pos ⟨hname, by decide⟩] at h
  obtain ⟨unit, s₁, hfind, hdone⟩ := bind_eq_ok.mp h
  obtain ⟨-, rfl⟩ := EStateM.Result.ok.inj hdone
  obtain ⟨models, htree, hsome, -⟩ := g.exists_ahead_of_findUnit_eq_ok hfind
  exact ⟨models, hsome, htree⟩

/-- The layers that a run writes are reported by a dry run. -/
theorem exists_runLayers_parts_dry_eq_ok (hlive : g.exporter.dryRun = false)
    (hproject : g.IsDefaultProject s.tree) {done : PUnit}
    (hprepare : g.prepare layer name s = .ok done s₁)
    (h : g.runLayers layer.parts name report s₁ = .ok report' s') :
    ∃ t, g.dry.runLayers layer.parts name report.asDry s₁ = .ok report'.asDry t := by
  by_cases hpackage : layer = .package
  · subst hpackage
    have hlayers := h
    rw [show Layer.package.parts = .module :: Layer.packageLayers.tail from rfl,
      runLayers_cons] at hlayers
    obtain ⟨e, s₂, hmodule, -⟩ := bind_eq_ok.mp hlayers
    obtain ⟨output, s₃, s₄, houtput, hwrite, hisOf, htree₃, -⟩ :=
      exists_of_runLayer_eq_ok (by decide) hmodule
    have hname := name_ne_of_layerOutput_eq_ok (by decide) houtput
    obtain ⟨models, hsome, htree⟩ := exists_registry_of_prepare_eq_ok hname hprepare
    rw [← htree] at hproject
    -- the directory of the resource is looked for in the tree at the start by the first layer
    obtain ⟨-, -, hsearch, -⟩ := becomes_of_write_eq_ok (by rwa [htree₃]) hlive hisOf
      (g.kebab_camel name) hwrite
    rw [htree₃] at hsearch
    exact exists_runLayers_dry_eq_ok hlive rfl (fun _ => id) hproject (.refl hproject) hsearch hsome
      hsome h
  · have hsingle : layer.parts = [layer] := by cases layer <;> first | rfl | contradiction
    rw [hsingle, runLayers_cons] at h ⊢
    obtain ⟨e, s₂, hlayer, hend⟩ := bind_eq_ok.mp h
    obtain ⟨rfl, rfl⟩ := EStateM.Result.ok.inj hend
    obtain ⟨t, ht⟩ := exists_runLayer_dry_eq_ok hlive hlayer
    rw [Report.asDry_addExport]
    exact ⟨t, bind_eq_ok.mpr ⟨e.asDry, t, ht, rfl⟩⟩

/-- A run that writes is reported by a dry run. -/
theorem exists_run_dry_eq_ok (hlive : g.exporter.dryRun = false)
    (hproject : g.IsDefaultProject s.tree) (h : g.run token name s = .ok report s') :
    ∃ t, g.dry.run token name s = .ok report.asDry t := by
  obtain ⟨layer, s₀, htoken, hprepare, hparts⟩ := g.run_eq_ok.mp h
  obtain ⟨report', s₂, hlayers, rfl, -⟩ := g.runParts_eq_ok.mp hparts
  obtain ⟨t, ht⟩ := exists_runLayers_parts_dry_eq_ok hlive hproject hprepare hlayers
  exact ⟨_, g.dry.run_eq_ok.mpr ⟨layer, s₀, htoken, hprepare,
    g.dry.runParts_eq_ok.mpr ⟨_, t, ht, rfl, rfl⟩⟩⟩

/-- **A dry run is harmless and faithful.** Whether it succeeds or fails, it leaves the tree as it
was. In a project of the default layout it succeeds whenever the run that writes does, and its
report is the same but for the files that are removed. It reports exactly the files that are
generated, layer by layer and in their order. -/
theorem run_dry_faithful (hlive : g.exporter.dryRun = false)
    (hproject : g.IsDefaultProject s.tree) (token name : String) :
    (sessionOf (g.dry.run token name s)).tree = s.tree ∧
    (∀ report s', g.run token name s = .ok report s' →
      ∃ t, g.dry.run token name s = .ok report.asDry t) ∧
    ∀ report t, g.dry.run token name s = .ok report t →
      ∃ outputs t', g.generate token name s = .ok outputs t' ∧
        List.Forall₂ (fun e output => ∃ base, Export.IsOf e output base) report.exports outputs :=
  ⟨g.tree_run_dry token name s, fun _ _ h => exists_run_dry_eq_ok hlive hproject h,
    fun _ _ h => exists_generate_of_run_dry_eq_ok h⟩

/-- The package of the inner resource of the nested project. -/
theorem run_dry_faithful_nested :
    ∃ report s' t outputs t', defaultGenerator.run "package" "dto" nestedProject = .ok report s' ∧
      defaultGenerator.dry.run "package" "dto" nestedProject = .ok report.asDry t ∧
      t.tree = nestedProject.tree ∧
      defaultGenerator.generate "package" "dto" nestedProject = .ok outputs t' ∧
      List.Forall₂ (fun e output => ∃ base, Export.IsOf e output base) report.asDry.exports
        outputs := by
  obtain ⟨report, s', -, -, hrun, -⟩ := exists_runs_nestedProject
  obtain ⟨htree, hdry, hgenerate⟩ :=
    run_dry_faithful rfl isDefaultProject_nested "package" "dto"
  obtain ⟨t, ht⟩ := hdry report s' hrun
  obtain ⟨outputs, t', houtputs, hforall⟩ := hgenerate _ t ht
  rw [ht] at htree
  exact ⟨report, s', t, outputs, t', hrun, ht, htree, houtputs, hforall⟩

end Generator

end NestLayers
