import NestLayers.Proofs.LayerRuns
import NestLayers.Proofs.ModelImports
import NestLayers.Proofs.WritingAgain

/-!
# Where layers stand

In the default layout every layer goes below the source directory: the layers of a resource to its
directory, the model classes and the info layer to directories of their own. All that they write
goes there by plain names, so that the definition units are left alone and a layer that was written
can be written again.
-/

namespace NestLayers

open NestLayers.Naming

/-! ## The files of each layer -/

/-- What the files of a layer go to. -/
def Layer.target : Layer → Target
  | .model => .models
  | .info => .info
  | _ => .resource

/-- A generated file is named by its stem, in directories of known names. -/
theorem Artifact.isPlaced_of_path {a : Artifact} {directory : List String} {stem : String}
    (hdirectory : ∀ name ∈ directory, name ∈ ["dto", "response", "interfaces"])
    (hslash : '/' ∉ stem.toList)
    (hpath : a.path = String.intercalate "/" (directory ++ [stem ++ ".ts"])) : a.IsPlaced := by
  have hknown : ∀ name ∈ ["dto", "response", "interfaces"],
      Path.IsEntryName name ∧ name.toList.getLast? ≠ some 'p' := by
    decide
  have hnames : ∀ name ∈ directory ++ [stem ++ ".ts"], Path.IsPlainName name := by
    rw [List.forall_mem_append, List.forall_mem_singleton]
    exact ⟨fun name hname => (hknown name (hdirectory name hname)).1.toIsPlainName,
      Path.isPlainName_source hslash⟩
  have hparts : Path.ofString a.path = ⟨.current, directory ++ [stem ++ ".ts"]⟩ := by
    rw [hpath, Path.ofString_plain (by simp) hnames]
  refine ⟨⟨by rw [hparts]; rfl, ?_⟩, by simp [hparts], ?_⟩
  · rw [hparts]
    exact fun hdots => (hnames _ hdots).ne_dots rfl
  · rw [hparts, List.forall_mem_append, List.forall_mem_singleton]
    refine ⟨fun name hname => (hknown name (hdirectory name hname)).2, ?_⟩
    simp [List.getLast?_append]

private theorem LayerOutput.IsOf.isPlaced {output : LayerOutput} {layer : Layer} {n : ResourceName}
    (h : output.IsOf layer n) (hkebab : Path.IsPlainName n.kebab) : output.IsPlaced := by
  refine ⟨fun directory hdirectory => ?_, fun a ha => ?_⟩
  · rw [h.resetDirectories_eq] at hdirectory
    exact Layer.isEntryPath_of_replaced hdirectory
  · obtain ⟨f, -, hpath⟩ := h.exists_path_eq ha
    have hdirectories : ∀ f ∈ PackageFile.all, ∀ name ∈ f.directory,
        name ∈ ["dto", "response", "interfaces"] := by
      decide
    have hslash : '/' ∉ f.suffix.toList := f.suffix_chars.1
    exact Artifact.isPlaced_of_path (hdirectories f f.mem_all)
      (by simp [hkebab.slash_notMem, hslash]) hpath

private theorem Layer.Model.isPlaced_output (conventions : Conventions) {ds : List Definition}
    (hds : ∀ d ∈ ds, '/' ∉ d.name.toList) : (output conventions ds).IsPlaced := by
  refine ⟨List.forall_mem_singleton.mpr ⟨by decide, by decide⟩, fun a ha => ?_⟩
  obtain ⟨d, hd, rfl⟩ := List.mem_map.mp ha
  have hslash := notMem_modelKebab (x := '/') (by decide) (by decide) (by decide) (hds d hd)
  refine @Artifact.isPlaced_of_path _ [] (modelKebab d.name ++ ".model") (by simp)
    (by simp [hslash]) ?_
  change modelKebab d.name ++ ".model.ts" = _
  rw [← String.toList_inj]
  simp

namespace Layer.Info

private theorem isPlaced_contracts (conventions : Conventions) {f : Finder}
    (hslash : '/' ∉ f.stem.toList) :
    ∀ source ∈ f.contracts conventions, source.artifact.IsPlaced := by
  simp only [Finder.contracts, List.forall_mem_cons]
  refine ⟨@Artifact.isPlaced_of_path _ ["dto"] _ (by decide) hslash ?_,
    @Artifact.isPlaced_of_path _ ["dto", "response"] _ (by decide) hslash ?_, by simp⟩
  · change "dto/" ++ f.stem ++ ".ts" = _
    rw [← String.toList_inj]
    simp
  · change "dto/response/" ++ f.stem ++ ".ts" = _
    rw [← String.toList_inj]
    simp

private theorem isPlaced_output (conventions : Conventions) {ds : List Definition}
    (hds : ∀ d ∈ ds, '/' ∉ d.name.toList ∧ '/' ∉ d.fileId.toList) :
    (output conventions ds).IsPlaced := by
  refine ⟨by simp [output], fun a ha => ?_⟩
  obtain ⟨source, hsource, rfl⟩ := List.mem_map.mp ha
  rcases List.mem_append.mp hsource with hsource | hsource
  · simp only [List.mem_cons, List.not_mem_nil, or_false] at hsource
    rcases hsource with rfl | rfl | rfl
    · exact @Artifact.isPlaced_of_path _ [] "info.repository" (by simp) (by decide) rfl
    · exact @Artifact.isPlaced_of_path _ [] "info.service" (by simp) (by decide) rfl
    · exact @Artifact.isPlaced_of_path _ [] "info.controller" (by simp) (by decide) rfl
  · obtain ⟨f, hf, hsource⟩ := List.mem_flatMap.mp hsource
    obtain ⟨d, hd, rfl⟩ := List.mem_map.mp hf
    obtain ⟨hname, hfileId⟩ := hds d hd
    exact isPlaced_contracts conventions (Finder.slash_notMem_stem hname hfileId) source hsource

end Layer.Info

/-! ## The changes of each layer -/

/-- All changes that a layer makes when it is written below a directory. The directory of the model
classes is made with the first of them. -/
def LayerOutput.changesAt (output : LayerOutput) (base : Path) : List Change :=
  (if output.target = .models then [] else [.make base]) ++ output.refills base

namespace LayerOutput

variable {output : LayerOutput} {base : Path} {change : Change} {place : Place}

private theorem mem_changesAt (h : change ∈ output.changesAt base) :
    output.target ≠ .models ∧ change = .make base ∨
      (∃ directory ∈ output.resetDirectories, change = .clear (base / directory)) ∨
        ∃ a ∈ output.artifacts, change = .write (base / a.path) (.text a.content) := by
  rcases List.mem_append.mp h with h | h
  · split at h
    · cases h
    · exact .inl ⟨‹_›, List.mem_singleton.mp h⟩
  · rcases List.mem_append.mp h with h | h
    · obtain ⟨directory, hdirectory, rfl⟩ := List.mem_map.mp h
      exact .inr (.inl ⟨directory, hdirectory, rfl⟩)
    · obtain ⟨a, ha, rfl⟩ := List.mem_map.mp h
      exact .inr (.inr ⟨a, ha, rfl⟩)

/-- All that a layer changes is inside of its target directory. -/
theorem IsPlaced.exists_path_eq (h : output.IsPlaced) (hchange : change ∈ output.changesAt base) :
    ∃ names, change.path = base.below names ∧ ".." ∉ names := by
  rcases mem_changesAt hchange with ⟨-, rfl⟩ | ⟨directory, hdirectory, rfl⟩ | ⟨a, ha, rfl⟩
  · exact ⟨[], by simp [Change.path, Path.below], by simp⟩
  · have hinside := (h.resets directory hdirectory).inside
    exact ⟨_, hinside.div_eq base, hinside.2⟩
  · exact ⟨_, (h.artifacts a ha).div_eq base, (h.artifacts a ha).inside.2⟩

/-- A layer puts nothing at the name of a temporary file, except on the way to its target. -/
theorem IsPlaced.mem_way_of_puts (h : output.IsPlaced) (hchange : change ∈ output.changesAt base)
    (hplace : FileTree.IsTemporary place) (hputs : change.Puts place) : place ∈ base.way := by
  rcases mem_changesAt hchange with ⟨-, rfl⟩ | ⟨directory, -, rfl⟩ | ⟨a, ha, rfl⟩
  · exact hputs.resolve_left Change.writes_make
  · exact absurd hputs (by simp [Change.Puts])
  · exact (h.artifacts a ha).mem_way_of_puts hplace hputs

/-- The changes of a layer of a resource. -/
theorem changesAt_of_resource (h : output.target = .resource) (base : Path) :
    output.changesAt base = output.changes base := by
  rw [changesAt, changes, if_neg (by simp [h]), refills, List.append_assoc]

end LayerOutput

/-! ## What is rendered -/

/-- The output is that of a layer: it goes to the target of the layer, and its files are placed
there. -/
structure LayerOutput.IsFor (output : LayerOutput) (layer : Layer) (n : ResourceName) : Prop where
  target_eq : output.target = layer.target
  isOf : layer.target = .resource → output.IsOf layer n
  placed : output.IsPlaced

namespace Generator

variable {g : Generator} {layer : Layer} {name : String} {output : LayerOutput} {n : ResourceName}
  {s s' s₁ t : Session} {before after tree : FileTree} {base : Path} {changes : List Change}

private theorem slash_notMem_of_loadAggregates {models : Registry} {ds : List Definition}
    (h : g.store.loadAggregates models s = .ok ds s') :
    ∀ d ∈ ds, '/' ∉ d.name.toList ∧ '/' ∉ d.fileId.toList := by
  intro d hd
  obtain ⟨paths, s₁, -, hreads⟩ := bind_eq_ok.mp h
  have hunits : (paths.map (Location.aggregate, ·)).mapM
      (fun unit => DefinitionStore.readFile models unit.1 unit.2) s₁ = .ok ds s' := by
    rw [List.mapM_map]
    exact hreads
  obtain ⟨-, hds⟩ := DefinitionStore.mapM_readFile_eq_ok hunits
  obtain ⟨unit, -, hread⟩ := DefinitionStore.exists_of_forall₂ hds hd
  exact hread.slash_notMem

/-- **What is rendered for a layer is its output.** -/
theorem isFor_layerOutput (hlayer : layer ≠ .package)
    (hkebab : name ≠ "" → Path.IsPlainName (g.conventions.resourceName name).kebab)
    (h : g.layerOutput layer name s = .ok output s') :
    output.IsFor layer (g.conventions.resourceName name) := by
  by_cases hpackage : layer ∈ Layer.packageLayers
  · have hisOf := isOf_layerOutput hpackage h
    have hname := name_ne_of_layerOutput_eq_ok hpackage h
    refine ⟨hisOf.target_eq.trans ?_, fun _ => hisOf, hisOf.isPlaced (hkebab hname)⟩
    revert hpackage
    cases layer <;> decide
  · obtain rfl | rfl : layer = .model ∨ layer = .info := by
      revert hlayer hpackage
      cases layer <;> decide
    · obtain ⟨models, ds, s₁, s₂, hload, rfl⟩ := exists_of_layerOutput_model h
      obtain ⟨-, units, t, -, hds⟩ := DefinitionStore.loadAll_eq_ok hload
      refine ⟨rfl, nofun, Layer.Model.isPlaced_output _ fun d hd => ?_⟩
      obtain ⟨unit, -, hread⟩ := DefinitionStore.exists_of_forall₂ hds hd
      exact hread.slash_notMem.1
    · obtain ⟨models, ds, s₁, s₂, hload, rfl⟩ := exists_of_layerOutput_info h
      exact ⟨rfl, nofun, Layer.Info.isPlaced_output _ (slash_notMem_of_loadAggregates hload)⟩

/-! ## Target directories -/

/-- The model classes and the info layer go to their directories in the default layout. -/
structure HasDefaultTargets (g : Generator) : Prop where
  modelDir : g.settings.modelDir = ({} : Settings).modelDir
  infoDir : g.settings.infoDir = ({} : Settings).infoDir

/-- The directory that a layer goes to. -/
def targetPath (g : Generator) (tree : FileTree) (n : ResourceName) (layer : Layer) : Path :=
  match layer.target with
  | .models => g.settings.modelPath
  | .info => g.settings.infoPath
  | .resource => g.resourceBase tree n

/-- A directory of the project below its source directory, by names that files can have. -/
structure IsTarget (g : Generator) (base : Path) : Prop where
  names : ∀ name ∈ base.parts, name = ".." ∨ Path.IsEntryName name
  below : ∃ names, base = g.settings.projectRoot.below ("src" :: names) ∧ ".." ∉ names

/-- Known names lead from the root of a project to a target. -/
theorem IsDefaultProject.isTarget (h : g.IsDefaultProject tree) {names : List String}
    (hbase : base = g.settings.projectRoot.below ("src" :: names))
    (hnames : ∀ name ∈ "src" :: names, Path.IsEntryName name) : g.IsTarget base := by
  refine ⟨fun name hname => ?_, names, hbase,
    fun hdots => (hnames _ (List.mem_cons_of_mem _ hdots)).ne_dots rfl⟩
  rw [hbase] at hname
  rcases List.mem_append.mp hname with hname | hname
  · exact h.isEntryName_root name hname
  · exact .inr (hnames name hname)

/-- A project leads towards each of its targets. -/
theorem IsDefaultProject.nears (h : g.IsDefaultProject tree) (hbase : g.IsTarget base) :
    tree.Nears base := by
  obtain ⟨names, rfl, hnames⟩ := hbase.below
  have hdots : ".." ∉ "src" :: names := by simpa using hnames
  refine ⟨h.sound, fun place hplace => ?_⟩
  rcases (Path.mem_way_below _ hdots).mp hplace with hplace | ⟨front, hfront, rfl⟩
  · exact .inr ((FileTree.isDirectory_iff.mp h.root).2 place hplace)
  · rw [Path.place_below _ hdots]
    exact .inl ((List.prefix_append_right_inj _).mpr hfront)

/-- The target directory is there, or is made. -/
structure Arrives (g : Generator) (output : LayerOutput) (base : Path) (before after : FileTree) :
    Prop where
  target : g.IsTarget base
  search : output.target = .resource →
    after.findDirectory g.settings.sourcePath (Naming.kebab output.resource) = .ok (some base)
  usable : output.target ≠ .models → base.IsUsable
  undergoes : before.Undergoes (if output.target = .models then [] else [.make base]) after
  way : output.target ≠ .models → ∀ place ∈ base.way, after.get? place = some .directory
  sound : after.IsSound

/-- The directory of a resource is found or made. -/
theorem arrives_of_resourceDirectory_eq_ok (hproject : g.IsDefaultProject s.tree)
    (hlive : g.exporter.dryRun = false) (htarget : output.target = .resource)
    (hresource : Naming.kebab output.resource = n.kebab) (hkebab : Path.IsPlainName n.kebab)
    (h : g.exporter.resourceDirectory output.resource true s = .ok base s₁) :
    base = g.resourceBase s.tree n ∧ g.Arrives output base s.tree s₁.tree := by
  have hsource : g.exporter.settings.sourcePath = g.settings.sourcePath := by
    rw [hproject.exporter]
  obtain ⟨answer, hfind, -⟩ := Exporter.exists_of_resourceDirectory_eq_ok h
  obtain ⟨husable, hbecomes, hnamed⟩ := Exporter.becomes_of_resourceDirectory_eq_ok hlive
    hproject.sound hproject.isPlainName_source h
  have hbase := Exporter.eq_resourcePath_of_resourceDirectory hproject.sound.toIsProper h
  rw [hsource] at hfind hbase
  obtain ⟨entry, hentry⟩ := FileTree.exists_find_of_findDirectory hfind
  obtain ⟨names, hbelow, -, hdots⟩ :=
    exists_resourceBase_eq hproject hkebab ⟨answer, hresource ▸ hfind⟩
  have hsound := hbecomes.isSound hproject.sound (by simpa using hnamed)
  have hsearch := FileTree.findDirectory_of_becomes hproject.sound hsound
    (hproject.locate_source hentry) hbecomes (hresource ▸ hkebab) hfind (hbase ▸ husable.size)
    (hbase ▸ hbecomes.made _ _ List.mem_cons_self (Path.place_mem_way _)) fun change hchange place hputs => by
      obtain rfl := List.mem_singleton.mp hchange
      rw [← hbase]
      exact .inl (hputs.resolve_right Change.writes_make)
  have hresourceBase : base = g.resourceBase s.tree n := by
    rw [hbase, hresource]
    rfl
  refine ⟨hresourceBase, ⟨hnamed.names, names, hresourceBase.trans hbelow, hdots⟩,
    fun _ => hbase ▸ hsearch, fun _ => husable, ?_,
    fun _ place hplace => hbecomes.made place _ List.mem_cons_self hplace, hsound⟩
  rw [if_neg (by simp [htarget])]
  exact .single hbecomes

/-- **Finding a target.** The target directory of a layer lies below the source directory. -/
theorem arrives_of_targetDirectory_eq_ok (hproject : g.IsDefaultProject s.tree)
    (htargets : g.HasDefaultTargets) (hlive : g.exporter.dryRun = false)
    (hfor : output.IsFor layer n) (hcamel : Naming.kebab n.camel = n.kebab)
    (hkebab : layer.target = .resource → Path.IsPlainName n.kebab)
    (h : g.exporter.targetDirectory output s = .ok base s₁) :
    base = g.targetPath s.tree n layer ∧ g.Arrives output base s.tree s₁.tree := by
  have htarget := hfor.target_eq
  unfold targetPath
  rw [Exporter.targetDirectory, htarget] at h
  cases hlayer : layer.target with
  | models =>
    rw [hlayer] at h htarget
    obtain ⟨rfl, rfl⟩ := EStateM.Result.ok.inj h
    rw [hproject.exporter]
    refine ⟨rfl, @IsDefaultProject.isTarget _ _ _ hproject ["_common", "_utils", "models"] ?_
      (by decide), by simp [htarget], by simp [htarget], ?_, by simp [htarget], hproject.sound⟩
    · rw [Settings.modelPath, htargets.modelDir]
      rfl
    · rw [if_pos htarget]
      exact .nil _
  | info =>
    rw [hlayer] at h htarget
    obtain ⟨answer, s₂, hanswer, h⟩ := bind_eq_ok.mp h
    obtain ⟨rfl, rfl⟩ := isDirectory_eq_ok hanswer
    split at h
    · rename_i hdirectory
      obtain ⟨rfl, rfl⟩ := EStateM.Result.ok.inj h
      rw [hproject.exporter] at hdirectory ⊢
      obtain ⟨husable, hway⟩ := FileTree.isDirectory_iff.mp hdirectory
      refine ⟨rfl, @IsDefaultProject.isTarget _ _ _ hproject ["info"] ?_ (by decide),
        by simp [htarget], fun _ => husable, ?_, fun _ => hway, hproject.sound⟩
      · rw [Settings.infoPath, htargets.infoDir]
        rfl
      · rw [if_neg (by simp [htarget])]
        exact .single (FileTree.becomes_make_of_way hway)
    · cases h
  | resource =>
    rw [hlayer] at h htarget
    refine arrives_of_resourceDirectory_eq_ok hproject hlive htarget ?_ (hkebab hlayer) h
    rw [(hfor.isOf hlayer).resource_eq, hcamel]

/-- Changes below the source directory leave the definition units and the layout as they are. -/
theorem IsDefaultProject.undergoes (h : g.IsDefaultProject before)
    (hundergoes : before.Undergoes changes after) (hsound : after.IsSound)
    (hbelow : ∀ change ∈ changes, change.IsBelow g.settings.projectRoot "src") :
    g.IsDefaultProject after ∧ g.SameUnits before after ∧ g.SameSchema before after := by
  have hschema : g.SameSchema before after :=
    sameSchema_of_isBelow h (fun _ => hundergoes.get?_eq_directory_iff)
      (fun _ => hundergoes.contentAt?_eq) hbelow
  obtain ⟨husable, hway⟩ := FileTree.isDirectory_iff.mp h.root
  refine ⟨{ h with
    sound := hsound
    root := FileTree.isDirectory_iff.mpr
      ⟨husable, fun place hplace => hundergoes.keepsDirectories place (hway place hplace)⟩ },
    fun location name _ => FileTree.contentAt?_congr (hschema location [name]), hschema⟩

/-- The layer stands in the tree, and can be written again. -/
structure Stands (g : Generator) (output : LayerOutput) (base : Path) (tree : FileTree) : Prop where
  target : g.IsTarget base
  search : output.target = .resource →
    tree.findDirectory g.settings.sourcePath (Naming.kebab output.resource) = .ok (some base)
  usable : output.target ≠ .models → base.IsUsable
  way : output.target ≠ .models → ∀ place ∈ base.way, tree.get? place = some .directory
  settled : output.IsSettled base tree

/-- All that a layer that stands changes is in its target directory, at paths that the file system
takes. -/
theorem Stands.isWithin (h : g.Stands output base tree) (hplaced : output.IsPlaced) :
    ∀ change ∈ output.changesAt base, change.IsWithin base := by
  intro change hchange
  refine ⟨?_, hplaced.exists_path_eq hchange⟩
  rcases LayerOutput.mem_changesAt hchange with ⟨htarget, rfl⟩ | ⟨directory, hmem, rfl⟩ | ⟨a, ha, rfl⟩
  · exact h.usable htarget
  · exact (h.settled.resets directory hmem).usable
  · exact (h.settled.artifacts a ha).isUsable

/-- A layer of a resource still stands after changes in its target directory that take no free name
for a temporary file and remove no file of the layer. -/
theorem Stands.undergoes (h : g.Stands output base before) (hplaced : output.IsPlaced)
    (htarget : output.target ≠ .models) (hbefore : before.IsSound) (hafter : after.IsSound)
    (hundergoes : before.Undergoes changes after)
    (hwithin : ∀ change ∈ changes, change.IsWithin base)
    (hputs : ∀ change ∈ changes, ∀ place, FileTree.IsTemporary place → change.Puts place →
      before.get? place ≠ none)
    (hclears : ∀ a ∈ output.artifacts, ∀ change ∈ changes,
      ¬ change.Clears (base / a.path).place) : g.Stands output base after where
  target := h.target
  search hresource :=
    (FileTree.growsInside_of_isWithin hbefore (h.search hresource) (h.way htarget) hundergoes
      hwithin).findDirectory_eq hbefore.toIsProper hafter.toIsProper (h.search hresource)
  usable := h.usable
  way htarget place hplace := hundergoes.keepsDirectories place (h.way htarget place hplace)
  settled :=
    ⟨fun directory hdirectory => (h.settled.resets directory hdirectory).undergoes
        (hplaced.resets directory hdirectory) (fun place hplace => .inr (h.way htarget place hplace))
        hundergoes hwithin,
      fun a ha => (h.settled.artifacts a ha).undergoes hundergoes (hundergoes.staysOpen hputs)
        (hclears a ha)⟩

/-- **A layer stands when it is written.** The project is left as it was otherwise. -/
theorem stands_of_write_eq_ok (hproject : g.IsDefaultProject s.tree)
    (htargets : g.HasDefaultTargets) (hlive : g.exporter.dryRun = false)
    (hfor : output.IsFor layer n) (hcamel : Naming.kebab n.camel = n.kebab)
    (hkebab : layer.target = .resource → Path.IsPlainName n.kebab) {e : Export}
    (h : g.exporter.write output s = .ok e s') :
    e.IsOf output (g.targetPath s.tree n layer) ∧
      s.tree.Undergoes (output.changesAt (g.targetPath s.tree n layer)) s'.tree ∧
      g.Stands output (g.targetPath s.tree n layer) s'.tree ∧
      g.IsDefaultProject s'.tree ∧ g.SameUnits s.tree s'.tree ∧ g.SameSchema s.tree s'.tree := by
  obtain ⟨base, s₁, removed, s₂, files, s₃, hbase, hreset, hfiles, rfl, htree⟩ :=
    Exporter.exists_of_write_eq_ok hlive h
  obtain ⟨hpath, harrives⟩ :=
    arrives_of_targetDirectory_eq_ok hproject htargets hlive hfor hcamel hkebab hbase
  rw [← hpath, htree]
  have hbelow : ∀ change ∈ output.changesAt base,
      change.IsBelow g.settings.projectRoot "src" := by
    intro change hchange
    obtain ⟨names, hnames, hdots⟩ := hfor.placed.exists_path_eq hchange
    obtain ⟨above, habove, hdots'⟩ := harrives.target.below
    rw [habove, Path.below_below, List.cons_append] at hnames
    exact Change.isBelow_of_path_eq hnames (by simp [hdots, hdots'])
  obtain ⟨hproject₁, -, -⟩ := hproject.undergoes harrives.undergoes harrives.sound
    fun change hchange => hbelow change (List.mem_append_left _ hchange)
  obtain ⟨hrefills, hnears, hsettled⟩ := Exporter.isSettled_of_steps harrives.target.names
    hfor.placed (hproject₁.nears harrives.target) hreset hfiles
  have hundergoes : s.tree.Undergoes (output.changesAt base) s₃.tree :=
    harrives.undergoes.append hrefills
  have hrecords := FileRecord.forall₂_tells_iff.mpr (Exporter.files_of_mapM_eq_ok hfiles)
  refine ⟨⟨rfl, rfl, hrecords⟩, hundergoes,
    ⟨harrives.target, fun hresource => ?_, harrives.usable, fun htarget place hplace =>
      hrefills.keepsDirectories place (harrives.way htarget place hplace), hsettled⟩,
    hproject.undergoes hundergoes hnears.sound hbelow⟩
  -- the directory was found or made before the files were written
  have hwithin : ∀ change ∈ output.refills base, change.IsWithin base := by
    intro change hchange
    refine ⟨?_, hfor.placed.exists_path_eq (List.mem_append_right _ hchange)⟩
    rcases List.mem_append.mp hchange with hchange | hchange
    · obtain ⟨directory, hmem, rfl⟩ := List.mem_map.mp hchange
      exact (hsettled.resets directory hmem).usable
    · obtain ⟨a, ha, rfl⟩ := List.mem_map.mp hchange
      exact (hsettled.artifacts a ha).isUsable
  have hsearch := harrives.search hresource
  exact (FileTree.growsInside_of_isWithin harrives.sound hsearch
    (harrives.way (by simp [hresource])) hrefills hwithin).findDirectory_eq
    harrives.sound.toIsProper hnears.sound.toIsProper hsearch

/-! ## Writing again what stands -/

/-- The target directory of a layer that stands is found again. -/
theorem Stands.exists_targetDirectory_eq_ok
    (h : g.Stands output (g.targetPath t.tree n layer) tree) (hproject : g.IsDefaultProject t.tree)
    (hfor : output.IsFor layer n) (hproper : tree.IsProper) (hroom : tree.SameRoom t.tree) :
    ∃ t', g.exporter.targetDirectory output t = .ok (g.targetPath t.tree n layer) t' ∧
      t'.tree = t.tree := by
  obtain ⟨-, hsearch, husable, hway, -⟩ := h
  have htarget := hfor.target_eq
  unfold targetPath at hsearch husable hway ⊢
  rw [Exporter.targetDirectory, htarget]
  cases hlayer : layer.target with
  | models =>
    rw [hproject.exporter]
    exact ⟨t, rfl, rfl⟩
  | info =>
    rw [hlayer] at htarget
    simp only [hlayer] at husable hway
    have husable := husable (by simp [htarget])
    have hdirectory : t.tree.isDirectory g.settings.infoPath = true :=
      FileTree.isDirectory_iff.mpr ⟨husable, fun place hplace =>
        hroom.directories place (hway (by simp [htarget]) place hplace)⟩
    have hfind : t.tree.find g.settings.infoPath = .ok (some .directory) := by
      rw [FileTree.find_of_isUsable husable, ← beq_iff_eq.mp hdirectory]
    have hanswer : isDirectory g.settings.infoPath t = .ok true t :=
      bind_eq_ok.mpr ⟨_, t, look_eq_ok.mpr ⟨hfind, rfl⟩, rfl⟩
    rw [hproject.exporter]
    exact ⟨t, bind_eq_ok.mpr ⟨true, t, hanswer, rfl⟩, rfl⟩
  | resource =>
    rw [hlayer] at htarget
    simp only [hlayer] at hsearch
    have hfound := (hroom.growsInside _ _).findDirectory_eq hproper hproject.sound.toIsProper
      (hsearch htarget)
    rw [← hproject.exporter] at hfound
    dsimp only
    rw [Exporter.resourceDirectory_run]
    dsimp only
    rw [hfound]
    exact ⟨_, rfl, rfl⟩

/-- **A layer that stands can be written again**, and there is the same room afterwards. -/
theorem Stands.exists_write_eq_ok (h : g.Stands output (g.targetPath t.tree n layer) tree)
    (hproject : g.IsDefaultProject t.tree) (hlive : g.exporter.dryRun = false)
    (hfor : output.IsFor layer n) (hproper : tree.IsProper) (hroom : tree.SameRoom t.tree) :
    ∃ e t', g.exporter.write output t = .ok e t' ∧ tree.SameRoom t'.tree := by
  obtain ⟨t₁, htarget, htree⟩ := h.exists_targetDirectory_eq_ok hproject hfor hproper hroom
  exact Exporter.exists_write_again h.target.names hlive hfor.placed h.settled (htree ▸ hroom)
    (htree ▸ hproject.nears h.target) htarget

end Generator

end NestLayers
