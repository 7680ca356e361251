import NestLayers.Proofs.ProjectLayout

/-!
# Writing the layers of a resource

A layer that is written in a project of the default layout makes its changes below the directory of
the resource. It leaves the definition units alone, and the directory of the resource is found in
the same place afterwards. So the layers of a resource that are written one after another make the
changes of all of them, and each is rendered as it would have been at the start.
-/

namespace NestLayers

/-- The change makes directories on the way to a directory and below a name in it, and writes and
removes files below this name only. -/
structure Change.IsBelow (change : Change) (root : Path) (first : String) : Prop where
  files : ∀ place, change.Writes place ∨ change.Clears place →
    ∃ rest, place = root.place ++ first :: rest
  directories : ∀ place, change.Makes place →
    place ∈ root.way ∨ ∃ rest, place = root.place ++ first :: rest

/-- A change is below the first name of its path. -/
theorem Change.isBelow_of_path_eq {change : Change} {root : Path} {first : String}
    {names : List String} (hpath : change.path = root.below (first :: names))
    (hdots : ".." ∉ first :: names) : change.IsBelow root first := by
  cases change with
  | make directory =>
    obtain rfl : directory = _ := hpath
    exact ⟨by simp, fun place hmakes => Path.mem_way_below_cons hmakes hdots⟩
  | clear directory =>
    obtain rfl : directory = _ := hpath
    refine ⟨fun place hplace => ?_, by simp⟩
    obtain ⟨name, rfl⟩ : ∃ name, place = _ := by simpa using hplace
    exact ⟨names ++ [name], by rw [Path.place_below _ hdots]; simp⟩
  | write file content =>
    obtain rfl : file = _ := hpath
    refine ⟨fun place hplace => ?_, fun place hmakes =>
      Path.mem_way_below_cons (Path.mem_way_of_parent hmakes) hdots⟩
    obtain rfl : place = _ := by simpa using hplace
    exact ⟨names, Path.place_below _ hdots⟩

namespace Generator

variable {g : Generator} {layer : Layer} {name : String} {output : LayerOutput}
  {s s' t : Session}

/-! ## Rendering -/

/-- The model classes are those of the definitions of all units. -/
theorem exists_of_layerOutput_model (h : g.layerOutput .model name s = .ok output s') :
    ∃ models ds s₁ s₂, g.store.loadAll models true s₁ = .ok ds s₂ ∧
      output = Layer.Model.output g.conventions ds := by
  obtain ⟨models, s₁, -, h⟩ := bind_eq_ok.mp h
  obtain ⟨ds, s₂, hload, h⟩ := bind_eq_ok.mp h
  obtain ⟨_, s₃, -, h⟩ := bind_eq_ok.mp h
  obtain ⟨_, s₄, -, h⟩ := bind_eq_ok.mp h
  obtain ⟨_, s₅, -, h⟩ := bind_eq_ok.mp h
  exact ⟨models, ds, s₁, s₂, hload, (EStateM.Result.ok.inj h).1.symm⟩

/-- The info layer is that of the definitions of the aggregate units. -/
theorem exists_of_layerOutput_info (h : g.layerOutput .info name s = .ok output s') :
    ∃ models ds s₁ s₂, g.store.loadAggregates models s₁ = .ok ds s₂ ∧
      output = Layer.Info.output g.conventions ds := by
  obtain ⟨models, s₁, -, h⟩ := bind_eq_ok.mp h
  obtain ⟨ds, s₂, hload, h⟩ := bind_eq_ok.mp h
  split at h
  · cases h
  · obtain ⟨_, s₃, -, h⟩ := bind_eq_ok.mp h
    obtain ⟨_, s₄, -, h⟩ := bind_eq_ok.mp h
    exact ⟨models, ds, s₁, s₂, hload, (EStateM.Result.ok.inj h).1.symm⟩

/-- A layer of a package has a name. -/
theorem name_ne_of_layerOutput_eq_ok (hlayer : layer ∈ Layer.packageLayers)
    (h : g.layerOutput layer name s = .ok output s') : name ≠ "" := by
  rintro rfl
  simp only [Layer.packageLayers, List.mem_cons, List.not_mem_nil, or_false] at hlayer
  rcases hlayer with rfl | rfl | rfl | rfl | rfl | rfl | rfl <;> cases h

/-- The module and the interfaces are rendered from the name alone. -/
theorem layerOutput_of_not_needsIdentifier (hlayer : layer ∈ Layer.packageLayers)
    (hneeds : ¬ layer.needsIdentifier) (hname : name ≠ "") :
    ∃ output : LayerOutput, output.IsOf layer (g.conventions.resourceName name) ∧
      g.layerOutput layer name = (do
        record (.rendering layer)
        return output) := by
  simp only [Layer.packageLayers, List.mem_cons, List.not_mem_nil, or_false] at hlayer
  rcases hlayer with rfl | rfl | rfl | rfl | rfl | rfl | rfl
  · exact ⟨_, Layer.isOf_moduleOutput _, g.layerOutput_module hname⟩
  · exact absurd rfl hneeds
  · exact absurd rfl hneeds
  · exact absurd rfl hneeds
  · refine ⟨_, Layer.isOf_interfacesOutput _, ?_⟩
    simp [layerOutput, hname, -bind_pure_comp]
  · exact absurd rfl hneeds
  · exact absurd rfl hneeds

private theorem render_of_renderFrom_eq_ok {n : ResourceName} {d : Definition}
    (h : g.renderFrom layer n d s = .ok output s') :
    layer.render g.conventions n d = .ok output := by
  obtain ⟨_, s₁, -, h⟩ := bind_eq_ok.mp h
  obtain ⟨rendered, s₂, hrendered, h⟩ := bind_eq_ok.mp h
  have houtput : rendered = output := by
    split at h
    · obtain ⟨_, s₃, -, h⟩ := bind_eq_ok.mp h
      exact (EStateM.Result.ok.inj h).1
    · exact (EStateM.Result.ok.inj h).1
  unfold Generator.rendered at hrendered
  cases hresult : layer.render g.conventions n d with
  | error error =>
    rw [hresult] at hrendered
    cases hrendered
  | ok result =>
    rw [hresult] at hrendered
    rw [← houtput, ← (EStateM.Result.ok.inj hrendered).1]

/-- What can be rendered is rendered. -/
theorem exists_renderFrom_eq_ok {n : ResourceName} {d : Definition}
    (h : layer.render g.conventions n d = .ok output) (s : Session) :
    ∃ s', g.renderFrom layer n d s = .ok output s' := by
  unfold renderFrom Generator.rendered
  rw [h]
  by_cases hlayer : layer = .requestContract
  · simp only [if_pos hlayer]
    exact ⟨_, rfl⟩
  · simp only [if_neg hlayer]
    exact ⟨_, rfl⟩

/-- What is rendered for a layer of a package is its output. -/
theorem isOf_layerOutput (hlayer : layer ∈ Layer.packageLayers)
    (h : g.layerOutput layer name s = .ok output s') :
    output.IsOf layer (g.conventions.resourceName name) := by
  have hname := name_ne_of_layerOutput_eq_ok hlayer h
  by_cases hneeds : layer.needsIdentifier
  · rw [g.layerOutput_of_needsIdentifier hneeds hname] at h
    obtain ⟨d, s₁, -, h⟩ := bind_eq_ok.mp h
    exact Layer.isOf_render hlayer (render_of_renderFrom_eq_ok h)
  · obtain ⟨output', hisOf, houtput⟩ := @layerOutput_of_not_needsIdentifier g _ _ hlayer hneeds hname
    rw [houtput] at h
    obtain ⟨rfl, -⟩ := EStateM.Result.ok.inj h
    exact hisOf

/-! ## Rendering with the same units -/

/-- Having the same units is symmetric. -/
theorem SameUnits.symm {before after : FileTree} (h : g.SameUnits before after) :
    g.SameUnits after before :=
  fun location name hname => (h location name hname).symm

/-- Having the same units is transitive. -/
theorem SameUnits.trans {before middle after : FileTree} (h₁ : g.SameUnits before middle)
    (h₂ : g.SameUnits middle after) : g.SameUnits before after :=
  fun location name hname => (h₂ location name hname).trans (h₁ location name hname)

/-- Sessions with one tree may be compared. -/
theorem reads_between (tree : FileTree) (registry : Option Registry) :
    Reads (Between tree tree registry registry) :=
  { quiet_between tree tree registry registry with tree_eq := fun h => h.1.trans h.2.1.symm }

/-- Work that tells the same in all sessions with one tree and one registry leaves both. -/
theorem keeps_of_agrees {α : Type} {work : Work α} {a : α}
    (hwork : Agrees (Between s.tree s.tree s.registry s.registry) work work)
    (h : work s = .ok a s') : s'.tree = s.tree ∧ s'.registry = s.registry := by
  have hagree := hwork s s ⟨rfl, rfl, rfl, rfl⟩
  rw [h] at hagree
  obtain ⟨_, _, -, -, hsame⟩ := hagree.exists_of_ok
  exact ⟨hsame.1, hsame.2.2.1⟩

/-- The registry of the second session is that of the first one, or was built from the tree of the
first one. -/
def Follows (g : Generator) (s t : Session) : Prop :=
  t.registry = s.registry ∨
    s.registry = none ∧ ∃ models, t.registry = some models ∧ g.store.IsRegistryOf models s.tree

/-- The session on the left and that on the right are alike, and the registry follows that of a
first session. -/
def Trails (g : Generator) (s x y : Session) : Prop :=
  x.tree = s.tree ∧ y.tree = s.tree ∧ x.registry = y.registry ∧ g.Follows s x

/-- Sessions that trail have the tree of the first one. -/
theorem reads_trails (g : Generator) (s : Session) : Reads (g.Trails s) where
  left _ h := h
  right _ h := h
  tree_eq h := h.1.trans h.2.1.symm

/-- Sessions that trail are given the same registry. -/
theorem agrees_registry_trails (g : Generator) (s : Session) :
    Agrees (g.Trails s) g.registry g.registry := by
  intro x y h
  obtain ⟨hx, -, hsame, hfollows⟩ := id h
  cases hknown : x.registry with
  | some models =>
    rw [g.registry_of_some hknown, g.registry_of_some (hsame ▸ hknown)]
    exact .ok rfl h
  | none =>
    have hagree := (g.reads_trails s).buildRegistry g.store x y h
    rw [registry_run, registry_run, ← hsame, hknown]
    cases hbuilt : g.store.buildRegistry x with
    | error stop x' =>
      rw [hbuilt] at hagree
      obtain ⟨y', hy', h'⟩ := hagree.exists_of_error
      rw [hy']
      exact .error h'
    | ok models x' =>
      rw [hbuilt] at hagree
      obtain ⟨_, y', hy', rfl, hx', hy'', -, -⟩ := hagree.exists_of_ok
      rw [hy']
      refine .ok rfl ⟨hx', hy'', rfl, .inr ⟨?_, models, rfl, ?_⟩⟩
      · rcases hfollows with hfirst | ⟨hnone, -⟩
        · exact hfirst.symm.trans hknown
        · exact hnone
      · exact hx ▸ DefinitionStore.isRegistryOf_of_buildRegistry hbuilt

/-- Work that only reads leaves the tree, and builds the registry at most. -/
theorem follows_of_agrees {α : Type} {work : Work α} {a : α}
    (hwork : Agrees (g.Trails s) work work) (h : work s = .ok a s') :
    s'.tree = s.tree ∧ g.Follows s s' := by
  have hagree := hwork s s ⟨rfl, rfl, rfl, .inl rfl⟩
  rw [h] at hagree
  obtain ⟨_, _, -, -, htree, -, -, hfollows⟩ := hagree.exists_of_ok
  exact ⟨htree, hfollows⟩

/-- Rendering changes the registry at most, and this one follows. -/
theorem follows_of_layerOutput_eq_ok (h : g.layerOutput layer name s = .ok output s') :
    s'.tree = s.tree ∧ g.Follows s s' :=
  follows_of_agrees ((g.reads_trails s).layerOutput g (g.agrees_registry_trails s) layer name) h

/-- A definition is read and checked the same from the same units, if the registry is the same. -/
theorem exists_definitionFor_eq_ok {n : ResourceName} {requireId : Bool} {d : Definition}
    (hs : g.IsDefaultProject s.tree) (ht : g.IsDefaultProject t.tree)
    (hunits : g.SameUnits s.tree t.tree)
    (hregistry : ∀ models s₁, g.registry s = .ok models s₁ → ∃ t₁, g.registry t = .ok models t₁)
    (h : g.definitionFor n requireId s = .ok d s') :
    ∃ t', g.definitionFor n requireId t = .ok d t' := by
  obtain ⟨models, s₁, hmodels, hload⟩ := bind_eq_ok.mp h
  obtain ⟨t₁, hmodels'⟩ := hregistry models s₁ hmodels
  obtain ⟨htree, -, -⟩ := ahead_of_registry_eq_ok hmodels
  obtain ⟨htree', -, -⟩ := ahead_of_registry_eq_ok hmodels'
  obtain ⟨d', s₃, hload, hcheck⟩ := bind_eq_ok.mp hload
  rw [← htree] at hs hunits
  rw [← htree'] at ht hunits
  obtain ⟨t₃, hload', hbetween⟩ := exists_load_eq_ok hs ht hunits hload
  -- the check does not depend on the tree
  have hquiet := quiet_between s₁.tree t₁.tree s₁.registry t₁.registry
  have hagree := ((hquiet.isReporting.check d' requireId).bind fun _ => .pure d') s₃ t₃ hbetween
  rw [hcheck] at hagree
  obtain ⟨_, t', ht', rfl, -⟩ := hagree.exists_of_ok
  exact ⟨t', bind_eq_ok.mpr ⟨models, t₁, hmodels', bind_eq_ok.mpr ⟨d', t₃, hload', ht'⟩⟩⟩

/-- **A layer is rendered the same from the same units**, if the registry is the same. -/
theorem exists_layerOutput_eq_ok (hlayer : layer ∈ Layer.packageLayers)
    (hs : g.IsDefaultProject s.tree) (ht : g.IsDefaultProject t.tree)
    (hunits : g.SameUnits s.tree t.tree)
    (hregistry : ∀ models s₁, g.registry s = .ok models s₁ → ∃ t₁, g.registry t = .ok models t₁)
    (h : g.layerOutput layer name s = .ok output s') :
    ∃ t', g.layerOutput layer name t = .ok output t' := by
  have hname := name_ne_of_layerOutput_eq_ok hlayer h
  by_cases hneeds : layer.needsIdentifier
  · rw [g.layerOutput_of_needsIdentifier hneeds hname] at h ⊢
    obtain ⟨d, s₂, hdefinition, hrender⟩ := bind_eq_ok.mp h
    obtain ⟨t₂, hdefinition'⟩ := exists_definitionFor_eq_ok hs ht hunits hregistry hdefinition
    obtain ⟨t', hrender'⟩ := exists_renderFrom_eq_ok (render_of_renderFrom_eq_ok hrender) t₂
    exact ⟨t', bind_eq_ok.mpr ⟨d, t₂, hdefinition', hrender'⟩⟩
  · obtain ⟨output', -, houtput⟩ := @layerOutput_of_not_needsIdentifier g _ _ hlayer hneeds hname
    rw [houtput] at h ⊢
    obtain ⟨rfl, -⟩ := EStateM.Result.ok.inj h
    exact ⟨_, rfl⟩

/-! ## What a written layer leaves -/

variable {n : ResourceName} {tree before middle after : FileTree} {base : Path}

/-- The camel case of a name has its kebab case. -/
theorem kebab_camel (g : Generator) (name : String) :
    Naming.kebab (g.conventions.resourceName name).camel =
      (g.conventions.resourceName name).kebab := by
  simp only [Conventions.resourceName, ResourceName.ofWord]

/-- The directory of a resource in a project. -/
def resourceBase (g : Generator) (tree : FileTree) (n : ResourceName) : Path :=
  tree.resourcePath g.settings.sourcePath n.kebab

/-- A later tree of a project: the units are the same, and the directory of the resource is found
in the same place. -/
structure IsLater (g : Generator) (n : ResourceName) (before after : FileTree) : Prop where
  units : g.SameUnits before after
  base_eq : g.resourceBase after n = g.resourceBase before n
  project : g.IsDefaultProject after

/-- Being later is reflexive. -/
theorem IsLater.refl (h : g.IsDefaultProject tree) : g.IsLater n tree tree :=
  ⟨fun _ _ _ => rfl, rfl, h⟩

/-- Being later is transitive. -/
theorem IsLater.trans (h₁ : g.IsLater n before middle) (h₂ : g.IsLater n middle after) :
    g.IsLater n before after :=
  ⟨h₁.units.trans h₂.units, h₂.base_eq.trans h₁.base_eq, h₂.project⟩

/-- The directories that a layer replaces are no directories of units. -/
theorem place_ne_of_replaced (h : g.IsDefaultProject tree) {directory : String}
    (hdirectory : directory ∈ layer.replaced) (base : Path) (location : Location) :
    (base / directory).place ≠ (g.store.directory location).place := by
  have hinside := (Layer.isEntryPath_of_replaced hdirectory).inside
  have hlast : ∀ layer ∈ Layer.all, ∀ directory ∈ layer.replaced,
      ∀ location ∈ [Location.primary, .aggregate],
        (Path.ofString directory).parts.getLast? ≠ location.names.getLast? ∧
          (Path.ofString directory).parts ≠ [] ∧ location.names ≠ [] := by
    decide +kernel
  obtain ⟨hne, hparts, hnames⟩ := hlast layer (by cases layer <;> decide) directory hdirectory
    location (by cases location <;> decide)
  intro heq
  rw [h.place_directory, hinside.place_div] at heq
  have hends := congrArg List.getLast? heq
  rw [List.getLast?_append_of_ne_nil _ hparts, List.getLast?_append_of_ne_nil _ hnames] at hends
  exact hne hends

/-- No layer writes a unit. -/
theorem not_writes_of_isUnitName (hisOf : output.IsOf layer n) {change : Change}
    (hchange : change ∈ output.changes base) (hname : IsUnitName name) (directory : Place) :
    ¬ change.Writes (directory ++ [name]) := by
  intro hwrites
  rcases hisOf.mem_changes hchange with rfl | ⟨directory, -, rfl⟩ | ⟨f, -, a, -, -, rfl⟩
  · exact Change.writes_make hwrites
  · exact Change.writes_clear hwrites
  · obtain ⟨start, hstart⟩ := PackageFile.exists_place_path n f.directory
    rw [Change.writes_write, hstart base f rfl] at hwrites
    obtain ⟨-, hlast⟩ := List.append_inj' hwrites rfl
    rw [List.singleton_inj.mp hlast, ← String.append_assoc] at hname
    exact not_isUnitName_source _ hname

/-- Writing a layer leaves the units alone. -/
theorem sameUnits_of_becomes (h : g.IsDefaultProject before) (hisOf : output.IsOf layer n)
    (hbecomes : before.Becomes (output.changes base) after) : g.SameUnits before after := by
  intro location name hname
  refine hbecomes.contentAt?_eq (fun change hchange =>
    not_writes_of_isUnitName hisOf hchange hname _) (fun change hchange hclears => ?_)
  rcases hisOf.mem_changes hchange with rfl | ⟨directory, hdirectory, rfl⟩ | ⟨f, -, a, -, -, rfl⟩
  · exact Change.clears_make hclears
  · obtain ⟨other, hplace⟩ := hclears
    obtain ⟨habove, -⟩ := List.append_inj' hplace rfl
    exact place_ne_of_replaced h hdirectory base location habove.symm
  · exact Change.clears_write hclears

private theorem IsDefaultProject.becomes {changes : List Change} (h : g.IsDefaultProject before)
    (hbecomes : before.Becomes changes after) (hsound : after.IsSound) :
    g.IsDefaultProject after := by
  obtain ⟨husable, hway⟩ := FileTree.isDirectory_iff.mp h.root
  exact { h with
    sound := hsound
    root := FileTree.isDirectory_iff.mpr
      ⟨husable, fun place hplace => hbecomes.directories place (hway place hplace)⟩ }

/-- The names of the source directory are plain. -/
theorem IsDefaultProject.isPlainName_source {tree : FileTree} (h : g.IsDefaultProject tree) :
    ∀ name ∈ g.exporter.settings.sourcePath.parts, name = ".." ∨ Path.IsPlainName name := by
  rw [h.exporter]
  exact fun name hname => (h.isEntryName_source name hname).imp id Path.IsEntryName.toIsPlainName

/-- Writing a layer of a package makes its changes below the directory of the resource, and leaves
the project as it was otherwise. -/
theorem becomes_of_write_eq_ok (hproject : g.IsDefaultProject s.tree)
    (hlive : g.exporter.dryRun = false) (hisOf : output.IsOf layer n)
    (hcamel : Naming.kebab n.camel = n.kebab) {e : Export}
    (h : g.exporter.write output s = .ok e s') :
    e.IsOf output (g.resourceBase s.tree n) ∧
      s.tree.Becomes (output.changes (g.resourceBase s.tree n)) s'.tree ∧
      (∃ answer, s.tree.findDirectory g.settings.sourcePath n.kebab = .ok answer) ∧
      (g.resourceBase s.tree n).IsUsable ∧ g.IsLater n s.tree s'.tree := by
  have hsource : g.exporter.settings.sourcePath = g.settings.sourcePath := by rw [hproject.exporter]
  have hdirectories : ∀ directory ∈ output.resetDirectories, Path.IsEntryPath directory := by
    rw [hisOf.resetDirectories_eq]
    exact fun directory => Layer.isEntryPath_of_replaced
  obtain ⟨base, hbase, hfind, husable, hexport, hbecomes, hsound⟩ := Exporter.becomes_of_write_eq_ok hlive
    hproject.sound hproject.isPlainName_source hisOf.target_eq hdirectories hisOf.nodup_places h
  rw [hsource, hisOf.resource_eq, hcamel] at hbase
  rw [hsource, hisOf.resource_eq, hcamel] at hfind
  refine ⟨by rwa [hbase] at hexport, by rwa [hbase] at hbecomes, hfind, by rwa [hbase] at husable,
    sameUnits_of_becomes hproject hisOf hbecomes, ?_, hproject.becomes hbecomes hsound⟩
  rw [hbase] at hbecomes
  obtain ⟨answer, hfind⟩ := hfind
  obtain ⟨entry, hfind⟩ := FileTree.exists_find_of_findDirectory hfind
  exact FileTree.resourcePath_of_becomes hproject.sound hsound (hproject.locate_source hfind)
    hbecomes fun hkebab change hchange place hmakes =>
      hisOf.mem_way_of_puts hkebab hchange (.inl hmakes)

/-- Writing a layer leaves the registry. -/
theorem registry_of_write_eq_ok {e : Export} (h : g.exporter.write output s = .ok e s') :
    s'.registry = s.registry := by
  have hedits := edits_alike s.registry s.registry
  have hagree := hedits.write g.exporter (fun _ => hedits) output s s ⟨rfl, rfl, rfl⟩
  rw [h] at hagree
  obtain ⟨_, _, -, -, -, hkept, -⟩ := hagree.exists_of_ok
  exact hkept

/-- **Step.** A layer of a package is rendered and then written. -/
theorem exists_of_runLayer_eq_ok (hlayer : layer ∈ Layer.packageLayers) {e : Export}
    (h : g.runLayer layer name s = .ok e s') :
    ∃ output s₁ s₂, g.layerOutput layer name s = .ok output s₁ ∧
      g.exporter.write output s₁ = .ok e s₂ ∧
      output.IsOf layer (g.conventions.resourceName name) ∧
      s₁.tree = s.tree ∧ s'.tree = s₂.tree ∧ s'.registry = s₁.registry ∧ g.Follows s s' := by
  obtain ⟨output, s₁, s₂, houtput, hwrite, rfl⟩ := g.runLayer_eq_ok.mp h
  obtain ⟨htree, hfollows⟩ := follows_of_layerOutput_eq_ok houtput
  have hregistry := registry_of_write_eq_ok hwrite
  refine ⟨output, s₁, s₂, houtput, hwrite, isOf_layerOutput hlayer houtput, htree, rfl, hregistry, ?_⟩
  rw [Follows, show (s₂.record (.timed layer.name)).registry = s₁.registry from hregistry]
  exact hfollows

/-! ## The layers of a plain name -/

/-- The resources of a plain name are kept apart from the directories of the units. -/
theorem exists_resourceBase_eq (h : g.IsDefaultProject tree) (hkebab : Path.IsPlainName n.kebab)
    (hfind : ∃ answer, tree.findDirectory g.settings.sourcePath n.kebab = .ok answer) :
    ∃ names, g.resourceBase tree n = g.settings.projectRoot.below ("src" :: names) ∧
      names.getLast? = some n.kebab ∧ ".." ∉ names := by
  obtain ⟨answer, hfind⟩ := hfind
  obtain ⟨entry, hfind⟩ := FileTree.exists_find_of_findDirectory hfind
  obtain ⟨names, hbase, hlast, hdots⟩ := FileTree.exists_resourcePath_eq_below h.sound
    (h.locate_source hfind) hkebab
  rw [h.sourcePath_eq, Path.below_below] at hbase
  refine ⟨names, ?_, hlast, hdots⟩
  rw [resourceBase, h.sourcePath_eq, hbase]
  rfl

/-- Changes below the source directory leave the directories of the units. -/
theorem sameSchema_of_isBelow {changes : List Change} (h : g.IsDefaultProject before)
    (hdirectories : ∀ place, after.get? place = some .directory ↔
      before.get? place = some .directory ∨ ∃ change ∈ changes, change.Makes place)
    (hcontents : ∀ place, (∀ change ∈ changes, ¬ change.Writes place ∧ ¬ change.Clears place) →
      after.contentAt? place = before.contentAt? place)
    (hbelow : ∀ change ∈ changes, change.IsBelow g.settings.projectRoot "src") :
    g.SameSchema before after := by
  intro location names
  have hother (rest : List String) : (g.store.directory location).place ++ names ≠
      g.settings.projectRoot.place ++ "src" :: rest := by
    rw [h.place_directory, List.append_assoc]
    intro hplace
    have hnames := List.append_cancel_left hplace
    cases location <;> simp [Location.names] at hnames
  refine FileTree.get?_eq_of_contentAt? ?_ (hcontents _ fun change hchange => not_or.mp
    fun hfile => ?_)
  · rw [hdirectories]
    refine ⟨?_, .inl⟩
    rintro (hbefore | ⟨change, hchange, hmakes⟩)
    · exact hbefore
    rcases (hbelow change hchange).directories _ hmakes with hplace | ⟨rest, hplace⟩
    · exact (FileTree.isDirectory_iff.mp h.root).2 _ hplace
    · exact absurd hplace (hother rest)
  · obtain ⟨rest, hrest⟩ := (hbelow change hchange).files _ hfile
    exact hother rest hrest

/-- Writing a layer of a plain name leaves the directories of the units. -/
theorem sameSchema_of_becomes (h : g.IsDefaultProject before) (hkebab : Path.IsPlainName n.kebab)
    (hfind : ∃ answer, before.findDirectory g.settings.sourcePath n.kebab = .ok answer)
    (hisOf : output.IsOf layer n)
    (hbecomes : before.Becomes (output.changes (g.resourceBase before n)) after) :
    g.SameSchema before after := by
  obtain ⟨names, hbase, -, hnames⟩ := exists_resourceBase_eq h hkebab hfind
  refine sameSchema_of_isBelow h (fun _ => hbecomes.get?_eq_directory_iff)
    (fun place hplace => hbecomes.contentAt?_eq (fun change hchange => (hplace change hchange).1)
      fun change hchange => (hplace change hchange).2)
    fun change hchange => ?_
  obtain ⟨rest, hpath, hrest⟩ := hisOf.exists_changePath_eq hkebab hchange
  rw [hbase, Path.below_below, List.cons_append] at hpath
  exact Change.isBelow_of_path_eq hpath (by simp [hnames, hrest])

/-- A registry that follows is the one that would be built at the start. -/
theorem Follows.exists_registry_iff (h : g.Follows s t) (hs : g.IsDefaultProject s.tree)
    (ht : g.IsDefaultProject t.tree) (hschema : g.SameSchema s.tree t.tree) (models : Registry) :
    (∃ s₁, g.registry s = .ok models s₁) ↔ ∃ t₁, g.registry t = .ok models t₁ := by
  rcases h with hsame | ⟨hnone, built, hbuilt, hregistry⟩
  · cases hknown : t.registry with
    | some known =>
      rw [g.registry_of_some hknown, g.registry_of_some (hsame ▸ hknown)]
      simp
    | none =>
      have hagree : Agree (Between s.tree t.tree s.registry t.registry) Eq
          (g.store.buildRegistry s) (g.store.buildRegistry t) :=
        agrees_buildRegistry hs ht hschema s t ⟨rfl, rfl, rfl, rfl⟩
      rw [registry_run, registry_run, ← hsame, hknown]
      generalize g.store.buildRegistry s = result, g.store.buildRegistry t = result' at *
      cases hagree with
      | error hsession => simp
      | ok hvalue hsession =>
        subst hvalue
        simp
  · obtain ⟨s₁, hs₁, -, -⟩ := hregistry s rfl
    rw [g.registry_of_some hbuilt, registry_run, hnone, hs₁]
    simp

/-- What a layer is rendered to in a session. There is nothing in a layer that cannot be
rendered. -/
def outputAt (g : Generator) (s : Session) (name : String) (layer : Layer) : LayerOutput :=
  match g.layerOutput layer name s with
  | .ok output _ => output
  | .error _ _ => { layer }

/-- What is rendered is the output of the session. -/
theorem outputAt_of_eq_ok (h : g.layerOutput layer name s = .ok output s') :
    g.outputAt s name layer = output := by
  rw [outputAt, h]

/-- Layers were written one after another: each of them is what it is rendered to at the start, and
their changes are all made below one directory. -/
structure Written (g : Generator) (name : String) (n : ResourceName) (layers : List Layer)
    (exports : List Export) (s : Session) (after : FileTree) : Prop where
  rendered : ∀ layer ∈ layers, ∃ s₁,
    g.layerOutput layer name s = .ok (g.outputAt s name layer) s₁
  isOf : ∀ layer ∈ layers, (g.outputAt s name layer).IsOf layer n
  search : layers ≠ [] → ∃ answer, s.tree.findDirectory g.settings.sourcePath n.kebab = .ok answer
  exports : List.Forall₂
    (fun layer e => Export.IsOf e (g.outputAt s name layer) (g.resourceBase s.tree n)) layers exports
  becomes : s.tree.Becomes
    (layers.flatMap fun layer => (g.outputAt s name layer).changes (g.resourceBase s.tree n)) after
  later : g.IsLater n s.tree after

/-- One more layer is written first. -/
theorem Written.cons {layers : List Layer} {exports : List Export} {e : Export}
    (hkebab : Path.IsPlainName n.kebab) (hne : layer ∉ layers)
    (hrendered : g.layerOutput layer name s = .ok output s')
    (hisOf : output.IsOf layer n) (hexport : e.IsOf output (g.resourceBase s.tree n))
    (hbecomes : s.tree.Becomes (output.changes (g.resourceBase s.tree n)) t.tree)
    (hfind : ∃ answer, s.tree.findDirectory g.settings.sourcePath n.kebab = .ok answer)
    (hlater : g.IsLater n s.tree t.tree)
    (hsame : ∀ other ∈ layers, ∃ s₁, g.layerOutput other name s = .ok (g.outputAt t name other) s₁)
    (h : g.Written name n layers exports t after) :
    g.Written name n (layer :: layers) (e :: exports) s after := by
  have houtput := outputAt_of_eq_ok hrendered
  have hothers : ∀ other ∈ layers, g.outputAt s name other = g.outputAt t name other := by
    intro other hother
    obtain ⟨s₁, hs₁⟩ := hsame other hother
    exact outputAt_of_eq_ok hs₁
  have hbase := hlater.base_eq
  refine ⟨?_, ?_, fun _ => hfind, ?_, ?_, hlater.trans h.later⟩
  · refine List.forall_mem_cons.mpr ⟨⟨s', by rwa [houtput]⟩, fun other hother => ?_⟩
    rw [hothers other hother]
    exact hsame other hother
  · refine List.forall_mem_cons.mpr ⟨by rwa [houtput], fun other hother => ?_⟩
    rw [hothers other hother]
    exact h.isOf other hother
  · refine .cons (by rwa [houtput]) ?_
    have hexports := h.exports
    rw [hbase] at hexports
    refine ((List.forall₂_and_left _ _).mpr ⟨fun other hother => hother, hexports⟩).imp ?_
    rintro other e ⟨hother, he⟩
    rwa [hothers other hother]
  · have hrest := h.becomes
    rw [hbase] at hrest
    have hchanges : (layers.flatMap fun other =>
        (g.outputAt s name other).changes (g.resourceBase s.tree n)) =
          layers.flatMap fun other =>
            (g.outputAt t name other).changes (g.resourceBase s.tree n) :=
      List.flatMap_congr fun other hother => by rw [hothers other hother]
    rw [List.flatMap_cons, houtput, hchanges]
    refine hbecomes.append hrest fun file content hwrite change hchange => ?_
    obtain ⟨other, hother, hchange⟩ := List.mem_flatMap.mp hchange
    have hlayers : layer ≠ other := fun heq => hne (heq ▸ hother)
    exact hisOf.not_writes_of_ne (h.isOf other hother) hlayers hkebab hwrite hchange

/-- **Run.** Layers of a package that are written one after another are written as they are
rendered at the start. -/
theorem exists_written_of_runLayers_eq_ok (hlive : g.exporter.dryRun = false)
    (hn : g.conventions.resourceName name = n) (hkebab : Path.IsPlainName n.kebab)
    {layers : List Layer} (hlayers : ∀ layer ∈ layers, layer ∈ Layer.packageLayers)
    (hnodup : layers.Nodup) (hproject : g.IsDefaultProject s.tree) {report report' : Report}
    (h : g.runLayers layers name report s = .ok report' s') :
    ∃ exports, report'.exports = report.exports ++ exports ∧
      g.Written name n layers exports s s'.tree := by
  induction layers generalizing s report with
  | nil =>
    obtain ⟨rfl, rfl⟩ := EStateM.Result.ok.inj h
    exact ⟨[], (List.append_nil _).symm, by simp, by simp, absurd rfl, .nil, .refl _, .refl hproject⟩
  | cons layer layers ih =>
    obtain ⟨hlayer, hrest⟩ := List.forall_mem_cons.mp hlayers
    obtain ⟨hne, hnodup⟩ := List.nodup_cons.mp hnodup
    rw [runLayers_cons] at h
    obtain ⟨e, s₁, hfirst, h⟩ := bind_eq_ok.mp h
    obtain ⟨output, s₂, s₃, houtput, hwrite, hisOf, htree, htree', -, hfollows⟩ :=
      exists_of_runLayer_eq_ok hlayer hfirst
    have hcamel := g.kebab_camel name
    rw [hn] at hisOf hcamel
    obtain ⟨hexport, hbecomes, hfind, -, hlater⟩ :=
      becomes_of_write_eq_ok (by rwa [htree]) hlive hisOf hcamel hwrite
    rw [htree] at hexport hbecomes hfind hlater
    rw [← htree'] at hbecomes hlater
    obtain ⟨exports, hexports, hwritten⟩ := ih hrest hnodup hlater.project h
    have hschema := sameSchema_of_becomes hproject hkebab hfind hisOf hbecomes
    refine ⟨e :: exports, by simp [hexports, Report.addExport], ?_⟩
    refine hwritten.cons hkebab hne houtput hisOf hexport hbecomes hfind hlater fun other hother => ?_
    obtain ⟨s₄, hs₄⟩ := hwritten.rendered other hother
    exact exists_layerOutput_eq_ok (hrest other hother) hlater.project hproject hlater.units.symm
      (fun models t₁ hmodels => (hfollows.exists_registry_iff hproject hlater.project hschema
        models).mpr ⟨t₁, hmodels⟩) hs₄

end Generator

end NestLayers
