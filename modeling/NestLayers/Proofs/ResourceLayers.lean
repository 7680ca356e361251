import NestLayers.Proofs.LayerChanges
import NestLayers.Proofs.Lexing
import NestLayers.Proofs.PackageLayout
import NestLayers.Proofs.PackageRun

/-!
# The layers of a resource

What a layer of a package writes is fixed by the name of the resource but for the texts: the paths
of its files and the directories that it replaces. So is what its changes can meet: no two layers
write one file, and no layer removes a file of another one. Written one after another in a project
of the default layout, layers make the changes of all of them below one directory.
-/

namespace NestLayers

open NestLayers.Text NestLayers.Naming

/-! ## The files of a layer -/

namespace PackageFile

variable {n : ResourceName}

/-- The layer that a file belongs to. -/
def layer : PackageFile → Layer
  | .module => .module
  | .controller => .controller
  | .service => .service
  | .repository => .repository
  | .interface _ => .interfaces
  | .request _ => .requestContract
  | .response _ => .responseContract

/-- The files of a layer are in one directory. -/
theorem directory_eq_of_layer_eq {f g : PackageFile} (h : f.layer = g.layer) :
    f.directory = g.directory := by
  cases f <;> cases g <;> first | rfl | cases h

/-- A file is known by its directory and by what follows the name of the resource. -/
theorem eq_of_directory_suffix {f g : PackageFile} (hdirectory : f.directory = g.directory)
    (hsuffix : f.suffix = g.suffix) : f = g := by
  have hplaces : (all.map fun f => (f.directory, f.suffix)).Nodup := by decide
  exact List.inj_on_of_nodup_map hplaces f.mem_all g.mem_all (Prod.ext hdirectory hsuffix)

/-- The path of a file is that of the resource in the directory, and then the ending. -/
theorem path_eq (n : ResourceName) (f : PackageFile) :
    f.path n = String.intercalate "/" (f.directory ++ [n.kebab]) ++ (f.suffix ++ ".ts") := by
  rw [← String.toList_inj, path]
  cases f <;> simp [directory]

/-- What follows the name of the resource is one name of an ordinary length. -/
theorem ending_chars (f : PackageFile) :
    '/' ∉ (f.suffix ++ ".ts").toList ∧ 2 < (f.suffix ++ ".ts").length := by
  obtain ⟨hslash, -, -, -⟩ := f.suffix_chars
  have hts : ".ts".length = 3 := by decide
  refine ⟨by simp [hslash], ?_⟩
  rw [String.length_append]
  omega

/-- The file of a layer stands below its parent, under a name that tells it from the others. -/
theorem exists_place_path (n : ResourceName) (directory : List String) :
    ∃ start, ∀ (base : Path) (f : PackageFile), f.directory = directory →
      (base / f.path n).place =
        (base / f.path n).parent.place ++ [start ++ (f.suffix ++ ".ts")] := by
  obtain ⟨start, hstart⟩ := Path.exists_parts_div (String.intercalate "/" (directory ++ [n.kebab]))
  refine ⟨start, fun base f hdirectory => ?_⟩
  obtain ⟨hslash, hlength⟩ := f.ending_chars
  obtain ⟨above, hparts⟩ := hstart base (f.suffix ++ ".ts") hslash (by omega)
  rw [← hdirectory, ← path_eq] at hparts
  have hname : (base / f.path n).name = start ++ (f.suffix ++ ".ts") := by
    simp [Path.name, hparts]
  have hdots : (base / f.path n).name ≠ ".." := by
    intro hdots
    have hsize := congrArg String.length (hname.symm.trans hdots)
    have htwo : "..".length = 2 := by decide
    rw [String.length_append] at hsize
    omega
  rw [← hname]
  exact Path.place_eq_append (by simp [hparts]) hdots

/-- A plain name of the resource gives the files plain paths. -/
theorem div_path (hkebab : Path.IsPlainName n.kebab) (base : Path) (f : PackageFile) :
    base / f.path n = base.below (f.directory ++ [n.kebab ++ f.suffix ++ ".ts"]) := by
  have hlast : Path.IsPlainName (n.kebab ++ f.suffix ++ ".ts") := by
    rw [String.append_assoc]
    exact hkebab.append f.ending_chars.1
  have hnames : ∀ name ∈ f.directory ++ [n.kebab ++ f.suffix ++ ".ts"],
      Path.IsPlainName name := by
    rw [List.forall_mem_append, List.forall_mem_singleton]
    exact ⟨f.isPlainName_directory, hlast⟩
  change base.join (Path.ofString (f.path n)) = _
  rw [path, Path.ofString_plain (by simp) hnames]
  rfl

/-- A file of a plain name stands nowhere above the directory of the resource. -/
theorem dots_notMem (hkebab : Path.IsPlainName n.kebab) (f : PackageFile) :
    ".." ∉ f.directory ++ [n.kebab ++ f.suffix ++ ".ts"] := by
  have hlast := hkebab.append f.ending_chars.1
  rw [← String.append_assoc] at hlast
  rw [List.mem_append, List.mem_singleton]
  rintro (hmem | heq)
  · exact (f.isPlainName_directory _ hmem).ne_dots rfl
  · exact hlast.ne_dots heq.symm

/-- Where a file of a plain name stands. -/
theorem place_path (hkebab : Path.IsPlainName n.kebab) (base : Path) (f : PackageFile) :
    (base / f.path n).place = base.place ++ f.directory ++ [n.kebab ++ f.suffix ++ ".ts"] := by
  rw [f.div_path hkebab, base.place_below (f.dots_notMem hkebab), List.append_assoc]

end PackageFile

namespace Layer

/-- The files of a layer, in the order in which they are generated. -/
def files (layer : Layer) : List PackageFile :=
  PackageFile.all.filter (·.layer = layer)

/-- The directories whose files a layer replaces. -/
def replaced : Layer → List String
  | .interfaces => ["interfaces"]
  | .requestContract => ["dto"]
  | .responseContract => ["dto/response"]
  | _ => []

private theorem mem_files {layer : Layer} {f : PackageFile} :
    f ∈ layer.files ↔ f.layer = layer := by
  simp [files, f.mem_all]

/-- What a layer replaces is the directory of its own files. -/
theorem layer_eq_of_replaced {layer : Layer} {directory : String}
    (h : directory ∈ layer.replaced) {f : PackageFile}
    (hf : (Path.ofString directory).parts = f.directory) : f.layer = layer := by
  have hall : ∀ layer ∈ all, ∀ directory ∈ layer.replaced, ∀ f ∈ PackageFile.all,
      (Path.ofString directory).parts = f.directory → f.layer = layer := by
    decide +kernel
  have hlayer : layer ∈ all := by cases layer <;> decide
  exact hall layer hlayer directory h f f.mem_all hf

/-- The paths of replaced directories are those of entries. -/
theorem isEntryPath_of_replaced {layer : Layer} {directory : String}
    (h : directory ∈ layer.replaced) : Path.IsEntryPath directory := by
  have hall : ∀ directory ∈ ["interfaces", "dto", "dto/response"], Path.IsInside directory ∧
      ∀ name ∈ (Path.ofString directory).parts, Path.IsEntryName name := by
    decide +kernel
  obtain ⟨hinside, hnames⟩ := hall directory (by cases layer <;> simp_all [replaced])
  exact ⟨hinside, hnames⟩

end Layer

/-! ## What is rendered -/

/-- The output is that of a layer of a package: it goes to the directory of the resource, and has
the paths of the layer. -/
structure LayerOutput.IsOf (output : LayerOutput) (layer : Layer) (n : ResourceName) : Prop where
  layer_eq : output.layer = layer
  resource_eq : output.resource = n.camel
  target_eq : output.target = .resource
  resetDirectories_eq : output.resetDirectories = layer.replaced
  paths_eq : output.artifacts.map (·.path) = layer.files.map (PackageFile.path n)

namespace Layer

variable {conventions : Conventions} {n : ResourceName} {d : Definition} {layer : Layer}
  {output : LayerOutput}

/-- What work on items makes of them, seen through something that is known beforehand. -/
theorem map_of_mapM_eq_ok {ε α β γ : Type} {work : α → Except ε β} {shown : β → γ}
    {known : α → γ} (hwork : ∀ a b, work a = .ok b → shown b = known a) {as : List α} {bs : List β}
    (h : as.mapM work = .ok bs) : bs.map shown = as.map known := by
  induction as generalizing bs with
  | nil =>
    cases h
    rfl
  | cons a as ih =>
    rw [List.mapM_cons] at h
    obtain ⟨b, hb, h⟩ := except_bind_eq_ok.mp h
    obtain ⟨rest, hrest, h⟩ := except_bind_eq_ok.mp h
    cases h
    rw [List.map_cons, List.map_cons, hwork a b hb, ih hrest]

/-- The module is an output of its layer. -/
theorem isOf_moduleOutput (n : ResourceName) : (Wiring.moduleOutput n).IsOf .module n :=
  ⟨rfl, rfl, rfl, rfl, congrArg (· :: [])
    (@PackageFile.path_of_directory_eq_nil n .module rfl ".module.ts" (by decide))⟩

/-- The interfaces are an output of their layer. -/
theorem isOf_interfacesOutput (n : ResourceName) :
    (Wiring.interfacesOutput n).IsOf .interfaces n := by
  refine ⟨rfl, rfl, rfl, rfl, ?_⟩
  rw [show Layer.interfaces.files = Action.all.map .interface from rfl, List.map_map]
  exact (List.map_map ..).trans
    (List.map_congr_left fun action _ => PackageFile.path_interfaceSource action)

/-- The requests are an output of their layer. -/
theorem isOf_requestOutput {profile : Profile}
    (h : RequestContract.output conventions n d profile = .ok output) :
    output.IsOf .requestContract n := by
  obtain ⟨artifacts, hartifacts, h⟩ := except_bind_eq_ok.mp h
  cases h
  refine ⟨rfl, rfl, rfl, rfl, ?_⟩
  rw [show Layer.requestContract.files = Action.all.map .request from rfl, List.map_map]
  refine map_of_mapM_eq_ok (fun action a ha => ?_) hartifacts
  obtain ⟨fields, -, ha⟩ := except_bind_eq_ok.mp ha
  cases ha
  exact PackageFile.path_requestSource conventions action fields

/-- The responses are an output of their layer. -/
theorem isOf_responseOutput (n : ResourceName) (d : Definition) (profile : Profile) :
    (ResponseContract.output n d profile).IsOf .responseContract n := by
  refine ⟨rfl, rfl, rfl, rfl, ?_⟩
  rw [show Layer.responseContract.files = Action.all.map .response from rfl, List.map_map]
  exact (List.map_map ..).trans
    (List.map_congr_left fun action _ => PackageFile.path_responseSource d profile action)

/-- **Rendering a layer of a package gives its files.** -/
theorem isOf_render (hlayer : layer ∈ packageLayers)
    (h : layer.render conventions n d = .ok output) : output.IsOf layer n := by
  simp only [packageLayers, List.mem_cons, List.not_mem_nil, or_false] at hlayer
  rcases hlayer with rfl | rfl | rfl | rfl | rfl | rfl | rfl
  · cases h
    exact isOf_moduleOutput n
  · obtain ⟨id, -, h⟩ := except_bind_eq_ok.mp h
    cases h
    exact ⟨rfl, rfl, rfl, rfl, congrArg (· :: [])
      (@PackageFile.path_of_directory_eq_nil n .controller rfl ".controller.ts" (by decide))⟩
  · obtain ⟨id, -, h⟩ := except_bind_eq_ok.mp h
    cases h
    exact ⟨rfl, rfl, rfl, rfl, congrArg (· :: [])
      (@PackageFile.path_of_directory_eq_nil n .service rfl ".service.ts" (by decide))⟩
  · obtain ⟨id, -, h⟩ := except_bind_eq_ok.mp h
    cases h
    exact ⟨rfl, rfl, rfl, rfl, congrArg (· :: [])
      (@PackageFile.path_of_directory_eq_nil n .repository rfl ".repository.ts" (by decide))⟩
  · cases h
    exact isOf_interfacesOutput n
  · exact isOf_requestOutput h
  · cases h
    exact isOf_responseOutput n d n.profile

end Layer

namespace LayerOutput.IsOf

variable {output : LayerOutput} {layer : Layer} {n : ResourceName}

/-- The files of the output are those of the layer. -/
theorem exists_path_eq (h : output.IsOf layer n) {a : Artifact} (ha : a ∈ output.artifacts) :
    ∃ f : PackageFile, f.layer = layer ∧ a.path = f.path n := by
  have hpath : a.path ∈ output.artifacts.map (·.path) := List.mem_map_of_mem ha
  rw [h.paths_eq] at hpath
  obtain ⟨f, hf, hpath⟩ := List.mem_map.mp hpath
  exact ⟨f, Layer.mem_files.mp hf, hpath.symm⟩

/-- No two files of a layer have one place. -/
theorem nodup_places (h : output.IsOf layer n) (base : Path) :
    (output.artifacts.map fun a => (base / a.path).place).Nodup := by
  have hpaths : (output.artifacts.map fun a => (base / a.path).place) =
      layer.files.map fun f => (base / f.path n).place := by
    have hmap := congrArg (List.map fun path : String => (base / path).place) h.paths_eq
    simpa [List.map_map, Function.comp_def] using hmap
  have hall : PackageFile.all.Nodup := by decide
  have hfiles : layer.files.Nodup := hall.filter _
  rw [hpaths]
  refine hfiles.map_on fun f hf g hg hplace => ?_
  have hdirectory : f.directory = g.directory := PackageFile.directory_eq_of_layer_eq
    ((Layer.mem_files.mp hf).trans (Layer.mem_files.mp hg).symm)
  obtain ⟨start, hstart⟩ := PackageFile.exists_place_path n g.directory
  rw [hstart base f hdirectory, hstart base g rfl] at hplace
  obtain ⟨-, hlast⟩ := List.append_inj' hplace rfl
  refine PackageFile.eq_of_directory_suffix hdirectory ?_
  have hchars := congrArg String.toList (List.singleton_inj.mp hlast)
  simpa [String.toList_inj] using hchars

variable {base : Path} {change : Change} {place : Place}

/-- A change of the output is one of three. -/
theorem mem_changes (h : output.IsOf layer n) (hchange : change ∈ output.changes base) :
    change = .make base ∨ (∃ directory ∈ layer.replaced, change = .clear (base / directory)) ∨
      ∃ f : PackageFile, f.layer = layer ∧ ∃ a ∈ output.artifacts, a.path = f.path n ∧
        change = .write (base / f.path n) (.text a.content) := by
  rw [LayerOutput.changes, h.resetDirectories_eq, List.mem_append, List.mem_append,
    List.mem_singleton] at hchange
  rcases hchange with (rfl | hclear) | hwrite
  · exact .inl rfl
  · obtain ⟨directory, hdirectory, rfl⟩ := List.mem_map.mp hclear
    exact .inr (.inl ⟨directory, hdirectory, rfl⟩)
  · obtain ⟨a, ha, rfl⟩ := List.mem_map.mp hwrite
    obtain ⟨f, hf, hpath⟩ := h.exists_path_eq ha
    exact .inr (.inr ⟨f, hf, a, ha, hpath, by rw [hpath]⟩)

/-- All that a layer changes is in the directory of the resource. -/
theorem exists_changePath_eq (h : output.IsOf layer n) (hkebab : Path.IsPlainName n.kebab)
    (hchange : change ∈ output.changes base) :
    ∃ names, change.path = base.below names ∧ ".." ∉ names := by
  rcases h.mem_changes hchange with rfl | ⟨directory, hdirectory, rfl⟩ | ⟨f, -, a, -, -, rfl⟩
  · exact ⟨[], by simp [Change.path, Path.below], by simp⟩
  · have hinside := (Layer.isEntryPath_of_replaced hdirectory).inside
    exact ⟨_, hinside.div_eq base, hinside.2⟩
  · exact ⟨_, f.div_path hkebab base, f.dots_notMem hkebab⟩

/-- What is made and written is on the way to the directory of the resource, or below it. -/
theorem mem_way_of_puts (h : output.IsOf layer n) (hkebab : Path.IsPlainName n.kebab)
    (hchange : change ∈ output.changes base) (hputs : change.Makes place ∨ change.Writes place) :
    place ∈ base.way ∨ base.place <+: place := by
  obtain ⟨names, hpath, hdots⟩ := h.exists_changePath_eq hkebab hchange
  have hway : place ∈ change.path.way := by
    cases change with
    | make directory => exact hputs.resolve_right Change.writes_make
    | clear directory => simp at hputs
    | write file content =>
      exact hputs.elim Path.mem_way_of_parent fun heq => heq ▸ Path.place_mem_way _
  rw [hpath, Path.mem_way_below base hdots] at hway
  exact hway.imp id fun ⟨front, _, heq⟩ => ⟨front, heq.symm⟩

/-- No two layers write one file, and no layer removes a file of another one. -/
theorem not_writes_of_ne {other : LayerOutput} {layer' : Layer} (h : output.IsOf layer n)
    (hother : other.IsOf layer' n) (hne : layer ≠ layer') (hkebab : Path.IsPlainName n.kebab)
    {file : Path} {content : Content} (hwrite : .write file content ∈ output.changes base)
    (hchange : change ∈ other.changes base) :
    ¬ change.Writes file.place ∧ ¬ change.Clears file.place := by
  obtain ⟨f, hf, a, -, -, heq⟩ : ∃ f : PackageFile, f.layer = layer ∧ ∃ a ∈ output.artifacts,
      a.path = f.path n ∧ Change.write file content =
        .write (base / f.path n) (.text a.content) := by
    simpa using h.mem_changes hwrite
  obtain ⟨rfl, -⟩ := Change.write.inj heq
  rw [f.place_path hkebab]
  rcases hother.mem_changes hchange with rfl | ⟨directory, hdirectory, rfl⟩ |
    ⟨g, hg, b, -, -, rfl⟩
  · simp
  · refine ⟨Change.writes_clear, fun ⟨name, hplace⟩ => hne ?_⟩
    have hinside := (Layer.isEntryPath_of_replaced hdirectory).inside
    rw [hinside.place_div] at hplace
    obtain ⟨habove, -⟩ := List.append_inj' hplace rfl
    have hparts := List.append_cancel_left habove
    exact hf.symm.trans (Layer.layer_eq_of_replaced hdirectory hparts.symm)
  · refine ⟨fun hplace => hne ?_, Change.clears_write⟩
    rw [Change.writes_write, g.place_path hkebab] at hplace
    obtain ⟨habove, hlast⟩ := List.append_inj' hplace rfl
    have hsuffix : f.suffix = g.suffix := by
      have hchars := congrArg String.toList (List.singleton_inj.mp hlast)
      simpa [String.toList_inj] using hchars
    have heq := PackageFile.eq_of_directory_suffix (List.append_cancel_left habove) hsuffix
    rw [← hf, ← hg, heq]

end LayerOutput.IsOf

end NestLayers
