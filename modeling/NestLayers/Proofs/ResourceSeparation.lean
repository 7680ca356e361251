import NestLayers.Proofs.LayerRuns

/-!
# Resources side by side

The files of two resources have different names, so that the run of a package never writes over the
files of another resource. It removes files only from the directories that its layers replace. If
the directory of another resource is one of these, then the files directly in it are lost; all other
files of another resource are kept.
-/

namespace NestLayers

open NestLayers.Text NestLayers.Naming

/-! ## The names of the files -/

namespace PackageFile

/-- The names of two files tell their resources apart. -/
theorem kebab_eq_of_name_eq {f g : PackageFile} {kebab kebab' : String}
    (h : kebab ++ f.suffix ++ ".ts" = kebab' ++ g.suffix ++ ".ts") : kebab = kebab' := by
  have hsuffix : ∀ f ∈ all, ∀ g ∈ all,
      f.suffix.toList <:+ g.suffix.toList → f.suffix.toList = g.suffix.toList := by
    decide
  have hchars : kebab.toList ++ f.suffix.toList = kebab'.toList ++ g.suffix.toList := by
    have hlists := congrArg String.toList h
    simp only [String.toList_append] at hlists
    exact List.append_cancel_right hlists
  have hf : f.suffix.toList <:+ kebab'.toList ++ g.suffix.toList := ⟨_, hchars⟩
  have hsame : f.suffix.toList = g.suffix.toList := by
    rcases List.suffix_or_suffix_of_suffix hf (List.suffix_append ..) with hends | hends
    · exact hsuffix f f.mem_all g g.mem_all hends
    · exact (hsuffix g g.mem_all f f.mem_all hends).symm
  rw [hsame] at hchars
  exact String.toList_inj.mp (List.append_cancel_right hchars)

/-- The files beside the module are those whose path is a name. -/
theorem slash_notMem_path_iff {n : ResourceName} (hkebab : Path.IsPlainName n.kebab)
    (f : PackageFile) : '/' ∉ (f.path n).toList ↔ f.directory = [] := by
  have hslash : '/' ∉ (n.kebab ++ f.suffix ++ ".ts").toList := by
    rw [String.append_assoc]
    exact (hkebab.append f.ending_chars.1).slash_notMem
  constructor
  · intro hpath
    by_contra hdirectory
    refine hpath ?_
    cases f <;> simp_all [path, directory]
  · intro hdirectory
    rw [path, hdirectory]
    simpa using hslash

end PackageFile

/-- The directories whose files the run of a package replaces. -/
def Layer.replacedDirectories : List String :=
  packageLayers.flatMap replaced

namespace LayerOutput.IsOf

variable {output : LayerOutput} {layer : Layer} {n m : ResourceName} {base base' : Path}
  {change : Change} {f : PackageFile}

/-- A layer does not write over a file of another resource. -/
theorem not_writes_of_kebab_ne (h : output.IsOf layer m) (hm : Path.IsPlainName m.kebab)
    (hn : Path.IsPlainName n.kebab) (hne : n.kebab ≠ m.kebab)
    (hchange : change ∈ output.changes base') : ¬ change.Writes (base / f.path n).place := by
  intro hwrites
  rcases h.mem_changes hchange with rfl | ⟨directory, -, rfl⟩ | ⟨g, -, a, -, -, rfl⟩
  · exact Change.writes_make hwrites
  · exact Change.writes_clear hwrites
  · rw [Change.writes_write, f.place_path hn, g.place_path hm] at hwrites
    obtain ⟨-, hlast⟩ := List.append_inj' hwrites rfl
    exact hne (PackageFile.kebab_eq_of_name_eq (List.singleton_inj.mp hlast))

/-- What a layer removes is what stands in the directories that it replaces. -/
theorem exists_clears_iff (h : output.IsOf layer m) (hn : Path.IsPlainName n.kebab) :
    (∃ change ∈ output.changes base', change.Clears (base / f.path n).place) ↔
      ∃ directory ∈ layer.replaced, base.place ++ f.directory = (base' / directory).place := by
  rw [f.place_path hn]
  constructor
  · rintro ⟨change, hchange, hclears⟩
    rcases h.mem_changes hchange with rfl | ⟨directory, hdirectory, rfl⟩ | ⟨g, -, a, -, -, rfl⟩
    · exact absurd hclears Change.clears_make
    · obtain ⟨name, hplace⟩ := hclears
      exact ⟨directory, hdirectory, (List.append_inj' hplace rfl).1⟩
    · exact absurd hclears Change.clears_write
  · rintro ⟨directory, hdirectory, hplace⟩
    refine ⟨.clear (base' / directory), ?_, _, congrArg (· ++ [_]) hplace⟩
    rw [changes, h.resetDirectories_eq, List.mem_append, List.mem_append, List.mem_map]
    exact .inl (.inr ⟨directory, hdirectory, rfl⟩)

end LayerOutput.IsOf

namespace Layer

/-- A file that stands in a directory which another resource replaces stands directly in the
directory of its own resource. -/
theorem directory_eq_nil_of_replaced {directory : String} (hdirectory : directory ∈ replacedDirectories)
    {base base' : Path} (hends : base.place.getLast? ≠ base'.place.getLast?) {f : PackageFile}
    (h : base.place ++ f.directory = (base' / directory).place) : f.directory = [] := by
  have hinside : Path.IsInside directory := by
    obtain ⟨layer, -, hmem⟩ := List.mem_flatMap.mp hdirectory
    exact (isEntryPath_of_replaced hmem).inside
  have hall : ∀ directory ∈ replacedDirectories, ∀ f ∈ PackageFile.all, f.directory ≠ [] →
      (Path.ofString directory).parts.getLast? = f.directory.getLast? →
        (Path.ofString directory).parts = f.directory := by
    decide
  have hparts : ∀ directory ∈ replacedDirectories, (Path.ofString directory).parts ≠ [] := by
    decide
  by_contra hne
  rw [hinside.place_div] at h
  have hlast := congrArg List.getLast? h
  rw [List.getLast?_append_of_ne_nil _ hne,
    List.getLast?_append_of_ne_nil _ (hparts directory hdirectory)] at hlast
  rw [hall directory hdirectory f f.mem_all hne hlast.symm] at h
  exact hends (congrArg List.getLast? (List.append_cancel_right h))

end Layer

namespace Generator

variable {g : Generator} {name a b token : String} {n m : ResourceName} {exports exports' : List Export}
  {s s' s₁ s₂ t : Session} {report report' : Report} {after last : FileTree}

/-- The run of a package writes its layers one after another. -/
theorem exists_written_of_run_eq_ok (htoken : resolveLayer token = .ok .package)
    (hlive : g.exporter.dryRun = false) (hn : g.conventions.resourceName name = n)
    (hname : IsWord name) (hproject : g.IsDefaultProject s.tree)
    (h : g.run token name s = .ok report s') :
    ∃ s₀, s₀.tree = s.tree ∧
      g.Written name n Layer.packageLayers report.exports s₀ s'.tree := by
  have hkebab : Path.IsPlainName n.kebab := by
    rw [← hn]
    exact PackageFile.isPlainName_kebab_ofWord _ hname
  rw [g.run_eq htoken hname.ne_empty, if_pos (by decide)] at h
  obtain ⟨unit, s₀, hfind, h⟩ := bind_eq_ok.mp h
  obtain ⟨models, htree, -⟩ := g.exists_ahead_of_findUnit_eq_ok hfind
  obtain ⟨report', s₂, hruns, rfl, rfl⟩ := g.runParts_eq_ok.mp h
  obtain ⟨exports, hexports, hwritten⟩ := exists_written_of_runLayers_eq_ok hlive hn hkebab
    (fun _ => id) (by decide) (htree ▸ hproject) hruns
  refine ⟨s₀, htree, ?_⟩
  rw [show ({ report' with success := true } : Report).exports = exports from hexports]
  exact hwritten

/-- Each export is that of a layer. -/
theorem Written.exists_isOf {layers : List Layer} (h : g.Written name n layers exports s after)
    {e : Export} (he : e ∈ exports) :
    ∃ layer ∈ layers, e.IsOf (g.outputAt s name layer) (g.resourceBase s.tree n) := by
  obtain ⟨i, hi, rfl⟩ := List.mem_iff_getElem.mp he
  have hlayers : i < layers.length := h.exports.length_eq ▸ hi
  exact ⟨_, List.getElem_mem hlayers, h.exports.get hlayers hi⟩

/-- What a layer has rendered is there with its content. -/
theorem Written.contentAt?_artifact {layers : List Layer}
    (h : g.Written name n layers exports s after) {layer : Layer} (hlayer : layer ∈ layers)
    {artifact : Artifact} (hartifact : artifact ∈ (g.outputAt s name layer).artifacts) :
    after.contentAt? (g.resourceBase s.tree n / artifact.path).place =
      some (.text artifact.content) := by
  have hchange : Change.write (g.resourceBase s.tree n / artifact.path) (.text artifact.content) ∈
      layers.flatMap fun layer => (g.outputAt s name layer).changes (g.resourceBase s.tree n) := by
    refine List.mem_flatMap.mpr ⟨layer, hlayer, ?_⟩
    simp only [LayerOutput.changes, List.mem_append, List.mem_map]
    exact .inr ⟨artifact, hartifact, rfl⟩
  exact FileTree.contentAt?_eq_some.mpr (h.becomes.written _ _ hchange)

/-- A file that was written is there. -/
theorem Written.exists_contentAt?_eq {layers : List Layer}
    (h : g.Written name n layers exports s after) {e : Export} (he : e ∈ exports)
    {file : FileRecord} (hfile : file ∈ e.files) :
    ∃ (f : PackageFile) (content : Content), file.relative = f.path n ∧
      file.path = (g.resourceBase s.tree n / f.path n).toString ∧
      after.contentAt? (g.resourceBase s.tree n / f.path n).place = some content := by
  obtain ⟨layer, hlayer, hisOf⟩ := h.exists_isOf he
  rw [FileRecord.forall₂_tells_iff.mp hisOf.files] at hfile
  obtain ⟨artifact, hartifact, rfl⟩ := List.mem_map.mp hfile
  obtain ⟨f, -, hpath⟩ := (h.isOf layer hlayer).exists_path_eq hartifact
  refine ⟨f, .text artifact.content, hpath, by rw [← hpath, Exporter.fileRecord], ?_⟩
  rw [← hpath]
  exact h.contentAt?_artifact hlayer hartifact

/-- The directory of a resource ends with its name. -/
theorem getLast?_place_resourceBase {tree : FileTree} (h : g.IsDefaultProject tree)
    (hkebab : Path.IsPlainName n.kebab)
    (hfind : ∃ answer, tree.findDirectory g.settings.sourcePath n.kebab = .ok answer) :
    (g.resourceBase tree n).place.getLast? = some n.kebab := by
  obtain ⟨names, hbase, hlast, hdots⟩ := exists_resourceBase_eq h hkebab hfind
  have hne : names ≠ [] := by
    rintro rfl
    cases hlast
  rw [hbase, Path.place_below _ (by simpa using hdots), List.getLast?_append_of_ne_nil _ (by simp),
    List.getLast?_cons_of_ne_nil hne, hlast]

/-- What the run of a package leaves of a file of another resource. -/
theorem Written.contentAt?_eq (h : g.Written name m Layer.packageLayers exports s after)
    (hproject : g.IsDefaultProject s.tree) (hm : Path.IsPlainName m.kebab)
    (hn : Path.IsPlainName n.kebab) (hne : n.kebab ≠ m.kebab) {base : Path}
    (hbase : base.place.getLast? = some n.kebab) (f : PackageFile) :
    after.contentAt? (base / f.path n).place =
      if f.directory = [] ∧ ∃ directory ∈ Layer.replacedDirectories,
          base.place = (g.resourceBase s.tree m / directory).place then none
      else s.tree.contentAt? (base / f.path n).place := by
  have hends : base.place.getLast? ≠ (g.resourceBase s.tree m).place.getLast? := by
    rw [hbase, getLast?_place_resourceBase hproject hm (h.search (by decide))]
    exact fun heq => hne (Option.some.inj heq)
  have hwrites : ∀ change ∈ Layer.packageLayers.flatMap fun layer =>
      (g.outputAt s name layer).changes (g.resourceBase s.tree m),
        ¬ change.Writes (base / f.path n).place := by
    intro change hchange
    obtain ⟨layer, hlayer, hchange⟩ := List.mem_flatMap.mp hchange
    exact (h.isOf layer hlayer).not_writes_of_kebab_ne hm hn hne hchange
  split
  · rename_i hcleared
    obtain ⟨hdirectory, directory, hmem, hplace⟩ := hcleared
    obtain ⟨layer, hlayer, hmem⟩ := List.mem_flatMap.mp hmem
    obtain ⟨change, hchange, hclears⟩ := ((h.isOf layer hlayer).exists_clears_iff hn).mpr
      ⟨directory, hmem, by rw [hdirectory, List.append_nil, hplace]⟩
    exact h.becomes.contentAt?_eq_none hwrites
      ⟨change, List.mem_flatMap.mpr ⟨layer, hlayer, hchange⟩, hclears⟩
  · rename_i hkept
    refine h.becomes.contentAt?_eq hwrites fun change hchange hclears => hkept ?_
    obtain ⟨layer, hlayer, hchange⟩ := List.mem_flatMap.mp hchange
    obtain ⟨directory, hmem, hplace⟩ := ((h.isOf layer hlayer).exists_clears_iff hn).mp
      ⟨change, hchange, hclears⟩
    have hdirectory : directory ∈ Layer.replacedDirectories :=
      List.mem_flatMap.mpr ⟨layer, hlayer, hmem⟩
    have hnil := Layer.directory_eq_nil_of_replaced hdirectory hends hplace
    rw [hnil, List.append_nil] at hplace
    exact ⟨hnil, directory, hdirectory, hplace⟩

/-- **Which files of a resource outlast the run of another.** Let the packages of two resources be
run one after the other, in a project of the default layout and for words that name different
directories. Each file that the first run reports is there after it. After the second run it is
still there with the same content, unless the directory of the first resource is one that the second
run replaces and the file is directly in it; then it is gone. -/
theorem contentAt?_of_run_package_run_package (htoken : resolveLayer token = .ok .package)
    (hlive : g.exporter.dryRun = false) (hproject : g.IsDefaultProject s.tree)
    (ha : IsWord a) (hb : IsWord b)
    (hne : (g.conventions.resourceName a).kebab ≠ (g.conventions.resourceName b).kebab)
    (hfirst : g.run token a s = .ok report s₁) (htree : t.tree = s₁.tree)
    (hsecond : g.run token b t = .ok report' s₂) :
    ∃ base base' : Path, (∀ e ∈ report.exports, e.target = base.toString) ∧
      (∀ e ∈ report'.exports, e.target = base'.toString) ∧
      ∀ e ∈ report.exports, ∀ file ∈ e.files, ∃ content,
        file.path = (base / file.relative).toString ∧
        s₁.tree.contentAt? (base / file.relative).place = some content ∧
        s₂.tree.contentAt? (base / file.relative).place =
          if '/' ∉ file.relative.toList ∧ ∃ directory ∈ ["interfaces", "dto", "dto/response"],
              base.place = (base' / directory).place then none
          else some content := by
  obtain ⟨n, hn⟩ : ∃ n, g.conventions.resourceName a = n := ⟨_, rfl⟩
  obtain ⟨m, hm⟩ : ∃ m, g.conventions.resourceName b = m := ⟨_, rfl⟩
  have hkebab : Path.IsPlainName n.kebab := by
    rw [← hn]
    exact PackageFile.isPlainName_kebab_ofWord _ ha
  have hkebab' : Path.IsPlainName m.kebab := by
    rw [← hm]
    exact PackageFile.isPlainName_kebab_ofWord _ hb
  rw [hn, hm] at hne
  obtain ⟨s₀, hs₀, hwritten⟩ := exists_written_of_run_eq_ok htoken hlive hn ha hproject hfirst
  have hlater := hwritten.later.project
  obtain ⟨t₀, ht₀, hwritten'⟩ :=
    exists_written_of_run_eq_ok htoken hlive hm hb (htree ▸ hlater) hsecond
  rw [htree] at ht₀
  refine ⟨g.resourceBase s₀.tree n, g.resourceBase t₀.tree m, fun e he => ?_, fun e he => ?_,
    fun e he file hfile => ?_⟩
  · obtain ⟨layer, -, hisOf⟩ := hwritten.exists_isOf he
    exact hisOf.target
  · obtain ⟨layer, -, hisOf⟩ := hwritten'.exists_isOf he
    exact hisOf.target
  · obtain ⟨f, content, hrelative, hpath, hcontent⟩ := hwritten.exists_contentAt?_eq he hfile
    have hlast := getLast?_place_resourceBase (hs₀ ▸ hproject) hkebab (hwritten.search (by decide))
    have hafter := hwritten'.contentAt?_eq (ht₀ ▸ hlater) hkebab' hkebab hne hlast f
    refine ⟨content, by rw [hrelative, hpath], by rw [hrelative, hcontent], ?_⟩
    simp only [hrelative, f.slash_notMem_path_iff hkebab, hafter]
    rw [ht₀, hcontent]
    rfl

end Generator

/-! ## A resource inside of another -/

/-- A tree is sound if its names are those of entries. -/
theorem FileTree.isSound_of_entries {tree : FileTree} (hproper : tree.IsProper)
    (h : ∀ e ∈ tree.entries, ∀ name ∈ e.1, Path.IsEntryName name) : tree.IsSound :=
  { hproper with
    named := fun place name entry hentry =>
      h _ (mem_entries (by simp) hentry) name (by simp) }

namespace Generator

/-- A generator with the default settings. -/
def defaultGenerator : Generator :=
  let settings : Settings := {}
  { settings, conventions := settings.conventions [], exporter := { settings } }

/-- A project with two resources. The directory of the one is where the other has its request
contracts. -/
def nestedProject : Session :=
  { tree := ⟨[(["prisma"], .directory), (["prisma", "schema"], .directory),
      (["prisma", "schema", "models"], .directory),
      (["prisma", "schema", "models", "dto.prisma"], .file (.text
        "// Dto\nmodel Dto \x7b\n  id Int @id // key\n\x7d\n")),
      (["prisma", "schema", "models", "order.prisma"], .file (.text
        "// Order\nmodel Order \x7b\n  id Int @id // key\n\x7d\n")),
      (["src"], .directory), (["src", "order"], .directory),
      (["src", "order", "dto"], .directory)]⟩ }

/-- The place of the module of the inner resource. -/
def innerModule : Place := ["src", "order", "dto", "dto.module.ts"]

/-- The project has the default layout. -/
theorem isDefaultProject_nested : defaultGenerator.IsDefaultProject nestedProject.tree where
  sound := FileTree.isSound_of_entries
    (FileTree.isProper_of_entries (by decide) (by decide)) (by decide)
  root := by decide
  schemaDir := rfl
  infoSchemaDir := rfl
  sourceDir := rfl
  exporter := rfl

/-- Both resources are named by words. -/
theorem isWord_nestedProject : IsWord "dto" ∧ IsWord "order" :=
  ⟨⟨by decide, List.all_eq_true.mp (by decide)⟩, ⟨by decide, List.all_eq_true.mp (by decide)⟩⟩

/-- Both resources are generated, the inner one first. -/
theorem stopOf_runs_nestedProject :
    stopOf (defaultGenerator.run "package" "dto" nestedProject) = none ∧
      stopOf (defaultGenerator.run "package" "order"
        (sessionOf (defaultGenerator.run "package" "dto" nestedProject))) = none ∧
      (sessionOf (defaultGenerator.run "package" "dto" nestedProject)).tree.contentAt? innerModule ≠
        none ∧
      (sessionOf (defaultGenerator.run "package" "order" (sessionOf
        (defaultGenerator.run "package" "dto" nestedProject)))).tree.contentAt? innerModule =
        none := by
  decide +kernel

/-- A file of the first resource is removed by the second run. -/
theorem exists_runs_nestedProject :
    ∃ report s₁ report' s₂, defaultGenerator.run "package" "dto" nestedProject = .ok report s₁ ∧
      defaultGenerator.run "package" "order" s₁ = .ok report' s₂ ∧
      s₁.tree.contentAt? innerModule ≠ none ∧ s₂.tree.contentAt? innerModule = none := by
  obtain ⟨hinner, houter, hmade, hremoved⟩ := stopOf_runs_nestedProject
  obtain ⟨report, hrun⟩ := exists_of_stopOf_eq_none hinner
  obtain ⟨report', hrun'⟩ := exists_of_stopOf_eq_none houter
  exact ⟨report, _, report', _, hrun, hrun', hmade, hremoved⟩

/-- The run of a package can remove a file of another resource. -/
theorem run_package_removes_inner :
    (defaultGenerator.conventions.resourceName "dto").kebab ≠
      (defaultGenerator.conventions.resourceName "order").kebab ∧
    ∃ report s₁ report' s₂, defaultGenerator.run "package" "dto" nestedProject = .ok report s₁ ∧
      defaultGenerator.run "package" "order" s₁ = .ok report' s₂ ∧
      s₁.tree.contentAt? innerModule ≠ none ∧ s₂.tree.contentAt? innerModule = none :=
  ⟨by decide, exists_runs_nestedProject⟩

/-- The run of the inner resource and then that of the outer one. -/
theorem contentAt?_of_run_package_run_package_nested :
    ∃ report s₁ report' s₂, defaultGenerator.run "package" "dto" nestedProject = .ok report s₁ ∧
      defaultGenerator.run "package" "order" s₁ = .ok report' s₂ ∧
      ∃ base base' : Path, (∀ e ∈ report.exports, e.target = base.toString) ∧
        (∀ e ∈ report'.exports, e.target = base'.toString) ∧
        ∀ e ∈ report.exports, ∀ file ∈ e.files, ∃ content,
          file.path = (base / file.relative).toString ∧
          s₁.tree.contentAt? (base / file.relative).place = some content ∧
          s₂.tree.contentAt? (base / file.relative).place =
            if '/' ∉ file.relative.toList ∧ ∃ directory ∈ ["interfaces", "dto", "dto/response"],
                base.place = (base' / directory).place then none
            else some content := by
  obtain ⟨report, s₁, report', s₂, hinner, houter, -, -⟩ := exists_runs_nestedProject
  obtain ⟨hdto, horder⟩ := isWord_nestedProject
  exact ⟨report, s₁, report', s₂, hinner, houter,
    contentAt?_of_run_package_run_package resolveLayer_package rfl isDefaultProject_nested
      hdto horder (by decide) hinner rfl houter⟩

end Generator

end NestLayers
