import NestLayers.Proofs.LayerTargets
import NestLayers.Proofs.NameWords

/-!
# The files of model classes

The file of a model class has the hyphenated form of the name of its model. Models whose names have
the same words, up to case, therefore share a file, and the last one of them is written over the
others. Names in Pascal case have files of their own.
-/

namespace NestLayers.Layer.Model

open NestLayers.Text NestLayers.Naming NestLayers.TypeScript

variable {conventions : Conventions} {definitions : List Definition} {x y : String}

/-! ## Paths -/

/-- The name of the file of a model class. -/
def fileName (model : String) : String :=
  modelKebab model ++ ".model.ts"

private theorem path_artifact (conventions : Conventions) (d : Definition) :
    (source conventions d).artifact.path = fileName d.name := rfl

/-- Two models have the same file exactly if the words of their names differ in case only. -/
theorem fileName_eq_iff (hx : IsModelName x.toList) (hy : IsModelName y.toList) :
    fileName x = fileName y ↔ smallWords x = smallWords y := by
  rw [← modelKebab_eq_iff hx hy]
  refine ⟨fun h => ?_, congrArg (· ++ ".model.ts")⟩
  have hchars := congrArg String.toList h
  rw [fileName, fileName, String.toList_append, String.toList_append] at hchars
  exact String.toList_inj.mp (List.append_cancel_right hchars)

private theorem isPlainName_fileName (hx : IsModelName x.toList) :
    Path.IsPlainName (fileName x) := by
  have hslash : '/' ∉ (modelKebab x).toList :=
    notMem_modelKebab (by decide) (by decide) (by decide) (notMem_of_isWord hx.2 (by decide))
  have hsource : Path.IsPlainName (modelKebab x ++ ".model" ++ ".ts") :=
    Path.isPlainName_source (by simp [hslash])
  rwa [String.append_assoc] at hsource

/-- The file goes directly to the directory that it is written to. -/
theorem isInside_fileName (hx : IsModelName x.toList) : Path.IsInside (fileName x) := by
  have hplain := isPlainName_fileName hx
  refine ⟨by rw [hplain.ofString_eq]; rfl, ?_⟩
  rw [hplain.ofString_eq, List.mem_singleton]
  exact hplain.ne_dots.symm

/-- The paths of model classes are different exactly if the words of any two names are. -/
theorem nodup_paths_iff (h : ∀ d ∈ definitions, IsModelName d.name.toList) :
    ((output conventions definitions).artifacts.map (·.path)).Nodup ↔
      (definitions.map fun d => smallWords d.name).Nodup := by
  have hpaths : (output conventions definitions).artifacts.map (·.path) =
      definitions.map fun d => fileName d.name := List.map_map
  rw [hpaths, List.Nodup, List.Nodup, List.pairwise_map, List.pairwise_map]
  exact List.Pairwise.iff_of_mem fun hd he => not_congr (fileName_eq_iff (h _ hd) (h _ he))

/-! ## Files -/

/-- The file of a model class starts with two imports, and declares the class below them. -/
theorem exists_lines_source (conventions : Conventions) (d : Definition) :
    ∃ rest, (source conventions d).source.lines =
      "import \x7b $Enums, Prisma \x7d from \"@prisma/client\";" ::
        "import \x7b ApiProperty \x7d from \"@nestjs/swagger\";" :: "" ::
        ("export class " ++ d.name ++ "Model \x7b") :: rest := by
  have himports : (source conventions d).source.imports.lines =
      ["import \x7b $Enums, Prisma \x7d from \"@prisma/client\";",
        "import \x7b ApiProperty \x7d from \"@nestjs/swagger\";"] := by
    change (Imports.ofList _).lines = _
    decide +kernel
  have hopening : (classOf conventions d).opening = "export class " ++ d.name ++ "Model \x7b" := by
    rw [← String.toList_inj]
    simp [classOf, ClassDecl.opening, Conventions.modelClass]
  rw [SourceFile.lines, himports, ← hopening]
  exact ⟨_, rfl⟩

/-- The fourth line of the file of a model class declares the class. -/
theorem getElem?_splitNewlines_content (conventions : Conventions) {d : Definition}
    (hd : IsOneLine d.name) :
    (splitNewlines (source conventions d).artifact.content.toList)[3]? =
      some ("export class " ++ d.name ++ "Model \x7b").toList := by
  obtain ⟨rest, hlines⟩ := exists_lines_source conventions d
  have hopening : IsOneLine ("export class " ++ d.name ++ "Model \x7b") := by
    simp only [isOneLine_append]
    exact ⟨⟨by decide, hd⟩, by decide⟩
  change (splitNewlines (SourceFile.text _).toList)[3]? = _
  rw [SourceFile.text, hlines, splitNewlines_joinLines (by simp)]
  simp only [List.cons_append, List.flatMap_cons]
  rw [splitNewlines_of_isOneLine (by decide), splitNewlines_of_isOneLine (by decide),
    splitNewlines_of_isOneLine (by decide), splitNewlines_of_isOneLine hopening]
  rfl

/-- The class of a model is that of no other one. -/
theorem name_eq_of_content_eq {d e : Definition} (hd : IsOneLine d.name) (he : IsOneLine e.name)
    (h : (source conventions d).artifact.content = (source conventions e).artifact.content) :
    d.name = e.name := by
  have hline := getElem?_splitNewlines_content conventions hd
  rw [h, getElem?_splitNewlines_content conventions he, Option.some_inj] at hline
  simp only [String.toList_append, List.append_assoc] at hline
  exact String.toList_inj.mp (List.append_cancel_right (List.append_cancel_left hline)).symm

/-- Of the elements of a list that have a property, one is the last. -/
theorem exists_last {α : Type} {p : α → Prop} {l : List α} (h : ∃ a ∈ l, p a) :
    ∃ front a rest, l = front ++ a :: rest ∧ p a ∧ ∀ b ∈ rest, ¬ p b := by
  induction l with
  | nil => simp at h
  | cons a l ih =>
    by_cases hl : ∃ b ∈ l, p b
    · obtain ⟨front, b, rest, rfl, hb, hrest⟩ := ih hl
      exact ⟨a :: front, b, rest, rfl, hb, hrest⟩
    · obtain ⟨b, hb, hp⟩ := h
      rcases List.mem_cons.mp hb with rfl | hb
      · exact ⟨[], b, l, rfl, hp, fun c hc hpc => hl ⟨c, hc, hpc⟩⟩
      · exact absurd ⟨b, hb, hp⟩ hl

section Write

variable {exporter : Exporter} {s s' : Session} {result : Export} {d : Definition}
  {front rest : List Definition}

/-- The class of a model stands in its file if no later model has the file. -/
theorem at?_of_write_eq_ok (hlive : exporter.dryRun = false)
    (h : ∀ f ∈ front ++ d :: rest, IsModelName f.name.toList)
    (hlast : ∀ f ∈ rest, smallWords f.name ≠ smallWords d.name)
    (hwrite : exporter.write (output conventions (front ++ d :: rest)) s = .ok result s') :
    s'.tree.at? (exporter.settings.modelPath / fileName d.name) =
      some (.file (.text (source conventions d).artifact.content)) := by
  obtain ⟨base, s₁, removed, s₂, files, s₃, htarget, -, hfiles, -, htree⟩ :=
    Exporter.exists_of_write_eq_ok hlive hwrite
  obtain ⟨rfl, -⟩ := EStateM.Result.ok.inj htarget
  obtain ⟨-, hmodels⟩ := List.forall_mem_append.mp h
  obtain ⟨hd, hrest⟩ := List.forall_mem_cons.mp hmodels
  rw [output, List.map_append, List.map_cons] at hfiles
  rw [htree, ← path_artifact conventions]
  refine Exporter.at?_of_mapM_eq_ok ?_ ?_ ?_ hfiles
  · rw [path_artifact]
    exact isInside_fileName hd
  · refine List.forall_mem_map.mpr fun f hf => ?_
    rw [path_artifact]
    exact isInside_fileName (hrest f hf)
  · -- a later file at the same path would belong to a model with the same words
    refine List.forall_mem_map.mpr fun f hf hpath => hlast f hf ?_
    rw [path_artifact, path_artifact, (isPlainName_fileName (hrest f hf)).ofString_eq,
      (isPlainName_fileName hd).ofString_eq, Path.mk.injEq] at hpath
    exact (fileName_eq_iff (hrest f hf) hd).mp (List.singleton_inj.mp hpath.2)

/-- **A file holds the class of the last model that has it.** -/
theorem exists_of_write_eq_ok (hlive : exporter.dryRun = false)
    (h : ∀ f ∈ front ++ d :: rest, IsModelName f.name.toList)
    (hwrite : exporter.write (output conventions (front ++ d :: rest)) s = .ok result s') :
    ∃ before e later, d :: rest = before ++ e :: later ∧ smallWords e.name = smallWords d.name ∧
      (∀ f ∈ later, smallWords f.name ≠ smallWords d.name) ∧
      s'.tree.at? (exporter.settings.modelPath / fileName d.name) =
        some (.file (.text (source conventions e).artifact.content)) := by
  obtain ⟨before, e, later, hsplit, hwords, hlast⟩ :=
    exists_last (p := fun f : Definition => smallWords f.name = smallWords d.name)
      ⟨d, List.mem_cons_self, rfl⟩
  have hd : IsModelName d.name.toList := h d (by simp)
  rw [hsplit, ← List.append_assoc] at h hwrite
  have he : IsModelName e.name.toList := h e (by simp)
  refine ⟨before, e, later, hsplit, hwords, hlast, ?_⟩
  rw [(fileName_eq_iff hd he).mpr hwords.symm]
  exact at?_of_write_eq_ok hlive h (fun f hf => hwords ▸ hlast f hf) hwrite

/-- The class of a model with a name of its own stands in its file only then. -/
theorem at?_eq_content_iff (hlive : exporter.dryRun = false)
    (h : ∀ f ∈ front ++ d :: rest, IsModelName f.name.toList) (hname : d.name ∉ rest.map (·.name))
    (hwrite : exporter.write (output conventions (front ++ d :: rest)) s = .ok result s') :
    s'.tree.at? (exporter.settings.modelPath / fileName d.name) =
        some (.file (.text (source conventions d).artifact.content)) ↔
      ∀ f ∈ rest, smallWords f.name ≠ smallWords d.name := by
  obtain ⟨before, e, later, hsplit, hwords, hlast, hfile⟩ := exists_of_write_eq_ok hlive h hwrite
  cases before with
  | nil =>
    obtain ⟨rfl, rfl⟩ := List.cons.inj hsplit
    exact iff_of_true hfile hlast
  | cons f before =>
    obtain ⟨rfl, rfl⟩ := List.cons.inj hsplit
    have hline {f : Definition} (hf : IsModelName f.name.toList) : IsOneLine f.name :=
      fun hnewline => absurd (hf.2 _ hnewline) (by decide)
    -- the file holds the class of a later model, and a class tells the name of its model
    refine iff_of_false (fun hother => hname ?_) (fun hrest => hrest e (by simp) hwords)
    rw [hfile] at hother
    have hcontent : (source conventions e).artifact.content =
        (source conventions d).artifact.content := by
      simpa using hother
    rw [← name_eq_of_content_eq (hline (h e (by simp))) (hline (h d (by simp))) hcontent]
    simp

end Write

/-- **The files of model classes.** Let models have different names. The paths of their classes are
pairwise different exactly if no two names have the same words, up to case. This is so if the names
are in Pascal case. When the model layer is written, the file of each model holds the class of the
last model whose name has the same words: its own class exactly if no later name has these words. -/
theorem files_by_words (conventions : Conventions) (definitions : List Definition)
    (h : ∀ d ∈ definitions, IsModelName d.name.toList)
    (hnames : (definitions.map (·.name)).Nodup) :
    (((output conventions definitions).artifacts.map (·.path)).Nodup ↔
        (definitions.map fun d => smallWords d.name).Nodup) ∧
      ((∀ d ∈ definitions, IsPascalCase d.name) →
        ((output conventions definitions).artifacts.map (·.path)).Nodup) ∧
      ∀ (exporter : Exporter) (s s' : Session) (result : Export), exporter.dryRun = false →
        exporter.write (output conventions definitions) s = .ok result s' →
        ∀ front d rest, definitions = front ++ d :: rest →
          (∃ before e later, d :: rest = before ++ e :: later ∧
            smallWords e.name = smallWords d.name ∧
            (∀ f ∈ later, smallWords f.name ≠ smallWords d.name) ∧
            s'.tree.at? (exporter.settings.modelPath / fileName d.name) =
              some (.file (.text (source conventions e).artifact.content))) ∧
          (s'.tree.at? (exporter.settings.modelPath / fileName d.name) =
              some (.file (.text (source conventions d).artifact.content)) ↔
            ∀ f ∈ rest, smallWords f.name ≠ smallWords d.name) := by
  refine ⟨nodup_paths_iff h, fun hpascal => ?_, ?_⟩
  · rw [nodup_paths_iff h]
    rw [List.Nodup, List.pairwise_map] at hnames ⊢
    refine hnames.imp_of_mem fun hd he hne hwords => hne ?_
    exact (hpascal _ hd).eq_of_modelKebab_eq (hpascal _ he)
      ((modelKebab_eq_iff (h _ hd) (h _ he)).mpr hwords)
  · rintro exporter s s' result hlive hwrite front d rest rfl
    rw [List.map_append, List.map_cons, List.nodup_append, List.nodup_cons] at hnames
    exact ⟨exists_of_write_eq_ok hlive h hwrite,
      at?_eq_content_iff hlive h hnames.2.1.1 hwrite⟩

/-- The unit of a log. -/
def logUnit (model : String) : String :=
  "// Log\nmodel " ++ model ++ " \x7b\n\x7d\n"

/-- What is read from the unit of a log. -/
def logModel (model : String) : Definition where
  name := model
  description := "Log"
  fields := []
  relations := []
  fileId := "log"
  location := .primary

/-- Two logs whose names differ in case only. -/
def logModels : List Definition :=
  [logModel "HTTPLog", logModel "HttpLog"]

private theorem isModelName_of_mem_logModels : ∀ d ∈ logModels, IsModelName d.name.toList := by
  decide +kernel

/-- The two logs can be written into an empty project. -/
theorem exists_write_logModels :
    ∃ result s', Exporter.sampleExporter.write (output {} logModels) {} = .ok result s' := by
  have hwritten : Exporter.isWritten (Exporter.sampleExporter.write (output {} logModels) {}) =
      true := by
    decide +kernel
  unfold Exporter.isWritten at hwritten
  split at hwritten
  · rename_i result s' hwrite
    exact ⟨result, s', hwrite⟩
  · cases hwritten

/-- The class of the first log is lost: both logs are written to one file. -/
theorem first_log_is_overwritten :
    Definition.parse {} "log" .primary (logUnit "HTTPLog") = .ok (logModel "HTTPLog") ∧
      Definition.parse {} "log" .primary (logUnit "HttpLog") = .ok (logModel "HttpLog") ∧
      (output {} logModels).artifacts.map (·.path) = ["http-log.model.ts", "http-log.model.ts"] ∧
      ∃ result s', Exporter.sampleExporter.write (output {} logModels) {} = .ok result s' ∧
        s'.tree.at? (Exporter.sampleExporter.settings.modelPath / "http-log.model.ts") ≠
          some (.file (.text (source {} (logModel "HTTPLog")).artifact.content)) := by
  refine ⟨by decide +kernel, by decide +kernel, by decide +kernel, ?_⟩
  obtain ⟨result, s', hwrite⟩ := exists_write_logModels
  have hname : "http-log.model.ts" = fileName "HTTPLog" := by decide +kernel
  have hwords : smallWords "HttpLog" = smallWords "HTTPLog" := by decide +kernel
  have hmodels : logModels = [] ++ logModel "HTTPLog" :: [logModel "HttpLog"] := rfl
  refine ⟨result, s', hwrite, fun hfile => ?_⟩
  rw [hname] at hfile
  rw [hmodels] at hwrite
  have hlast := (at?_eq_content_iff rfl isModelName_of_mem_logModels (by decide) hwrite).mp hfile
  exact hlast _ (List.mem_singleton.mpr rfl) hwords

/-- The file of both logs holds the class of the second one. -/
theorem files_by_words_logModels :
    (∀ d ∈ logModels, IsModelName d.name.toList) ∧ (logModels.map (·.name)).Nodup ∧
      ¬ ((output {} logModels).artifacts.map (·.path)).Nodup ∧
      ∃ result s', Exporter.sampleExporter.write (output {} logModels) {} = .ok result s' ∧
        s'.tree.at? (Exporter.sampleExporter.settings.modelPath / fileName "HttpLog") =
          some (.file (.text (source {} (logModel "HttpLog")).artifact.content)) := by
  have hnames : (logModels.map (·.name)).Nodup := by decide
  obtain ⟨hpaths, -, hfiles⟩ := files_by_words {} logModels isModelName_of_mem_logModels hnames
  obtain ⟨result, s', hwrite⟩ := exists_write_logModels
  refine ⟨isModelName_of_mem_logModels, hnames, ?_, result, s', hwrite, ?_⟩
  · rw [hpaths]
    decide +kernel
  · obtain ⟨-, hfile⟩ := hfiles Exporter.sampleExporter {} s' result rfl hwrite
      [logModel "HTTPLog"] (logModel "HttpLog") [] rfl
    exact hfile.mpr (List.forall_mem_nil _)

end NestLayers.Layer.Model
