import NestLayers.Layer.Model
import NestLayers.Proofs.InfoFiles
import NestLayers.Proofs.ProjectLayout
import NestLayers.Proofs.RegisteredModels

/-!
# Imports of models

Response contracts and the info layer take the classes of models from the files of the model layer.
An import either has nothing to do with these files or takes classes of declared models from the
file of one of them. Every relation leads to a model of the registry, and so to a declared one.
-/

namespace NestLayers.Text

/-- A piece without some character does not go across this character. -/
theorem infix_of_infix_append_cons {piece before after : List Char} {c : Char} (hc : c ∉ piece)
    (h : piece <:+: before ++ c :: after) : piece <:+: before ∨ piece <:+: after := by
  rcases List.infix_append_iff_ne_nil.mp h with h | h | ⟨first, second, -, hne, rfl, -, hstarts⟩
  · exact .inl h
  · rcases List.infix_cons_iff.mp h with hstarts | h
    · cases piece with
      | nil => exact .inl List.nil_infix
      | cons d piece =>
        obtain ⟨rfl, -⟩ := List.cons_prefix_cons.mp hstarts
        exact absurd List.mem_cons_self hc
    · exact .inr h
  · cases second with
    | nil => exact absurd rfl hne
    | cons d second =>
      obtain ⟨rfl, -⟩ := List.cons_prefix_cons.mp hstarts
      exact absurd (List.mem_append_right _ List.mem_cons_self) hc

/-- A piece does not go into a text without its last character. -/
theorem infix_of_infix_append {piece before after : List Char} {c : Char}
    (hlast : piece.getLast? = some c) (hc : c ∉ after) (h : piece <:+: before ++ after) :
    piece <:+: before := by
  rcases List.infix_append_iff_ne_nil.mp h with h | h | ⟨first, second, -, hne, rfl, -, hstarts⟩
  · exact h
  · exact absurd (h.subset (List.mem_of_getLast? hlast)) hc
  · rw [List.getLast?_append_of_ne_nil _ hne] at hlast
    exact absurd (hstarts.subset (List.mem_of_getLast? hlast)) hc

/-- The lines of a text are pieces of it. -/
theorem infix_of_mem_splitNewlines {line cs : List Char} (h : line ∈ splitNewlines cs) :
    line <:+: cs := by
  suffices hall : (∀ line ∈ splitNewlines cs, line <:+: cs) ∧
      ∀ line ∈ (splitNewlines cs).head?, line <+: cs from hall.1 line h
  clear h
  induction cs with
  | nil => simp [splitNewlines]
  | cons c cs ih =>
    obtain ⟨hlines, hfirst⟩ := ih
    rw [splitNewlines]
    split
    · simpa using fun line hline => List.infix_cons (hlines line hline)
    · cases hsplit : splitNewlines cs with
      | nil =>
        have hstarts := List.prefix_append [c] cs
        simpa [consLine, hstarts] using hstarts.isInfix
      | cons first rest =>
        rw [hsplit] at hlines hfirst
        have hstarts : c :: first <+: c :: cs := List.cons_prefix_cons.mpr ⟨rfl, hfirst first rfl⟩
        simpa [consLine, hstarts, hstarts.isInfix] using
          fun line hline => List.infix_cons (hlines line (List.mem_cons_of_mem _ hline))

end NestLayers.Text

namespace NestLayers

open NestLayers.Text NestLayers.Naming NestLayers.TypeScript

/-! ## Imports of a file -/

/-- The text mentions the directory of the model layer. -/
def MentionsModel (cs : List Char) : Prop :=
  occursIn "@model/".toList cs = true

/-- It is decided by searching the text. -/
instance (cs : List Char) : Decidable (MentionsModel cs) :=
  inferInstanceAs (Decidable (_ = _))

private theorem mentionsModel_iff {cs : List Char} : MentionsModel cs ↔ "@model/".toList <:+: cs :=
  occursIn_iff_infix

private theorem MentionsModel.of_append_cons {before after : List Char} {c : Char}
    (hc : c ∉ "@model/".toList) (h : MentionsModel (before ++ c :: after)) :
    MentionsModel before ∨ MentionsModel after := by
  rw [mentionsModel_iff] at h
  rw [mentionsModel_iff, mentionsModel_iff]
  exact infix_of_infix_append_cons hc h

/-- Only a text with a slash mentions the directory. -/
theorem MentionsModel.slash_mem {cs : List Char} (h : MentionsModel cs) : '/' ∈ cs :=
  (mentionsModel_iff.mp h).subset (by decide)

/-- The import takes nothing from a file of the model layer. -/
structure IsForeign (e : Import) : Prop where
  names : ∀ name ∈ e.names, '/' ∉ name.toList
  origin : ¬ MentionsModel e.origin.toList

/-- The import takes the classes of some models from the file that is theirs. -/
structure IsModelImport (models : List String) (e : Import) : Prop where
  names_ne_nil : e.names ≠ []
  models : ∀ name ∈ e.names, ∃ model ∈ models, IsModelName model.toList ∧
    e.origin = Conventions.modelOrigin model ∧ name = Conventions.modelClass model

private theorem IsForeign.not_mentionsModel {e : Import} (h : IsForeign e) :
    ¬ MentionsModel e.line.toList := by
  have hline : e.line.toList = ("import " ++
      braced (String.intercalate ", " (firstOccurrences e.names)) ++ " from ").toList ++
        '\x22' :: (e.origin.toList ++ '\x22' :: [';']) := by
    unfold Import.line
    simp
  have hslash : '/' ∉
      List.intercalate [',', ' '] ((firstOccurrences e.names).map String.toList) := by
    refine notMem_intercalate (by decide) (List.forall_mem_map.mpr fun name hname => ?_)
    exact h.names name (mem_firstOccurrences.mp hname)
  rw [hline]
  intro hmentions
  rcases hmentions.of_append_cons (by decide) with hnames | hmentions
  · exact hslash (by simpa [braced] using hnames.slash_mem)
  rcases hmentions.of_append_cons (by decide) with horigin | hend
  · exact h.origin horigin
  · exact absurd hend (by decide)

/-- An import of models can be read. -/
theorem IsModelImport.isPackageImport {models : List String} {e : Import}
    (h : IsModelImport models e) : IsPackageImport e.origin e.names := by
  have hpackage : ∀ name ∈ e.names, IsPackageImport e.origin [name] := by
    intro name hname
    obtain ⟨model, -, hmodel, horigin, rfl⟩ := h.models name hname
    exact horigin ▸ isPackageImport_model hmodel
  obtain ⟨name, hname⟩ := List.exists_mem_of_ne_nil _ h.names_ne_nil
  refine ⟨⟨h.names_ne_nil, fun name hname => ?_⟩, (hpackage name hname).2⟩
  exact (hpackage name hname).1.2 name (List.mem_singleton_self name)

/-- Models with the same file have the same stem. -/
theorem modelKebab_eq_of_modelOrigin {first second : String}
    (h : Conventions.modelOrigin first = Conventions.modelOrigin second) :
    modelKebab first = modelKebab second := by
  unfold Conventions.modelOrigin at h
  rw [← String.toList_inj] at h ⊢
  simpa using h

/-- The import has nothing to do with the model layer, or takes classes of the models. -/
def Resolves (models : List String) (e : Import) : Prop :=
  IsForeign e ∨ IsModelImport models e

private theorem isModelImport_model {models : List String} {model : String}
    (hmodel : model ∈ models) (hname : IsModelName model.toList) :
    IsModelImport models ⟨Conventions.modelOrigin model, [Conventions.modelClass model]⟩ :=
  ⟨by simp, List.forall_mem_singleton.mpr ⟨model, hmodel, hname, rfl, rfl⟩⟩

private theorem resolves_ofList {models : List String} {list : List (String × List String)}
    (h : ∀ p ∈ list, Resolves models ⟨p.1, p.2⟩) :
    ∀ e ∈ (Imports.ofList list).entries, Resolves models e :=
  fun _ he => h _ (Imports.mem_of_mem_entries_ofList he)

/-- The file of a model is one of the model layer. -/
theorem mentionsModel_modelOrigin (model : String) :
    MentionsModel (Conventions.modelOrigin model).toList := by
  rw [mentionsModel_iff]
  unfold Conventions.modelOrigin
  simp only [String.toList_append, List.append_assoc]
  exact List.infix_append_left

/-- Importing the classes of models keeps a table in which every import resolves. -/
theorem resolves_addModels {models added : List String} {imports : Imports}
    (h : ∀ e ∈ imports.entries, Resolves models e)
    (hadded : ∀ model ∈ added, model ∈ models ∧ IsModelName model.toList) :
    ∀ e ∈ (Layer.ResponseContract.addModels imports added).entries, Resolves models e := by
  unfold Layer.ResponseContract.addModels
  induction added generalizing imports with
  | nil => exact h
  | cons model added ih =>
    obtain ⟨⟨hmodel, hname⟩, hrest⟩ := List.forall_mem_cons.mp hadded
    have hnew := isModelImport_model hmodel hname
    refine ih (fun e he => ?_) hrest
    rcases Imports.mem_entries_add he with he | rfl | ⟨old, hold, horigin, rfl⟩
    · exact h e he
    · exact .inr hnew
    · -- the entry that is there takes classes of models as well
      rcases h old hold with hforeign | hold
      · exact absurd (horigin ▸ mentionsModel_modelOrigin model) hforeign.origin
      · refine .inr ⟨by simp, List.forall_mem_append.mpr ⟨fun name hname => ?_, hnew.models⟩⟩
        exact horigin ▸ hold.models name hname

/-- The line names classes of models and the file that is theirs. -/
def NamesModels (models : List String) (line : List Char) : Prop :=
  ∃ stem i, Import.ofLine? line = some i ∧ i.origin = "@model/" ++ stem ++ ".model" ∧
    ∀ name ∈ i.names, ∃ model ∈ models,
      modelKebab model = stem ∧ name = Conventions.modelClass model

/-- The line of an import that mentions the model layer names classes of models. -/
theorem Resolves.namesModels {models : List String} {e : Import} (h : Resolves models e)
    {line : List Char} (hline : line ∈ splitNewlines e.line.toList)
    (hmentions : MentionsModel line) : NamesModels models line := by
  rcases h with hforeign | hmodels
  · refine absurd ?_ hforeign.not_mentionsModel
    rw [mentionsModel_iff] at hmentions ⊢
    exact hmentions.trans (infix_of_mem_splitNewlines hline)
  obtain ⟨⟨hne, hnames⟩, hquote, hone, -⟩ := hmodels.isPackageImport
  rw [splitNewlines_of_isOneLine
    (e.isOneLine_line (fun name hname => (hnames name hname).2) hone)] at hline
  obtain rfl := List.mem_singleton.mp hline
  obtain ⟨first, hfirst⟩ := List.exists_mem_of_ne_nil _ hne
  obtain ⟨model, -, -, horigin, -⟩ := hmodels.models first hfirst
  refine ⟨modelKebab model, _,
    Import.ofLine?_line ⟨hne, fun name hname => (hnames name hname).1, hquote⟩, horigin, ?_⟩
  intro name hname
  obtain ⟨other, hother, -, horigin', rfl⟩ := hmodels.models name (mem_firstOccurrences.mp hname)
  exact ⟨other, hother, modelKebab_eq_of_modelOrigin (horigin'.symm.trans horigin), rfl⟩

/-- Each import statement of the text that mentions the model layer names classes of models. -/
def ImportsModels (models : List String) (text : String) : Prop :=
  ∀ line ∈ splitNewlines text.toList, IsImportLine line → MentionsModel line →
    NamesModels models line

private theorem importsModels_text {models : List String} {f : SourceFile}
    (hgroups : ∀ g ∈ f.groups, ∀ line ∈ g.lines, NoImport line)
    (himports : ∀ e ∈ f.imports.entries, Resolves models e) : ImportsModels models f.text := by
  intro line hline himport hmentions
  obtain ⟨e, he, -, hpiece⟩ := f.exists_entry hgroups hline himport
  exact (himports e he).namesModels hpiece hmentions

/-! ## Response contracts -/

/-- An import from elsewhere. -/
theorem resolves_of_foreign {models : List String} {origin : String} {names : List String}
    (h : (∀ name ∈ names, '/' ∉ name.toList) ∧ ¬ MentionsModel origin.toList) :
    Resolves models ⟨origin, names⟩ :=
  .inl ⟨h.1, h.2⟩

/-- A way up or down with a file at its end does not lead to the model layer. -/
theorem resolves_relative {models : List String} {way file name : String}
    (hway : ¬ MentionsModel way.toList) (hfile : '/' ∉ file.toList)
    (hname : '/' ∉ name.toList) : Resolves models ⟨way ++ file, [name]⟩ := by
  refine resolves_of_foreign ⟨List.forall_mem_singleton.mpr hname, fun hmentions => hway ?_⟩
  rw [mentionsModel_iff] at hmentions ⊢
  rw [String.toList_append] at hmentions
  exact infix_of_infix_append (c := '/') (by decide) hfile hmentions

variable {models : List String} {n : ResourceName} {d : Definition}

private theorem importsModels_response (hn : n.IsPlain) (hd : d.IsPlain) (hname : d.name ∈ models)
    (hrelations : ∀ r ∈ d.relations, r.model ∈ models) (action : Action) :
    ImportsModels models (Layer.ResponseContract.source n d n.profile action).source.text := by
  have hkebab : '/' ∉ n.kebab.toList := fun h => absurd (hn.kebab _ h) (by decide)
  have hpascal : '/' ∉ n.pascal.toList := fun h => absurd (hn.pascal.all _ h) (by decide)
  refine importsModels_text
    (fun g => (PackageFile.isPlain_responseSource hn hd action).noImport_group) ?_
  refine resolves_addModels (resolves_ofList ?_) fun model hmodel => ?_
  · simp only [List.forall_mem_cons]
    refine ⟨resolves_of_foreign ?_, resolves_of_foreign (by decide),
      resolves_of_foreign (by decide), ?_, .inr (isModelImport_model hname hd.name), by simp⟩
    · cases action <;> decide
    · rw [String.append_assoc]
      exact resolves_relative (by decide) (by simp [hkebab]) (by simp [hpascal])
  · obtain ⟨r, hr, rfl⟩ := List.mem_map.mp (mem_firstOccurrences.mp hmodel)
    exact ⟨hrelations r hr, PackageFile.isModelName_relatedModels hd _ hmodel⟩

/-! ## The info layer -/

/-- A definition that was read, whose models are all among some models. -/
structure IsAmong (models : List String) (d : Definition) : Prop where
  isRead : ∃ registry fileId location text, Definition.parse registry fileId location text = .ok d
  name : d.name ∈ models
  relations : ∀ r ∈ d.relations, r.model ∈ models
  fileId : '/' ∉ d.fileId.toList

namespace Layer.Info

variable {conventions : Conventions} {definitions : List Definition}

/-- A finder of a definition whose models are all among some models. -/
structure Finder.IsAmong (models : List String) (f : Finder) : Prop extends f.IsPlain where
  name : f.definition.name ∈ models
  relations : ∀ r ∈ f.included, r.model ∈ models
  fileId : '/' ∉ f.definition.fileId.toList

private theorem isAmong_finders (hdefinitions : ∀ d ∈ definitions, NestLayers.IsAmong models d) :
    ∀ f ∈ finders conventions definitions, f.IsAmong models := by
  intro f hf
  obtain ⟨d, hd, rfl⟩ := List.mem_map.mp hf
  obtain ⟨⟨registry, fileId, location, text, hparse⟩, hname, hrelations, hfileId⟩ :=
    hdefinitions d hd
  exact ⟨isPlain_ofDefinition conventions _ hparse, hname,
    fun r hr => hrelations r (List.mem_filter.mp hr).1, hfileId⟩

/-- The stem of a finder has no slash. -/
theorem Finder.slash_notMem_stem {f : Finder} (hname : '/' ∉ f.definition.name.toList)
    (hfileId : '/' ∉ f.definition.fileId.toList) : '/' ∉ f.stem.toList := by
  have hkebab := notMem_modelKebab (x := '/') (by decide) (by decide) (by decide) hname
  unfold Finder.stem
  dsimp only
  split
  · simp [hkebab]
  · simp [hfileId]

private theorem Finder.IsAmong.slash_notMem_stem {f : Finder} (h : f.IsAmong models) :
    '/' ∉ f.stem.toList :=
  f.slash_notMem_stem (notMem_of_isWord h.definition.name.2 (by decide)) h.fileId

private theorem resolves_controllerSource {fs : List Finder} (hfs : ∀ f ∈ fs, f.IsAmong models) :
    ∀ e ∈ (controllerSource fs).source.imports.entries, Resolves models e := by
  refine resolves_ofList (List.forall_mem_append.mpr ⟨?_, fun p hp => ?_⟩)
  · simp only [List.forall_mem_cons]
    exact ⟨resolves_of_foreign (by decide), resolves_of_foreign (by decide),
      resolves_of_foreign (by decide), by simp⟩
  · obtain ⟨f, hf, hp⟩ := List.mem_flatMap.mp hp
    have hname : '/' ∉ f.definition.name.toList :=
      notMem_of_isWord (hfs f hf).definition.name.2 (by decide)
    have hstem := (hfs f hf).slash_notMem_stem
    simp only [List.mem_cons, List.not_mem_nil, or_false] at hp
    rcases hp with rfl | rfl
    · exact resolves_relative (by decide) hstem (by simp [Finder.requestClass, hname])
    · exact resolves_relative (by decide) hstem (by simp [Finder.responseClass, hname])

private theorem resolves_requestSource
    (hpackage : ¬ MentionsModel conventions.validatorPackage.toList)
    {f : Finder} (h : f.IsAmong models) :
    ∀ e ∈ (f.requestSource conventions).imports.entries, Resolves models e := by
  unfold Finder.requestSource
  split
  · simp [SourceFile.ofClass]
  · rename_i key hkey
    have hvalidator : '/' ∉ key.type.validatorName.toList :=
      notMem_of_isWord (h.key key hkey).isWord_validatorName (by decide)
    refine resolves_ofList (List.forall_mem_append.mpr ⟨?_, ?_⟩)
    · refine List.forall_mem_singleton.mpr (resolves_of_foreign ⟨?_, hpackage⟩)
      simp only [List.forall_mem_cons]
      exact ⟨by decide, hvalidator, by simp⟩
    · split
      · exact List.forall_mem_singleton.mpr (resolves_of_foreign (by decide))
      · simp

private theorem resolves_responseSource {f : Finder} (h : f.IsAmong models) :
    ∀ e ∈ f.responseSource.imports.entries, Resolves models e := by
  refine resolves_addModels (resolves_ofList ?_) fun model hmodel => ?_
  · simp only [List.forall_mem_cons]
    exact ⟨resolves_of_foreign (by decide), resolves_of_foreign (by decide),
      resolves_of_foreign (by decide), resolves_of_foreign (by decide),
      .inr (isModelImport_model h.name h.definition.name), by simp⟩
  · obtain ⟨r, hr, rfl⟩ := List.mem_map.mp (mem_firstOccurrences.mp hmodel)
    exact ⟨h.relations r hr, (h.included r hr).2.1⟩

/-- The imports of models in the files of the info layer name classes of models. -/
theorem importsModels_output (hpackage : ¬ MentionsModel conventions.validatorPackage.toList)
    (hdefinitions : ∀ d ∈ definitions, NestLayers.IsAmong models d) :
    ∀ a ∈ (output conventions definitions).artifacts, ImportsModels models a.content := by
  have hfs : ∀ f ∈ finders conventions definitions, f.IsAmong models :=
    isAmong_finders hdefinitions
  have hplain := fun f hf => (hfs f hf).toIsPlain
  intro a ha
  obtain ⟨source, hsource, rfl⟩ := List.mem_map.mp ha
  change ImportsModels models source.source.text
  rcases List.mem_append.mp hsource with hsource | hsource
  · simp only [List.mem_cons, List.not_mem_nil, or_false] at hsource
    rcases hsource with rfl | rfl | rfl
    · refine importsModels_text (noImport_repositorySource hplain) ?_
      refine resolves_ofList ?_
      simp only [List.forall_mem_cons]
      exact ⟨resolves_of_foreign (by decide), resolves_of_foreign (by decide), by simp⟩
    · refine importsModels_text (noImport_serviceSource hplain) ?_
      refine resolves_ofList ?_
      simp only [List.forall_mem_cons]
      exact ⟨resolves_of_foreign (by decide), resolves_of_foreign (by decide),
        resolves_of_foreign (by decide), by simp⟩
    · exact importsModels_text (noImport_controllerSource hplain) (resolves_controllerSource hfs)
  · obtain ⟨f, hf, hsource⟩ := List.mem_flatMap.mp hsource
    simp only [Finder.contracts, List.mem_cons, List.not_mem_nil, or_false] at hsource
    rcases hsource with rfl | rfl
    · exact importsModels_text (noImport_requestSource conventions (hplain f hf))
        (resolves_requestSource hpackage (hfs f hf))
    · exact importsModels_text (noImport_responseSource (hplain f hf))
        (resolves_responseSource (hfs f hf))

end Layer.Info

/-! ## The model layer -/

/-- A line of the text declares an exported class of the name. -/
def DeclaresClass (text name : String) : Prop :=
  ∃ line ∈ splitNewlines text.toList, ("export class " ++ name ++ " ").toList <+: line

/-- The model layer has a file for each definition that declares its class. -/
theorem Layer.Model.exists_artifact (conventions : Conventions) {ds : List Definition}
    (hd : d ∈ ds) (hname : IsOneLine d.name) :
    ∃ target ∈ (Layer.Model.output conventions ds).artifacts,
      target.path = modelKebab d.name ++ ".model.ts" ∧
      DeclaresClass target.content (Conventions.modelClass d.name) := by
  refine ⟨(Layer.Model.source conventions d).artifact, List.mem_map_of_mem hd, rfl, ?_⟩
  obtain ⟨line, hline, hone, hstarts⟩ :=
    ClassDecl.exists_line (c := Layer.Model.classOf conventions d) rfl
      (isOneLine_append.mpr ⟨hname, by decide⟩) isOneLine_empty (by simp [Layer.Model.classOf])
  have hdeclaration : Declaration.class_ (Layer.Model.classOf conventions d) ∈
      (Layer.Model.source conventions d).source.declarations := by
    simp [Layer.Model.source, SourceFile.ofClass, SourceFile.declarations]
  exact ⟨line.toList, SourceFile.mem_splitNewlines_of_mem_declarations hdeclaration hline hone,
    hstarts⟩

/-- Every import statement in the files that mentions the model layer can be read, and each name
that it takes is that of a class that a file of the model layer at this place exports. -/
def ModelImportsResolve (files models : List Artifact) : Prop :=
  ∀ file ∈ files, ∀ line ∈ splitNewlines file.content.toList, IsImportLine line →
    MentionsModel line →
    ∃ stem i, Import.ofLine? line = some i ∧ i.origin = "@model/" ++ stem ++ ".model" ∧
      ∀ name ∈ i.names, ∃ target ∈ models, target.path = stem ++ ".model.ts" ∧
        DeclaresClass target.content name

private theorem modelImportsResolve_of_importsModels (conventions : Conventions)
    {files : List Artifact} {ds : List Definition} (hds : ∀ d ∈ ds, IsAmong (ds.map (·.name)) d)
    (h : ∀ file ∈ files, ImportsModels (ds.map (·.name)) file.content) :
    ModelImportsResolve files (Layer.Model.output conventions ds).artifacts := by
  intro file hfile line hline himport hmentions
  obtain ⟨stem, i, hread, horigin, hnames⟩ := h file hfile line hline himport hmentions
  refine ⟨stem, i, hread, horigin, fun name hname => ?_⟩
  obtain ⟨model, hmodel, rfl, rfl⟩ := hnames name hname
  obtain ⟨d, hd, rfl⟩ := List.mem_map.mp hmodel
  obtain ⟨registry, fileId, location, text, hparse⟩ := (hds d hd).isRead
  have hname := (Definition.isPlain_of_parse hparse).name
  exact Layer.Model.exists_artifact conventions hd (isOneLine_of_isWord hname.2)

/-- Neither the name of a definition nor that of its unit has a slash in it. -/
theorem DefinitionStore.IsReadFrom.slash_notMem {registry : Registry} {tree : FileTree}
    {unit : Location × Path} {d : Definition} (h : IsReadFrom registry tree unit d) :
    '/' ∉ d.name.toList ∧ '/' ∉ d.fileId.toList := by
  obtain ⟨text, -, hparse⟩ := h
  refine ⟨notMem_of_isWord (Definition.isPlain_of_parse hparse).name.2 (by decide), ?_⟩
  rw [(Definition.origin_of_parse hparse).1]
  have hslash := (isPlainName_unitId unit.2.name).1.slash_notMem
  rw [String.toList_append] at hslash
  exact fun hmem => hslash (List.mem_append_left _ hmem)

/-- All models of the definitions of a store are declared. -/
theorem DefinitionStore.isAmong_of_loadAll {store : DefinitionStore} {registry : Registry}
    {s s₁ s₂ : Session} {ds : List Definition} (hbuild : store.buildRegistry s = .ok registry s₁)
    (hload : store.loadAll registry true s₁ = .ok ds s₂) (hmarks : store.IsUnmarked s) :
    ∀ d ∈ ds, IsAmong (ds.map (·.name)) d := by
  intro d hd
  obtain ⟨-, units, t, -, hds⟩ := loadAll_eq_ok hload
  obtain ⟨unit, -, hread⟩ := exists_of_forall₂ hds hd
  obtain ⟨text, -, hparse⟩ := id hread
  refine ⟨⟨_, _, _, _, hparse⟩, List.mem_map_of_mem hd, fun r hr => ?_, hread.slash_notMem.2⟩
  obtain ⟨hregistered, -⟩ := Definition.of_mem_relations hparse hr
  obtain ⟨e, he, hname⟩ := exists_definition_of_contains hbuild hload hmarks hregistered
  exact hname ▸ List.mem_map_of_mem he

section Store

variable {store : DefinitionStore} {registry : Registry} {s s₁ s₂ : Session} {ds : List Definition}

/-- The imports of the info layer resolve, if those of the checks are known to lead elsewhere. -/
theorem infoImports_resolve (conventions : Conventions)
    (hpackage : ¬ MentionsModel conventions.validatorPackage.toList)
    (hbuild : store.buildRegistry s = .ok registry s₁)
    (hload : store.loadAll registry true s₁ = .ok ds s₂) (hmarks : store.IsUnmarked s) :
    ModelImportsResolve
      (Layer.Info.output conventions (ds.filter (·.location == .aggregate))).artifacts
      (Layer.Model.output conventions ds).artifacts := by
  have hds := store.isAmong_of_loadAll hbuild hload hmarks
  exact modelImportsResolve_of_importsModels conventions hds
    (Layer.Info.importsModels_output hpackage fun d hd => hds d (List.mem_filter.mp hd).1)

/-- With the default package of the checks nothing more is needed. -/
theorem infoImports_resolve_default {conventions : Conventions}
    (hdefault : conventions.validatorPackage = ({} : Conventions).validatorPackage)
    (hbuild : store.buildRegistry s = .ok registry s₁)
    (hload : store.loadAll registry true s₁ = .ok ds s₂) (hmarks : store.IsUnmarked s) :
    ModelImportsResolve
      (Layer.Info.output conventions (ds.filter (·.location == .aggregate))).artifacts
      (Layer.Model.output conventions ds).artifacts :=
  infoImports_resolve conventions (by rw [hdefault]; decide) hbuild hload hmarks

/-- **Imports of models resolve.** Let the registry be built from the units of a store and let all
of them be read with it. Then every import from the model layer, in the response contracts of each
definition and in the info layer of the aggregates, takes classes that the file of the model layer
at its place exports. A file of the info layer also imports its checks, from a package that is a
setting. A setting like `@model/other.model` would make this an import from the model layer, of
names that no model has; so the package must not be a place in the model layer. That of the default
settings is none: see `infoImports_resolve_default`. -/
theorem modelImports_resolve (conventions : Conventions) {store : DefinitionStore}
    {registry : Registry} {s s₁ s₂ : Session} {ds : List Definition}
    (hbuild : store.buildRegistry s = .ok registry s₁)
    (hload : store.loadAll registry true s₁ = .ok ds s₂) (hmarks : store.IsUnmarked s) :
    (∀ d ∈ ds, ∀ word : String, IsIdentifier word.toList →
      ModelImportsResolve
        (Layer.ResponseContract.output (conventions.resourceName word) d
          (conventions.resourceName word).profile).artifacts
        (Layer.Model.output conventions ds).artifacts) ∧
    ∃ aggregates s₃, store.loadAggregates registry s₂ = .ok aggregates s₃ ∧
      aggregates = ds.filter (·.location == .aggregate) ∧
      (¬ MentionsModel conventions.validatorPackage.toList →
        ModelImportsResolve (Layer.Info.output conventions aggregates).artifacts
          (Layer.Model.output conventions ds).artifacts) := by
  constructor
  · have hds := store.isAmong_of_loadAll hbuild hload hmarks
    intro d hd word hword
    refine modelImportsResolve_of_importsModels conventions hds fun file hfile => ?_
    obtain ⟨action, -, rfl⟩ := List.mem_map.mp hfile
    obtain ⟨⟨_, _, _, _, hparse⟩, hname, hrelations, -⟩ := hds d hd
    exact importsModels_response (ResourceName.isPlain_ofWord conventions.managementMarker hword)
      (Definition.isPlain_of_parse hparse) hname hrelations action
  · obtain ⟨htree, -⟩ := DefinitionStore.loadAll_eq_ok hload
    obtain ⟨s₃, hload'⟩ := DefinitionStore.exists_loadAggregates_eq_ok hload htree
    exact ⟨_, s₃, hload', rfl, fun hpackage =>
      infoImports_resolve conventions hpackage hbuild hload hmarks⟩

end Store

/-- What work gives, unless it stops. -/
def valueOf {α : Type} : EStateM.Result Stop Session α → Option α
  | .ok a _ => some a
  | .error _ _ => none

/-- A run with a value went well. -/
theorem eq_ok_of_valueOf {α : Type} {result : EStateM.Result Stop Session α} {a : α}
    (h : valueOf result = some a) : result = .ok a (Generator.sessionOf result) := by
  cases result with
  | ok b s => exact congrArg (EStateM.Result.ok · s) (Option.some.inj h)
  | error stop s => cases h

section

open Generator

/-- The registry of the units of a project, and their definitions. -/
def loadProject : Work (Registry × List Definition) := do
  let registry ← (orderGenerator direct).store.buildRegistry
  let ds ← (orderGenerator direct).store.loadAll registry true
  return (registry, ds)

/-- The imports of the response to the creation of an order. -/
def orderImports (d : Definition) : List Import :=
  let n := ({} : Conventions).resourceName "order"
  (Layer.ResponseContract.source n d n.profile .create).source.imports.entries

private theorem isUnmarked_direct : (orderGenerator direct).store.IsUnmarked orderProject := by
  intro units s' hunits unit hunit text htext
  have hvalue : valueOf ((orderGenerator direct).store.allFiles orderProject) =
      some [Generator.orderUnit, (.aggregate, ⟨.current, ["info", "order-info.prisma"]⟩)] := by
    decide +kernel
  rw [hunits] at hvalue
  obtain rfl := Option.some.inj hvalue
  have hread := htext orderProject rfl
  have hstart : ∀ unit ∈ [Generator.orderUnit,
        (.aggregate, ⟨.current, ["info", "order-info.prisma"]⟩)],
      ((valueOf (DefinitionStore.readUnit unit.2 orderProject)).all
        fun text => text.toList.head? != some '\ufeff') = true := by
    decide +kernel
  simpa [hread, valueOf] using hstart unit hunit

/-- An ordinary model with relations to an aggregate model, whose class is imported. -/
theorem modelImports_resolve_order :
    (orderGenerator direct).store.IsUnmarked orderProject ∧
    ∃ registry s₁ ds s₂, (orderGenerator direct).store.buildRegistry orderProject =
        .ok registry s₁ ∧
      (orderGenerator direct).store.loadAll registry true s₁ = .ok ds s₂ ∧
      (∃ d ∈ ds, ⟨"@model/order-info.model", ["OrderInfoModel"]⟩ ∈ orderImports d ∧
        ModelImportsResolve
          (Layer.ResponseContract.output (({} : Conventions).resourceName "order") d
            (({} : Conventions).resourceName "order").profile).artifacts
          (Layer.Model.output {} ds).artifacts) ∧
      ∃ aggregates s₃,
        (orderGenerator direct).store.loadAggregates registry s₂ = .ok aggregates s₃ ∧
        ModelImportsResolve (Layer.Info.output {} aggregates).artifacts
          (Layer.Model.output {} ds).artifacts := by
  have hword : IsIdentifier "order".toList := ⟨by decide, List.all_eq_true.mp (by decide)⟩
  have hvalue : ∃ p ∈ valueOf (loadProject orderProject), ∃ d ∈ p.2,
      ⟨"@model/order-info.model", ["OrderInfoModel"]⟩ ∈ orderImports d := by
    have hany : (valueOf (loadProject orderProject)).any (fun p => p.2.any fun d =>
        decide (⟨"@model/order-info.model", ["OrderInfoModel"]⟩ ∈ orderImports d)) = true := by
      decide +kernel
    simpa [Option.any_eq_true] using hany
  obtain ⟨⟨registry, ds⟩, hp, d, hd, himport⟩ := hvalue
  obtain ⟨_, s₁, hbuild, hrest⟩ := bind_eq_ok.mp (eq_ok_of_valueOf hp)
  obtain ⟨_, s₂, hload, hend⟩ := bind_eq_ok.mp hrest
  obtain ⟨hpair, -⟩ := EStateM.Result.ok.inj hend
  obtain ⟨rfl, rfl⟩ := Prod.mk.inj hpair
  obtain ⟨hresponses, aggregates, s₃, haggregates, -, hinfo⟩ :=
    modelImports_resolve {} hbuild hload isUnmarked_direct
  exact ⟨isUnmarked_direct, _, s₁, _, s₂, hbuild, hload,
    ⟨d, hd, himport, hresponses d hd "order" hword⟩,
    aggregates, s₃, haggregates, hinfo (by decide)⟩

end

end NestLayers
