import NestLayers.Proofs.PackageLayout
import NestLayers.Proofs.PlainClasses

/-!
# A package is closed under its imports

Every import statement in the text of a generated package that names a file leads to a file of
the same package, and that file exports the names taken from it. Each file is looked at on its
own: which imports it has, and what it exports.
-/

namespace NestLayers

open NestLayers.Text NestLayers.Naming NestLayers.TypeScript

/-- The hyphenated form of a name has no new characters below the letters but hyphens. -/
theorem notMem_modelKebab {name : String} {x : Char} (hlow : 0 < x.toNat) (hhigh : x.toNat < 65)
    (hhyphen : x ≠ '-') (hx : x ∉ name.toList) : x ∉ (modelKebab name).toList := by
  intro hmem
  rw [modelKebab, String.toList_ofList] at hmem
  rcases mem_of_mem_hyphenateAcronyms (mem_of_mem_lowerChars hlow hhigh hmem) with rfl | hmem
  · exact hhyphen rfl
  rcases mem_of_mem_hyphenateWords hmem with rfl | hmem
  · exact hhyphen rfl
  · exact hx hmem

/-- The import of the class of a model comes from a package of its own. -/
theorem isPackageImport_model {model : String} (h : IsModelName model.toList) :
    IsPackageImport (Conventions.modelOrigin model) [Conventions.modelClass model] := by
  obtain ⟨hne, hword⟩ := h
  have hquote := notMem_modelKebab (x := '\x22') (by decide) (by decide) (by decide)
    (notMem_of_isWord hword (by decide))
  have hnewline := notMem_modelKebab (x := '\n') (by decide) (by decide) (by decide)
    (notMem_of_isWord hword (by decide))
  have hname : ∀ c ∈ (Conventions.modelClass model).toList, isWord c = true := by
    simp only [Conventions.modelClass, String.toList_append, List.forall_mem_append]
    exact ⟨hword, List.all_eq_true.mp (by decide)⟩
  refine ⟨⟨by simp, ?_⟩, ?_, ?_, ?_⟩
  · rw [List.forall_mem_singleton]
    refine ⟨⟨by simp [Conventions.modelClass], fun c hc => ?_⟩, isOneLine_of_isWord hname⟩
    constructor
    · rw [isSeparator, Bool.or_eq_false_iff, beq_eq_false_iff_ne, beq_eq_false_iff_ne]
      constructor
      · rintro rfl
        exact absurd (hname _ hc) (by decide)
      · rintro rfl
        exact absurd (hname _ hc) (by decide)
    · rintro rfl
      exact absurd (hname _ hc) (by decide)
  · unfold Conventions.modelOrigin
    simp [hquote]
  · unfold Conventions.modelOrigin
    simp only [isOneLine_append]
    exact ⟨⟨by decide, hnewline⟩, by decide⟩
  · unfold Conventions.modelOrigin
    simp

/-- What can be the name of a type can be the name of a model. -/
theorem FieldLine.IsName.isModelName {cs : List Char} (h : FieldLine.IsName cs) :
    IsModelName cs := by
  refine ⟨?_, h.isWord⟩
  rintro rfl
  exact h

namespace PackageFile

/-- The source of a file of a package; `requests` gives the fields of each action's request. -/
def source (conventions : Conventions) (n : ResourceName) (d : Definition) (id : Field)
    (requests : Action → List (Field × Bool)) : PackageFile → SourceArtifact
  | .module => Layer.Wiring.moduleSource n
  | .controller => Layer.Controller.source n d id
  | .service => Layer.Service.source n d id
  | .repository => Layer.Repository.source n d id
  | .interface action => Layer.Wiring.interfaceSource n action
  | .request action => Layer.RequestContract.source conventions n action (requests action)
  | .response action => Layer.ResponseContract.source n d n.profile action

variable {conventions : Conventions} {n : ResourceName} {d : Definition} {id : Field}
  {requests : Action → List (Field × Bool)}

/-- A file is generated at its place. -/
theorem path_source (f : PackageFile) : (f.source conventions n d id requests).path = f.path n := by
  cases f with
  | module => exact @path_of_directory_eq_nil n .module rfl ".module.ts" (by decide)
  | controller => exact @path_of_directory_eq_nil n .controller rfl ".controller.ts" (by decide)
  | service => exact @path_of_directory_eq_nil n .service rfl ".service.ts" (by decide)
  | repository => exact @path_of_directory_eq_nil n .repository rfl ".repository.ts" (by decide)
  | interface action => exact path_interfaceSource action
  | request action => exact path_requestSource _ action (requests action)
  | response action => exact path_responseSource _ _ action

/-- A file exports its name. -/
theorem exported_mem_source (f : PackageFile) :
    f.exported n ∈ (f.source conventions n d id requests).source.exportedNames := by
  have hclass {imports : Imports} {c : ClassDecl} (hc : c.exported = true) :
      c.name ∈ (SourceFile.ofClass imports c).exportedNames := by
    simp [SourceFile.ofClass, SourceFile.exportedNames, SourceFile.declarations,
      Declaration.exportedName?, hc]
  cases f with
  | module => exact hclass rfl
  | controller => exact hclass rfl
  | service => exact hclass rfl
  | repository => exact hclass rfl
  | request action => exact hclass rfl
  | interface action => exact List.mem_cons_self
  | response action => exact List.mem_cons_self

/-- A module imports the three classes that it wires. -/
theorem isSoundImport_module (hn : n.IsPlain) :
    ∀ e ∈ (Layer.Wiring.moduleSource n).source.imports.entries, IsSoundImport n .module e := by
  refine isSoundImport_ofList ?_
  simp only [List.forall_mem_cons]
  refine ⟨isSoundImport_package (by decide), isSoundImport_file hn _ .controller ?_ rfl,
    isSoundImport_file hn _ .service ?_ rfl, isSoundImport_file hn _ .repository ?_ rfl, by simp⟩
  all_goals simp [origin, up, directory, suffix]

/-- A controller imports its service and all contracts. -/
theorem isSoundImport_controller (hn : n.IsPlain) :
    ∀ e ∈ (Layer.Controller.imports n).entries, IsSoundImport n .controller e := by
  refine isSoundImport_ofList ?_
  simp only [List.forall_mem_append, List.forall_mem_cons]
  refine ⟨⟨⟨isSoundImport_package (by decide), isSoundImport_package (by decide),
    isSoundImport_file hn _ .service ?_ rfl, by simp⟩, ?_⟩, isSoundImport_package (by decide),
    isSoundImport_package (by decide), isSoundImport_package (by decide), by simp⟩
  · simp [origin, up, directory, suffix]
  · intro p hp
    obtain ⟨action, -, hp⟩ := List.mem_flatMap.mp hp
    unfold Layer.Controller.contractImports at hp
    simp only [List.mem_cons, List.not_mem_nil, or_false] at hp
    rcases hp with rfl | rfl
    · refine isSoundImport_file hn _ (.request action) ?_ rfl
      simp [origin, up, directory, suffix]
    · refine isSoundImport_file hn _ (.response action) ?_ rfl
      simp [origin, up, directory, suffix]

/-- A service imports its repository and the interfaces. -/
theorem isSoundImport_service (hn : n.IsPlain) :
    ∀ e ∈ (Layer.Service.imports n).entries, IsSoundImport n .service e := by
  refine isSoundImport_ofList ?_
  simp only [List.forall_mem_append, List.forall_mem_cons]
  refine ⟨⟨isSoundImport_package (by decide), isSoundImport_package (by decide),
    isSoundImport_file hn _ .repository ?_ rfl, by simp⟩, ?_⟩
  · simp [origin, up, directory, suffix]
  · intro p hp
    obtain ⟨action, -, rfl⟩ := List.mem_map.mp hp
    refine isSoundImport_file hn _ (.interface action) ?_ rfl
    simp [origin, up, directory, suffix]

/-- A repository imports the interface of lists. -/
theorem isSoundImport_repository (hn : n.IsPlain) :
    ∀ e ∈ (Layer.Repository.imports n).entries, IsSoundImport n .repository e := by
  refine isSoundImport_ofList ?_
  simp only [List.forall_mem_cons]
  refine ⟨isSoundImport_package (by decide), isSoundImport_package (by decide),
    isSoundImport_package (by decide), isSoundImport_package (by decide),
    isSoundImport_package (by decide), isSoundImport_package (by decide),
    isSoundImport_file hn _ (.interface .findList) ?_ rfl, by simp⟩
  simp [origin, up, directory, suffix, Action.kebab]

/-- An interface imports the contract that it is taken from. -/
theorem isSoundImport_interface (hn : n.IsPlain) (action : Action) :
    ∀ e ∈ (Layer.Wiring.interfaceSource n action).source.imports.entries,
      IsSoundImport n (.interface action) e := by
  refine isSoundImport_ofList ?_
  rw [List.forall_mem_singleton]
  refine isSoundImport_file hn _ (.request action) ?_ rfl
  simp [origin, up, directory, suffix]

/-- The checks of a request have names that can be imported. -/
theorem isImportName_checks {fields : List (Field × Bool)} (hfields : ∀ p ∈ fields, p.1.IsPlain) :
    ∀ name ∈ Layer.RequestContract.checks fields, IsImportName name.toList ∧ IsOneLine name := by
  have hknown : ∀ name ∈ ["IsNotEmpty", "IsOptional", "IsString", "IsInt", "IsBoolean", "IsDate",
      "IsDecimal", "IsEnum"], IsImportName name.toList ∧ IsOneLine name := by decide
  intro name hname
  refine hknown name ?_
  obtain ⟨⟨f, required⟩, hf, hname⟩ := List.mem_flatMap.mp hname
  obtain ⟨-, -, -, hvalidator⟩ := (hfields _ hf).isOneLine
  simp only [List.mem_cons, List.not_mem_nil, or_false] at hname hvalidator ⊢
  rcases hname with rfl | rfl
  · cases required <;> simp [Layer.RequestContract.presence]
  · simp only [hvalidator, or_true]

/-- A request contract imports its interface, besides checks and enumerations. -/
theorem isSoundImport_request (hn : n.IsPlain)
    (hpackage : conventions.validatorPackage = "class-validator")
    {fields : List (Field × Bool)} (hfields : ∀ p ∈ fields, p.1.IsPlain) (action : Action) :
    ∀ e ∈ (Layer.RequestContract.imports conventions n action fields).entries,
      IsSoundImport n (.request action) e := by
  refine isSoundImport_ofList ?_
  simp only [List.forall_mem_append, List.forall_mem_singleton]
  refine ⟨⟨⟨?_, ?_⟩, isSoundImport_file hn _ (.interface action) ?_ rfl⟩, ?_⟩
  · split
    · simp
    rename_i hused
    have horigin : '\x22' ∉ "class-validator".toList ∧ IsOneLine "class-validator" ∧
        "class-validator".toList.head? ≠ some '.' := by decide
    rw [List.forall_mem_singleton, hpackage]
    refine isSoundImport_package ⟨⟨by simpa using hused, fun name hname => ?_⟩, horigin⟩
    exact isImportName_checks hfields name
      (mem_firstOccurrences.mp ((perm_inOrder _).mem_iff.mp hname))
  · split
    · rw [List.forall_mem_singleton]
      exact isSoundImport_package (by decide)
    · simp
  · simp [origin, up, directory, suffix]
  · split
    · rw [List.forall_mem_singleton]
      exact isSoundImport_package (by decide)
    · simp

/-- Importing the classes of models keeps a table sound. -/
theorem isSoundImport_addModels {f : PackageFile} {imports : Imports} {models : List String}
    (h : ∀ e ∈ imports.entries, IsSoundImport n f e)
    (hmodels : ∀ model ∈ models, IsModelName model.toList) :
    ∀ e ∈ (Layer.ResponseContract.addModels imports models).entries, IsSoundImport n f e := by
  unfold Layer.ResponseContract.addModels
  induction models generalizing imports with
  | nil => exact h
  | cons model models ih =>
    obtain ⟨hmodel, hrest⟩ := List.forall_mem_cons.mp hmodels
    exact ih (isSoundImport_add h (isPackageImport_model hmodel)) hrest

/-- The models that a definition is related to have names. -/
theorem isModelName_relatedModels (hd : d.IsPlain) :
    ∀ model ∈ Layer.ResponseContract.relatedModels d.relations, IsModelName model.toList := by
  intro model hmodel
  obtain ⟨r, hr, rfl⟩ := List.mem_map.mp (mem_firstOccurrences.mp hmodel)
  exact (hd.relations r hr).isModelName

/-- A response contract imports its service, besides the models that it is built from. -/
theorem isSoundImport_response (hn : n.IsPlain) (hd : d.IsPlain) (action : Action) :
    ∀ e ∈ (Layer.ResponseContract.imports n d action).entries,
      IsSoundImport n (.response action) e := by
  refine isSoundImport_addModels (isSoundImport_ofList ?_) (isModelName_relatedModels hd)
  simp only [List.forall_mem_cons]
  refine ⟨isSoundImport_package ?_, isSoundImport_package (by decide),
    isSoundImport_package (by decide), isSoundImport_file hn _ .service ?_ rfl,
    isSoundImport_package (isPackageImport_model hd.name), by simp⟩
  · cases action <;> decide
  · simp [origin, up, directory, suffix]

/-- All imports of a file are sound. -/
theorem isSoundImport_source (hn : n.IsPlain) (hd : d.IsPlain)
    (hpackage : conventions.validatorPackage = "class-validator")
    (hrequests : ∀ action, ∀ p ∈ requests action, p.1.IsPlain) (f : PackageFile) :
    ∀ e ∈ (f.source conventions n d id requests).source.imports.entries, IsSoundImport n f e := by
  cases f with
  | module => exact isSoundImport_module hn
  | controller =>
    unfold source Layer.Controller.source SourceFile.ofClass
    dsimp only
    exact isSoundImport_controller hn
  | service =>
    unfold source Layer.Service.source SourceFile.ofClass
    dsimp only
    exact isSoundImport_service hn
  | repository =>
    unfold source Layer.Repository.source SourceFile.ofClass
    dsimp only
    exact isSoundImport_repository hn
  | interface action => exact isSoundImport_interface hn action
  | request action =>
    unfold source Layer.RequestContract.source SourceFile.ofClass
    dsimp only
    exact isSoundImport_request hn hpackage (hrequests action) action
  | response action =>
    unfold source Layer.ResponseContract.source
    dsimp only
    exact isSoundImport_response hn hd action

/-- A file is plain if its groups are. -/
theorem isPlain_of_groups {f : SourceFile} (himports : ∀ i ∈ f.imports.entries, IsOneLine i.line)
    (hgroups : ∀ g ∈ f.groups,
      (∀ doc ∈ g.doc, IsOneLine doc) ∧ ∀ decl ∈ g.declarations, decl.IsPlain) : f.IsPlain := by
  refine ⟨himports, fun g hg => (hgroups g hg).1, fun decl hdecl => ?_⟩
  obtain ⟨g, hg, hdecl⟩ := List.mem_flatMap.mp hdecl
  exact (hgroups g hg).2 decl hdecl

/-- A file with one plain class is plain. -/
theorem isPlain_ofClass {imports : Imports} {c : ClassDecl}
    (himports : ∀ i ∈ imports.entries, IsOneLine i.line) (hc : c.IsPlain) :
    (SourceFile.ofClass imports c).IsPlain := by
  refine isPlain_of_groups himports (List.forall_mem_singleton.mpr ⟨by simp, ?_⟩)
  exact List.forall_mem_singleton.mpr hc

/-- The response contract of an action is plain. -/
theorem isPlain_responseSource (hn : n.IsPlain) (hd : d.IsPlain) (action : Action) :
    (Layer.ResponseContract.source n d n.profile action).source.IsPlain := by
  obtain ⟨-, hpascal, -⟩ := hn.isOneLine
  have haction : IsOneLine action.pascal := by
    cases action <;> decide
  have howner : IsOneLine (n.pascal ++ action.pascal) := isOneLine_append.mpr ⟨hpascal, haction⟩
  have hmodels : ∀ model ∈ Layer.ResponseContract.relatedModels d.relations, IsOneLine model :=
    fun model hmodel => isOneLine_of_isWord (isModelName_relatedModels hd model hmodel).2
  have homitted : ∀ name ∈ Layer.ResponseContract.omittedFields d n.profile action,
      IsOneLine name := by
    intro name hname
    unfold Layer.ResponseContract.omittedFields at hname
    split at hname
    · cases hname
    · obtain ⟨f, hf, rfl⟩ := List.mem_map.mp hname
      exact (hd.fields f (List.mem_filter.mp hf).1).isOneLine.1
  have hdoc {text : String} (htext : IsOneLine text) : ∀ doc ∈ some text, IsOneLine doc :=
    fun _ hmem => Option.some.inj hmem ▸ htext
  refine isPlain_of_groups (fun i hi => ?_) ?_
  · exact (isSoundImport_response hn hd action i hi).isOneLine_line
  · refine List.forall_mem_append.mpr ⟨List.forall_mem_cons.mpr ⟨⟨hdoc (by decide), ?_⟩,
      List.forall_mem_singleton.mpr ⟨hdoc (by decide), ?_⟩⟩,
      Layer.ResponseContract.isPlain_includedModels howner hmodels⟩
    · exact List.forall_mem_singleton.mpr (Layer.ResponseContract.isPlain_responseClass hn action)
    · refine List.forall_mem_singleton.mpr (Layer.ResponseContract.isPlain_omitting ?_
        (isOneLine_of_isWord hd.name.2) homitted (by simp))
      exact isOneLine_append.mpr ⟨howner, by decide⟩

/-- Every file of a package is plain. -/
theorem isPlain_source (hn : n.IsPlain) (hd : d.IsPlain) (hid : id.IsPlain)
    (hpackage : conventions.validatorPackage = "class-validator")
    (hrequests : ∀ action, ∀ p ∈ requests action, p.1.IsPlain) (f : PackageFile) :
    (f.source conventions n d id requests).source.IsPlain := by
  have himports : ∀ i ∈ (f.source conventions n d id requests).source.imports.entries,
      IsOneLine i.line :=
    fun i hi => (isSoundImport_source hn hd hpackage hrequests f i hi).isOneLine_line
  cases f with
  | module => exact isPlain_ofClass himports (Layer.Wiring.isPlain_moduleClass hn)
  | controller =>
    exact isPlain_ofClass himports (Layer.Controller.hasTexts_classOf hn hd hid).isPlain
  | service => exact isPlain_ofClass himports (Layer.Service.hasTexts_classOf hn hd hid).isPlain
  | repository =>
    exact isPlain_ofClass himports (Layer.Repository.hasTexts_classOf hn hd hid).isPlain
  | interface action =>
    obtain ⟨-, hpascal, -⟩ := hn.isOneLine
    have haction : IsOneLine action.pascal := by
      cases action <;> decide
    refine isPlain_of_groups himports (List.forall_mem_singleton.mpr ⟨by simp, ?_⟩)
    refine List.forall_mem_singleton.mpr ⟨?_, ?_⟩
    · simp only [isOneLine_append, hpascal, haction, and_true]
      decide
    · simp only [isOneLine_append, hpascal, haction, true_and]
      decide
  | request action =>
    exact isPlain_ofClass himports
      (Layer.RequestContract.isPlain_classOf hn (hrequests action) action)
  | response action => exact isPlain_responseSource hn hd action

end PackageFile

/-- The files of a package: those of its seven layers, in order. -/
def packageFiles (conventions : Conventions) (n : ResourceName) (d : Definition) :
    Except IdentifierError (List Artifact) := do
  let outputs ← Layer.packageLayers.mapM (Layer.render conventions n d)
  return outputs.flatMap (·.artifacts)

/-- Every import statement in a file can be read, and one that comes from a file comes from one of
the files, which declares each name that is taken from it. -/
def ImportsResolve (files : List Artifact) : Prop :=
  ∀ file ∈ files, ∀ line ∈ splitNewlines file.content.toList, IsImportLine line →
    ∃ i, Import.ofLine? line = some i ∧
      (IsRelative i.origin → ∃ target ∈ files, target.path = resolveImport file.path i.origin ∧
        ∀ name ∈ i.names, Declares target.content name)

/-- A definition with one identifier field has it as its identifier. -/
theorem Definition.exists_identifier {d : Definition} (h : d.idFields.length = 1) :
    ∃ id ∈ d.fields, d.identifier = .ok id := by
  obtain ⟨id, hids⟩ := List.length_eq_one_iff.mp h
  have hmem : id ∈ d.idFields := hids ▸ List.mem_singleton_self id
  refine ⟨id, (List.mem_filter.mp hmem).1, ?_⟩
  unfold Definition.identifier
  rw [hids]

/-- With an identifier every action has a request. -/
theorem Layer.RequestContract.exists_requestFields {d : Definition} {id : Field}
    (hid : d.identifier = .ok id) (profile : Profile) (action : Action) :
    ∃ fields, requestFields d profile action = .ok fields := by
  cases action with
  | create | findList => exact ⟨_, rfl⟩
  | update | delete | findUnique =>
    rw [requestFields, hid]
    exact ⟨_, rfl⟩

/-- With requests for all actions there is a contract for each of them. -/
theorem Layer.RequestContract.output_eq_ok (conventions : Conventions) (n : ResourceName)
    {d : Definition} {profile : Profile} {requests : Action → List (Field × Bool)}
    (h : ∀ action, requestFields d profile action = .ok (requests action)) :
    output conventions n d profile =
      .ok
        { layer := .requestContract
          resource := n.camel
          resetDirectories := ["dto"]
          artifacts := Action.all.map fun action =>
            (source conventions n action (requests action)).artifact } := by
  have hcontracts : (Action.all.mapM fun action => do
      let fields ← requestFields d profile action
      return (source conventions n action fields).artifact) =
      .ok (Action.all.map fun action =>
        (source conventions n action (requests action)).artifact) := by
    simp only [h]
    rfl
  rw [output, hcontracts]
  rfl

/-- The files of a package are the sources of its files, written out. -/
theorem packageFiles_eq {conventions : Conventions} {n : ResourceName} {d : Definition} {id : Field}
    {requests : Action → List (Field × Bool)} (hid : d.identifier = .ok id)
    (hrequests : ∀ action,
      Layer.RequestContract.requestFields d n.profile action = .ok (requests action)) :
    packageFiles conventions n d = .ok (PackageFile.all.map fun f =>
      (f.source conventions n d id requests).artifact) := by
  have hcontroller : Layer.Controller.output n d =
      .ok
        { layer := .controller
          resource := n.camel
          artifacts := [(Layer.Controller.source n d id).artifact] } := by
    rw [Layer.Controller.output, hid]
    rfl
  have hservice : Layer.Service.output n d =
      .ok
        { layer := .service
          resource := n.camel
          artifacts := [(Layer.Service.source n d id).artifact] } := by
    rw [Layer.Service.output, hid]
    rfl
  have hrepository : Layer.Repository.output n d =
      .ok
        { layer := .repository
          resource := n.camel
          artifacts := [(Layer.Repository.source n d id).artifact] } := by
    rw [Layer.Repository.output, hid]
    rfl
  have hrequest := Layer.RequestContract.output_eq_ok conventions n hrequests
  unfold packageFiles Layer.packageLayers
  simp only [List.mapM_cons, List.mapM_nil, Layer.render, hcontroller, hservice, hrepository,
    hrequest]
  rfl

/-- The imports of a package resolve. -/
theorem importsResolve_sources {conventions : Conventions} {n : ResourceName} {d : Definition}
    {id : Field} {requests : Action → List (Field × Bool)} (hn : n.IsPlain) (hd : d.IsPlain)
    (hid : id.IsPlain) (hpackage : conventions.validatorPackage = "class-validator")
    (hrequests : ∀ action, ∀ p ∈ requests action, p.1.IsPlain) :
    ImportsResolve (PackageFile.all.map fun f =>
      (f.source conventions n d id requests).artifact) := by
  intro file hfile line hline himport
  obtain ⟨f, -, rfl⟩ := List.mem_map.mp hfile
  have hplain := fun f : PackageFile => f.isPlain_source hn hd hid hpackage hrequests
  obtain ⟨i, hi, -, rfl⟩ := (hplain f).exists_import hline himport
  have hsound := f.isSoundImport_source hn hd hpackage hrequests i hi
  refine ⟨_, Import.ofLine?_line hsound.isReadable, fun hrelative => ?_⟩
  obtain ⟨target, horigin, hnames⟩ := hsound.isExported hrelative
  refine ⟨_, List.mem_map_of_mem target.mem_all, ?_, fun name hname => ?_⟩
  · simp only [SourceArtifact.artifact, PackageFile.path_source, horigin]
    exact (f.resolveImport_origin hn target).symm
  · obtain rfl : name = target.exported n := by
      simpa [hnames] using mem_firstOccurrences.mp hname
    exact (hplain target).declares target.exported_mem_source

/-- **A package is closed under its imports.** For a resource name that is an ASCII identifier and
a definition with one identifier field, the package has nineteen files at distinct paths, and
every import of a file leads to a file of the package that exports the names taken from it. -/
theorem packageFiles_importsResolve (excluded : List String) {registry : Registry}
    {fileId text word : String} {location : Location} {d : Definition}
    (hword : IsIdentifier word.toList)
    (hparse : Definition.parse registry fileId location text = .ok d)
    (hids : d.idFields.length = 1) :
    ∃ files, packageFiles (({} : Settings).conventions excluded)
        ((({} : Settings).conventions excluded).resourceName word) d = .ok files ∧
      files.length = 19 ∧ (files.map (·.path)).Nodup ∧ ImportsResolve files := by
  obtain ⟨id, hmem, hid⟩ := Definition.exists_identifier hids
  have hd := Definition.isPlain_of_parse hparse
  have hn := ResourceName.isPlain_ofWord "Management" hword
  choose requests hrequests using Layer.RequestContract.exists_requestFields hid
    (ResourceName.ofWord "Management" word).profile
  have hplain : ∀ action, ∀ p ∈ requests action, p.1.IsPlain := fun action p hp =>
    hd.fields p.1 (Layer.RequestContract.mem_of_requestFields (hrequests action) p hp)
  refine ⟨_, packageFiles_eq hid hrequests, rfl, ?_,
    importsResolve_sources hn hd (hd.fields id hmem) rfl hplain⟩
  simp only [List.map_map, Function.comp_def, SourceArtifact.artifact, PackageFile.path_source]
  exact PackageFile.nodup_map_path hn

/-- The definition unit of an order with a relation and directives. -/
def orderUnit : String :=
  "// An order\nmodel Order \x7b\n  id Int @id // The number #MFU\n  status Status // State #MCR\n" ++
    "  customer Customer? @relation(fields: [customerId]) // Buyer\n\x7d\n"

/-- The model that the unit of an order declares. -/
def orderDefinition : Definition where
  name := "Order"
  description := "An order"
  fields :=
    [{ name := "id", type := .ofDeclared "Int" false, isArray := false, isId := true
       isRequired := true, tags := { management := { findUnique := some .responseExpose } }
       description := "The number", unknownDirectives := [] },
     { name := "status", type := .ofEnum "Status", isArray := false, isId := false
       isRequired := true, tags := { management := { create := some .createRequired } }
       description := "State", unknownDirectives := [] }]
  relations :=
    [{ name := "customer", relationId := some "customerId", model := "Customer"
       type := .ofRelation "Customer", isArray := false, isRequired := false
       description := "Buyer" }]
  fileId := "order"
  location := .primary

/-- The package of the management of orders is closed under its imports. -/
theorem packageFiles_importsResolve_orderManagement :
    (IsIdentifier "OrderManagement".toList ∧
      Definition.parse ⟨["Customer"], []⟩ "order" .primary orderUnit = .ok orderDefinition ∧
      orderDefinition.idFields.length = 1) ∧
    ∃ files, packageFiles (({} : Settings).conventions ["password"])
        ((({} : Settings).conventions ["password"]).resourceName "OrderManagement")
        orderDefinition = .ok files ∧
      files.length = 19 ∧ (files.map (·.path)).Nodup ∧ ImportsResolve files := by
  have hword : IsIdentifier "OrderManagement".toList := ⟨by decide, List.all_eq_true.mp (by decide)⟩
  have hparse : Definition.parse ⟨["Customer"], []⟩ "order" .primary orderUnit =
      .ok orderDefinition := by
    decide +kernel
  have hids : orderDefinition.idFields.length = 1 := by decide
  exact ⟨⟨hword, hparse, hids⟩, packageFiles_importsResolve ["password"] hword hparse hids⟩

end NestLayers
