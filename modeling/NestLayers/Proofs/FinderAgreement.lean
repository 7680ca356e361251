import NestLayers.Proofs.FinderTexts

/-!
# The texts about a finder agree

Whether a finder is narrowed by a key, and which relations it includes, is written into five texts:
a method of the repository, of the service and of the controller, and the contracts of the request
and of the response. What is read off these texts is one and the same key, and the same relations.
-/

namespace NestLayers.Layer.Info

open NestLayers.Text NestLayers.Naming NestLayers.TypeScript

/-! ## The contract of the request -/

/-- The request contract of a finder without a key is an empty class. -/
theorem Finder.text_requestSource_of_none (conventions : Conventions) {f : Finder}
    (hkey : f.key = none) :
    (f.requestSource conventions).text = "export class " ++ f.requestClass ++ " \x7b\x7d\n" := by
  have hlines : (f.requestSource conventions).lines =
      ["export class " ++ f.requestClass ++ " \x7b\x7d"] := by
    unfold requestSource
    simp [hkey, SourceFile.lines_ofClass, Imports.lines, ClassDecl.lines, ClassDecl.opening,
      String.append_assoc]
  rw [SourceFile.text, hlines, ← String.toList_inj]
  simp [joinLines]

/-- What is read off the request contract of a finder with a key. -/
structure ReadsKey (text name : String) (key : Field) : Prop where
  classes : classNames text = [name]
  property : propertyLines text = [key.name ++ "?: " ++ key.type.request ++ ";"]
  decorators : decoratorNames text = ["IsOptional", key.type.validatorName]
  imported : ⟨"class-validator", ["IsOptional", key.type.validatorName]⟩ ∈ importsIn text

/-- An import of which no text has a line feed. -/
def HasLines (i : Import) : Prop :=
  IsOneLine i.origin ∧ ∀ name ∈ i.names, IsOneLine name

private theorem HasLines.isOneLine_line {i : Import} (h : HasLines i) : IsOneLine i.line :=
  i.isOneLine_line h.2 h.1

/-- The imports of a list that has no line feed. -/
theorem hasLines_ofList {list : List (String × List String)} (h : ∀ p ∈ list, HasLines ⟨p.1, p.2⟩) :
    ∀ i ∈ (Imports.ofList list).entries, HasLines i :=
  fun _ hi => h _ (Imports.mem_of_mem_entries_ofList hi)

/-- The checks that a request contract takes from their package. -/
def checksOf (key : Field) : Import :=
  ⟨"class-validator", ["IsOptional", key.type.validatorName]⟩

private theorem isReadable_checksOf {key : Field} (h : key.IsPlain) :
    (checksOf key).IsReadable ∧ HasLines (checksOf key) ∧
      firstOccurrences (checksOf key).names = (checksOf key).names := by
  have hpackage : '\x22' ∉ "class-validator".toList ∧ IsOneLine "class-validator" := by decide
  have hnames : ∀ name ∈ ["IsString", "IsInt", "IsBoolean", "IsDate", "IsDecimal", "IsEnum"],
      IsImportName name.toList ∧ IsOneLine name ∧
        firstOccurrences ["IsOptional", name] = ["IsOptional", name] := by decide
  obtain ⟨hname, hline, hfirst⟩ := hnames _ h.isOneLine.2.2.2
  refine ⟨⟨by simp [checksOf], ?_, hpackage.1⟩, ⟨hpackage.2, ?_⟩, hfirst⟩
  · exact List.forall_mem_cons.mpr ⟨by decide, List.forall_mem_singleton.mpr hname⟩
  · exact List.forall_mem_cons.mpr ⟨by decide, List.forall_mem_singleton.mpr hline⟩

/-- The imports of a request contract: the checks, and the enumerations where the key is one. -/
theorem exists_requestSource {f : Finder} {key : Field} (hkey : f.key = some key)
    (hplain : key.IsPlain) {conventions : Conventions}
    (hpackage : conventions.validatorPackage = "class-validator") :
    ∃ imports : Imports, f.requestSource conventions = SourceFile.ofClass imports
        { name := f.requestClass
          sections := [.properties [RequestContract.property key false]] } ∧
      (∀ i ∈ imports.entries, HasLines i) ∧ checksOf key ∈ imports.entries := by
  obtain ⟨-, hchecks, -⟩ := isReadable_checksOf hplain
  have henums : HasLines ⟨"@prisma/client", ["$Enums"]⟩ :=
    ⟨by decide, List.forall_mem_singleton.mpr (by decide)⟩
  refine ⟨_, by rw [Finder.requestSource, hkey], hasLines_ofList ?_, ?_⟩
  · rw [hpackage]
    refine List.forall_mem_append.mpr ⟨List.forall_mem_singleton.mpr hchecks, ?_⟩
    split
    · exact List.forall_mem_singleton.mpr henums
    · simp
  · rw [hpackage]
    split <;> simp [Imports.ofList, Imports.set, Imports.has, checksOf]

/-- **The request contract of a finder with a key is read.** -/
theorem Finder.IsRead.readsKey {f : Finder} (h : f.IsRead) {key : Field} (hkey : f.key = some key)
    {conventions : Conventions} (hpackage : conventions.validatorPackage = "class-validator") :
    ReadsKey (f.requestSource conventions).text f.requestClass key := by
  have hplain := h.key key hkey
  have hname : ∀ c ∈ f.requestClass.toList, isWord c = true := by
    rw [requestClass, String.toList_append, List.forall_mem_append]
    exact ⟨h.definition.name.2, List.all_eq_true.mp (by decide)⟩
  have hspace : ' ' ∉ f.requestClass.toList := notMem_of_isWord hname (by decide)
  have hone : IsOneLine f.requestClass := isOneLine_of_isWord hname
  have hproperty := RequestContract.areLines_property hplain false
  have hchecked : ∀ d ∈ (RequestContract.property key false).decorators, '(' ∉ d.name.toList := by
    refine List.forall_mem_cons.mpr ⟨by decide, List.forall_mem_singleton.mpr ?_⟩
    exact notMem_of_isWord hplain.isWord_validatorName (by decide)
  obtain ⟨imports, hsource, hentries, hchecks⟩ := exists_requestSource hkey hplain hpackage
  obtain ⟨hdeclaration, hdecorators⟩ := readsProperty_ofClass imports hone hproperty
    (Property.isNamed_of_isName hplain.name) hchecked
  rw [hsource]
  refine ⟨classNames_ofClass (fun i hi => (hentries i hi).isOneLine_line) ?_ ⟨hspace, by simp⟩, ?_,
    hdecorators, ?_⟩
  · refine ⟨by simp, hone, isOneLine_empty, List.forall_mem_singleton.mpr ?_⟩
    exact Section.areLines_lines (by simpa [AreLines, Section.texts] using hproperty)
  · rw [hdeclaration]
    simp [Property.declaration, RequestContract.property, String.append_assoc]
  · obtain ⟨hreadable, hlines, honce⟩ := isReadable_checksOf hplain
    exact mem_importsIn_text (SourceFile.ofClass imports _) hchecks hreadable hlines.isOneLine_line
      honce

/-! ## The contract of the response -/

namespace Finder

/-- What the classes of the response contract are called after. -/
def owner (f : Finder) : String :=
  f.definition.name ++ "FindMany"

/-- The models that the included relations lead to. -/
def models (f : Finder) : List String :=
  ResponseContract.relatedModels f.included

/-- The class of the response. -/
def dataClass (f : Finder) : ClassDecl :=
  { name := f.owner ++ "ResponseDto"
    heritage := " extends ResponseDto implements ResponseService<InfoService[" ++
      literal f.method ++ "]>"
    sections := [.properties [{ name := "data", type := f.owner ++ "Model[]" }]] }

/-- The class of the data in a response. -/
def mainClass (f : Finder) : ClassDecl :=
  ResponseContract.omitting (f.owner ++ "Model") f.definition.name []
    (if f.included.isEmpty then [] else [.properties (f.included.map (includedProperty f.owner))])

/-- The name of the class for a related model. -/
def withName (f : Finder) (model : String) : String :=
  f.owner ++ "With" ++ model ++ "Model"

/-- The class for a related model. -/
def withClass (f : Finder) (model : String) : ClassDecl :=
  ResponseContract.omitting (f.withName model) model [] []

private theorem groups_responseSource (f : Finder) : f.responseSource.groups =
    [⟨some "Response Dto", [.class_ f.dataClass]⟩, ⟨some "Main Model", [.class_ f.mainClass]⟩] ++
      (ResponseContract.includedModels f.owner f.models).toList := rfl

/-- The classes for the related models are in one group, if there are any. -/
theorem includedModels_cases (f : Finder) :
    (f.models = [] ∧ (ResponseContract.includedModels f.owner f.models).toList = []) ∨
      ∃ g, (ResponseContract.includedModels f.owner f.models).toList = [g] ∧
        g.HasClasses (f.models.map f.withClass) := by
  unfold ResponseContract.includedModels
  split
  · rename_i hempty
    exact .inl ⟨List.isEmpty_iff.mp hempty, rfl⟩
  · exact .inr ⟨_, rfl, by simp [Group.HasClasses, withClass, withName]⟩

/-- What the groups of the response contract tell is told by their classes. -/
theorem readings_groups {α : Type} {read : List Char → Option α} (f : Finder)
    (hdoc : ∀ text, read (docComment text).toList = none) :
    f.responseSource.groups.flatMap (fun g => readings read g.lines) =
      readings read f.dataClass.lines ++ (readings read f.mainClass.lines ++
        f.models.flatMap fun model => readings read (f.withClass model).lines) := by
  have hfirst : Group.HasClasses ⟨some "Response Dto", [.class_ f.dataClass]⟩ [f.dataClass] := rfl
  have hsecond : Group.HasClasses ⟨some "Main Model", [.class_ f.mainClass]⟩ [f.mainClass] := rfl
  have hincluded : (ResponseContract.includedModels f.owner f.models).toList.flatMap
      (fun g => readings read g.lines) =
        f.models.flatMap fun model => readings read (f.withClass model).lines := by
    rcases f.includedModels_cases with ⟨hempty, hnone⟩ | ⟨g, hsome, hclasses⟩
    · rw [hnone, hempty]
      rfl
    · rw [hsome, List.flatMap_singleton, hclasses.readings_lines hdoc, List.flatMap_map]
  rw [groups_responseSource, List.flatMap_append, hincluded, List.flatMap_cons,
    List.flatMap_singleton, hfirst.readings_lines hdoc, hsecond.readings_lines hdoc,
    List.flatMap_singleton, List.flatMap_singleton, List.append_assoc]

/-- The groups of the response contract are classes without decorators. -/
theorem exists_classes {f : Finder} {g : Group} (hg : g ∈ f.responseSource.groups) :
    ∃ cs, g.HasClasses cs ∧ ∀ c ∈ cs, c.decorators = [] := by
  rw [groups_responseSource] at hg
  rcases List.mem_append.mp hg with hg | hg
  · simp only [List.mem_cons, List.not_mem_nil, or_false] at hg
    rcases hg with rfl | rfl
    · exact ⟨[f.dataClass], rfl, List.forall_mem_singleton.mpr rfl⟩
    · exact ⟨[f.mainClass], rfl, List.forall_mem_singleton.mpr rfl⟩
  · rcases f.includedModels_cases with ⟨-, hnone⟩ | ⟨included, hincluded, hclasses⟩
    · rw [hnone] at hg
      cases hg
    · rw [hincluded, List.mem_singleton] at hg
      obtain rfl := hg
      exact ⟨_, hclasses, List.forall_mem_map.mpr fun _ _ => rfl⟩

end Finder

/-- Importing the classes of models brings no line feed. -/
theorem hasLines_addModels {imports : Imports} {models : List String}
    (h : ∀ i ∈ imports.entries, HasLines i) (hmodels : ∀ model ∈ models, IsModelName model.toList) :
    ∀ i ∈ (ResponseContract.addModels imports models).entries, HasLines i := by
  unfold ResponseContract.addModels
  induction models generalizing imports with
  | nil => exact h
  | cons model models ih =>
    obtain ⟨hmodel, hrest⟩ := List.forall_mem_cons.mp hmodels
    obtain ⟨⟨-, hnames⟩, -, horigin, -⟩ := isPackageImport_model hmodel
    refine ih (fun i hi => ?_) hrest
    rcases Imports.mem_entries_add hi with hi | rfl | ⟨old, hold, -, rfl⟩
    · exact h i hi
    · exact ⟨horigin, fun name hname => (hnames name hname).2⟩
    · exact ⟨horigin, List.forall_mem_append.mpr
        ⟨(h old hold).2, fun name hname => (hnames name hname).2⟩⟩

namespace Finder.IsRead

variable {f : Finder}

/-- The models that the included relations lead to have names. -/
theorem isModelName_models (h : f.IsRead) : ∀ model ∈ f.models, IsModelName model.toList := by
  intro model hmodel
  obtain ⟨r, hr, rfl⟩ := List.mem_map.mp (mem_firstOccurrences.mp hmodel)
  exact (h.included r hr).2.1

/-- No import of the response contract has a line feed. -/
theorem hasLines_responseImports (h : f.IsRead) :
    ∀ i ∈ f.responseSource.imports.entries, HasLines i := by
  obtain ⟨⟨-, hnames⟩, -, horigin, -⟩ := isPackageImport_model h.definition.name
  refine hasLines_addModels (hasLines_ofList ?_) h.isModelName_models
  simp only [List.forall_mem_cons, HasLines]
  exact ⟨by decide, by decide, by decide, by decide,
    ⟨horigin, (hnames _ (List.mem_singleton_self _)).2, by simp⟩, by simp⟩

/-- The names of the classes of the response contract are words. -/
theorem isWord_owner (h : f.IsRead) : ∀ c ∈ f.owner.toList, isWord c = true := by
  rw [owner, String.toList_append, List.forall_mem_append]
  exact ⟨h.definition.name.2, List.all_eq_true.mp (by decide)⟩

private theorem isWord_withName (h : f.IsRead) {model : String}
    (hmodel : IsModelName model.toList) : ∀ c ∈ (f.withName model).toList, isWord c = true := by
  simp only [withName, String.toList_append, List.forall_mem_append]
  exact ⟨⟨⟨h.isWord_owner, List.all_eq_true.mp (by decide)⟩, hmodel.2⟩,
    List.all_eq_true.mp (by decide)⟩

/-- No line of a group of the response contract has a line feed in it. -/
theorem areLines_responseGroups (h : f.IsRead) :
    ∀ g ∈ f.responseSource.groups, AreLines g.lines := by
  intro g hg
  obtain ⟨cs, hcs, hdecorators⟩ := exists_classes hg
  obtain ⟨hdoc, hplain⟩ := isPlain_responseSource h.toIsPlain g hg
  refine hcs.areLines_lines hdoc fun c hc => ?_
  have hc' : Declaration.class_ c ∈ g.declarations := by
    rw [hcs]
    exact List.mem_map_of_mem hc
  exact ClassDecl.IsPlain.hasLines (hplain _ hc') (hdecorators c hc)

/-- The classes of the response contract can be told from what follows their names. -/
theorem isNamed_classes (h : f.IsRead) :
    f.dataClass.IsNamed ∧ f.mainClass.IsNamed ∧ ∀ c ∈ f.models.map f.withClass, c.IsNamed := by
  have howner : ' ' ∉ f.owner.toList := notMem_of_isWord h.isWord_owner (by decide)
  refine ⟨⟨by simp [dataClass, howner], by simp [dataClass]⟩, ⟨?_, ?_⟩,
    List.forall_mem_map.mpr fun model hmodel => ⟨?_, ?_⟩⟩
  · simp [mainClass, ResponseContract.omitting, howner]
  · simp [mainClass, ResponseContract.omitting]
  · exact notMem_of_isWord (h.isWord_withName (h.isModelName_models model hmodel)) (by decide)
  · simp [withClass, ResponseContract.omitting]

/-- **The classes of the response contract are read off its text.** -/
theorem classNames_responseSource (h : f.IsRead) : classNames f.responseSource.text =
    [f.owner ++ "ResponseDto", f.owner ++ "Model"] ++ f.models.map f.withName := by
  obtain ⟨hdata, hmain, hwith⟩ := h.isNamed_classes
  rw [SourceFile.classNames_text _ (fun i hi => (h.hasLines_responseImports i hi).isOneLine_line)
    h.areLines_responseGroups, readings_groups f fun text =>
    className?_of_head (by simp [docComment]), hdata.classNames_lines, hmain.classNames_lines,
    List.map_eq_flatMap, List.flatMap_congr fun model hmodel =>
    (hwith _ (List.mem_map_of_mem hmodel)).classNames_lines]
  rfl

/-- The member for an included relation is read off its declaration. -/
theorem member?_includedProperty (h : f.IsRead) {r : Relation} (hr : r ∈ f.included) :
    member? (indentLine step (includedProperty f.owner r).declaration).toList =
      some (r.name, f.withName r.model) := by
  have hmark : '!' ∉ r.name.toList := notMem_of_isWord (h.words.included r hr) (by decide)
  have hnull : ∀ c ∈ (if r.isRequired then "" else " | null").toList.head?, c = ' ' := by
    split <;> simp
  refine (Property.isNamed_of_isName (h.names r hr)).member?_marked hmark rfl rfl
    (fun c hc => ⟨?_, ?_⟩) hnull
  · rintro rfl
    exact absurd (h.isWord_withName (h.included r hr).2.1 _ hc) (by decide)
  · rintro rfl
    exact absurd (h.isWord_withName (h.included r hr).2.1 _ hc) (by decide)

/-- The data of a response may be missing in its declaration. -/
theorem members_dataClass (h : f.IsRead) : readings member? f.dataClass.lines = [] := by
  have hsections : f.dataClass.sections =
      [.properties [{ name := "data", type := f.owner ++ "Model[]" }]] := rfl
  have hname : FieldLine.IsName "data".toList := by decide
  have hnamed : Property.IsNamed { name := "data", type := f.owner ++ "Model[]" } :=
    Property.isNamed_of_isName hname
  have hmark : '!' ∉ f.owner.toList := notMem_of_isWord h.isWord_owner (by decide)
  rw [ClassDecl.members_lines, if_neg (by simp [hsections]), ClassDecl.members_inner hsections,
    List.flatMap_singleton, Property.members_lines,
    hnamed.member?_unmarked (by simp [Property.declaration, hmark])]
  rfl

/-- The class of the data has a member for each included relation. -/
theorem members_mainClass (h : f.IsRead) : readings member? f.mainClass.lines =
    f.included.map fun r => (r.name, f.withName r.model) := by
  rw [ClassDecl.members_lines]
  by_cases hempty : f.included = []
  · rw [if_pos (by simp [mainClass, ResponseContract.omitting, hempty]), hempty]
    rfl
  · have hsections : f.mainClass.sections =
        [.properties (f.included.map (includedProperty f.owner))] := by
      simp [mainClass, ResponseContract.omitting, hempty]
    rw [if_neg (by simp [hsections]), ClassDecl.members_inner hsections, List.flatMap_map,
      List.map_eq_flatMap]
    refine List.flatMap_congr fun r hr => ?_
    rw [Property.members_lines, h.member?_includedProperty hr]
    rfl

/-- **The members of the response contract are read off its text.** -/
theorem members_responseSource (h : f.IsRead) : members f.responseSource.text =
    f.included.map fun r => (r.name, f.withName r.model) := by
  have hwith : f.models.flatMap (fun model => readings member? (f.withClass model).lines) = [] := by
    refine List.flatMap_eq_nil_iff.mpr fun model _ => ?_
    have hsections : (f.withClass model).sections = [] := rfl
    rw [ClassDecl.members_lines, if_pos hsections]
  rw [SourceFile.members_text _ (fun i hi => (h.hasLines_responseImports i hi).isOneLine_line)
    h.areLines_responseGroups, readings_groups f fun text => member?_of_head (by simp [docComment]),
    hwith, h.members_dataClass, h.members_mainClass, List.nil_append, List.append_nil]

/-- Each class of the response contract is declared once. -/
theorem nodup_classNames (h : f.IsRead) : (classNames f.responseSource.text).Nodup := by
  have hsuffix : classNames f.responseSource.text =
      (["ResponseDto", "Model"] ++ f.models.map fun model => "With" ++ model ++ "Model").map
        (f.owner ++ ·) := by
    rw [h.classNames_responseSource]
    simp [withName, String.append_assoc]
  have hmodels : (f.models.map fun model => "With" ++ model ++ "Model").Nodup := by
    refine (nodup_firstOccurrences _).map fun first second heq => ?_
    rw [← String.toList_inj] at heq ⊢
    simpa using heq
  have hothers : ∀ first ∈ ["ResponseDto", "Model"], ∀ second ∈
      f.models.map fun model => "With" ++ model ++ "Model", first ≠ second := by
    intro first hfirst second hsecond heq
    obtain ⟨model, -, rfl⟩ := List.mem_map.mp hsecond
    have hhead : first.toList.head? = some 'W' := by simp [heq]
    have hneither : ∀ text ∈ ["ResponseDto", "Model"], text.toList.head? ≠ some 'W' := by decide
    exact hneither first hfirst hhead
  rw [hsuffix]
  refine (List.nodup_append.mpr ⟨by decide, hmodels, hothers⟩).map fun first second heq => ?_
  rw [← String.toList_inj] at heq ⊢
  simpa using heq

/-- **The class of each member of the response contract is declared once** in the same text. -/
theorem count_classNames (h : f.IsRead) :
    ∀ member ∈ members f.responseSource.text,
      (classNames f.responseSource.text).count member.2 = 1 := by
  intro member hmember
  rw [h.members_responseSource] at hmember
  obtain ⟨r, hr, rfl⟩ := List.mem_map.mp hmember
  refine List.count_eq_one_of_mem h.nodup_classNames ?_
  rw [h.classNames_responseSource]
  exact List.mem_append_right _ (List.mem_map_of_mem
    (mem_firstOccurrences.mpr (List.mem_map_of_mem hr)))

end Finder.IsRead

/-! ## All texts of the layer -/

/-- The methods of a finder and the contract of its request are narrowed by a key. -/
structure AgreeOnKey (model : String) (key : Field) (repository service controller : MethodText)
    (request : String) : Prop where
  repositoryParameters : repository.parameters = key.name ++ "?: " ++ key.type.request
  narrowed : narrowedBy? repository.passed = some key.name
  serviceParameters : service.parameters = repository.parameters
  servicePasses : service.passed = key.name
  controllerParameters : controller.parameters = "@Query() query: " ++ model ++ "FindManyDto"
  controllerPasses : controller.passed = "query." ++ key.name
  request : ReadsKey request (model ++ "FindManyDto") key

/-- The methods of a finder take and pass nothing, and the contract of its request is empty. -/
structure AgreeOnNoKey (model : String) (repository service controller : MethodText)
    (request : String) : Prop where
  repositoryParameters : repository.parameters = ""
  narrowed : narrowedBy? repository.passed = none
  serviceParameters : service.parameters = ""
  servicePasses : service.passed = ""
  controllerParameters : controller.parameters = ""
  controllerPasses : controller.passed = ""
  request : request = "export class " ++ model ++ "FindManyDto \x7b\x7d\n"

/-- The texts about the finder of a definition agree. -/
structure Agree (d : Definition) (key : Option Field) (repository service controller : MethodText)
    (request response : String) : Prop where
  serviceCall : service.callee = "this.infoRepository." ++ repository.name
  controllerCall : controller.callee = "this.infoService." ++ service.name
  narrowing : match key with
    | some key => AgreeOnKey d.name key repository service controller request
    | none => AgreeOnNoKey d.name repository service controller request
  included : includedNames repository.passed = (d.relations.filter (!·.isArray)).map (·.name)
  members : members response = (d.relations.filter (!·.isArray)).map fun r =>
    (r.name, d.name ++ "FindManyWith" ++ r.model ++ "Model")
  declared : ∀ member ∈ TypeScript.members response, (classNames response).count member.2 = 1

/-- The texts about a finder that is read agree. -/
theorem Finder.IsRead.agree {f : Finder} (h : f.IsRead)
    (hincluded : f.included = f.definition.relations.filter (!·.isArray)) {conventions : Conventions}
    (hpackage : conventions.validatorPackage = "class-validator") :
    Agree f.definition f.key f.repositoryMethod.reading f.serviceMethod.reading
      f.controllerMethod.reading (f.requestSource conventions).text f.responseSource.text := by
  obtain ⟨hrepositoryName, hrepositoryParameters, hquery⟩ := h.repository_reading
  obtain ⟨hserviceName, hserviceParameters, hserviceCall, hservicePasses⟩ := h.service_reading
  obtain ⟨-, hcontrollerParameters, hcontrollerCall, hcontrollerPasses⟩ := h.controller_reading
  obtain ⟨hnarrowed, hnames⟩ := h.words.query_reading
  have hquestion : "@Query() query: " ++ f.requestClass =
      "@Query() query: " ++ f.definition.name ++ "FindManyDto" := by
    rw [requestClass, String.append_assoc]
  have hrequest (hkey : f.key = none) : (f.requestSource conventions).text =
      "export class " ++ f.definition.name ++ "FindManyDto \x7b\x7d\n" := by
    rw [text_requestSource_of_none conventions hkey, ← String.toList_inj]
    simp [requestClass]
  refine ⟨by rw [hserviceCall, hrepositoryName], by rw [hcontrollerCall, hserviceName], ?_, ?_, ?_,
    h.count_classNames⟩
  · cases hkey : f.key with
    | none =>
      rw [hkey] at hnarrowed hcontrollerParameters hcontrollerPasses
      have hparameter : f.parameter = "" := by rw [parameter, hkey]
      have hargument : f.argument = "" := by rw [argument, hkey]
      exact ⟨hrepositoryParameters.trans hparameter, by rw [hquery, hnarrowed]; rfl,
        hserviceParameters.trans hparameter, hservicePasses.trans hargument, hcontrollerParameters,
        hcontrollerPasses, hrequest hkey⟩
    | some key =>
      rw [hkey] at hnarrowed hcontrollerParameters hcontrollerPasses
      have hparameter : f.parameter = key.name ++ "?: " ++ key.type.request := by
        rw [parameter, hkey]
      have hargument : f.argument = key.name := by rw [argument, hkey]
      rw [hargument] at hservicePasses hcontrollerPasses
      exact ⟨hrepositoryParameters.trans hparameter, by rw [hquery, hnarrowed]; rfl,
        hserviceParameters.trans hrepositoryParameters.symm, hservicePasses,
        hcontrollerParameters.trans hquestion, hcontrollerPasses, h.readsKey hkey hpackage⟩
  · rw [hquery, hnames, hincluded]
  · rw [h.members_responseSource, hincluded]
    refine List.map_congr_left fun r _ => ?_
    simp [withName, owner, String.append_assoc]

/-- Two items for each member of a list stand at twice its position. -/
theorem getElem?_flatMap_pair {α β : Type} (first second : α → β) {items : List α} {i : Nat}
    {a : α} (h : items[i]? = some a) :
    (items.flatMap fun a => [first a, second a])[2 * i]? = some (first a) ∧
      (items.flatMap fun a => [first a, second a])[2 * i + 1]? = some (second a) := by
  induction items generalizing i with
  | nil => cases h
  | cons item items ih =>
    cases i with
    | zero =>
      obtain rfl := Option.some.inj h
      exact ⟨rfl, rfl⟩
    | succ i => exact ih h

/-- The files of the info layer. -/
theorem artifacts_output (conventions : Conventions) (definitions : List Definition) :
    (output conventions definitions).artifacts =
      [⟨"info.repository.ts", (repositorySource (finders conventions definitions)).source.text⟩,
        ⟨"info.service.ts", (serviceSource (finders conventions definitions)).source.text⟩,
        ⟨"info.controller.ts", (controllerSource (finders conventions definitions)).source.text⟩] ++
      (finders conventions definitions).flatMap fun f =>
        [⟨"dto/" ++ f.stem ++ ".ts", (f.requestSource conventions).text⟩,
          ⟨"dto/response/" ++ f.stem ++ ".ts", f.responseSource.text⟩] := by
  have hpaths (fs : List Finder) : (repositorySource fs).path = "info.repository.ts" ∧
      (serviceSource fs).path = "info.service.ts" ∧
      (controllerSource fs).path = "info.controller.ts" := ⟨rfl, rfl, rfl⟩
  rw [output, List.map_append, List.map_flatMap]
  simp only [List.map_cons, List.map_nil, SourceArtifact.artifact, Finder.contracts, hpaths]

/-- **The texts of the info layer agree on each finder.** For all aggregate definitions, with the
default settings, the repository, the service and the controller have one method for each of them,
and each has two contracts. For the definition at a position all five texts say by which key the
finder is narrowed, or that it is not, and which relations it includes: those that are not lists. The
response has one member for each of these, whose class is declared once. -/
theorem finders_agree (excluded : List String) {definitions : List Definition}
    (hread : ∀ d ∈ definitions, ∃ registry fileId location text,
      Definition.parse registry fileId location text = .ok d) :
    ∃ repository service controller contracts,
      (output (({} : Settings).conventions excluded) definitions).artifacts =
        [⟨"info.repository.ts", repository⟩, ⟨"info.service.ts", service⟩,
          ⟨"info.controller.ts", controller⟩] ++ contracts ∧
      (bodyMethods repository).length = definitions.length ∧
      (bodyMethods service).length = definitions.length ∧
      (bodyMethods controller).length = definitions.length ∧
      contracts.length = 2 * definitions.length ∧
      ∀ i d, definitions[i]? = some d → ∃ r s c request response,
        (bodyMethods repository)[i]? = some r ∧ (bodyMethods service)[i]? = some s ∧
        (bodyMethods controller)[i]? = some c ∧ contracts[2 * i]? = some request ∧
        contracts[2 * i + 1]? = some response ∧
        Agree d ((filter? d (definitions.map (·.name))).map (·.2)) r s c request.content
          response.content := by
  generalize hconventions : ({} : Settings).conventions excluded = conventions
  have hpackage : conventions.validatorPackage = "class-validator" := by rw [← hconventions]; rfl
  have hfs : ∀ f ∈ finders conventions definitions, f.IsRead := by
    refine List.forall_mem_map.mpr fun d hd => ?_
    obtain ⟨registry, fileId, location, text, hparse⟩ := hread d hd
    exact isRead_ofDefinition conventions _ hparse
  refine ⟨_, _, _, _, artifacts_output conventions definitions, ?_⟩
  rw [bodyMethods_repositorySource hfs, bodyMethods_serviceSource hfs,
    bodyMethods_controllerSource hfs]
  refine ⟨by simp [finders], by simp [finders], by simp [finders], ?_, fun i d hd => ?_⟩
  · simp [List.length_flatMap, finders, Function.comp_def, List.map_const', Nat.mul_comm]
  · have hf : (finders conventions definitions)[i]? =
        some (Finder.ofDefinition conventions (definitions.map (·.name)) d) := by
      simp [finders, hd]
    obtain ⟨hrequest, hresponse⟩ := getElem?_flatMap_pair
      (fun f : Finder => (⟨"dto/" ++ f.stem ++ ".ts", (f.requestSource conventions).text⟩ : Artifact))
      (fun f => ⟨"dto/response/" ++ f.stem ++ ".ts", f.responseSource.text⟩) hf
    have hmethod (reading : Finder → MethodText) :
        ((finders conventions definitions).map reading)[i]? = some (reading
          (Finder.ofDefinition conventions (definitions.map (·.name)) d)) := by
      rw [List.getElem?_map, hf, Option.map_some]
    refine ⟨_, _, _, _, _, hmethod _, hmethod _, hmethod _, hrequest, hresponse, ?_⟩
    exact (hfs _ (List.mem_of_getElem? hf)).agree rfl hpackage

/-- The unit of categories, which form a tree. -/
def categoryUnit : String :=
  "// Category\nmodel CategoryInfo \x7b\n  id Int @id // Key\n  parentId Int? // Above\n" ++
    "  parent CategoryInfo? @relation(fields: [parentId]) // Parent\n" ++
    "  children CategoryInfo[] // Below\n\x7d\n"

/-- The key of the category above. -/
def parentId : Field where
  name := "parentId"
  type := .ofDeclared "Int" false
  isArray := false
  isId := false
  isRequired := false
  tags := {}
  description := "Above"
  unknownDirectives := []

/-- The model of categories. -/
def categoryDefinition : Definition where
  name := "CategoryInfo"
  description := "Category"
  fields :=
    [{ name := "id", type := .ofDeclared "Int" false, isArray := false, isId := true
       isRequired := true, tags := {}, description := "Key", unknownDirectives := [] }, parentId]
  relations :=
    [{ name := "parent", relationId := some "parentId", model := "CategoryInfo"
       type := .ofRelation "CategoryInfo", isArray := false, isRequired := false
       description := "Parent" },
     { name := "children", relationId := none, model := "CategoryInfo"
       type := .ofRelation "CategoryInfo", isArray := true, isRequired := true
       description := "Below" }]
  fileId := "category-info"
  location := .aggregate

/-- The unit of regions. -/
def regionUnit : String :=
  "// Region\nmodel RegionInfo \x7b\n  id Int @id // Key\n\x7d\n"

/-- The model of regions. -/
def regionDefinition : Definition where
  name := "RegionInfo"
  description := "Region"
  fields :=
    [{ name := "id", type := .ofDeclared "Int" false, isArray := false, isId := true
       isRequired := true, tags := {}, description := "Key", unknownDirectives := [] }]
  relations := []
  fileId := "region-info"
  location := .aggregate

/-- The finder of categories is narrowed by the category above, that of regions is not. -/
theorem finders_agree_categories :
    (∀ d ∈ [categoryDefinition, regionDefinition], ∃ registry fileId location text,
      Definition.parse registry fileId location text = .ok d) ∧
    ∃ repository service controller contracts,
      (output (({} : Settings).conventions []) [categoryDefinition, regionDefinition]).artifacts =
        [⟨"info.repository.ts", repository⟩, ⟨"info.service.ts", service⟩,
          ⟨"info.controller.ts", controller⟩] ++ contracts ∧
      (∃ r s c request, (bodyMethods repository)[0]? = some r ∧
        (bodyMethods service)[0]? = some s ∧ (bodyMethods controller)[0]? = some c ∧
        contracts[0]? = some request ∧ includedNames r.passed = ["parent"] ∧
        AgreeOnKey "CategoryInfo" parentId r s c request.content) ∧
      ∃ r s c request, (bodyMethods repository)[1]? = some r ∧
        (bodyMethods service)[1]? = some s ∧ (bodyMethods controller)[1]? = some c ∧
        contracts[2]? = some request ∧ includedNames r.passed = [] ∧
        AgreeOnNoKey "RegionInfo" r s c request.content := by
  have hcategory : Definition.parse ⟨["CategoryInfo", "RegionInfo"], []⟩ "category-info" .aggregate
      categoryUnit = .ok categoryDefinition := by
    decide +kernel
  have hregion : Definition.parse ⟨["CategoryInfo", "RegionInfo"], []⟩ "region-info" .aggregate
      regionUnit = .ok regionDefinition := by
    decide +kernel
  have hread : ∀ d ∈ [categoryDefinition, regionDefinition], ∃ registry fileId location text,
      Definition.parse registry fileId location text = .ok d := by
    simp only [List.forall_mem_cons]
    exact ⟨⟨_, _, _, _, hcategory⟩, ⟨_, _, _, _, hregion⟩, by simp⟩
  have hkeys : (filter? categoryDefinition ["CategoryInfo", "RegionInfo"]).map (·.2) =
      some parentId ∧ (filter? regionDefinition ["CategoryInfo", "RegionInfo"]).map (·.2) = none := by
    decide
  have hnames : [categoryDefinition, regionDefinition].map (·.name) =
      ["CategoryInfo", "RegionInfo"] := rfl
  obtain ⟨repository, service, controller, contracts, hartifacts, -, -, -, -, hagree⟩ :=
    finders_agree [] hread
  obtain ⟨r, s, c, request, response, hr, hs, hc, hrequest, -, hfirst⟩ := hagree 0 _ rfl
  obtain ⟨r', s', c', request', response', hr', hs', hc', hrequest', -, hsecond⟩ := hagree 1 _ rfl
  have hcategories := hfirst.narrowing
  have hregions := hsecond.narrowing
  rw [hnames, hkeys.1] at hcategories
  rw [hnames, hkeys.2] at hregions
  exact ⟨hread, repository, service, controller, contracts, hartifacts,
    ⟨r, s, c, request, hr, hs, hc, hrequest, hfirst.included, hcategories⟩,
    ⟨r', s', c', request', hr', hs', hc', hrequest', hsecond.included, hregions⟩⟩

end NestLayers.Layer.Info
