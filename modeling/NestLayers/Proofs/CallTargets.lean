import NestLayers.Proofs.MethodCalls

/-!
# Every call has a target

The repository, the service and the controller of a resource decide each on its own whether records
are marked as deleted or removed. They agree: what a service calls on its repository is declared
there, and what a controller calls on its service is declared there. Declarations and calls are
read off the generated texts.
-/

namespace NestLayers

open NestLayers.Text NestLayers.Naming NestLayers.TypeScript

namespace Layer

variable {n : ResourceName} {d : Definition} {id : Field}

/-! ## The methods can be read -/

private theorem Repository.isReadable_classOf (hn : n.IsPlain) (hd : d.IsPlain) (hid : id.IsPlain) :
    (Repository.classOf n d id).IsReadable := by
  refine ⟨Repository.hasTexts_classOf hn hd hid, by simp [Repository.classOf], ?_⟩
  cases hsoft : d.isSoftDeletable <;>
  · simp (disch := decide) only [Repository.classOf, Repository.methods, Repository.deleteMethod,
      Section.HasPlainBodies, Statement.IsPlain, hsoft, if_true, Bool.false_eq_true, if_false,
      List.forall_mem_cons, List.not_mem_nil, false_implies, implies_true, and_true, true_and,
      String.append_assoc, startsStatement_toList_append]
    decide

private theorem Service.isReadable_classOf (hn : n.IsPlain) (hd : d.IsPlain) (hid : id.IsPlain) :
    (Service.classOf n d id).IsReadable := by
  refine ⟨Service.hasTexts_classOf hn hd hid, by simp [Service.classOf], ?_⟩
  simp (disch := decide) only [Service.classOf, Service.methods, Service.deleteMethod,
    Service.answerDone, Section.HasPlainBodies, Statement.IsPlain, List.forall_mem_cons,
    List.not_mem_nil, false_implies, implies_true, and_true, true_and, String.append_assoc,
    startsStatement_toList_append]
  decide

private theorem Controller.isReadable_classOf (hn : n.IsPlain) (hd : d.IsPlain) (hid : id.IsPlain) :
    (Controller.classOf n d id).IsReadable := by
  refine ⟨Controller.hasTexts_classOf hn hd hid, by simp [Controller.classOf], ?_⟩
  simp only [Controller.classOf, Controller.methods, Controller.route, Section.HasPlainBodies,
    Statement.IsPlain, List.forall_mem_cons, List.not_mem_nil, false_implies, implies_true,
    and_true, true_and]
  decide

/-! ## The calls can be read -/

/-- A word is quiet. -/
theorem isQuiet_of_isWord {text : String} (h : ∀ c ∈ text.toList, isWord c = true) :
    IsQuiet text := by
  refine isQuiet_of_dotless fun c hc => ⟨?_, ?_⟩
  · rintro rfl
    exact absurd (h _ hc) (by decide)
  · rintro rfl
    exact absurd (h _ hc) (by decide)

private theorem isWord_of_isIdentifierChar {c : Char} (h : isIdentifierChar c = true) :
    isWord c = true := by
  simp only [isIdentifierChar, Bool.or_eq_true] at h
  simp only [isWord, Bool.or_eq_true]
  exact .inl h

/-- The characters of words stand for themselves in literals. -/
theorem isLiteralChar_of_isWord {text : String} (h : ∀ c ∈ text.toList, isWord c = true) :
    text.toList.all isLiteralChar = true := by
  refine List.all_eq_true.mpr fun c hc => ?_
  rw [isLiteralChar, Bool.and_eq_true, bne_iff_ne, bne_iff_ne]
  constructor
  · rintro rfl
    exact absurd (h _ hc) (by decide)
  · rintro rfl
    exact absurd (h _ hc) (by decide)

/-- The forms of a resource name are words. -/
theorem isWord_forms (hn : n.IsPlain) :
    (∀ c ∈ n.camel.toList, isWord c = true) ∧ ∀ c ∈ n.pascal.toList, isWord c = true :=
  ⟨fun c hc => isWord_of_isIdentifierChar (hn.camel.all c hc),
    fun c hc => isWord_of_isIdentifierChar (hn.pascal.all c hc)⟩

/-- Calls of its repository aside, a service is quiet. -/
theorem Service.isQuietExcept_classOf (hn : n.IsPlain) (hid : ∀ c ∈ id.name.toList, isWord c = true) :
    (Service.classOf n d id).IsQuietExcept (Service.repository n) := by
  have hpascal := isQuiet_of_isWord (isWord_forms hn).2
  have hcamel := isQuiet_of_isWord (isWord_forms hn).1
  have hname := isQuiet_of_isWord hid
  have hdata {action : String} (haction : isQuietText action = true) :
      IsQuiet ("data: I" ++ n.pascal ++ action) :=
    hpascal.between (by decide) haction
  have hupdate : IsQuiet (braced (id.name ++ ", ...data") ++ ": I" ++ n.pascal ++ "Update") :=
    ((((hname.followedBy (by decide)).between (by decide) (by decide)).followedBy
      (by decide)).append hpascal).followedBy (by decide)
  have hanswer {before after : String} (deed : Deed) (hbefore : isQuietText before = true)
      (hafter : isQuietText after = true) :
      IsQuiet (before ++ deed.done d.description ++ after) :=
    (isQuiet_literal _).between hbefore hafter
  have hmember : IsQuiet ("data." ++ id.name) := (isQuiet_of_isQuietText (by decide)).append hname
  have hboth : IsQuiet (id.name ++ ", data") := hname.followedBy (by decide)
  have hempty : IsQuiet "" := isQuiet_of_isQuietText (by decide)
  have hmethods : ∀ m ∈ Service.methods n d id, m.IsQuietExcept (Service.repository n) := by
    cases hsoft : d.isSoftDeletable <;>
    · simp (disch := decide) only [Service.methods, Service.deleteMethod, Service.answerDone,
        Method.isQuietExcept_iff, Statement.IsQuietExcept, hsoft, if_true, Bool.false_eq_true,
        if_false, List.forall_mem_cons, List.not_mem_nil, false_implies, implies_true, and_true,
        true_and, Option.mem_def, Option.some.injEq, forall_eq', reduceCtorEq,
        isQuiet_of_isQuietText, isLead_of_isLeadText, hdata, hupdate, hanswer, hmember, hboth,
        hname]
      decide
  refine ⟨List.forall_mem_singleton.mpr ⟨isQuiet_of_isQuietText (by decide), hempty⟩,
    hpascal.followedBy (by decide), hempty, List.forall_mem_cons.mpr ⟨?_,
    List.forall_mem_singleton.mpr hmethods⟩⟩
  exact ((hcamel.between (by decide) (by decide)).append hpascal).followedBy (by decide)

/-- The call of its service aside, a route is quiet. -/
theorem Controller.isQuietExcept_route (hn : n.IsPlain) (d : Definition) (action : Action)
    {kind : Decorator} (hkind : IsQuiet kind.name ∧ IsQuiet kind.arguments) (deed : Deed)
    {source parameter : String} (hsource : isQuietText source = true)
    (hparameter : isQuietText parameter = true) :
    (Controller.route n d action kind deed source parameter).IsQuietExcept
      (Controller.service n) := by
  have hpascal := isQuiet_of_isWord (isWord_forms hn).2
  have haction : isQuietText action.pascal = true ∧ isQuietText action.name = true ∧
      action.name.toList.all isWord = true := by
    cases action <;> decide
  have htype : IsQuiet (n.pascal ++ action.pascal) := hpascal.followedBy haction.1
  have hguard : isQuietText "UseRoleGuard" = true ∧ isQuietText "" = true ∧
      isQuietText "ApiInformation" = true ∧ isLeadText "return await " = true := by decide
  refine ⟨by simp [Controller.route], ?_, isQuiet_of_isQuietText haction.2.1, ?_, ?_, ?_⟩
  · simp only [Controller.route, List.forall_mem_cons, List.not_mem_nil, false_implies,
      implies_true, and_true]
    exact ⟨hkind, ⟨isQuiet_of_isQuietText hguard.1, isQuiet_of_isQuietText hguard.2.1⟩,
      isQuiet_of_isQuietText hguard.2.2.1, (isQuiet_literal _).followedBy (by decide)⟩
  · exact (((((isQuiet_of_isQuietText hsource).between (by decide) (by decide)).append
      (isQuiet_of_isQuietText hparameter)).followedBy (by decide)).append htype).followedBy
      (by decide)
  · intro type hmem
    obtain rfl := Option.some.inj hmem
    exact htype.between (by decide) (by decide)
  · exact List.forall_mem_singleton.mpr ⟨isLead_of_isLeadText hguard.2.2.2, rfl, haction.2.2,
      isQuiet_of_isQuietText hparameter⟩

/-- Calls of its service aside, a controller is quiet. -/
theorem Controller.isQuietExcept_classOf (hn : n.IsPlain)
    (hid : ∀ c ∈ id.name.toList, isWord c = true) :
    (Controller.classOf n d id).IsQuietExcept (Controller.service n) := by
  have hpascal := isQuiet_of_isWord (isWord_forms hn).2
  have hcamel := isQuiet_of_isWord (isWord_forms hn).1
  have hempty : IsQuiet "" := isQuiet_of_isQuietText (by decide)
  have hbyId : IsQuiet ("\":" ++ id.name ++ "\"") := by
    have hplain : (":" ++ id.name).toList.all isLiteralChar = true := by
      rw [String.toList_append, List.all_append, isLiteralChar_of_isWord hid]
      decide
    have hliteral := isQuiet_literal (":" ++ id.name)
    rwa [literal_eq hplain, ← String.append_assoc] at hliteral
  have hkind {name arguments : String} (hname : isQuietText name = true)
      (harguments : IsQuiet arguments) :
      IsQuiet (Decorator.mk name arguments).name ∧ IsQuiet (Decorator.mk name arguments).arguments :=
    ⟨isQuiet_of_isQuietText hname, harguments⟩
  have hmethods : ∀ m ∈ Controller.methods n d id, m.IsQuietExcept (Controller.service n) := by
    simp only [Controller.methods, List.forall_mem_cons, List.not_mem_nil, false_implies,
      implies_true, and_true]
    exact ⟨isQuietExcept_route hn d _ (hkind (by decide) hempty) _ (by decide) (by decide),
      isQuietExcept_route hn d _ (hkind (by decide) hempty) _ (by decide) (by decide),
      isQuietExcept_route hn d _ (hkind (by decide) hbyId) _ (by decide) (by decide),
      isQuietExcept_route hn d _ (hkind (by decide) hbyId) _ (by decide) (by decide),
      isQuietExcept_route hn d _ (hkind (by decide) hempty) _ (by decide) (by decide)⟩
  refine ⟨List.forall_mem_singleton.mpr (hkind (by decide) (isQuiet_literal _)),
    hpascal.followedBy (by decide), hempty, List.forall_mem_cons.mpr ⟨?_,
    List.forall_mem_singleton.mpr hmethods⟩⟩
  exact ((hcamel.between (by decide) (by decide)).append hpascal).followedBy (by decide)

/-! ## The imports are quiet -/

private theorem isQuiet_ofList {list : List (String × List String)}
    (h : ∀ p ∈ list, Import.IsQuiet ⟨p.1, p.2⟩) : ∀ i ∈ (Imports.ofList list).entries, i.IsQuiet :=
  fun _ hi => h _ (Imports.mem_of_mem_entries_ofList hi)

/-- The forms of an action can stand in imports. -/
theorem isQuiet_action (a : Action) :
    a.pascal.toList.all isWord = true ∧ a.kebab.toList.all isLiteralChar = true := by
  cases a <;> decide

/-- The forms of a resource name can stand in imports. -/
theorem isQuiet_forms (hn : n.IsPlain) :
    n.pascal.toList.all isWord = true ∧ n.kebab.toList.all isLiteralChar = true := by
  refine ⟨List.all_eq_true.mpr (isWord_forms hn).2, List.all_eq_true.mpr fun c hc => ?_⟩
  exact forall_isKebabChar isLiteralChar (by decide) (hn.kebab c hc)

private theorem Service.isQuiet_imports (hn : n.IsPlain) :
    ∀ i ∈ (Service.imports n).entries, i.IsQuiet := by
  obtain ⟨hpascal, hkebab⟩ := isQuiet_forms hn
  refine isQuiet_ofList (List.forall_mem_append.mpr ⟨?_, List.forall_mem_map.mpr fun a _ => ?_⟩)
  · simp only [List.forall_mem_cons, Import.isQuiet_iff, String.toList_append, List.all_append,
      hpascal, hkebab, List.not_mem_nil, false_implies, implies_true, and_true]
    decide
  · simp only [List.forall_mem_singleton, Import.isQuiet_iff, String.toList_append,
      List.all_append, hpascal, hkebab, isQuiet_action a]
    decide

private theorem Controller.isQuiet_imports (hn : n.IsPlain) :
    ∀ i ∈ (Controller.imports n).entries, i.IsQuiet := by
  obtain ⟨hpascal, hkebab⟩ := isQuiet_forms hn
  refine isQuiet_ofList (List.forall_mem_append.mpr ⟨List.forall_mem_append.mpr ⟨?_,
    List.forall_mem_flatMap.mpr fun a _ => ?_⟩, ?_⟩)
  · simp only [List.forall_mem_cons, Import.isQuiet_iff, String.toList_append, List.all_append,
      hpascal, hkebab, List.not_mem_nil, false_implies, implies_true, and_true]
    decide
  · simp only [Controller.contractImports, List.forall_mem_cons, Import.isQuiet_iff,
      String.toList_append, List.all_append, hpascal, hkebab, isQuiet_action a, List.not_mem_nil,
      false_implies, implies_true, and_true]
    decide
  · simp only [List.forall_mem_cons, Import.isQuiet_iff, List.not_mem_nil, false_implies,
      implies_true, and_true]
    decide

/-! ## Declarations and calls -/

private theorem isMember_repository (hn : n.IsPlain) : IsMember (Service.repository n) := by
  refine ⟨n.camel ++ "Repository", String.append_assoc, ?_⟩
  simp only [String.toList_append, List.forall_mem_append]
  exact ⟨(isWord_forms hn).1, List.all_eq_true.mp (by decide)⟩

private theorem isMember_service (hn : n.IsPlain) : IsMember (Controller.service n) := by
  refine ⟨n.camel ++ "Service", String.append_assoc, ?_⟩
  simp only [String.toList_append, List.forall_mem_append]
  exact ⟨(isWord_forms hn).1, List.all_eq_true.mp (by decide)⟩

/-- The method by which the records of a model are taken away. -/
def deletion (d : Definition) : String :=
  if d.isSoftDeletable then "softDelete" else "delete"

/-- The names of the methods that a text declares. -/
def declaredNames (text : String) : List String :=
  (methodsOf text).map (·.name)

/-- The declared names of a class are read off the text of its file. -/
theorem declaredNames_ofClass {imports : Imports} {c : ClassDecl} {names : List String}
    (himports : ∀ i ∈ imports.entries, IsOneLine i.line) (hc : c.IsReadable)
    (hmethods : c.methods.map (·.name) = names) (hnames : ∀ name ∈ names, '(' ∉ name.toList) :
    declaredNames (SourceFile.ofClass imports c).text = names := by
  rw [declaredNames, methodsOf_ofClass himports hc, List.map_map, ← hmethods]
  refine List.map_congr_left fun m hm => Method.name_reading (hnames m.name ?_)
  exact hmethods ▸ List.mem_map_of_mem hm

/-- A repository declares one method for the deletion of records. -/
theorem Repository.declaredNames_source (hn : n.IsPlain) (hd : d.IsPlain) (hid : id.IsPlain) :
    declaredNames (Repository.source n d id).artifact.content =
      ["create", "update", deletion d, "findUniqueOrThrow", "findMany", "findList"] := by
  have hmethods : (classOf n d id).methods.map (·.name) =
      ["create", "update", deletion d, "findUniqueOrThrow", "findMany", "findList"] := by
    cases hsoft : d.isSoftDeletable <;>
      simp [classOf, ClassDecl.methods, Section.declaredMethods, methods, deleteMethod, deletion,
        hsoft]
  rw [source, SourceArtifact.artifact, declaredNames_ofClass
    (fun i hi => (PackageFile.isSoundImport_repository hn i hi).isOneLine_line)
    (isReadable_classOf hn hd hid) hmethods]
  cases hsoft : d.isSoftDeletable <;> simp [deletion, hsoft]

private theorem Service.declaredNames_source (hn : n.IsPlain) (hd : d.IsPlain) (hid : id.IsPlain) :
    declaredNames (Service.source n d id).artifact.content =
      ["create", "update", "delete", "findUnique", "findMany", "findList"] := by
  have hmethods : (classOf n d id).methods.map (·.name) =
      ["create", "update", "delete", "findUnique", "findMany", "findList"] := by
    simp [classOf, ClassDecl.methods, Section.declaredMethods, methods, deleteMethod]
  rw [source, SourceArtifact.artifact, declaredNames_ofClass
    (fun i hi => (PackageFile.isSoundImport_service hn i hi).isOneLine_line)
    (isReadable_classOf hn hd hid) hmethods (by decide)]

/-- What a service calls on its repository. Before it changes a record, it looks the record up. -/
theorem Service.callsOn_source (hn : n.IsPlain) (hd : d.IsPlain) (hid : id.IsPlain) :
    callsOn (Service.repository n) (Service.source n d id).artifact.content =
      ["create", "findUniqueOrThrow", "update", "findUniqueOrThrow", deletion d,
        "findUniqueOrThrow", "findMany", "findList"] := by
  rw [source, SourceArtifact.artifact, callsOn_ofClass (isMember_repository hn) (fun i hi =>
    ⟨(PackageFile.isSoundImport_service hn i hi).isOneLine_line, isQuiet_imports hn i hi⟩)
    (isReadable_classOf hn hd hid) (isQuietExcept_classOf hn hid.name.isWord)]
  simp [classOf, ClassDecl.methods, Section.declaredMethods, methods, deleteMethod, answerDone,
    Method.callsOn, deletion]

/-- What a controller calls on its service. -/
theorem Controller.callsOn_source (hn : n.IsPlain) (hd : d.IsPlain) (hid : id.IsPlain) :
    callsOn (Controller.service n) (Controller.source n d id).artifact.content =
      ["create", "update", "delete", "findUnique", "findList"] := by
  rw [source, SourceArtifact.artifact, callsOn_ofClass (isMember_service hn) (fun i hi =>
    ⟨(PackageFile.isSoundImport_controller hn i hi).isOneLine_line, isQuiet_imports hn i hi⟩)
    (isReadable_classOf hn hd hid) (isQuietExcept_classOf hn hid.name.isWord)]
  simp [classOf, ClassDecl.methods, Section.declaredMethods, methods, route, Method.callsOn,
    Action.name]

end Layer

open Layer in
/-- **Every call has a target.** For a resource name that is a word and a definition with one
identifier field, the repository declares `softDelete` and no `delete` if a field is named
`deletedAt`, and `delete` and no `softDelete` otherwise. The service calls the one that is there,
and whatever it calls on its repository is declared in the repository. The controller calls five
methods of its service, all of them declared in the service. -/
theorem calls_are_declared (conventions : Conventions) {registry : Registry}
    {fileId text word : String} {location : Location} {d : Definition} (hword : IsWord word)
    (hparse : Definition.parse registry fileId location text = .ok d)
    (hids : d.idFields.length = 1) :
    let n := conventions.resourceName word
    ∃ repository service controller : Artifact,
      (Layer.repository.render conventions n d).map (·.artifacts) = .ok [repository] ∧
      (Layer.service.render conventions n d).map (·.artifacts) = .ok [service] ∧
      (Layer.controller.render conventions n d).map (·.artifacts) = .ok [controller] ∧
      ((∃ f ∈ d.fields, f.name = "deletedAt") →
        "softDelete" ∈ declaredNames repository.content ∧
        "delete" ∉ declaredNames repository.content ∧
        "softDelete" ∈ callsOn ("this." ++ n.camel ++ "Repository") service.content) ∧
      ((¬ ∃ f ∈ d.fields, f.name = "deletedAt") →
        "delete" ∈ declaredNames repository.content ∧
        "softDelete" ∉ declaredNames repository.content ∧
        "delete" ∈ callsOn ("this." ++ n.camel ++ "Repository") service.content) ∧
      (∀ method ∈ callsOn ("this." ++ n.camel ++ "Repository") service.content,
        method ∈ declaredNames repository.content) ∧
      callsOn ("this." ++ n.camel ++ "Service") controller.content =
        ["create", "update", "delete", "findUnique", "findList"] ∧
      ∀ method ∈ callsOn ("this." ++ n.camel ++ "Service") controller.content,
        method ∈ declaredNames service.content := by
  intro n
  have hn : n.IsPlain := ResourceName.isPlain_of_isWord conventions.managementMarker hword
  have hd := Definition.isPlain_of_parse hparse
  obtain ⟨id, hmem, hidentifier⟩ := Definition.exists_identifier hids
  have hid := hd.fields id hmem
  have hsoft : (∃ f ∈ d.fields, f.name = "deletedAt") ↔ d.isSoftDeletable = true := by
    simp [Definition.isSoftDeletable]
  have hdeclared := Repository.declaredNames_source hn hd hid
  have hcalls := Service.callsOn_source hn hd hid
  have hroutes := Controller.callsOn_source hn hd hid
  rw [Service.repository] at hcalls
  rw [Controller.service] at hroutes
  refine ⟨(Repository.source n d id).artifact, (Service.source n d id).artifact,
    (Controller.source n d id).artifact, ?_, ?_, ?_, fun h => ?_, fun h => ?_, ?_, hroutes, ?_⟩
  · simp [Layer.render, Repository.output, hidentifier, Except.map]
  · simp [Layer.render, Service.output, hidentifier, Except.map]
  · simp [Layer.render, Controller.output, hidentifier, Except.map]
  · rw [hdeclared, hcalls, deletion, if_pos (hsoft.mp h)]
    decide
  · rw [hdeclared, hcalls, deletion, if_neg (mt hsoft.mpr h)]
    decide
  · rw [hdeclared, hcalls]
    simp
  · rw [Service.declaredNames_source hn hd hid, hroutes]
    decide

/-- A definition unit of notes, whose description looks like a call. -/
def noteUnit : String :=
  "// this.noteRepository.drop(\"\nmodel Note \x7b\n  id Int @id // key\n" ++
    "  deletedAt DateTime? // gone\n\x7d\n"

/-- The model of notes. -/
def noteDefinition : Definition where
  name := "Note"
  description := "this.noteRepository.drop(\""
  fields :=
    [{ name := "id", type := .ofDeclared "Int" false, isArray := false, isId := true
       isRequired := true, tags := {}, description := "key", unknownDirectives := [] },
     { name := "deletedAt", type := .ofDeclared "DateTime" false, isArray := false, isId := false
       isRequired := false, tags := {}, description := "gone", unknownDirectives := [] }]
  relations := []
  fileId := "note"
  location := .primary

open Layer in
/-- The call in the description of notes is none: all calls of the service are declared. -/
theorem calls_are_declared_note :
    (IsWord "note" ∧
      Definition.parse ⟨[], []⟩ "note" .primary noteUnit = .ok noteDefinition ∧
      noteDefinition.idFields.length = 1) ∧
    ∃ repository service : Artifact,
      (Layer.repository.render {} (Conventions.resourceName {} "note") noteDefinition).map
        (·.artifacts) = .ok [repository] ∧
      (Layer.service.render {} (Conventions.resourceName {} "note") noteDefinition).map
        (·.artifacts) = .ok [service] ∧
      "softDelete" ∈ declaredNames repository.content ∧
      ∀ method ∈ callsOn
        ("this." ++ (Conventions.resourceName {} "note").camel ++ "Repository") service.content,
        method ∈ declaredNames repository.content := by
  have hword : IsWord "note" := ⟨by decide, List.all_eq_true.mp (by decide)⟩
  have hparse : Definition.parse ⟨[], []⟩ "note" .primary noteUnit = .ok noteDefinition := by
    decide +kernel
  have hids : noteDefinition.idFields.length = 1 := by decide
  have hdeletedAt : ∃ f ∈ noteDefinition.fields, f.name = "deletedAt" := by decide
  obtain ⟨repository, service, -, hrepository, hservice, -, hsoft, -, htargets, -⟩ :=
    calls_are_declared {} hword hparse hids
  exact ⟨⟨hword, hparse, hids⟩, repository, service, hrepository, hservice,
    (hsoft hdeletedAt).1, htargets⟩

end NestLayers
