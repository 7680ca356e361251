import Mathlib.Data.List.Forall2
import NestLayers.Proofs.PackageClosure
import NestLayers.Proofs.PropertyTexts

/-!
# Request contracts import what they use

The imports and the properties of a request contract are put together apart from each other. Read off
the text, the checks that are imported are those that stand above the properties, in order and once
each, and the enumerations are imported where a property has one as its type. The properties are
those that the action asks for.
-/

namespace NestLayers.Layer.RequestContract

open NestLayers.Text NestLayers.Naming NestLayers.TypeScript

/-! ## The text of a contract -/

/-- How a field stands in a request that needs it or not. -/
def asked (f : Field) (required : Bool) : PropertyText where
  decorators := [if required then "IsNotEmpty" else "IsOptional", f.type.validatorName]
  name := f.name
  mark := if required then "!" else "?"
  type := f.type.request

/-- The type of a property is an enumeration. -/
def HasEnumType (p : PropertyText) : Prop :=
  "$Enums.".toList <+: p.type.toList

/-- It is decided by the type. -/
instance (p : PropertyText) : Decidable (HasEnumType p) :=
  inferInstanceAs (Decidable (_ <+: _))

/-- The properties of the request of an action. The other fields are those apart from the
identifier. -/
def expected (d : Definition) (profile : Profile) (id : Field) (others : List Field) :
    Action → List PropertyText
  | .create =>
    (d.fields.filter fun f => (f.tags.profile profile).create.isSome).map fun f =>
      asked f ((f.tags.profile profile).create == some .createRequired)
  | .update =>
    asked id true :: (others.filter fun f => (f.tags.profile profile).update == some .update).map
      fun f => asked f false
  | .delete | .findUnique => [asked id true]
  | .findList => []

/-- A contract imports what its properties use and nothing else. -/
structure ImportsWhatItUses (text : String) : Prop where
  sorted : (namesFrom text "class-validator").Pairwise (· ≤ ·)
  nodup : (namesFrom text "class-validator").Nodup
  checks : ∀ name, name ∈ namesFrom text "class-validator" ↔
    ∃ p ∈ propertiesOf text, name ∈ p.decorators
  enums : "$Enums" ∈ importedNames text ↔ ∃ p ∈ propertiesOf text, HasEnumType p

private theorem reading_property (f : Field) (required : Bool) :
    (property f required).reading = asked f required := by
  cases required <;> rfl

/-- The text of a property of a request can be read. -/
theorem isReadable_property {f : Field} (hf : f.IsPlain) (required : Bool) :
    (property f required).IsReadable := by
  refine ⟨areLines_property hf required, hf.name, ?_, ?_⟩
  · cases required <;> simp [property]
  · refine List.forall_mem_cons.mpr ⟨?_, List.forall_mem_singleton.mpr ?_⟩
    · cases required <;> simp [presence]
    · exact notMem_of_isWord hf.isWord_validatorName (by decide)

/-- Only the form of an enumeration looks like one. -/
theorem hasEnumType_asked_iff {f : Field} (hf : f.IsPlain) (required : Bool) :
    HasEnumType (asked f required) ↔ f.type.isEnum = true := by
  obtain ⟨declared, isArray, -, htype⟩ := hf.type
  change "$Enums.".toList <+: f.type.request.toList ↔ f.type.isEnum = true
  rw [htype]
  unfold Representation.ofDeclared Representation.ofScalar?
  split
  · cases isArray <;> decide
  · decide
  · decide
  · decide
  · decide
  · simp [Representation.ofEnum]

/-- The checks of a request are the decorators of its properties. -/
theorem mem_checks_iff {fields : List (Field × Bool)} {name : String} :
    name ∈ checks fields ↔ ∃ p ∈ fields.map (fun p => asked p.1 p.2), name ∈ p.decorators := by
  simp only [checks, List.mem_flatMap, List.mem_map, exists_exists_and_eq_and, asked, presence]

/-- An interface comes from no package. -/
theorem interfaceOrigin_ne (n : ResourceName) (action : Action) {origin : String}
    (h : origin.toList.head? ≠ some '.') :
    "../interfaces/" ++ n.kebab ++ "-" ++ action.kebab ++ ".interface" ≠ origin := by
  rintro rfl
  simp at h

private theorem content_source (conventions : Conventions) (n : ResourceName) (action : Action)
    (fields : List (Field × Bool)) :
    (source conventions n action fields).artifact.content =
      (SourceFile.ofClass (imports conventions n action fields) (classOf n action fields)).text := by
  rw [source, SourceArtifact.artifact]

section Texts

variable {conventions : Conventions} {n : ResourceName} {fields : List (Field × Bool)}
  (hn : n.IsPlain) (hfields : ∀ p ∈ fields, p.1.IsPlain)
include hn hfields

/-- The properties of a contract are read off its text. -/
theorem propertiesOf_source (action : Action) :
    propertiesOf (source conventions n action fields).artifact.content =
      fields.map fun p => asked p.1 p.2 := by
  have hplain := isPlain_classOf hn hfields action
  have hsections : (classOf n action fields).sections =
        [.properties (fields.map fun p => property p.1 p.2)] ∨
      (classOf n action fields).sections = [] ∧ (fields.map fun p => property p.1 p.2) = [] := by
    by_cases hempty : fields = []
    · exact .inr ⟨by simp [classOf, hempty], by simp [hempty]⟩
    · exact .inl (by simp [classOf, hempty])
  have hread := propertiesOf_ofClass (imports conventions n action fields) rfl
    (hplain.hasLines rfl) hsections
    (List.forall_mem_map.mpr fun p hp => isReadable_property (hfields p hp) p.2)
  rw [content_source, hread, List.map_map]
  exact List.map_congr_left fun p _ => reading_property p.1 p.2

/-- The imports of a contract are read off its text. -/
theorem importsIn_source (hpackage : conventions.validatorPackage = "class-validator")
    (action : Action) :
    importsIn (source conventions n action fields).artifact.content =
      (if fields = [] then []
        else [⟨"class-validator", inOrder (firstOccurrences (checks fields))⟩]) ++
      (if fields.any (·.1.type.isEnum) then [⟨"@prisma/client", ["$Enums"]⟩] else []) ++
      [⟨"../interfaces/" ++ n.kebab ++ "-" ++ action.kebab ++ ".interface",
        ["I" ++ n.pascal ++ action.pascal]⟩] ++
      (if action = .findList then [⟨"@dto/request.dto", ["PaginationDto"]⟩] else []) := by
  have hsound := PackageFile.isSoundImport_request hn hpackage hfields action
  have hread := importsIn_ofClass (isPlain_classOf hn hfields action) rfl
    fun i hi => ⟨(hsound i hi).isReadable, (hsound i hi).isOneLine_line⟩
  have honce (names : List String) (h : names.Nodup) : firstOccurrences names = names :=
    firstOccurrences_of_nodup h
  have hused : (inOrder (firstOccurrences (checks fields))).Nodup :=
    (perm_inOrder _).nodup_iff.mpr (nodup_firstOccurrences _)
  have hempty : (inOrder (firstOccurrences (checks fields))).isEmpty = true ↔ fields = [] := by
    rw [List.isEmpty_iff, ← List.length_eq_zero_iff, (perm_inOrder _).length_eq,
      List.length_eq_zero_iff]
    constructor
    · intro h
      by_contra hne
      refine firstOccurrences_ne_nil ?_ h
      cases fields with
      | nil => exact absurd rfl hne
      | cons p fields => simp [checks]
    · rintro rfl
      rfl
  have hvalidator : _ ≠ "class-validator" := interfaceOrigin_ne n action (by decide)
  have henums : _ ≠ "@prisma/client" := interfaceOrigin_ne n action (by decide)
  have hpaging : _ ≠ "@dto/request.dto" := interfaceOrigin_ne n action (by decide)
  rw [content_source, hread]
  unfold imports
  rw [Imports.entries_ofList, List.map_map, hpackage]
  · simp only [hempty]
    split <;> split <;> split <;> simp [honce, hused]
  · rw [hpackage]
    split <;> split <;> split <;> simp [hvalidator.symm, henums.symm, hpaging]

/-- **A contract imports what it uses.** -/
theorem importsWhatItUses_source (hpackage : conventions.validatorPackage = "class-validator")
    (action : Action) :
    ImportsWhatItUses (source conventions n action fields).artifact.content := by
  have hproperties : propertiesOf (source conventions n action fields).artifact.content =
      fields.map fun p => asked p.1 p.2 := propertiesOf_source hn hfields action
  have himports := importsIn_source hn hfields hpackage action
  have hnames : namesFrom (source conventions n action fields).artifact.content "class-validator" =
      inOrder (firstOccurrences (checks fields)) := by
    have hinterface : _ ≠ "class-validator" := interfaceOrigin_ne n action (by decide)
    rw [namesFrom, himports]
    by_cases hempty : fields = []
    · subst hempty
      split <;> simp [hinterface, checks, firstOccurrences, inOrder]
    · rw [if_neg hempty]
      split <;> split <;> simp [hinterface]
  refine ⟨?_, ?_, fun name => ?_, ?_⟩
  · rw [hnames]
    exact pairwise_inOrder _
  · rw [hnames]
    exact (perm_inOrder _).nodup_iff.mpr (nodup_firstOccurrences _)
  · rw [hnames, hproperties, (perm_inOrder _).mem_iff, mem_firstOccurrences, mem_checks_iff]
  · have hchecks : "$Enums" ∉ inOrder (firstOccurrences (checks fields)) := by
      rw [(perm_inOrder _).mem_iff, mem_firstOccurrences]
      intro hmem
      obtain ⟨p, hp, hname⟩ := List.mem_flatMap.mp hmem
      have hvalidator := (hfields p hp).isOneLine.2.2.2
      rcases List.mem_cons.mp hname with hpresence | hname
      · revert hpresence
        cases p.2 <;> decide
      · rw [← List.mem_singleton.mp hname] at hvalidator
        exact absurd hvalidator (by decide)
    have hinterface : "$Enums" ≠ "I" ++ n.pascal ++ action.pascal := by
      intro h
      simpa using congrArg (·.toList.head?) h
    have hany : (∃ p ∈ fields.map fun p => asked p.1 p.2, HasEnumType p) ↔
        fields.any (·.1.type.isEnum) = true := by
      simp only [List.mem_map, exists_exists_and_eq_and, List.any_eq_true]
      exact exists_congr fun p => and_congr_right fun hp => hasEnumType_asked_iff (hfields p hp) p.2
    rw [hproperties, hany, importedNames, himports]
    split <;> split <;> split <;> simp_all

end Texts

/-! ## The fields of each action -/

/-- The fields with a tag for creation, each with whether it is required. -/
theorem map_asked_filterMap (create : Field → Option Tag) (fields : List Field) :
    ((fields.filterMap fun f => (create f).map fun tag => (f, tag == .createRequired)).map
        fun p => asked p.1 p.2) =
      (fields.filter fun f => (create f).isSome).map fun f =>
        asked f (create f == some .createRequired) := by
  induction fields with
  | nil => rfl
  | cons f fields ih =>
    cases hcreate : create f with
    | none =>
      rw [List.filterMap_cons_none (by rw [hcreate, Option.map_none]),
        List.filter_cons_of_neg (by simp [hcreate]), ih]
    | some tag =>
      rw [List.filterMap_cons_some (by rw [hcreate, Option.map_some]),
        List.filter_cons_of_pos (by simp [hcreate]), List.map_cons, List.map_cons, ih, hcreate]
      rfl

/-- A definition with one identifier field, set apart from the other fields. -/
structure HasIdentifier (d : Definition) (before : List Field) (id : Field)
    (after : List Field) : Prop where
  fields : d.fields = before ++ id :: after
  isId : id.isId = true
  others : ∀ f ∈ before ++ after, f.isId = false

/-- The only identifier field stands between the others. -/
theorem exists_hasIdentifier {d : Definition} {id : Field} (h : d.idFields = [id]) :
    ∃ before after, HasIdentifier d before id after := by
  obtain ⟨before, after, hfields, hbefore, hid, hafter⟩ := List.filter_eq_cons_iff.mp h
  refine ⟨before, after, hfields, hid, List.forall_mem_append.mpr ⟨?_, ?_⟩⟩
  · exact fun f hf => by simpa using hbefore f hf
  · exact fun f hf => by simpa using List.filter_eq_nil_iff.mp hafter f hf

namespace HasIdentifier

variable {d : Definition} {id : Field} {before after : List Field} {profile : Profile}

private theorem identifier_eq (h : HasIdentifier d before id after) : d.identifier = .ok id := by
  obtain ⟨hbefore, hafter⟩ := List.forall_mem_append.mp h.others
  have hids : d.idFields = [id] := by
    rw [Definition.idFields, h.fields, List.filter_append, List.filter_cons_of_pos h.isId,
      List.filter_eq_nil_iff.mpr (by simpa using hbefore),
      List.filter_eq_nil_iff.mpr (by simpa using hafter), List.nil_append]
  rw [Definition.identifier, hids]

/-- The identifier is none of the other fields. -/
theorem id_notMem (h : HasIdentifier d before id after) : id ∉ before ++ after := by
  intro hmem
  have hfalse := h.others id hmem
  rw [h.isId] at hfalse
  cases hfalse

/-- **The request of an action has the properties that the action asks for.** -/
theorem map_asked_eq_expected (h : HasIdentifier d before id after) {action : Action}
    {fields : List (Field × Bool)} (hfields : requestFields d profile action = .ok fields) :
    (fields.map fun p => asked p.1 p.2) = expected d profile id (before ++ after) action := by
  cases action with
  | create =>
    obtain rfl := Except.ok.inj hfields
    exact map_asked_filterMap (fun f => (f.tags.profile profile).create) d.fields
  | findList =>
    obtain rfl := Except.ok.inj hfields
    rfl
  | delete | findUnique =>
    rw [requestFields, h.identifier_eq] at hfields
    obtain rfl := Except.ok.inj hfields
    rfl
  | update =>
    rw [requestFields, h.identifier_eq] at hfields
    obtain rfl := Except.ok.inj hfields
    have hothers : (d.fields.filter fun f =>
        (f.tags.profile profile).update == some .update && !f.isId) =
          (before ++ after).filter fun f => (f.tags.profile profile).update == some .update := by
      have hcongr : ((before ++ after).filter fun f =>
          (f.tags.profile profile).update == some .update && !f.isId) =
            (before ++ after).filter fun f => (f.tags.profile profile).update == some .update :=
        List.filter_congr fun f hf => by rw [h.others f hf, Bool.not_false, Bool.and_true]
      rw [h.fields, List.filter_append, List.filter_cons_of_neg (by simp [h.isId]),
        ← List.filter_append, hcongr]
    rw [List.map_cons, hothers, List.map_map]
    rfl

/-- A request asks for no name twice, if no two fields have the same name. -/
theorem nodup_names_expected (h : HasIdentifier d before id after)
    (hnames : (d.fields.map (·.name)).Nodup) (action : Action) :
    ((expected d profile id (before ++ after) action).map (·.name)).Nodup := by
  have hid : ((id :: (before ++ after)).map (·.name)).Nodup := by
    rw [h.fields] at hnames
    exact (List.perm_middle.map _).nodup_iff.mp hnames
  cases action with
  | create =>
    rw [expected, List.map_map]
    exact hnames.sublist (List.filter_sublist.map _)
  | update =>
    rw [expected, List.map_cons, List.map_map]
    exact hid.sublist ((List.filter_sublist.map _).cons_cons _)
  | delete | findUnique => exact List.nodup_singleton _
  | findList => exact List.nodup_nil

end HasIdentifier

/-- **Request contracts.** For every definition that is read and has one identifier field, every
word and either profile, there is a contract for each action. Its properties are those that the
action asks for: the identifier stands before the other fields of an update and is not repeated. It
imports the checks above its properties, in order and once each, and the enumerations exactly if a
property has one as its type. -/
theorem contracts_import_what_they_use {registry : Registry} {fileId text word : String}
    {location : Location} {d : Definition} {id : Field}
    (hparse : Definition.parse registry fileId location text = .ok d) (hid : d.idFields = [id])
    (hword : IsWord word) (excluded : List String) (profile : Profile) :
    let conventions := ({} : Settings).conventions excluded
    ∃ layer before after,
      output conventions (conventions.resourceName word) d profile = .ok layer ∧
      d.fields = before ++ id :: after ∧ id ∉ before ++ after ∧
      List.Forall₂ (fun action artifact =>
          propertiesOf artifact.content = expected d profile id (before ++ after) action ∧
          ((d.fields.map (·.name)).Nodup →
            ((propertiesOf artifact.content).map (·.name)).Nodup) ∧
          ImportsWhatItUses artifact.content)
        Action.all layer.artifacts := by
  intro conventions
  obtain ⟨before, after, hsplit⟩ := exists_hasIdentifier hid
  choose requests hrequests using exists_requestFields hsplit.identifier_eq profile
  have hplain := Definition.isPlain_of_parse hparse
  have hn : (conventions.resourceName word).IsPlain := ResourceName.isPlain_of_isWord _ hword
  refine ⟨_, before, after, output_eq_ok conventions _ hrequests, hsplit.fields,
    hsplit.id_notMem, ?_⟩
  rw [List.forall₂_map_right_iff, List.forall₂_same]
  intro action _
  have hfields : ∀ p ∈ requests action, p.1.IsPlain :=
    fun p hp => hplain.fields _ (mem_of_requestFields (hrequests action) p hp)
  have hproperties : propertiesOf (source conventions (conventions.resourceName word) action
      (requests action)).artifact.content = expected d profile id (before ++ after) action :=
    (propertiesOf_source hn hfields action).trans
      (hsplit.map_asked_eq_expected (hrequests action))
  refine ⟨hproperties, fun hnames => ?_, importsWhatItUses_source hn hfields rfl action⟩
  rw [hproperties]
  exact hsplit.nodup_names_expected hnames action

/-- The unit of a ticket, with two fields that are checked in the same way and an enumeration. -/
def ticketUnit : String :=
  "// Ticket\nmodel Ticket \x7b\n  title String // title #CR #U\n  id Int @id // key #U\n" ++
    "  state State? // state #CO #U\n  labels String[] // labels #CR\n\x7d\n"

/-- The key of a ticket. -/
def ticketKey : Field where
  name := "id"
  type := .ofDeclared "Int" false
  isArray := false
  isId := true
  isRequired := true
  tags := { standard := { update := some .update } }
  description := "key"
  unknownDirectives := []

/-- The model of a ticket. -/
def ticketModel : Definition where
  name := "Ticket"
  description := "Ticket"
  fields :=
    [{ name := "title", type := .ofDeclared "String" false, isArray := false, isId := false
       isRequired := true
       tags := { standard := { create := some .createRequired, update := some .update } }
       description := "title", unknownDirectives := [] },
     ticketKey,
     { name := "state", type := .ofDeclared "State" false, isArray := false, isId := false
       isRequired := false
       tags := { standard := { create := some .createOptional, update := some .update } }
       description := "state", unknownDirectives := [] },
     { name := "labels", type := .ofDeclared "String" true, isArray := true, isId := false
       isRequired := true, tags := { standard := { create := some .createRequired } }
       description := "labels", unknownDirectives := [] }]
  relations := []
  fileId := "ticket"
  location := .primary

/-- The contract for the creation of a ticket: its properties in order, its checks once each, and its
enumeration. -/
theorem contracts_import_what_they_use_ticket :
    Definition.parse {} "ticket" .primary ticketUnit = .ok ticketModel ∧
    ticketModel.idFields = [ticketKey] ∧ IsWord "ticket" ∧
    ∃ layer creation others,
      output (({} : Settings).conventions []) ((({} : Settings).conventions []).resourceName "ticket")
        ticketModel .standard = .ok layer ∧
      layer.artifacts = creation :: others ∧
      propertiesOf creation.content =
        [⟨["IsNotEmpty", "IsString"], "title", "!", "string"⟩,
          ⟨["IsOptional", "IsEnum"], "state", "?", "$Enums.State"⟩,
          ⟨["IsNotEmpty", "IsString"], "labels", "!", "string[]"⟩] ∧
      ((propertiesOf creation.content).map (·.name)).Nodup ∧
      (namesFrom creation.content "class-validator").Nodup ∧
      "IsString" ∈ namesFrom creation.content "class-validator" ∧
      "IsInt" ∉ namesFrom creation.content "class-validator" ∧
      "$Enums" ∈ importedNames creation.content := by
  have hparse : Definition.parse {} "ticket" .primary ticketUnit = .ok ticketModel := by
    decide +kernel
  have hword : IsWord "ticket" := ⟨by decide, List.all_eq_true.mp (by decide)⟩
  obtain ⟨layer, _, _, houtput, -, -, hall⟩ :=
    contracts_import_what_they_use hparse (show ticketModel.idFields = [ticketKey] by decide) hword
      [] .standard
  obtain ⟨creation, others, ⟨hproperties, hnames, himports⟩, -, hartifacts⟩ :=
    List.forall₂_cons_left_iff.mp hall
  have hcreation (others : List Field) :
      expected ticketModel .standard ticketKey others .create =
        [⟨["IsNotEmpty", "IsString"], "title", "!", "string"⟩,
          ⟨["IsOptional", "IsEnum"], "state", "?", "$Enums.State"⟩,
          ⟨["IsNotEmpty", "IsString"], "labels", "!", "string[]"⟩] := by
    rw [expected]
    decide
  rw [hcreation] at hproperties
  refine ⟨hparse, by decide, hword, layer, creation, others, houtput, hartifacts, hproperties,
    hnames (by decide), himports.nodup, ?_, ?_, ?_⟩
  · rw [himports.checks, hproperties]
    decide
  · rw [himports.checks, hproperties]
    decide
  · rw [himports.enums, hproperties]
    decide

end NestLayers.Layer.RequestContract
