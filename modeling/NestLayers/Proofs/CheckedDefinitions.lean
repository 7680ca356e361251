import NestLayers.Layer.Info
import NestLayers.Proofs.PackageClosure
import NestLayers.Proofs.ResourceLayers

/-!
# What checking a definition decides

A definition is refused for a missing identifier, for several identifiers, or for relations that
name no field of the model, in this order. A definition that is not refused has what the layers
need: with an identifier all of them are rendered, and a finder that can be narrowed by a relation
is narrowed by the field which stores it.
-/

namespace NestLayers

/-! ## Relations of a definition that was read -/

namespace FieldLine

private theorem ne_empty_of_fieldsArgument? {cs : List Char} {id : String}
    (h : fieldsArgument? cs = some id) : id ≠ "" := by
  simp only [fieldsArgument?, Option.bind_eq_bind, Option.bind_eq_some_iff] at h
  obtain ⟨_, -, _, -, _, -, h⟩ := h
  split at h
  · cases h
  · rename_i hne
    obtain rfl := Option.some.inj h
    simpa [← String.toList_inj] using hne

private theorem ne_empty_of_relationIdFrom? {afterWord : Bool} {cs : List Char} {id : String}
    (h : relationIdFrom? afterWord cs = some id) : id ≠ "" := by
  induction cs generalizing afterWord with
  | nil => cases h
  | cons c cs ih =>
    rw [relationIdFrom?] at h
    split at h
    · rename_i name hname
      obtain rfl := Option.some.inj h
      split at hname
      · cases hname
      · exact ne_empty_of_fieldsArgument? hname
    · exact ih h

/-- A line that names the field of a relation gives it a name. -/
theorem relationId?_ne_empty (line : FieldLine) : line.relationId? ≠ some "" := by
  intro h
  obtain ⟨text, -, htext⟩ := Option.bind_eq_some_iff.mp h
  exact ne_empty_of_relationIdFrom? htext rfl

end FieldLine

namespace Definition

variable {d : Definition} {requireId : Bool} {result : Diagnostics (List (String × ContextValue))}

/-- The relations of a definition that was read do not name the field of no name. -/
theorem relationId_ne_empty_of_parse {registry : Registry} {fileId text : String}
    {location : Location} (h : parse registry fileId location text = .ok d) :
    ∀ r ∈ d.relations, r.relationId ≠ some "" := by
  obtain ⟨lines, -, -, hrelations⟩ := parse_eq_ok h
  intro r hr
  rw [hrelations] at hr
  obtain ⟨member, hmember, hr⟩ := List.mem_filterMap.mp hr
  obtain ⟨line, -, rfl⟩ := List.mem_map.mp hmember
  unfold FieldLine.member at hr
  dsimp only at hr
  split at hr
  · obtain rfl := Option.some.inj hr
    exact line.relationId?_ne_empty
  · cases hr

/-- The relation names a field that the model does not have. -/
def Dangles (d : Definition) (r : Relation) : Prop :=
  ∃ id, r.relationId = some id ∧ ∀ f ∈ d.fields, f.name ≠ id

/-- It is decided by the names of the fields. -/
instance (d : Definition) (r : Relation) : Decidable (d.Dangles r) :=
  match hid : r.relationId with
  | none => isFalse fun ⟨_, h, _⟩ => nomatch hid.symm.trans h
  | some id =>
    decidable_of_iff (∀ f ∈ d.fields, f.name ≠ id)
      ⟨fun h => ⟨id, hid, h⟩, fun ⟨_, hother, h⟩ => Option.some.inj (hid.symm.trans hother) ▸ h⟩

/-- The relations that name a field which the model does not have, in order. -/
def danglingRelations (d : Definition) : List Relation :=
  d.relations.filter fun r => d.Dangles r

/-- What is said about such a relation. -/
def danglingProblem (d : Definition) (r : Relation) : String :=
  "Relation '" ++ r.name ++ "' references '" ++ r.relationId.getD "" ++
    "', which is not a scalar field of '" ++ d.name ++ "'."

/-! ## The findings -/

private theorem relationFindings_eq (h : ∀ r ∈ d.relations, r.relationId ≠ some "") :
    d.relationFindings =
      d.danglingRelations.map fun r => .relationIdUnknown r.name (r.relationId.getD "") := by
  rw [danglingRelations, ← List.filterMap_eq_filter, List.map_filterMap]
  refine List.filterMap_congr fun r hr => ?_
  cases hid : r.relationId with
  | none => simp [Dangles, Option.guard, hid]
  | some id =>
    have hne : id ≠ "" := fun heq => h r hr (hid.trans (congrArg some heq))
    by_cases hdangles : ∀ f ∈ d.fields, f.name ≠ id <;>
      simp [Dangles, Option.guard, hid, hne, hdangles]

/-- The findings that are errors are those about identifiers and relations. -/
theorem errors_validate (d : Definition) (requireId : Bool) :
    (d.validate requireId).errors =
      (d.idFindings requireId ++ d.relationFindings).map (Finding.diagnostic d.name) := by
  have hids : ∀ f ∈ d.idFindings requireId, f.severity = .error := by
    intro f hf
    unfold idFindings at hf
    split at hf
    · split at hf
      · obtain rfl := List.mem_singleton.mp hf
        rfl
      · cases hf
    · cases hf
    · obtain rfl := List.mem_singleton.mp hf
      rfl
  have hrelations : ∀ f ∈ d.relationFindings, f.severity = .error := by
    intro f hf
    obtain ⟨r, -, hf⟩ := List.mem_filterMap.mp hf
    split at hf
    · split at hf
      · obtain rfl := Option.some.inj hf
        rfl
      · cases hf
    · cases hf
  have hduplicates : ∀ f ∈ d.duplicateFindings, f.severity ≠ .error := by
    intro f hf
    obtain ⟨name, -, hf⟩ := List.mem_filterMap.mp hf
    split at hf
    · obtain rfl := Option.some.inj hf
      nofun
    · cases hf
  have hdirectives : ∀ f ∈ d.directiveFindings, f.severity ≠ .error := by
    intro f hf
    obtain ⟨field, -, hf⟩ := List.mem_flatMap.mp hf
    obtain ⟨word, -, rfl⟩ := List.mem_map.mp hf
    nofun
  have hsome {findings : List Finding} (h : ∀ f ∈ findings, f.severity = .error) :
      findings.filter (·.severity == .error) = findings :=
    List.filter_eq_self.mpr fun f hf => by simp [h f hf]
  have hnone {findings : List Finding} (h : ∀ f ∈ findings, f.severity ≠ .error) :
      findings.filter (·.severity == .error) = [] :=
    List.filter_eq_nil_iff.mpr fun f hf => by simp [h f hf]
  change ((d.findings requireId).map (Finding.diagnostic d.name)).filter _ = _
  rw [List.filter_map]
  change ((d.findings requireId).filter (·.severity == .error)).map _ = _
  simp only [findings, List.filter_append, hsome hids, hsome hrelations, hnone hduplicates,
    hnone hdirectives, List.append_nil]

private theorem idFindings_eq_nil_iff :
    d.idFindings requireId = [] ↔
      (requireId = true → d.idFields ≠ []) ∧ d.idFields.length ≤ 1 := by
  unfold idFindings
  rcases d.idFields with _ | ⟨f, _ | ⟨g, rest⟩⟩ <;> simp

/-- A definition with a finding about its identifiers is refused for it. -/
theorem check_of_identifier {error : IdentifierError} (hids : d.idFindings requireId ≠ [])
    (h : d.identifier = .error error) : d.check requireId = .error (.identifier error) := by
  rw [check, if_pos (by simpa using hids), h]
  rfl

/-- A definition without such a finding is refused for its relations only. -/
theorem check_of_idFindings_eq_nil (hids : d.idFindings requireId = []) :
    d.check requireId =
      if d.relationFindings = [] then .ok (d.validate requireId)
      else .error (.relations d.name (d.relationFindings.map (Finding.message d.name))) := by
  have herrors : (d.validate requireId).errors =
      d.relationFindings.map (Finding.diagnostic d.name) := by
    rw [errors_validate, hids, List.nil_append]
  have hmessages : (d.validate requireId).errors.map (·.message) =
      d.relationFindings.map (Finding.message d.name) := by
    rw [herrors, List.map_map]
    rfl
  have hvalid : (d.validate requireId).isValid = d.relationFindings.isEmpty := by
    rw [Diagnostics.isValid, herrors, List.isEmpty_map]
  unfold check
  simp only [hids, List.isEmpty_nil, Bool.not_true, Bool.false_eq_true, if_false, hvalid, hmessages]
  cases d.relationFindings with
  | nil => rfl
  | cons finding rest => rfl

/-- **What a definition is refused for.** -/
theorem check_eq (h : ∀ r ∈ d.relations, r.relationId ≠ some "") (requireId : Bool) :
    d.check requireId =
      if requireId = true ∧ d.idFields = [] then .error (.identifier (.missing d.name))
      else if 1 < d.idFields.length then
        .error (.identifier (.composite d.name (d.idFields.map (·.name))))
      else if d.danglingRelations ≠ [] then
        .error (.relations d.name (d.danglingRelations.map d.danglingProblem))
      else .ok (d.validate requireId) := by
  by_cases hids : d.idFindings requireId = []
  · obtain ⟨hsome, hle⟩ := idFindings_eq_nil_iff.mp hids
    rw [if_neg fun hnone => hsome hnone.1 hnone.2, if_neg (by omega),
      check_of_idFindings_eq_nil hids, relationFindings_eq h, List.map_map, ite_not]
    simp only [List.map_eq_nil_iff]
    rfl
  · rcases hfields : d.idFields with _ | ⟨f, _ | ⟨g, rest⟩⟩
    · have hrequired : requireId = true := by
        by_contra hfree
        exact hids (idFindings_eq_nil_iff.mpr ⟨fun htrue => absurd htrue hfree, by simp [hfields]⟩)
      rw [if_pos ⟨hrequired, rfl⟩]
      exact check_of_identifier hids (by rw [identifier, hfields])
    · exact absurd (idFindings_eq_nil_iff.mpr ⟨fun _ => by simp [hfields], by simp [hfields]⟩) hids
    · rw [if_neg (by simp), if_pos (by simp)]
      exact check_of_identifier hids (by rw [identifier, hfields])

/-- A definition that is not refused has no errors, and what was asked for. -/
theorem of_check_eq_ok (h : d.check requireId = .ok result) :
    result.errors = [] ∧ d.idFindings requireId = [] ∧ d.relationFindings = [] := by
  by_cases hids : d.idFindings requireId = []
  · rw [check_of_idFindings_eq_nil hids] at h
    split at h
    · rename_i hrelations
      obtain rfl := Except.ok.inj h
      refine ⟨?_, hids, hrelations⟩
      rw [errors_validate, hids, hrelations]
      rfl
    · cases h
  · cases hid : d.identifier with
    | error error =>
      rw [check_of_identifier hids hid] at h
      cases h
    | ok f =>
      refine absurd (idFindings_eq_nil_iff.mpr ?_) hids
      unfold identifier at hid
      split at hid
      · rename_i hfields
        simp [hfields]
      · cases hid
      · cases hid

private theorem length_idFields_of_check (h : d.check true = .ok result) :
    d.idFields.length = 1 := by
  obtain ⟨-, hids, -⟩ := of_check_eq_ok h
  obtain ⟨hsome, hle⟩ := idFindings_eq_nil_iff.mp hids
  have hpos := List.length_pos_iff.mpr (hsome rfl)
  omega

/-- Without exactly one identifier field there is no identifier. -/
theorem exists_identifier_eq_error (h : d.idFields.length ≠ 1) :
    ∃ error, d.identifier = .error error := by
  unfold identifier
  rcases hfields : d.idFields with _ | ⟨f, _ | ⟨g, rest⟩⟩
  · exact ⟨_, rfl⟩
  · exact absurd (by simp [hfields]) h
  · exact ⟨_, rfl⟩

end Definition

/-! ## What the layers need -/

namespace Layer

variable {d : Definition} {n : ResourceName}

/-- With an identifier all requests are rendered. -/
theorem exists_requestOutput_eq_ok {id : Field} (hid : d.identifier = .ok id)
    (conventions : Conventions) (n : ResourceName) (profile : Profile) :
    ∃ output, RequestContract.output conventions n d profile = .ok output := by
  simp only [RequestContract.output, Action.all, List.mapM_cons, RequestContract.requestFields, hid]
  exact ⟨_, rfl⟩

/-- With an identifier every layer of a resource is rendered. -/
theorem exists_render_eq_ok {id : Field} (hid : d.identifier = .ok id) (conventions : Conventions)
    (n : ResourceName) (layer : Layer) : ∃ output, layer.render conventions n d = .ok output := by
  cases layer with
  | controller => exact ⟨_, by rw [render, Controller.output, hid]; rfl⟩
  | service => exact ⟨_, by rw [render, Service.output, hid]; rfl⟩
  | repository => exact ⟨_, by rw [render, Repository.output, hid]; rfl⟩
  | requestContract => exact exists_requestOutput_eq_ok hid conventions n n.profile
  | _ => exact ⟨_, rfl⟩

/-- Without an identifier there are no layers that address single records. -/
theorem outputs_eq_error {error : IdentifierError} (h : d.identifier = .error error)
    (conventions : Conventions) (n : ResourceName) (profile : Profile) :
    Repository.output n d = .error error ∧ Service.output n d = .error error ∧
      Controller.output n d = .error error ∧
      RequestContract.output conventions n d profile = .error error := by
  refine ⟨?_, ?_, ?_, ?_⟩
  · rw [Repository.output, h]
    rfl
  · rw [Service.output, h]
    rfl
  · rw [Controller.output, h]
    rfl
  · simp only [RequestContract.output, Action.all, List.mapM_cons, RequestContract.requestFields, h]
    rfl

namespace Info

/-- The relations that can narrow a finder, each with the field that it is stored in. -/
theorem filterCandidates_eq (h : ∀ r ∈ d.relations, r.relationId ≠ some "")
    (aggregates : List String) :
    filterCandidates d aggregates =
      (d.relations.filter fun r =>
        !r.isArray && r.relationId.isSome && aggregates.contains r.model).map
          fun r => (r, r.relationId.getD "") := by
  rw [filterCandidates, includes, List.filterMap_filter, ← List.filterMap_eq_filter,
    List.map_filterMap]
  refine List.filterMap_congr fun r hr => ?_
  cases hid : r.relationId with
  | none => simp [Option.guard, hid]
  | some id =>
    have hne : id ≠ "" := fun heq => h r hr (hid.trans (congrArg some heq))
    by_cases harray : r.isArray = true <;> by_cases hmodel : r.model ∈ aggregates <;>
      simp [Option.guard, hid, hne, harray, hmodel]

/-- A finder is narrowed by the only relation that can narrow it, if the model has the field which
the relation is stored in. -/
theorem exists_filter?_eq {aggregates : List String} {r : Relation}
    (hids : ∀ r ∈ d.relations, r.relationId ≠ some "") (hdangling : d.danglingRelations = [])
    (hone : (d.relations.filter fun r =>
      !r.isArray && r.relationId.isSome && aggregates.contains r.model) = [r]) :
    ∃ key ∈ d.fields, r.relationId = some key.name ∧ filter? d aggregates = some (r, key) := by
  have hmem : r ∈ d.relations.filter fun r =>
      !r.isArray && r.relationId.isSome && aggregates.contains r.model :=
    hone ▸ List.mem_singleton_self r
  obtain ⟨hr, hkept⟩ := List.mem_filter.mp hmem
  simp only [Bool.and_eq_true] at hkept
  obtain ⟨id, hid⟩ := Option.isSome_iff_exists.mp hkept.1.2
  have hfield : ∃ f ∈ d.fields, f.name = id := by
    by_contra hnone
    push Not at hnone
    have hmem : r ∈ d.danglingRelations :=
      List.mem_filter.mpr ⟨hr, decide_eq_true ⟨id, hid, hnone⟩⟩
    rw [hdangling] at hmem
    cases hmem
  obtain ⟨key, hkey⟩ : ∃ key, d.fieldNamed? id = some key := by
    obtain ⟨f, hf, hname⟩ := hfield
    exact Option.isSome_iff_exists.mp (List.find?_isSome.mpr ⟨f, hf, by simpa using hname⟩)
  have hname : key.name = id := by simpa using List.find?_some hkey
  refine ⟨key, List.mem_of_find?_eq_some hkey, hid.trans (congrArg some hname.symm), ?_⟩
  rw [filter?, filterCandidates_eq hids, hone]
  simp [hid, hkey]

end Info

end Layer

namespace Definition

/-- **Checking decides exactly what the layers need.** For a definition that was read, the check
fails because no identifier field is there though one is asked for, or else because there are
several, or else because of relations that name no field of the model, with one problem for each of
them; or else there are no errors. If the check with an identifier succeeds, then all layers of the
resource are rendered, under every name, profile and convention; without exactly one identifier
field those which address single records fail, for the reason that the identifier gives. If the
check succeeds and one single-valued relation with a field leads to an aggregate model, then the
finder is narrowed by this field. -/
theorem check_decides {registry : Registry} {fileId text : String} {location : Location}
    {d : Definition} (hparse : parse registry fileId location text = .ok d) :
    (∀ requireId, d.check requireId =
        (if requireId = true ∧ d.idFields = [] then .error (.identifier (.missing d.name))
        else if 1 < d.idFields.length then
          .error (.identifier (.composite d.name (d.idFields.map (·.name))))
        else if d.danglingRelations ≠ [] then
          .error (.relations d.name (d.danglingRelations.map d.danglingProblem))
        else .ok (d.validate requireId)) ∧
      ∀ result, d.check requireId = .ok result → result.errors = []) ∧
    (∀ result, d.check true = .ok result → ∀ conventions n profile,
      (∃ output, Layer.Repository.output n d = .ok output ∧ output.IsOf .repository n) ∧
      (∃ output, Layer.Service.output n d = .ok output ∧ output.IsOf .service n) ∧
      (∃ output, Layer.Controller.output n d = .ok output ∧ output.IsOf .controller n) ∧
      (∃ output, Layer.RequestContract.output conventions n d profile = .ok output ∧
        output.IsOf .requestContract n) ∧
      (Layer.ResponseContract.output n d profile).IsOf .responseContract n) ∧
    (d.idFields.length ≠ 1 → ∃ error, d.identifier = .error error ∧
      ∀ conventions n profile, Layer.Repository.output n d = .error error ∧
        Layer.Service.output n d = .error error ∧ Layer.Controller.output n d = .error error ∧
        Layer.RequestContract.output conventions n d profile = .error error) ∧
    ∀ result aggregates r, d.check false = .ok result →
      (d.relations.filter fun r =>
        !r.isArray && r.relationId.isSome && aggregates.contains r.model) = [r] →
      ∃ key ∈ d.fields, r.relationId = some key.name ∧
        Layer.Info.filter? d aggregates = some (r, key) := by
  have hrelationIds := relationId_ne_empty_of_parse hparse
  refine ⟨fun requireId => ⟨check_eq hrelationIds requireId, fun result h => (of_check_eq_ok h).1⟩,
    fun result h conventions n profile => ?_, fun h => ?_, fun result aggregates r h hone => ?_⟩
  · obtain ⟨id, -, hid⟩ := exists_identifier (length_idFields_of_check h)
    have hlayer {layer : Layer} (hmem : layer ∈ Layer.packageLayers) :
        ∃ output, layer.render conventions n d = .ok output ∧ output.IsOf layer n := by
      obtain ⟨output, houtput⟩ := Layer.exists_render_eq_ok hid conventions n layer
      exact ⟨output, houtput, Layer.isOf_render hmem houtput⟩
    obtain ⟨output, houtput⟩ := Layer.exists_requestOutput_eq_ok hid conventions n profile
    exact ⟨@hlayer .repository (by decide), @hlayer .service (by decide),
      @hlayer .controller (by decide), ⟨output, houtput, Layer.isOf_requestOutput houtput⟩,
      Layer.isOf_responseOutput n d profile⟩
  · obtain ⟨error, herror⟩ := exists_identifier_eq_error h
    exact ⟨error, herror, Layer.outputs_eq_error herror⟩
  · refine Layer.Info.exists_filter?_eq hrelationIds ?_ hone
    have hfindings := (of_check_eq_ok h).2.2
    rw [relationFindings_eq hrelationIds] at hfindings
    exact List.map_eq_nil_iff.mp hfindings

/-- The definition unit of an item that belongs to a category. -/
def itemUnit : String :=
  "// An item\nmodel Item \x7b\n  id Int @id // Number\n  categoryId Int // Key\n" ++
    "  category CategoryInfo @relation(fields: [categoryId]) // Its category\n\x7d\n"

/-- The relation to the category. -/
def itemCategory : Relation where
  name := "category"
  relationId := some "categoryId"
  model := "CategoryInfo"
  type := .ofRelation "CategoryInfo"
  isArray := false
  isRequired := true
  description := "Its category"

/-- The model that the unit of an item declares. -/
def itemDefinition : Definition where
  name := "Item"
  description := "An item"
  fields :=
    [{ name := "id", type := .ofDeclared "Int" false, isArray := false, isId := true
       isRequired := true, tags := {}, description := "Number", unknownDirectives := [] },
     { name := "categoryId", type := .ofDeclared "Int" false, isArray := false, isId := false
       isRequired := true, tags := {}, description := "Key", unknownDirectives := [] }]
  relations := [itemCategory]
  fileId := "item"
  location := .primary

/-- The check of the item succeeds, its layers are rendered, and its finder is narrowed by the
category. -/
theorem check_decides_item :
    parse ⟨["CategoryInfo"], ["CategoryInfo"]⟩ "item" .primary itemUnit = .ok itemDefinition ∧
    itemDefinition.check true = .ok (itemDefinition.validate true) ∧
    (∃ output, Layer.RequestContract.output {} (.ofWord "Management" "item") itemDefinition
      .management = .ok output) ∧
    ∃ key ∈ itemDefinition.fields, key.name = "categoryId" ∧
      Layer.Info.filter? itemDefinition ["CategoryInfo"] = some (itemCategory, key) := by
  have hparse : parse ⟨["CategoryInfo"], ["CategoryInfo"]⟩ "item" .primary itemUnit =
      .ok itemDefinition := by
    decide +kernel
  obtain ⟨hcheck, hlayers, -, hfinder⟩ := check_decides hparse
  have htrue : itemDefinition.check true = .ok (itemDefinition.validate true) :=
    (hcheck true).1.trans (by decide)
  have hfalse : itemDefinition.check false = .ok (itemDefinition.validate false) :=
    (hcheck false).1.trans (by decide)
  obtain ⟨-, -, -, ⟨output, houtput, -⟩, -⟩ :=
    hlayers _ htrue {} (.ofWord "Management" "item") .management
  obtain ⟨key, hkey, hname, hfilter⟩ :=
    hfinder _ ["CategoryInfo"] itemCategory hfalse (by decide)
  exact ⟨hparse, htrue, ⟨output, houtput⟩, key, hkey, (Option.some.inj hname).symm, hfilter⟩

end Definition

end NestLayers
