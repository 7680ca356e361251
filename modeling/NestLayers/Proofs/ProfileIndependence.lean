import Mathlib.Data.List.Forall2
import NestLayers.Layer.Info
import NestLayers.Layer.Model
import NestLayers.Layer.Rendering
import NestLayers.Proofs.CommentPieces
import NestLayers.Proofs.ParsedDefinition

/-!
# Independence of the profiles

A field has one set of tags for the public resource and one for its management side. What is
generated for one side depends on its own set only. The sets are also apart in the comments that
they are read from: a comment without the directives for one profile reads as before, with the
tags for this profile gone.
-/

namespace NestLayers

open NestLayers.Text

/-! ## What a profile sees -/

/-- The tags for a profile, and none for the other one. -/
def Tagging.only (tagging : Tagging) : Profile → Tagging
  | .standard => { standard := tagging.standard }
  | .management => { management := tagging.management }

/-- A field with the tags for one profile only. -/
def Field.only (f : Field) (profile : Profile) : Field :=
  { f with tags := f.tags.only profile }

/-- A definition with the tags for one profile only. Two definitions that are equal in this form
differ at most in the tags for the other profile. -/
def Definition.only (d : Definition) (profile : Profile) : Definition :=
  { d with fields := d.fields.map (·.only profile) }

/-- A comment that was read, with the tags for one profile only. -/
def FieldComment.only (comment : FieldComment) (profile : Profile) : FieldComment :=
  { comment with tags := comment.tags.only profile }

/-- A profile sees its own tags. -/
@[simp] theorem Tagging.profile_only (tagging : Tagging) (profile : Profile) :
    (tagging.only profile).profile profile = tagging.profile profile := by
  cases profile <;> rfl

private theorem Tagging.only_eq_only {first second : Tagging} {profile : Profile} :
    first.only profile = second.only profile ↔ first.profile profile = second.profile profile := by
  cases profile <;> simp [Tagging.only, Tagging.profile]

namespace Definition

variable (d : Definition) (profile : Profile)

private theorem isSoftDeletable_only : (d.only profile).isSoftDeletable = d.isSoftDeletable := by
  rw [isSoftDeletable, only, List.any_map]
  rfl

private theorem idFields_only : (d.only profile).idFields = d.idFields.map (·.only profile) := by
  rw [idFields, only, List.filter_map]
  rfl

private theorem identifier_only :
    (d.only profile).identifier = d.identifier.map (·.only profile) := by
  rw [identifier, identifier, idFields_only]
  match d.idFields with
  | [] | [_] => rfl
  | f :: g :: rest =>
    simp only [List.map_cons, List.map_map]
    rfl

/-- What is made from the identifier does not change if it does not look at its tags. -/
theorem identifier_bind_only {α : Type} {first second : Field → Except IdentifierError α}
    (h : ∀ id : Field, first (id.only profile) = second id) :
    (d.only profile).identifier >>= first = d.identifier >>= second := by
  rw [identifier_only]
  cases d.identifier with
  | error error => rfl
  | ok id => exact h id

private theorem fieldNamed?_only (name : String) :
    (d.only profile).fieldNamed? name = (d.fieldNamed? name).map (·.only profile) := by
  rw [fieldNamed?, only, List.find?_map]
  rfl

end Definition

/-! ## Directives in comments -/

/-- Whether a piece is a directive for a profile. -/
def CommentPiece.isFor (piece : CommentPiece) (profile : Profile) : Bool :=
  piece.directive?.any (·.profile == profile)

/-- A comment without its directives for a profile. -/
def FieldComment.without (profile : Profile) (comment : String) : String :=
  String.ofList
    (((commentPieces comment.toList).filter (!·.isFor profile)).flatMap CommentPiece.characters)

namespace CommentPiece

/-- What is left out with the directives for a profile is a directive. -/
theorem isDirective_of_isFor (profile : Profile) (piece : CommentPiece)
    (h : (!piece.isFor profile) = false) : piece.isDirective = true := by
  rw [Bool.not_eq_false', isFor] at h
  unfold isDirective
  cases hpiece : piece.directive? with
  | none => simp [hpiece] at h
  | some d => rfl

variable (profile : Profile) (pieces : List CommentPiece)

private theorem filterMap_directive?_filter :
    (pieces.filter (!·.isFor profile)).filterMap directive? =
      (pieces.filterMap directive?).filter (·.profile != profile) := by
  rw [List.filterMap_filter, List.filter_filterMap]
  refine List.filterMap_congr fun piece _ => ?_
  unfold isFor
  cases piece.directive? with
  | none => simp
  | some d => cases h : d.profile == profile <;> simp [Option.filter, bne, h]

end CommentPiece

private theorem commentPieces_without (profile : Profile) (comment : String) :
    commentPieces (FieldComment.without profile comment).toList =
      (commentPieces comment.toList).filter (!·.isFor profile) := by
  rw [FieldComment.without, String.toList_ofList]
  exact CommentPiece.commentPieces_flatMap_characters
    ((CommentPiece.areApart_commentPieces _).filter fun _ => rfl)

/-- A directive for a profile changes what this profile sees as it changes the tags, and any other
directive does not change it. -/
theorem Tagging.only_apply (tagging : Tagging) (d : Directive) (profile : Profile) :
    (tagging.apply d).only profile =
      if d.profile = profile then (tagging.only profile).apply d else tagging.only profile := by
  obtain ⟨target, slot, tag⟩ := d
  cases target <;> cases profile <;> rfl

private theorem Tagging.only_foldl_apply {profile other : Profile} (hother : other ≠ profile)
    (directives : List Directive) (tagging : Tagging) :
    (directives.foldl Tagging.apply tagging).only profile =
      (directives.filter (·.profile != other)).foldl Tagging.apply (tagging.only profile) := by
  induction directives generalizing tagging with
  | nil => rfl
  | cons d rest ih =>
    rw [List.foldl_cons, ih, Tagging.only_apply]
    by_cases hd : d.profile = other
    · rw [if_neg (hd ▸ hother), List.filter_cons_of_neg (by simp [hd])]
    · have hprofile : d.profile = profile := by
        cases hd' : d.profile <;> cases other <;> cases profile <;> simp_all
      rw [if_pos hprofile, List.filter_cons_of_pos (by simp [hd]), List.foldl_cons]

/-- A comment without the directives for one profile is read as before, but for the tags for this
profile. -/
theorem FieldComment.read_without {profile other : Profile} (hother : other ≠ profile)
    (comment : String) : read (without other comment) = (read comment).only profile := by
  have hnone : ({} : Tagging).only profile = {} := by cases profile <;> rfl
  have hdrop := CommentPiece.isDirective_of_isFor other
  simp only [read, only, commentPieces_without, CommentPiece.flatMap_remainder_filter hdrop,
    CommentPiece.filterMap_unknown?_filter hdrop, CommentPiece.filterMap_directive?_filter,
    Tagging.only_foldl_apply hother, hnone]

/-! ## Units -/

/-- Two field lines differ at most in their comments, and these in nothing but the tags for
another profile. -/
structure FieldLine.AgreesFor (profile : Profile) (first second : FieldLine) : Prop where
  line : { first with comment := second.comment } = second
  description : (FieldComment.read first.comment).description =
    (FieldComment.read second.comment).description
  unknown : (FieldComment.read first.comment).unknown = (FieldComment.read second.comment).unknown
  tags : (FieldComment.read first.comment).tags.profile profile =
    (FieldComment.read second.comment).tags.profile profile

/-- Lines that agree for a profile declare the same relation, or a field that is the same to this
profile. -/
theorem FieldLine.AgreesFor.member {profile : Profile} {first second : FieldLine}
    (h : first.AgreesFor profile second) (registry : Registry) :
    (first.member registry).field?.map (·.only profile) =
        (second.member registry).field?.map (·.only profile) ∧
      (first.member registry).relation? = (second.member registry).relation? := by
  obtain ⟨name, typeName, isArray, isOptional, attributes, comment⟩ := second
  obtain ⟨rfl, rfl, rfl, rfl, rfl, -⟩ := FieldLine.mk.inj h.line
  have htags := Tagging.only_eq_only.mpr h.tags
  unfold FieldLine.member
  split
  · simp only [Member.field?, Member.relation?, h.description]
    exact ⟨trivial, rfl⟩
  · simp only [Member.field?, Member.relation?, Option.map_some, Field.only, h.description,
      h.unknown, htags]
    exact ⟨rfl, trivial⟩

namespace Definition

private theorem filterMap_member_eq {profile : Profile} {lines lines' : List FieldLine}
    (h : List.Forall₂ (FieldLine.AgreesFor profile) lines lines') (registry : Registry) :
    (lines.filterMap fun line => (line.member registry).field?.map (·.only profile)) =
        lines'.filterMap (fun line => (line.member registry).field?.map (·.only profile)) ∧
      (lines.filterMap fun line => (line.member registry).relation?) =
        lines'.filterMap fun line => (line.member registry).relation? := by
  induction h with
  | nil => exact ⟨rfl, rfl⟩
  | cons hline _ ih =>
    obtain ⟨hfield, hrelation⟩ := hline.member registry
    simp only [List.filterMap_cons, hfield, hrelation, ih.1, ih.2, and_self]

/-- Units whose lines agree for a profile are read as definitions that are the same to this
profile. -/
theorem exists_parse_only_eq {profile : Profile} {text text' name description : String}
    {lines lines' : List FieldLine} (hread : readUnit text = .ok (name, description, lines))
    (hread' : readUnit text' = .ok (name, description, lines'))
    (hlines : List.Forall₂ (FieldLine.AgreesFor profile) lines lines') (registry : Registry)
    (fileId : String) (location : Location) :
    ∃ d e, parse registry fileId location text = .ok d ∧
      parse registry fileId location text' = .ok e ∧ d.only profile = e.only profile := by
  simp only [parse_eq, hread, hread']
  refine ⟨_, _, rfl, rfl, ?_⟩
  simpa [only, List.filterMap_map, List.map_filterMap, Function.comp_def] using
    filterMap_member_eq hlines registry

end Definition

/-! ## Layers -/

namespace Layer

open NestLayers.TypeScript

variable (conventions : Conventions) (n : ResourceName) (d : Definition) (profile : Profile)

private theorem Repository.output_only :
    Repository.output n (d.only profile) = Repository.output n d := by
  refine d.identifier_bind_only profile fun id => ?_
  have hsource : Repository.source n (d.only profile) (id.only profile) =
      Repository.source n d id := by
    simp only [Repository.source, Repository.classOf, Repository.methods, Repository.deleteMethod,
      Definition.isSoftDeletable_only]
    rfl
  rw [hsource]

private theorem Service.output_only : Service.output n (d.only profile) = Service.output n d := by
  refine d.identifier_bind_only profile fun id => ?_
  have hsource : Service.source n (d.only profile) (id.only profile) = Service.source n d id := by
    simp only [Service.source, Service.classOf, Service.methods, Service.deleteMethod,
      Definition.isSoftDeletable_only]
    rfl
  rw [hsource]

private theorem Controller.output_only :
    Controller.output n (d.only profile) = Controller.output n d := by
  refine d.identifier_bind_only profile fun id => ?_
  have hsource : Controller.source n (d.only profile) (id.only profile) =
      Controller.source n d id := by
    simp only [Controller.source, Controller.classOf, Controller.methods,
      Definition.isSoftDeletable_only]
    rfl
  rw [hsource]

/-! ### Contracts -/

/-- The fields of a request, each with the tags for one profile only. -/
def RequestContract.fieldsOnly (fields : List (Field × Bool)) : List (Field × Bool) :=
  fields.map fun (f, required) => (f.only profile, required)

private theorem RequestContract.requestFields_only (action : Action) :
    RequestContract.requestFields (d.only profile) profile action =
      (RequestContract.requestFields d profile action).map
        (RequestContract.fieldsOnly profile) := by
  cases action with
  | findList => rfl
  | create =>
    refine congrArg Except.ok ?_
    simp only [RequestContract.fieldsOnly, Definition.only, List.filterMap_map, List.map_filterMap,
      Function.comp_def, Field.only, Tagging.profile_only, Option.map_map]
  | update =>
    simp only [RequestContract.requestFields, Definition.identifier_only]
    cases d.identifier with
    | error error => rfl
    | ok id =>
      refine congrArg (Except.ok <| (id.only profile, true) :: ·) ?_
      simp only [Definition.only, List.filter_map, List.map_map, Function.comp_def, Field.only,
        Tagging.profile_only]
  | delete | findUnique =>
    simp only [RequestContract.requestFields, Definition.identifier_only]
    cases d.identifier <;> rfl

private theorem RequestContract.source_fieldsOnly (action : Action) (fields : List (Field × Bool)) :
    RequestContract.source conventions n action (RequestContract.fieldsOnly profile fields) =
      RequestContract.source conventions n action fields := by
  have himports : RequestContract.imports conventions n action
      (RequestContract.fieldsOnly profile fields) =
        RequestContract.imports conventions n action fields := by
    simp only [RequestContract.imports, RequestContract.checks, RequestContract.fieldsOnly,
      List.flatMap_map, List.any_map]
    rfl
  have hclass : RequestContract.classOf n action (RequestContract.fieldsOnly profile fields) =
      RequestContract.classOf n action fields := by
    simp only [RequestContract.classOf, RequestContract.fieldsOnly, List.map_map, List.isEmpty_map]
    rfl
  rw [RequestContract.source, himports, hclass, RequestContract.source]

private theorem RequestContract.output_only :
    RequestContract.output conventions n (d.only profile) profile =
      RequestContract.output conventions n d profile := by
  have hartifact (action : Action) :
      (do
        let fields ← RequestContract.requestFields (d.only profile) profile action
        return (RequestContract.source conventions n action fields).artifact) =
      (do
        let fields ← RequestContract.requestFields d profile action
        return (RequestContract.source conventions n action fields).artifact) := by
    rw [RequestContract.requestFields_only]
    cases RequestContract.requestFields d profile action with
    | error error => rfl
    | ok fields =>
      exact congrArg (Except.ok ∘ SourceArtifact.artifact)
        (RequestContract.source_fieldsOnly conventions n profile action fields)
  simp only [RequestContract.output, hartifact]

private theorem ResponseContract.omittedFields_only (action : Action) :
    ResponseContract.omittedFields (d.only profile) profile action =
      ResponseContract.omittedFields d profile action := by
  unfold ResponseContract.omittedFields
  cases ResponseContract.slot? action with
  | none => rfl
  | some slot =>
    simp only [Definition.only, List.filter_map, List.map_map]
    simp only [Function.comp_def, Field.only, Tagging.profile_only]

private theorem ResponseContract.output_only :
    ResponseContract.output n (d.only profile) profile = ResponseContract.output n d profile := by
  have hsource (action : Action) : ResponseContract.source n (d.only profile) profile action =
      ResponseContract.source n d profile action := by
    unfold ResponseContract.source
    rw [ResponseContract.omittedFields_only]
    rfl
  simp only [ResponseContract.output, hsource]

/-- What is rendered for a resource depends on the tags for its own profile only. -/
theorem render_only (layer : Layer) :
    layer.render conventions n (d.only n.profile) = layer.render conventions n d := by
  cases layer with
  | controller => exact Controller.output_only n d n.profile
  | service => exact Service.output_only n d n.profile
  | repository => exact Repository.output_only n d n.profile
  | requestContract => exact RequestContract.output_only conventions n d n.profile
  | responseContract => exact congrArg Except.ok (ResponseContract.output_only n d n.profile)
  | _ => rfl

/-! ### Layers over many definitions -/

private theorem Model.output_only (definitions : List Definition) :
    Model.output conventions (definitions.map (·.only profile)) =
      Model.output conventions definitions := by
  have hclass (d : Definition) :
      Model.source conventions (d.only profile) = Model.source conventions d := by
    simp only [Model.source, Model.classOf, Definition.only, List.filter_map, List.map_map]
    rfl
  simp only [Model.output, List.map_map, Function.comp_def, hclass]

namespace Info

/-- A finder whose fields have the tags for one profile only. -/
def Finder.only (f : Finder) : Finder :=
  { f with definition := f.definition.only profile, key := f.key.map (·.only profile) }

private theorem filter?_only (aggregates : List String) :
    filter? (d.only profile) aggregates =
      (filter? d aggregates).map fun (r, key) => (r, key.only profile) := by
  have hcandidates : filterCandidates (d.only profile) aggregates = filterCandidates d aggregates :=
    rfl
  unfold filter?
  rw [hcandidates]
  split
  · rw [Definition.fieldNamed?_only, Option.map_map, Option.map_map]
    rfl
  · rfl

private theorem Finder.ofDefinition_only (aggregates : List String) :
    Finder.ofDefinition conventions aggregates (d.only profile) =
      (Finder.ofDefinition conventions aggregates d).only profile := by
  simp only [Finder.ofDefinition, Finder.only, filter?_only, Option.map_map]
  rfl

private theorem finders_only (definitions : List Definition) :
    finders conventions (definitions.map (·.only profile)) =
      (finders conventions definitions).map (·.only profile) := by
  simp only [finders, List.map_map, Function.comp_def, ← Finder.ofDefinition_only]
  rfl

private theorem repositorySource_only (fs : List Finder) :
    repositorySource (fs.map (·.only profile)) = repositorySource fs := by
  have hmethod (f : Finder) : (f.only profile).repositoryMethod = f.repositoryMethod := by
    unfold Finder.repositoryMethod Finder.parameter Finder.query Finder.only
    cases f.key <;> rfl
  simp only [repositorySource, List.map_map, Function.comp_def, hmethod]
  rfl

private theorem serviceSource_only (fs : List Finder) :
    serviceSource (fs.map (·.only profile)) = serviceSource fs := by
  have hmethod (f : Finder) : (f.only profile).serviceMethod = f.serviceMethod := by
    unfold Finder.serviceMethod Finder.parameter Finder.argument Finder.only
    cases f.key <;> rfl
  simp only [serviceSource, List.map_map, Function.comp_def, hmethod]

private theorem controllerSource_only (fs : List Finder) :
    controllerSource (fs.map (·.only profile)) = controllerSource fs := by
  have hmethod (f : Finder) : (f.only profile).controllerMethod = f.controllerMethod := by
    unfold Finder.controllerMethod Finder.argument Finder.only
    cases f.key <;> rfl
  simp only [controllerSource, List.map_map, List.flatMap_map, Function.comp_def, hmethod]
  rfl

private theorem Finder.contracts_only (f : Finder) :
    (f.only profile).contracts conventions = f.contracts conventions := by
  unfold Finder.contracts Finder.requestSource Finder.only
  cases f.key <;> rfl

private theorem output_only (definitions : List Definition) :
    output conventions (definitions.map (·.only profile)) = output conventions definitions := by
  simp only [output, finders_only, repositorySource_only, serviceSource_only,
    controllerSource_only, List.flatMap_map, Finder.contracts_only]

end Info

end Layer

/-! ## Independence -/

/-- The words of the directives for the management side start with `M`, and no other words of the
vocabulary do. -/
theorem Directive.profile_ofWord? {letters : List Char} {d : Directive}
    (h : Directive.ofWord? letters = some d) :
    d.profile = .management ↔ letters.head? = some 'M' := by
  have hvocabulary : ∀ entry ∈ Directive.vocabulary,
      entry.2.profile = .management ↔ entry.1.toList.head? = some 'M' := by decide
  simpa using hvocabulary _ (ofWord?_eq_some_iff.mp h)

/-- **The profiles are independent.** If two definitions differ at most in the tags for the other
profile, then every layer of a resource of this profile is rendered the same from both, and so are
the layers over many definitions. Such definitions come from units whose comments are read the same
but for the tags for the other profile. Leaving the directives for the other profile out of a
comment changes nothing but these tags, and the words of the directives for the management side are
those of the vocabulary that start with `M`. -/
theorem profiles_independent (conventions : Conventions) {profile other : Profile}
    (hother : other ≠ profile) :
    (∀ (n : ResourceName) (d e : Definition), n.profile = profile →
      d.only profile = e.only profile →
      ∀ layer : Layer, layer.render conventions n d = layer.render conventions n e) ∧
    (∀ ds es : List Definition, ds.map (·.only profile) = es.map (·.only profile) →
      Layer.Model.output conventions ds = Layer.Model.output conventions es ∧
      Layer.Info.output conventions ds = Layer.Info.output conventions es) ∧
    (∀ (registry : Registry) (fileId : String) (location : Location) (text text' : String)
      (name description : String) (lines lines' : List FieldLine),
      Definition.readUnit text = .ok (name, description, lines) →
      Definition.readUnit text' = .ok (name, description, lines') →
      List.Forall₂ (FieldLine.AgreesFor profile) lines lines' →
      ∃ d e, Definition.parse registry fileId location text = .ok d ∧
        Definition.parse registry fileId location text' = .ok e ∧
        d.only profile = e.only profile) ∧
    (∀ comment, FieldComment.read (FieldComment.without other comment) =
      (FieldComment.read comment).only profile) ∧
    ∀ letters d, Directive.ofWord? letters = some d →
      (d.profile = .management ↔ letters.head? = some 'M') := by
  refine ⟨?_, ?_, ?_, FieldComment.read_without hother, fun _ _ => Directive.profile_ofWord?⟩
  · rintro n d e rfl hsame layer
    rw [← Layer.render_only, hsame, Layer.render_only]
  · intro ds es hsame
    constructor
    · rw [← Layer.Model.output_only conventions profile, hsame, Layer.Model.output_only]
    · rw [← Layer.Info.output_only conventions profile, hsame, Layer.Info.output_only]
  · intro registry fileId location text text' name description lines lines' hread hread' hlines
    exact Definition.exists_parse_only_eq hread hread' hlines registry fileId location

/-- The field lines of an account whose password has a comment. -/
def accountLines (comment : String) : List FieldLine :=
  [⟨"id", "Int", false, false, ["@id"], "Number"⟩,
   ⟨"password", "String", false, false, [], comment⟩]

/-- The unit of an account whose password has a comment. -/
def accountUnit (comment : String) : String :=
  "// Account\nmodel Account \x7b\n  id Int @id // Number\n  password String // " ++ comment ++
    "\n\x7d\n"

/-- The directives for the management of accounts change their management and not the accounts
themselves. -/
theorem profiles_independent_account :
    FieldComment.without .management "#MCR##MU Password#CR#MFL" = "# Password#CR" ∧
    ∃ d e, Definition.parse {} "account" .primary (accountUnit "Password#CR#MCO") = .ok d ∧
      Definition.parse {} "account" .primary (accountUnit "Password#MFL#CR") = .ok e ∧
      (∀ layer : Layer, layer.render {} (.ofWord "Management" "account") d =
        layer.render {} (.ofWord "Management" "account") e) ∧
      Layer.requestContract.render {} (.ofWord "Management" "accountManagement") d ≠
        Layer.requestContract.render {} (.ofWord "Management" "accountManagement") e := by
  have hread : Definition.readUnit (accountUnit "Password#CR#MCO") =
        .ok ("Account", "Account", accountLines "Password#CR#MCO") ∧
      Definition.readUnit (accountUnit "Password#MFL#CR") =
        .ok ("Account", "Account", accountLines "Password#MFL#CR") := by
    decide +kernel
  have hcomment : FieldLine.AgreesFor .standard
      ⟨"password", "String", false, false, [], "Password#CR#MCO"⟩
      ⟨"password", "String", false, false, [], "Password#MFL#CR"⟩ :=
    ⟨rfl, by decide +kernel, by decide +kernel, by decide +kernel⟩
  have hmanagement :
      (Definition.parse {} "account" .primary (accountUnit "Password#CR#MCO")).map
          (Layer.requestContract.render {} (.ofWord "Management" "accountManagement")) ≠
        (Definition.parse {} "account" .primary (accountUnit "Password#MFL#CR")).map
          (Layer.requestContract.render {} (.ofWord "Management" "accountManagement")) := by
    rw [Definition.parse_eq, Definition.parse_eq, hread.1, hread.2]
    decide +kernel
  obtain ⟨hlayers, -, hunits, -⟩ := profiles_independent {} (by decide :
    Profile.management ≠ .standard)
  obtain ⟨d, e, hd, he, hsame⟩ := hunits {} "account" .primary _ _ _ _ _ _ hread.1 hread.2
    (.cons ⟨rfl, rfl, rfl, rfl⟩ (.cons hcomment .nil))
  refine ⟨by decide +kernel, d, e, hd, he, hlayers _ d e (by decide +kernel) hsame, ?_⟩
  intro h
  rw [hd, he] at hmanagement
  exact hmanagement (congrArg Except.ok h)

end NestLayers
