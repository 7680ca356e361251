import Mathlib.Data.List.Forall2
import NestLayers.Proofs.CheckedDefinitions
import NestLayers.Proofs.SourceText

/-!
# Where documentation comments end

A comment ends at the first asterisk that a slash follows. A description is put into a comment as
it is, so that the comment ends where it should exactly if the description has no such end in it.
This is followed from the comment through the lines of a source file to the request contracts and
the info layer, which are the layers that put descriptions into comments.
-/

namespace NestLayers.TypeScript

open NestLayers.Text

/-! ## Comments -/

/-- The end of a comment. -/
def commentEnd : List Char := ['*', '/']

/-- The text has the end of a comment in it. -/
def EndsComment (text : String) : Prop :=
  commentEnd <:+: text.toList

/-- It is decided by searching the text. -/
instance (text : String) : Decidable (EndsComment text) :=
  decidable_of_iff _ occursIn_iff_infix

/-- What follows the first end of a comment in a text. -/
def afterComment? : List Char → Option (List Char)
  | [] => none
  | '*' :: '/' :: rest => some rest
  | _ :: rest => afterComment? rest

/-- A comment that is left open before a space and its end is closed there exactly if it has no end
in it. -/
theorem afterComment?_append (text rest : List Char) :
    afterComment? (text ++ ' ' :: (commentEnd ++ rest)) = some rest ↔ ¬ commentEnd <:+: text := by
  induction text with
  | nil => simp [afterComment?, commentEnd]
  | cons c text ih =>
    by_cases hend : commentEnd <+: c :: text
    · -- more follows the end in the text than follows the last one
      obtain ⟨remainder, hremainder⟩ := hend
      rw [← hremainder]
      refine iff_of_false (fun h => ?_) (not_not_intro ⟨[], remainder, rfl⟩)
      have hlength := congrArg List.length (Option.some.inj h)
      simp [commentEnd] at hlength
      omega
    · have hskip : afterComment? (c :: text ++ ' ' :: (commentEnd ++ rest)) =
          afterComment? (text ++ ' ' :: (commentEnd ++ rest)) := by
        rw [List.cons_append, afterComment?]
        rintro after rfl hafter
        cases text with
        | nil => simp at hafter
        | cons d text =>
          obtain ⟨rfl, -⟩ := List.cons.inj hafter
          exact hend ⟨text, rfl⟩
      rw [hskip, ih, List.infix_cons_iff, or_iff_right hend]

/-- The first end of a comment behind the start of this one is its own. -/
def IsClosed (text : String) (rest : List Char) : Prop :=
  afterComment? ((docComment text).toList.drop 3 ++ rest) = some rest

/-- **A comment ends with its own end exactly if its text has no end of a comment in it.** -/
theorem isClosed_iff {text : String} {rest : List Char} :
    IsClosed text rest ↔ ¬ EndsComment text := by
  have hchars : (docComment text).toList.drop 3 ++ rest =
      ' ' :: text.toList ++ ' ' :: (commentEnd ++ rest) := by
    simp [docComment, commentEnd]
  -- the space before the text takes no part in an end
  have hspace : ¬ commentEnd <+: ' ' :: text.toList := by simp [commentEnd]
  rw [IsClosed, hchars, afterComment?_append, List.infix_cons_iff, or_iff_right hspace]
  rfl

/-- Comments with the given texts stand in a text, one after the other. Something holds of each of
them and of what follows it. -/
inductive Carries (p : String → List Char → Prop) : List Char → List String → Prop
  | nil (cs : List Char) : Carries p cs []
  | cons (before : List Char) {text : String} {rest : List Char} {texts : List String} :
    p text rest → Carries p rest texts →
    Carries p (before ++ ((docComment text).toList ++ rest)) (text :: texts)

variable {p q : String → List Char → Prop} {cs : List Char} {texts : List String}

private theorem Carries.mono (h : Carries p cs texts)
    (hpq : ∀ text rest, p text rest → q text rest) : Carries q cs texts := by
  induction h with
  | nil cs => exact .nil cs
  | cons before hp _ ih => exact .cons before (hpq _ _ hp) ih

/-- More may stand before the comments. -/
theorem Carries.append (h : Carries p cs texts) (before : List Char) :
    Carries p (before ++ cs) texts := by
  cases h with
  | nil cs => exact .nil _
  | cons before' hp h =>
    rw [← List.append_assoc]
    exact .cons _ hp h

/-- Comments that stand in a text are all closed exactly if none of their texts has the end of a
comment in it. -/
theorem Carries.isClosed_iff (h : Carries (fun _ _ => True) cs texts) :
    Carries IsClosed cs texts ↔ ∀ text ∈ texts, ¬ EndsComment text := by
  constructor
  · -- the comments that are closed need not be those that are known to be there
    intro hclosed
    clear h
    induction hclosed with
    | nil => exact List.forall_mem_nil _
    | cons _ hp _ ih => exact List.forall_mem_cons.mpr ⟨TypeScript.isClosed_iff.mp hp, ih⟩
  · intro htexts
    induction h with
    | nil cs => exact .nil cs
    | cons before _ _ ih =>
      obtain ⟨htext, hrest⟩ := List.forall_mem_cons.mp htexts
      exact .cons before (TypeScript.isClosed_iff.mpr htext) (ih hrest)

/-! ## Lines -/

/-- The lines of paragraphs follow one another. -/
theorem flatten_sublist_paragraphs (ps : List (List String)) :
    ps.flatten.Sublist (paragraphs ps) := by
  fun_induction paragraphs ps with
  | case1 => exact List.nil_sublist _
  | case2 paragraph => simp
  | case3 paragraph others _ ih =>
    exact (List.Sublist.refl paragraph).append (ih.cons "")

/-- The line is a comment with the text, behind a margin. -/
def IsDocLine (text line : String) : Prop :=
  ∃ margin, line = margin ++ docComment text

/-- The lines have comments with the given texts among them, in order. -/
abbrev LinesCarry (texts lines : List String) : Prop :=
  List.SublistForall₂ IsDocLine texts lines

namespace LinesCarry

variable {lines others : List String} {texts' : List String}

private theorem of_sublist (h : LinesCarry texts lines) (hlines : lines.Sublist others) :
    LinesCarry texts others := by
  obtain ⟨found, hfound, hsublist⟩ := List.sublistForall₂_iff.mp h
  exact List.sublistForall₂_iff.mpr ⟨found, hfound, hsublist.trans hlines⟩

private theorem append (h : LinesCarry texts lines) (h' : LinesCarry texts' others) :
    LinesCarry (texts ++ texts') (lines ++ others) := by
  -- the other comments are among the other lines, whatever lines are left before these
  induction h with
  | nil => exact of_sublist h' (List.sublist_append_right _ _)
  | cons hline _ ih => exact .cons hline ih
  | cons_right _ ih => exact .cons_right ih

private theorem flatMap {α : Type} {members : List α} {docs lines : α → List String}
    (h : ∀ m ∈ members, LinesCarry (docs m) (lines m)) :
    LinesCarry (members.flatMap docs) (members.flatMap lines) := by
  induction members with
  | nil => exact .nil
  | cons m members ih =>
    obtain ⟨hm, hrest⟩ := List.forall_mem_cons.mp h
    exact append hm (ih hrest)

/-- Comments are still there when lines are set apart as paragraphs. -/
theorem paragraphs {α : Type} {members : List α} {docs lines : α → List String}
    (h : ∀ m ∈ members, LinesCarry (docs m) (lines m)) :
    LinesCarry (members.flatMap docs) (TypeScript.paragraphs (members.map lines)) := by
  refine (flatMap h).of_sublist ?_
  rw [List.flatMap_def]
  exact flatten_sublist_paragraphs _

/-- Comments are still there when lines are indented. -/
theorem indent (h : LinesCarry texts lines) (margin : String) :
    LinesCarry texts (lines.map (indentLine margin)) := by
  induction h with
  | nil => exact .nil
  | cons hline _ ih =>
    refine .cons ?_ ih
    obtain ⟨space, rfl⟩ := hline
    unfold indentLine
    split
    · exact ⟨space, rfl⟩
    · exact ⟨margin ++ space, (String.append_assoc ..).symm⟩
  | cons_right _ ih => exact .cons_right ih

/-- The lines of a comment, if there is one, and of what it stands before. -/
theorem doc (doc : Option String) (lines : List String) :
    LinesCarry doc.toList ((doc.map docComment).toList ++ lines) := by
  cases doc with
  | none => exact .nil
  | some text => exact .cons ⟨"", String.empty_append.symm⟩ .nil

/-- The comments of lines stand in their text. -/
theorem carries (h : LinesCarry texts lines) :
    Carries (fun _ _ => True) (joinLines (lines ++ [""])).toList texts := by
  have hjoin (line : String) (lines : List String) : (joinLines (line :: lines ++ [""])).toList =
      line.toList ++ '\n' :: (joinLines (lines ++ [""])).toList := by
    cases lines <;> simp [joinLines]
  induction h with
  | nil => exact .nil _
  | @cons text line texts lines hline _ ih =>
    obtain ⟨margin, rfl⟩ := hline
    rw [hjoin, String.toList_append, List.append_assoc]
    exact .cons _ trivial (ih.append ['\n'])
  | @cons_right line texts lines _ ih =>
    rw [hjoin]
    exact (ih.append ['\n']).append line.toList

end LinesCarry

/-! ## Files -/

/-- The texts of the comments in a section of a class. -/
def Section.docs : Section → List String
  | .fields _ => []
  | .construct _ => []
  | .methods members => members.flatMap (·.doc.toList)
  | .properties members => members.flatMap (·.doc.toList)

/-- The texts of the comments in a class. -/
def ClassDecl.docs (c : ClassDecl) : List String :=
  c.sections.flatMap Section.docs

/-- The texts of the comments in a declaration. -/
def Declaration.docs : Declaration → List String
  | .class_ decl => decl.docs
  | .interface _ _ => []

/-- The texts of the comments in a group of declarations. -/
def Group.docs (g : Group) : List String :=
  g.doc.toList ++ g.declarations.flatMap Declaration.docs

/-- The texts of the comments in a source file. -/
def SourceFile.docs (f : SourceFile) : List String :=
  f.groups.flatMap Group.docs

private theorem Section.linesCarry (s : Section) : LinesCarry s.docs s.lines := by
  cases s with
  | fields lines => exact .nil
  | construct parameter => exact .nil
  | methods members =>
    refine LinesCarry.paragraphs fun m _ => ?_
    rw [Method.lines, List.append_assoc, List.append_assoc]
    exact .doc m.doc _
  | properties members =>
    refine LinesCarry.paragraphs fun m _ => ?_
    rw [Property.lines, List.append_assoc]
    exact .doc m.doc _

private theorem ClassDecl.linesCarry (c : ClassDecl) : LinesCarry c.docs c.lines := by
  rw [lines, docs]
  split
  · rename_i hsections
    rw [List.isEmpty_iff.mp hsections]
    exact .nil
  · refine ((LinesCarry.paragraphs fun s _ => s.linesCarry).indent step).of_sublist ?_
    rw [List.cons_append]
    exact ((List.sublist_append_left _ _).cons _).trans (List.sublist_append_right _ _)

private theorem Group.linesCarry (g : Group) : LinesCarry g.docs g.lines := by
  have hdeclarations : LinesCarry (g.declarations.flatMap Declaration.docs)
      (g.declarations.flatMap Declaration.lines) := by
    refine LinesCarry.flatMap fun d _ => ?_
    cases d with
    | class_ decl => exact decl.linesCarry
    | interface name base => exact .nil
  have hdoc := LinesCarry.doc g.doc []
  rw [List.append_nil] at hdoc
  exact hdoc.append hdeclarations

/-- **The comments of a source file stand in its text, in order.** -/
theorem SourceFile.carries_text (f : SourceFile) :
    Carries (fun _ _ => True) f.text.toList f.docs := by
  refine LinesCarry.carries ?_
  refine (LinesCarry.flatMap fun g _ => g.linesCarry).of_sublist ?_
  rw [List.flatMap_def]
  refine List.Sublist.trans ?_ (flatten_sublist_paragraphs _)
  rw [List.flatten_append]
  exact List.sublist_append_right _ _

/-- Comments with the texts stand in a file. Each of them ends with its own end exactly if its text
has no end of a comment in it, so that all of them do exactly if none of the texts has one. -/
structure HasComments (content : String) (texts : List String) : Prop where
  each : Carries (fun text rest => IsClosed text rest ↔ ¬ EndsComment text) content.toList texts
  all : Carries IsClosed content.toList texts ↔ ∀ text ∈ texts, ¬ EndsComment text

/-- The comments in a file with one class are those of the class. -/
theorem SourceFile.docs_ofClass (imports : Imports) (c : ClassDecl) :
    (SourceFile.ofClass imports c).docs = c.docs := by
  simp [ofClass, docs, Group.docs, Declaration.docs]

private theorem SourceFile.hasComments (f : SourceFile) : HasComments f.text f.docs :=
  ⟨f.carries_text.mono fun _ _ _ => isClosed_iff, f.carries_text.isClosed_iff⟩

end NestLayers.TypeScript

namespace NestLayers.Layer

open NestLayers.Text NestLayers.TypeScript

/-! ## Layers -/

/-- The comments in a request contract are the descriptions of its fields. -/
theorem RequestContract.docs_source (conventions : Conventions) (n : ResourceName)
    (action : Action) (fields : List (Field × Bool)) :
    (source conventions n action fields).source.docs = fields.map (·.1.description) := by
  rw [source, SourceFile.docs_ofClass, ClassDecl.docs, classOf]
  cases fields with
  | nil => rfl
  | cons first fields => simp [Section.docs, property, List.flatMap_map, ← List.map_eq_flatMap]

namespace Info

variable (conventions : Conventions) (fs : List Finder) (f : Finder)

/-- The comments in the repository of the info layer are the descriptions of the models. -/
theorem docs_repositorySource :
    (repositorySource fs).source.docs = fs.map (·.definition.description) := by
  rw [repositorySource, SourceFile.docs_ofClass, ClassDecl.docs]
  simp [Section.docs, Finder.repositoryMethod, List.flatMap_map, ← List.map_eq_flatMap]

private theorem docs_serviceSource :
    (serviceSource fs).source.docs = fs.map (·.definition.description) := by
  rw [serviceSource, SourceFile.docs_ofClass, ClassDecl.docs]
  simp [Section.docs, Finder.serviceMethod, List.flatMap_map, ← List.map_eq_flatMap]

private theorem docs_controllerSource : (controllerSource fs).source.docs = [] := by
  rw [controllerSource, SourceFile.docs_ofClass, ClassDecl.docs]
  simp [Section.docs, Finder.controllerMethod, List.flatMap_map]

/-- The comment in the request contract of a finder is the description of its key. -/
theorem docs_requestSource :
    (f.requestSource conventions).docs = f.key.toList.map (·.description) := by
  rw [Finder.requestSource]
  cases f.key with
  | none => rfl
  | some key => rfl

/-- The comments in the response contract of a finder: the descriptions of the relations that it
includes, and the headings of its groups. -/
def Finder.responseDocs : List String :=
  ["Response Dto", "Main Model"] ++ f.included.map (·.description) ++
    if f.included.isEmpty then [] else ["Include Models"]

private theorem docs_includedModels (owner : String) (models : List String) :
    (ResponseContract.includedModels owner models).toList.flatMap Group.docs =
      if models.isEmpty then [] else ["Include Models"] := by
  unfold ResponseContract.includedModels
  split
  · rfl
  · simp [Group.docs, Declaration.docs, ClassDecl.docs, ResponseContract.omitting,
      List.flatMap_map]

private theorem docs_responseSource : f.responseSource.docs = f.responseDocs := by
  have hmodels : (ResponseContract.relatedModels f.included).isEmpty = f.included.isEmpty := by
    rw [Bool.eq_iff_iff, List.isEmpty_iff, List.isEmpty_iff, ResponseContract.relatedModels,
      List.eq_nil_iff_forall_not_mem]
    simp only [mem_firstOccurrences, ← List.eq_nil_iff_forall_not_mem, List.map_eq_nil_iff]
  rw [SourceFile.docs, Finder.responseSource, Finder.responseDocs]
  dsimp only
  rw [List.flatMap_append, docs_includedModels, hmodels]
  congr 1
  cases f.included with
  | nil => rfl
  | cons r included =>
    simp [Group.docs, Declaration.docs, ClassDecl.docs, Section.docs, ResponseContract.omitting,
      Finder.includedProperty, List.flatMap_map, ← List.map_eq_flatMap]

end Info

/-- What work on items makes is made of one of the items. -/
theorem exists_of_mem_of_mapM_eq_ok {ε α β : Type} {work : α → Except ε β} {as : List α}
    {bs : List β} {b : β} (h : as.mapM work = .ok bs) (hb : b ∈ bs) :
    ∃ a ∈ as, work a = .ok b := by
  induction as generalizing bs with
  | nil =>
    cases h
    cases hb
  | cons a as ih =>
    rw [List.mapM_cons] at h
    obtain ⟨made, hmade, h⟩ := except_bind_eq_ok.mp h
    obtain ⟨rest, hrest, h⟩ := except_bind_eq_ok.mp h
    cases h
    obtain rfl | hb := List.mem_cons.mp hb
    · exact ⟨a, List.mem_cons_self, hmade⟩
    · obtain ⟨a', ha', hwork⟩ := ih hrest hb
      exact ⟨a', List.mem_cons_of_mem _ ha', hwork⟩

/-- A request contract is the source file of an action with the fields of its request. -/
theorem RequestContract.exists_of_mem_artifacts {conventions : Conventions} {n : ResourceName}
    {d : Definition} {profile : Profile} {layer : LayerOutput} {a : Artifact}
    (h : output conventions n d profile = .ok layer) (ha : a ∈ layer.artifacts) :
    ∃ action fields, requestFields d profile action = .ok fields ∧
      a = (source conventions n action fields).artifact := by
  obtain ⟨artifacts, hartifacts, h⟩ := except_bind_eq_ok.mp h
  cases h
  obtain ⟨action, -, haction⟩ := exists_of_mem_of_mapM_eq_ok hartifacts ha
  obtain ⟨fields, hfields, haction⟩ := except_bind_eq_ok.mp haction
  cases haction
  exact ⟨action, fields, hfields, rfl⟩

/-- A generated file has the comments of its source file. -/
theorem hasComments_artifact {a : SourceArtifact} {texts : List String}
    (h : a.source.docs = texts) : HasComments a.artifact.content texts :=
  h ▸ a.source.hasComments

/-- **Descriptions in comments are not escaped.** The comments of a request contract carry the
descriptions of its fields. In the info layer those of the repository and of the service carry the
descriptions of the models, and those of a finder's contracts the descriptions of its key and of the
relations that it includes. Each of these comments ends with its own end exactly if its description
has no end of a comment in it. -/
theorem description_comments_close_iff (conventions : Conventions) (n : ResourceName)
    (d : Definition) (profile : Profile) (definitions : List Definition) :
    (∀ layer, RequestContract.output conventions n d profile = .ok layer →
      ∀ a ∈ layer.artifacts, ∃ action fields,
        RequestContract.requestFields d profile action = .ok fields ∧
        a = (RequestContract.source conventions n action fields).artifact ∧
        HasComments a.content (fields.map (·.1.description))) ∧
    ∀ a ∈ (Info.output conventions definitions).artifacts,
      a.path ∈ ["info.repository.ts", "info.service.ts"] ∧
          HasComments a.content (definitions.map (·.description)) ∨
        a.path = "info.controller.ts" ∧ HasComments a.content [] ∨
        ∃ f ∈ Info.finders conventions definitions,
          a.path = "dto/" ++ f.stem ++ ".ts" ∧
              HasComments a.content (f.key.toList.map (·.description)) ∨
            a.path = "dto/response/" ++ f.stem ++ ".ts" ∧
              HasComments a.content f.responseDocs := by
  constructor
  · intro layer hlayer a ha
    obtain ⟨action, fields, hfields, rfl⟩ := RequestContract.exists_of_mem_artifacts hlayer ha
    exact ⟨action, fields, hfields, rfl,
      hasComments_artifact (RequestContract.docs_source conventions n action fields)⟩
  · intro a ha
    have hmodels : (Info.finders conventions definitions).map (·.definition.description) =
        definitions.map (·.description) :=
      List.map_map ..
    obtain ⟨written, hwritten, rfl⟩ := List.mem_map.mp ha
    obtain hshared | hcontract := List.mem_append.mp hwritten
    · simp only [List.mem_cons, List.not_mem_nil, or_false] at hshared
      obtain rfl | rfl | rfl := hshared
      · exact .inl ⟨List.mem_cons_self,
          hasComments_artifact ((Info.docs_repositorySource _).trans hmodels)⟩
      · exact .inl ⟨List.mem_cons_of_mem _ List.mem_cons_self,
          hasComments_artifact ((Info.docs_serviceSource _).trans hmodels)⟩
      · exact .inr (.inl ⟨rfl, hasComments_artifact (Info.docs_controllerSource _)⟩)
    · obtain ⟨f, hf, hcontract⟩ := List.mem_flatMap.mp hcontract
      simp only [Info.Finder.contracts, List.mem_cons, List.not_mem_nil, or_false] at hcontract
      refine .inr (.inr ⟨f, hf, ?_⟩)
      obtain rfl | rfl := hcontract
      · exact .inl ⟨rfl, hasComments_artifact (Info.docs_requestSource conventions f)⟩
      · exact .inr ⟨rfl, hasComments_artifact (Info.docs_responseSource f)⟩

/-- The definition unit of an order. A directive stands between an asterisk and a slash. -/
def starredUnit : String :=
  "// Order\nmodel Order \x7b\n  id Int @id // key *#CR/ x\n\x7d\n"

/-- The key of the order. Without the directive its description has the end of a comment in it. -/
def starredKey : Field where
  name := "id"
  type := .ofDeclared "Int" false
  isArray := false
  isId := true
  isRequired := true
  tags := { standard := { create := some .createRequired } }
  description := "key */ x"
  unknownDirectives := []

/-- The model that the unit of the order declares. -/
def starredOrder : Definition where
  name := "Order"
  description := "Order"
  fields := [starredKey]
  relations := []
  fileId := "order"
  location := .primary

/-- The unit of the order has no end of a comment in it, but the comment of a request contract
ends within the description of the key. -/
theorem comment_of_starredKey_ends_early :
    ¬ EndsComment starredUnit ∧
      Definition.parse {} "order" .primary starredUnit = .ok starredOrder ∧
      RequestContract.requestFields starredOrder .standard .delete = .ok [(starredKey, true)] ∧
      let content := (RequestContract.source {} (.ofWord "Management" "order") .delete
        [(starredKey, true)]).artifact.content
      content =
        "import \x7b IsInt, IsNotEmpty \x7d from \"class-validator\";\n" ++
        "import \x7b IOrderDelete \x7d from \"../interfaces/order-delete.interface\";\n\n" ++
        "export class OrderDeleteDto implements IOrderDelete \x7b\n" ++
        "    /** key */ x */\n    @IsNotEmpty()\n    @IsInt()\n    id!: number;\n\x7d\n" ∧
      ¬ Carries IsClosed content.toList ["key */ x"] := by
  refine ⟨by decide +kernel, by decide +kernel, rfl, by decide +kernel, ?_⟩
  have hcomments := hasComments_artifact (RequestContract.docs_source {}
    (.ofWord "Management" "order") .delete [(starredKey, true)])
  intro hclosed
  exact hcomments.all.mp hclosed _ List.mem_cons_self (by decide)

/-- In the request contracts of the order a comment ends early. In its repository none does. -/
theorem description_comments_starredOrder :
    ∃ layer, RequestContract.output {} (.ofWord "Management" "order") starredOrder .standard =
        .ok layer ∧
      (∃ a ∈ layer.artifacts, a.path = "dto/order-delete.dto.ts" ∧
        ¬ Carries IsClosed a.content.toList ["key */ x"]) ∧
      ∃ a ∈ (Info.output {} [starredOrder]).artifacts, a.path = "info.repository.ts" ∧
        Carries IsClosed a.content.toList ["Order"] := by
  obtain ⟨hrequest, hinfo⟩ := description_comments_close_iff {} (.ofWord "Management" "order")
    starredOrder .standard [starredOrder]
  refine ⟨_, rfl, ⟨_, .tail _ (.tail _ (.head _)), by decide +kernel, fun hclosed => ?_⟩,
    _, .head _, rfl, ?_⟩
  · obtain ⟨action, fields, hfields, hsource, hcomments⟩ :=
      hrequest _ rfl _ (.tail _ (.tail _ (.head _)))
    have hdescriptions : fields.map (·.1.description) = ["key */ x"] := by
      cases action with
      | findList =>
        cases hfields
        exact absurd (congrArg Artifact.path hsource) (by decide +kernel)
      | _ =>
        cases hfields
        rfl
    rw [hdescriptions] at hcomments
    exact hcomments.all.mp hclosed _ List.mem_cons_self (by decide)
  · obtain ⟨-, hcomments⟩ | ⟨hpath, -⟩ | ⟨f, hf, hcontract⟩ := hinfo _ (.head _)
    · exact hcomments.all.mpr (by decide)
    · exact absurd hpath (by decide)
    · obtain rfl := List.mem_singleton.mp hf
      obtain ⟨hpath, -⟩ | ⟨hpath, -⟩ := hcontract <;> exact absurd hpath (by decide +kernel)

end NestLayers.Layer
