import NestLayers.Generator
import NestLayers.Proofs.SessionEffects

/-!
# Work that does the same in sessions that are alike

Work tells the same in two sessions if it gives the same result or stops for the same reason in
both, and leaves them related as they were. Nothing that a generator does depends on the journal,
so the relations here do not either: what only looks at the file tree tells the same wherever the
trees are the same, and what changes the tree does so entry by entry. Which sessions are compared
is left open; the comparison of a package with its layers uses several relations.
-/

namespace NestLayers

/-! ## Changing a tree entry by entry -/

namespace FileTree

/-- The second tree comes from the first one by putting and taking away single entries. -/
inductive Reaches (before : FileTree) : FileTree → Prop
  | refl : before.Reaches before
  | insert {after : FileTree} (place : Place) (entry : Entry) (h : before.Reaches after) :
    before.Reaches (after.insert place entry)
  | erase {after : FileTree} (place : Place) (h : before.Reaches after) :
    before.Reaches (after.erase place)

/-- Reaching is transitive. -/
theorem Reaches.trans {before middle after : FileTree} (h₁ : before.Reaches middle)
    (h₂ : middle.Reaches after) : before.Reaches after := by
  induction h₂ with
  | refl => exact h₁
  | insert place entry _ ih => exact ih.insert place entry
  | erase place _ ih => exact ih.erase place

variable {tree after : FileTree}

private theorem reaches_makeDirectory {path : Path} (h : tree.makeDirectory path = .ok after) :
    tree.Reaches after := by
  unfold makeDirectory at h
  split at h
  · cases h
  · split at h
    · cases h
    · cases h
      exact .insert _ _ .refl

/-- Making directories changes a tree entry by entry. -/
theorem reaches_makeDirectories (tree : FileTree) (path : Path) :
    tree.Reaches (tree.makeDirectories path).1 :=
  makeDirectoriesUp_induction (fun _ => .refl) .trans tree _ _ _ fun _ => reaches_makeDirectory

/-- Putting a file changes a tree entry by entry. -/
theorem reaches_putFile (tree : FileTree) (path : Path) (content : Content) :
    tree.Reaches (tree.putFile path content).1 := by
  unfold putFile
  split
  · exact .refl
  · split
    · exact .refl
    · rename_i temporary _
      have hstaged : tree.Reaches (tree.insert temporary (.file content)) := .insert _ _ .refl
      dsimp only
      split
      · exact hstaged.erase temporary
      · rename_i hdone
        obtain ⟨-, -, place, -, -, -, rfl⟩ := replaceFile_eq_ok hdone
        exact (hstaged.erase temporary).insert place _

private theorem reaches_clearNames (tree : FileTree) (place : Place) (path : Path)
    (names : List String) : tree.Reaches (tree.clearNames place path names).1 := by
  induction names generalizing tree with
  | nil => exact .refl
  | cons name names ih =>
    rw [clearNames]
    split
    · exact .refl
    · exact (Reaches.erase _ .refl).trans (ih _)
    · exact ih tree

/-- Clearing files changes a tree entry by entry. -/
theorem reaches_clearFiles (tree : FileTree) (path : Path) :
    tree.Reaches (tree.clearFiles path).1 := by
  unfold clearFiles
  split
  · exact .refl
  · exact tree.reaches_clearNames _ path _

end FileTree

/-! ## Work that reports

What a generator reads and renders is done in sequence, with failures and records in between. A
property that holds of these holds of the whole, as far as it holds of what is looked up. -/

/-- A note is recorded, unless it was before. -/
theorem recordNote_cases (note : Definition.Note) (s : Session) :
    recordNote note s = .ok () s ∨ ∃ e, recordNote note s = .ok () (s.record e) := by
  unfold recordNote
  split
  · rw [bind_run]
    change (ite _ _ _ : Work Unit) s = _ ∨ ∃ e, (ite _ _ _ : Work Unit) s = _
    split
    · exact .inr ⟨_, rfl⟩
    · exact .inl rfl
  · exact .inr ⟨_, rfl⟩

/-- A property of work that sequences keep, and that failures and records have. -/
structure IsReporting (P : {α : Type} → Work α → Prop) : Prop where
  sequential : IsSequential fun work _ => P work
  fail : ∀ {α : Type} (cause : Failure), P (NestLayers.fail cause : Work α)
  record : ∀ e, P (NestLayers.record e)
  recordNote : ∀ note, P (NestLayers.recordNote note)

namespace IsReporting

variable {α β : Type} {P : {α : Type} → Work α → Prop} (hP : IsReporting P)

include hP

private theorem pure (a : α) : P (Pure.pure a) :=
  hP.sequential.pure a

private theorem bind {work : Work α} {next : α → Work β} (h : P work) (hnext : ∀ a, P (next a)) :
    P (work >>= next) :=
  @IsSequential.bind _ hP.sequential _ _ _ work _ next h hnext

private theorem forM {work : α → Work PUnit} (items : List α) (h : ∀ item, P (work item)) :
    P (items.forM work) :=
  @IsSequential.forM _ _ hP.sequential work work items fun item _ => h item

/-- A record comes before a result. -/
theorem record_pure (e : Event) (a : α) : P (NestLayers.record e >>= fun _ => Pure.pure a) :=
  hP.bind (hP.record e) fun _ => hP.pure a

/-- A definition unit is read if its text is. -/
theorem readFile {path : Path} (hread : P (DefinitionStore.readUnit path)) (registry : Registry)
    (location : Location) : P (DefinitionStore.readFile registry location path) := by
  refine hP.bind hread fun text => hP.bind (hP.forM _ hP.recordNote) fun _ => ?_
  split
  · exact hP.fail _
  · exact hP.pure _

/-- A definition unit is registered if its text is read. -/
theorem register {unit : Location × Path} (hread : P (DefinitionStore.readUnit unit.2))
    (registry : Registry) : P (DefinitionStore.register registry unit) := by
  refine hP.bind hread fun text => ?_
  split
  · exact hP.record_pure _ _
  · split
    · exact hP.record_pure _ _
    · exact hP.pure _

/-- Checking a definition only reports. -/
theorem check (d : Definition) (requireId : Bool) : P (Generator.check d requireId) := by
  refine hP.bind (hP.record _) fun _ => hP.bind (hP.forM _ fun _ => hP.record _) fun _ => ?_
  split
  · exact hP.fail _
  · exact hP.pure ()

private theorem rendered (d : Definition) (result : Except IdentifierError LayerOutput) :
    P (Generator.rendered d result) := by
  unfold Generator.rendered
  split
  · exact hP.pure _
  · exact hP.fail _

variable (g : Generator) (hregistry : P g.registry)

include hregistry

/-- The definition behind a resource is found if its unit is. -/
theorem definitionFor {n : ResourceName} (hload : ∀ models, P (g.store.load models n.definitionId))
    (requireId : Bool) : P (g.definitionFor n requireId) :=
  hP.bind hregistry fun models => hP.bind (hload models) fun d =>
    hP.bind (hP.check d requireId) fun _ => hP.pure d

/-- **A layer is rendered if the registry and the definition units are found.** -/
theorem layerOutput {name : String}
    (hload : ∀ models, P (g.store.load models (g.conventions.resourceName name).definitionId))
    (hloadAll : ∀ models, P (g.store.loadAll models true))
    (hloadAggregates : ∀ models, P (g.store.loadAggregates models)) (layer : Layer) :
    P (g.layerOutput layer name) := by
  unfold Generator.layerOutput
  dsimp only
  split
  · exact hP.bind hregistry fun models => hP.bind (hloadAll models) fun ds =>
      hP.bind (hP.forM _ fun d => hP.check d false) fun _ => hP.bind (hP.record _) fun _ =>
        hP.bind (hP.forM _ fun _ => hP.record _) fun _ => hP.pure _
  · refine hP.bind hregistry fun models => hP.bind (hloadAggregates models) fun ds => ?_
    split
    · exact hP.fail _
    · exact hP.bind (hP.forM _ fun d => hP.check d false) fun _ => hP.record_pure _ _
  · split
    · exact hP.fail _
    · split
      · exact hP.record_pure _ _
      · exact hP.record_pure _ _
      · refine hP.bind (hP.definitionFor g hregistry hload _) fun d => hP.bind (hP.record _) fun _ =>
          hP.bind (hP.rendered d _) fun output => ?_
        split
        · exact hP.record_pure _ _
        · exact hP.pure output

end IsReporting

/-! ## Telling the same -/

/-- Two results tell the same: they are results with related values, or both stop for the same
reason. The sessions that they leave are related. -/
inductive Agree {α β : Type} (R : Session → Session → Prop) (V : α → β → Prop) :
    EStateM.Result Stop Session α → EStateM.Result Stop Session β → Prop
  | ok {a : α} {b : β} {s t : Session} (hvalue : V a b) (hsession : R s t) :
    Agree R V (.ok a s) (.ok b t)
  | error {stop : Stop} {s t : Session} (hsession : R s t) :
    Agree R V (.error stop s) (.error stop t)

/-- The two works tell the same, with the same values, in sessions that are related. -/
def Agrees {α : Type} (R : Session → Session → Prop) (work other : Work α) : Prop :=
  ∀ s t, R s t → Agree R Eq (work s) (other t)

/-- The relation does not depend on the journals. -/
structure Quiet (R : Session → Session → Prop) : Prop where
  left : ∀ {s t : Session} (e : Event), R s t → R (s.record e) t
  right : ∀ {s t : Session} (e : Event), R s t → R s (t.record e)

/-- The relation holds between sessions with the same tree only, whatever their journals. -/
structure Reads (R : Session → Session → Prop) : Prop extends Quiet R where
  tree_eq : ∀ {s t : Session}, R s t → s.tree = t.tree

/-- The relation stays if the tree of both sessions is changed in the same way. -/
structure Edits (R : Session → Session → Prop) : Prop extends Reads R where
  setTree : ∀ {s t : Session} {tree : FileTree}, R s t → s.tree.Reaches tree →
    R { s with tree } { t with tree }

variable {α β γ δ : Type} {R : Session → Session → Prop} {s t : Session}

/-- Related parts make related work. What follows may be compared by another relation, which has to
hold where the first parts stop. -/
theorem Agree.bind_of_ok {R' : Session → Session → Prop} {V : α → β → Prop} {W : γ → δ → Prop}
    {work : Work α} {other : Work β} {next : α → Work γ} {next' : β → Work δ}
    (h : Agree R V (work s) (other t)) (hstop : ∀ {s t}, R s t → R' s t)
    (hnext : ∀ a b s' t', work s = .ok a s' → other t = .ok b t' → V a b → R s' t' →
      Agree R' W (next a s') (next' b t')) :
    Agree R' W ((work >>= next) s) ((other >>= next') t) := by
  rw [bind_run, bind_run]
  generalize work s = result, other t = result' at h hnext
  cases h with
  | ok hvalue hsession => exact hnext _ _ _ _ rfl rfl hvalue hsession
  | error hsession => exact .error (hstop hsession)

/-- Results that agree do so for weaker relations. -/
theorem Agree.mono {R' : Session → Session → Prop} {V V' : α → β → Prop}
    {result : EStateM.Result Stop Session α} {result' : EStateM.Result Stop Session β}
    (h : Agree R V result result') (hR : ∀ {s t}, R s t → R' s t)
    (hV : ∀ {a b}, V a b → V' a b) : Agree R' V' result result' := by
  cases h with
  | ok hvalue hsession => exact .ok (hV hvalue) (hR hsession)
  | error hsession => exact .error (hR hsession)

/-- The other result has a value if the first has. -/
theorem Agree.exists_of_ok {V : α → β → Prop} {a : α} {result : EStateM.Result Stop Session β}
    (h : Agree R V (.ok a s) result) : ∃ b t, result = .ok b t ∧ V a b ∧ R s t := by
  cases h with
  | ok hvalue hsession => exact ⟨_, _, rfl, hvalue, hsession⟩

/-- The first result has a value if the other has. -/
theorem Agree.exists_of_ok_right {V : α → β → Prop} {b : β}
    {result : EStateM.Result Stop Session α} (h : Agree R V result (.ok b t)) :
    ∃ a s, result = .ok a s ∧ V a b ∧ R s t := by
  cases h with
  | ok hvalue hsession => exact ⟨_, _, rfl, hvalue, hsession⟩

/-- The other result is an error if the first is. -/
theorem Agree.exists_of_error {V : α → β → Prop} {stop : Stop}
    {result : EStateM.Result Stop Session β} (h : Agree R V (.error stop s) result) :
    ∃ t, result = .error stop t ∧ R s t := by
  cases h with
  | error hsession => exact ⟨_, rfl, hsession⟩

namespace Agrees

/-- Work after work agrees. -/
theorem bind {work other : Work α} {next next' : α → Work β} (h : Agrees R work other)
    (hnext : ∀ a, Agrees R (next a) (next' a)) : Agrees R (work >>= next) (other >>= next') := by
  intro s t hsession
  refine (h s t hsession).bind_of_ok id fun a b s' t' _ _ hvalue hsession' => ?_
  subst hvalue
  exact hnext a s' t' hsession'

/-- A result agrees with itself. -/
theorem pure (a : α) : Agrees R (Pure.pure a) (Pure.pure a) :=
  fun _ _ hsession => .ok rfl hsession

/-- A failure agrees with itself. -/
theorem fail (cause : Failure) :
    Agrees R (NestLayers.fail cause : Work α) (NestLayers.fail cause) :=
  fun _ _ hsession => .error hsession

private theorem refuse (fault : FileFault) :
    Agrees R (NestLayers.refuse fault : Work α) (NestLayers.refuse fault) :=
  fun _ _ hsession => .error hsession

/-- Work that tells the same may be done in sequence. -/
theorem isSequential (R : Session → Session → Prop) : IsSequential (Agrees R) :=
  ⟨pure, bind⟩

/-- Work on items agrees if it does on each. -/
theorem mapM {work other : α → Work β} (items : List α)
    (h : ∀ item ∈ items, Agrees R (work item) (other item)) :
    Agrees R (items.mapM work) (items.mapM other) :=
  (isSequential R).mapM items h

/-- Folding items agrees if each step does. -/
theorem foldlM {work other : β → α → Work β} (items : List α)
    (h : ∀ item ∈ items, ∀ b, Agrees R (work b item) (other b item)) (b : β) :
    Agrees R (items.foldlM work b) (items.foldlM other b) :=
  (isSequential R).foldlM items h b

private theorem reporting {work other : Work α} (cause : FileFault → Failure)
    (h : Agrees R work other) :
    Agrees R (NestLayers.reporting cause work) (NestLayers.reporting cause other) := by
  intro s t hsession
  unfold NestLayers.reporting
  have hresult := h s t hsession
  generalize work s = result, other t = result' at hresult
  cases hresult with
  | ok hvalue hsession => exact .ok hvalue hsession
  | @error stop s t hsession =>
    rcases stop with cause | (fault | flaw | _)
    · exact .error hsession
    · dsimp only
      split <;> exact .error hsession
    · exact .error hsession
    · exact .error hsession

end Agrees

/-! ## Work that writes to the journal -/

section Quiet

variable (hR : Quiet R)

include hR

/-- Events agree, whatever is recorded. -/
theorem Quiet.record (e e' : Event) : Agrees R (record e) (record e') :=
  fun _ _ hsession => .ok rfl (hR.left e (hR.right e' hsession))

/-- The time that work takes is of no account. -/
theorem Quiet.timed {V : α → β → Prop} {work : Work α} {other : Work β} (label label' : String)
    (h : Agree R V (work s) (other t)) :
    Agree R V (timed label work s) (timed label' other t) := by
  unfold NestLayers.timed
  generalize work s = result, other t = result' at h
  cases h with
  | ok hvalue hsession => exact .ok hvalue (hR.left _ (hR.right _ hsession))
  | error hsession => exact .error (hR.left _ (hR.right _ hsession))

/-- Whether an enumeration was noted before decides about the journal only. -/
theorem Quiet.recordNote (note : Definition.Note) :
    Agrees R (recordNote note) (recordNote note) := by
  intro s t hsession
  rcases recordNote_cases note s with hs | ⟨e, hs⟩ <;>
    rcases recordNote_cases note t with ht | ⟨e', ht⟩ <;> rw [hs, ht]
  · exact .ok rfl hsession
  · exact .ok rfl (hR.right e' hsession)
  · exact .ok rfl (hR.left e hsession)
  · exact .ok rfl (hR.left e (hR.right e' hsession))

/-- Work that reports tells the same wherever what it looks up does. -/
theorem Quiet.isReporting : IsReporting fun work => Agrees R work work where
  sequential := ⟨.pure, .bind⟩
  fail := .fail
  record e := hR.record e e
  recordNote := hR.recordNote

end Quiet

/-! ## Work that looks at the tree -/

namespace Reads

variable (hR : Reads R)

include hR

private theorem currentTree : Agrees R currentTree currentTree :=
  fun _ _ hsession => .ok (hR.tree_eq hsession) hsession

/-- A question to the tree is answered the same. -/
theorem look (question : FileTree → Except FileFault α) :
    Agrees R (look question) (look question) := by
  refine hR.currentTree.bind fun tree => ?_
  cases question tree with
  | error fault => exact .refuse fault
  | ok answer => exact .pure answer

private theorem isDirectory (path : Path) : Agrees R (isDirectory path) (isDirectory path) :=
  (hR.look _).bind fun _ => .pure _

private theorem isFile (path : Path) : Agrees R (isFile path) (isFile path) := by
  refine (hR.look _).bind fun entry => ?_
  split <;> exact .pure _

variable (store : DefinitionStore)

/-- The same units are listed. -/
theorem files (location : Location) : Agrees R (store.files location) (store.files location) := by
  refine (hR.isDirectory _).bind fun answer => ?_
  split
  · exact (hR.look _).bind fun paths => .pure _
  · cases location with
    | primary => exact .fail _
    | aggregate => exact (hR.record _ _).bind fun _ => .pure []

/-- The same units are listed in both directories. -/
theorem allFiles : Agrees R store.allFiles store.allFiles :=
  (hR.files store .primary).bind fun _ => (hR.files store .aggregate).bind fun _ => .pure _

/-- The same unit is resolved. -/
theorem resolve (id : String) : Agrees R (store.resolve id) (store.resolve id) := by
  refine (hR.isFile _).bind fun answer => ?_
  split
  · exact .pure _
  · refine (hR.isFile _).bind fun answer => ?_
    split
    · exact .pure _
    · exact .fail _

private theorem readUnit (path : Path) :
    Agrees R (DefinitionStore.readUnit path) (DefinitionStore.readUnit path) := by
  refine (hR.look _).bind fun entry => ?_
  split
  · exact .pure ""
  · exact (hR.look _).bind fun _ => .pure _

/-- The same definition is read. -/
theorem readFile (registry : Registry) (location : Location) (path : Path) :
    Agrees R (DefinitionStore.readFile registry location path)
      (DefinitionStore.readFile registry location path) :=
  hR.isReporting.readFile (hR.readUnit path) registry location

private theorem load (registry : Registry) (id : String) :
    Agrees R (store.load registry id) (store.load registry id) :=
  (hR.resolve store id).bind fun (_, _) => hR.readFile registry _ _

/-- The same definitions are loaded. -/
theorem loadAll (registry : Registry) (withAggregates : Bool) :
    Agrees R (store.loadAll registry withAggregates) (store.loadAll registry withAggregates) :=
  (hR.record _ _).bind fun _ => (hR.allFiles store).bind fun _ =>
    .mapM _ fun unit _ => hR.readFile registry unit.1 unit.2

private theorem loadAggregates (registry : Registry) :
    Agrees R (store.loadAggregates registry) (store.loadAggregates registry) :=
  (hR.files store .aggregate).bind fun _ => .mapM _ fun path _ => hR.readFile registry _ path

end Reads

/-! Listing the units and reading the listed ones tells the same. So does work on all of them. -/

section Units

variable {store : DefinitionStore}
  (hfiles : ∀ location, Agrees R (store.files location) (store.files location))
  (hread : ∀ location s t paths s', R s t → store.files location s = .ok paths s' →
    ∀ path ∈ paths, Agrees R (DefinitionStore.readUnit path) (DefinitionStore.readUnit path))

include hfiles hread

private theorem agree_allFiles (hsession : R s t) :
    Agree R (fun units units' => units' = units ∧ ∀ unit ∈ units,
      Agrees R (DefinitionStore.readUnit unit.2) (DefinitionStore.readUnit unit.2))
      (store.allFiles s) (store.allFiles t) := by
  refine (hfiles .primary s t hsession).bind_of_ok id ?_
  rintro primary _ s₁ t₁ hprimary - rfl hsession₁
  refine (hfiles .aggregate s₁ t₁ hsession₁).bind_of_ok id ?_
  rintro aggregate _ s₂ t₂ haggregate - rfl hsession₂
  refine .ok ⟨rfl, fun unit hunit => ?_⟩ hsession₂
  rcases List.mem_append.mp hunit with hunit | hunit <;>
    obtain ⟨path, hpath, rfl⟩ := List.mem_map.mp hunit
  · exact hread .primary s t primary s₁ hsession hprimary path hpath
  · exact hread .aggregate s₁ t₁ aggregate s₂ hsession₁ haggregate path hpath

/-- The registries agree where the same units are read. -/
theorem Quiet.buildRegistry (hR : Quiet R) : Agrees R store.buildRegistry store.buildRegistry := by
  intro s t hsession
  refine (agree_allFiles hfiles hread hsession).bind_of_ok id ?_
  rintro _ _ s₁ t₁ - - ⟨rfl, hunit⟩ hsession₁
  have hregister := Agrees.foldlM _ (fun unit hmem => hR.isReporting.register (hunit unit hmem)) {}
  exact (hregister.bind fun _ => (hR.record _ _).bind fun _ => .pure _) s₁ t₁ hsession₁

/-- The definitions agree where the same units are read. -/
theorem Quiet.loadAll (hR : Quiet R) (registry : Registry) (withAggregates : Bool) :
    Agrees R (store.loadAll registry withAggregates) (store.loadAll registry withAggregates) := by
  refine (hR.record _ _).bind fun _ s t hsession => ?_
  refine (agree_allFiles hfiles hread hsession).bind_of_ok id ?_
  rintro units _ s₁ t₁ - - ⟨rfl, hunit⟩ hsession₁
  exact Agrees.mapM _ (fun unit hmem => hR.isReporting.readFile
    (hunit unit (List.mem_filter.mp hmem).1) registry unit.1) s₁ t₁ hsession₁

/-- The aggregates agree where the same units are read. -/
theorem Quiet.loadAggregates (hR : Quiet R) (registry : Registry) :
    Agrees R (store.loadAggregates registry) (store.loadAggregates registry) := by
  intro s t hsession
  refine (hfiles .aggregate s t hsession).bind_of_ok id ?_
  rintro paths _ s₁ t₁ hpaths - rfl hsession₁
  exact Agrees.mapM _ (fun path hmem =>
    hR.isReporting.readFile (hread .aggregate s t paths s₁ hsession hpaths path hmem) registry
      .aggregate) s₁ t₁ hsession₁

end Units

/-- The same registry is built. -/
theorem Reads.buildRegistry (hR : Reads R) (store : DefinitionStore) :
    Agrees R store.buildRegistry store.buildRegistry :=
  Quiet.buildRegistry (hR.files store) (fun _ _ _ _ _ _ _ path _ => hR.readUnit path) hR.toQuiet

/-! ## Work that changes the tree -/

namespace Edits

variable (hR : Edits R)

include hR

private theorem ensureDirectory (path : Path) :
    Agrees R (ensureDirectory path) (ensureDirectory path) := by
  intro s t hsession
  have hreaches := s.tree.reaches_makeDirectories path
  rw [ensureDirectory_run, ensureDirectory_run, ← hR.tree_eq hsession]
  split
  · rename_i tree fault hmade
    rw [hmade] at hreaches
    exact .error (hR.setTree hsession hreaches)
  · rename_i tree hmade
    rw [hmade] at hreaches
    exact .ok rfl (hR.left _ (hR.right _ (hR.setTree hsession hreaches)))

private theorem writeFile (path : Path) (wide : Text.WideText) :
    Agrees R (writeFile path wide) (writeFile path wide) := by
  refine (hR.ensureDirectory path.parent).bind fun _ s t hsession => ?_
  cases wide with
  | broken before half after => exact .error hsession
  | text text =>
    have hreaches := s.tree.reaches_putFile path (.text text)
    dsimp only
    rw [bind_run, bind_run]
    simp only [currentTree_run, ← hR.tree_eq hsession]
    generalize s.tree.putFile path (.text text) = result at hreaches
    obtain ⟨tree, fault⟩ := result
    have hwritten := hR.setTree hsession hreaches
    cases fault with
    | some fault => exact .error hwritten
    | none => exact .ok rfl (hR.left _ (hR.right _ hwritten))

private theorem clearFiles (path : Path) : Agrees R (clearFiles path) (clearFiles path) := by
  intro s t hsession
  have hreaches := s.tree.reaches_clearFiles path
  rw [clearFiles_run, clearFiles_run, ← hR.tree_eq hsession]
  split
  · exact .error hsession
  · split
    · generalize s.tree.clearFiles path = result at hreaches
      obtain ⟨tree, fault | removed⟩ := result
      · exact .error (hR.setTree hsession hreaches)
      · exact .ok rfl (hR.left _ (hR.right _ (hR.setTree hsession hreaches)))
    · exact .ok rfl hsession

private theorem writeArtifact (base : Path) (a : Artifact) :
    Agrees R (Exporter.writeArtifact base a) (Exporter.writeArtifact base a) :=
  (Agrees.reporting _ (hR.writeFile _ _)).bind fun _ => (hR.record _ _).bind fun _ => .pure _

private theorem reset (base : Path) (directories : List String) :
    Agrees R (Exporter.reset base directories) (Exporter.reset base directories) :=
  (Agrees.mapM _ fun _ _ => .reporting _ (hR.clearFiles _)).bind fun _ => .pure _

end Edits

/-! ## Writing a layer

A dry run only looks at the tree; otherwise the relation has to stay when the tree is changed. -/

namespace Reads

variable (hR : Reads R) (exporter : Exporter) (hedits : exporter.dryRun = false → Edits R)

include hR hedits

private theorem resourceDirectory (resource : String) (create : Bool) :
    Agrees R (exporter.resourceDirectory resource create)
      (exporter.resourceDirectory resource create) := by
  refine (hR.look _).bind fun found => ?_
  cases found with
  | some found => exact (hR.record _ _).bind fun _ => .pure found
  | none =>
    dsimp only
    split
    · rename_i hmade
      have hlive : exporter.dryRun = false := by simp_all
      exact ((hedits hlive).ensureDirectory _).bind fun _ => (hR.record _ _).bind fun _ => .pure _
    · exact .pure _

/-- The same directory is the target. -/
theorem targetDirectory (output : LayerOutput) :
    Agrees R (exporter.targetDirectory output) (exporter.targetDirectory output) := by
  unfold Exporter.targetDirectory
  split
  · exact .pure _
  · refine (hR.isDirectory _).bind fun answer => ?_
    split
    · exact .pure _
    · exact .fail _
  · exact hR.resourceDirectory exporter hedits _ _

/-- **Writing a layer tells the same in sessions that are alike.** -/
theorem write (output : LayerOutput) :
    Agrees R (exporter.write output) (exporter.write output) := by
  refine (hR.targetDirectory exporter hedits output).bind fun base => ?_
  refine Agrees.bind (fun s t hsession => hR.timed _ _ ?_) fun written =>
    (hR.record _ _).bind fun _ => .pure _
  split
  · exact .ok rfl hsession
  · rename_i hlive
    have hR := hedits (by simpa using hlive)
    exact ((hR.reset base _).bind fun removed =>
      (Agrees.mapM _ fun a _ => hR.writeArtifact base a).bind fun files => .pure _) s t hsession

end Reads

/-! ## Rendering -/

/-- **Rendering a layer tells the same wherever the registry and the tree are the same.** -/
theorem Reads.layerOutput (hR : Reads R) (g : Generator) (hregistry : Agrees R g.registry g.registry)
    (layer : Layer) (name : String) :
    Agrees R (g.layerOutput layer name) (g.layerOutput layer name) :=
  hR.isReporting.layerOutput g hregistry (fun models => hR.load g.store models _)
    (fun models => hR.loadAll g.store models true) (hR.loadAggregates g.store) layer

/-- A layer runs alike if it is rendered alike. -/
theorem Reads.runLayer (hR : Reads R) {g : Generator} (hedits : g.exporter.dryRun = false → Edits R)
    {layer : Layer} {name : String}
    (hlayer : Agrees R (g.layerOutput layer name) (g.layerOutput layer name)) :
    Agrees R (g.runLayer layer name) (g.runLayer layer name) :=
  fun s t hsession =>
    hR.timed _ _ ((hlayer.bind fun output => hR.write g.exporter hedits output) s t hsession)

end NestLayers
