import NestLayers.Proofs.PlainFiles

/-!
# A package is written layer by layer

A run of a package looks for the definition unit once and then renders and writes its layers one
after another. It ends like the runs of the layers one by one: in the same tree, with the same
exports or for the same reason. The first of these runs, that of the module, looks for no unit, so
that the registry is built only after the module is written; but the module is no definition unit,
and the registry is the same. Where the unit is not found, nothing is written.
-/

namespace NestLayers

/-! ## Sessions with and without the registry -/

/-- The sessions have the same tree. -/
def SameTree (s t : Session) : Prop :=
  s.tree = t.tree

/-- The sessions have this tree and the same registry. -/
def Same (tree : FileTree) (s t : Session) : Prop :=
  s.tree = tree ∧ t.tree = tree ∧ s.registry = t.registry

/-- The sessions have the same tree, and each its own registry. -/
def Alike (first second : Option Registry) (s t : Session) : Prop :=
  s.tree = t.tree ∧ s.registry = first ∧ t.registry = second

/-- Same sessions have one tree. -/
theorem reads_same (tree : FileTree) : Reads (Same tree) where
  left _ h := h
  right _ h := h
  tree_eq h := h.1.trans h.2.1.symm

/-- Work that tells the same in all sessions with one tree leaves the tree as it was. -/
theorem tree_of_eq_error {α : Type} {work : Work α} {s s' : Session} {stop : Stop}
    (hwork : Agrees (Same s.tree) work work) (h : work s = .error stop s') : s'.tree = s.tree := by
  have hagree := hwork s s ⟨rfl, rfl, rfl⟩
  rw [h] at hagree
  obtain ⟨_, -, hsame⟩ := hagree.exists_of_error
  exact hsame.1

/-- The same changes keep sessions alike. -/
theorem edits_alike (first second : Option Registry) : Edits (Alike first second) where
  left _ h := h
  right _ h := h
  tree_eq h := h.1
  setTree h _ := ⟨rfl, h.2⟩

/-- Building the registry gives these models in every session with this tree. -/
def DefinitionStore.IsRegistryOf (store : DefinitionStore) (models : Registry) (tree : FileTree) :
    Prop :=
  ∀ t : Session, t.tree = tree →
    ∃ t', store.buildRegistry t = .ok models t' ∧ t'.tree = tree ∧ t'.registry = t.registry

namespace DefinitionStore

variable {store : DefinitionStore} {models : Registry} {s s' : Session} {before after : FileTree}

/-- Sessions across one tree have it. -/
theorem reads_across (tree : FileTree) (registry : Option Registry) :
    Reads (Across tree tree registry) :=
  { quiet_across tree tree registry with tree_eq := fun h => h.1.trans h.2.1.symm }

/-- The registry that is built is that of the tree. -/
theorem isRegistryOf_of_buildRegistry (h : store.buildRegistry s = .ok models s') :
    store.IsRegistryOf models s.tree := by
  intro t ht
  have hagree := (reads_across s.tree t.registry).buildRegistry store s t ⟨rfl, ht, rfl⟩
  rw [h] at hagree
  obtain ⟨_, t', ht', rfl, -, htree, hregistry⟩ := hagree.exists_of_ok
  exact ⟨t', ht', htree, hregistry⟩

/-- The registry stays the same while the units are kept. -/
theorem IsRegistryOf.keepsUnits (h : store.IsRegistryOf models before)
    (hkeeps : before.KeepsUnits after) (hproper : before.IsProper) (hdistinct : after.IsDistinct)
    (hsettled : before.IsSettled store.aggregate)
    (hroom : ∀ location, before.HasRoom (store.directory location) after) :
    store.IsRegistryOf models after := by
  intro t ht
  obtain ⟨s', hs', -, -⟩ := h { t with tree := before } rfl
  obtain ⟨t', ht', -, htree, hregistry⟩ := store.exists_buildRegistry_eq_ok hkeeps hproper
    hdistinct hsettled hroom ⟨rfl, ht, rfl⟩ hs'
  exact ⟨t', ht', htree, hregistry⟩

/-- Looking for a unit changes nothing. -/
theorem session_resolve {id : String} {unit : Location × Path}
    (h : store.resolve id s = .ok unit s') : s' = s := by
  have hisFile {path : Path} {answer : Bool} {s s' : Session} (h : isFile path s = .ok answer s') :
      s' = s := by
    obtain ⟨entry, s₁, hentry, hanswer⟩ := bind_eq_ok.mp h
    obtain ⟨-, rfl⟩ := look_eq_ok.mp hentry
    split at hanswer <;> exact (EStateM.Result.ok.inj hanswer).2.symm
  obtain ⟨inPrimary, s₁, hprimary, hrest⟩ := bind_eq_ok.mp h
  obtain rfl := hisFile hprimary
  split at hrest
  · exact (EStateM.Result.ok.inj hrest).2.symm
  · obtain ⟨inAggregate, s₂, haggregate, hlast⟩ := bind_eq_ok.mp hrest
    obtain rfl := hisFile haggregate
    split at hlast
    · exact (EStateM.Result.ok.inj hlast).2.symm
    · cases hlast

end DefinitionStore

namespace Generator

variable (g : Generator) {models : Registry} {layer : Layer} {name : String} {s s' t : Session}

/-- The registry is built once in a session. -/
theorem registry_run (s : Session) :
    g.registry s =
      match s.registry with
      | some models => .ok models s
      | none =>
        match g.store.buildRegistry s with
        | .ok models s => .ok models { s with registry := some models }
        | .error stop s => .error stop s := by
  unfold registry
  rw [bind_run]
  change (match s.registry with
    | some registry => pure registry
    | none => _ : Work Registry) s = _
  cases s.registry with
  | some models => rfl
  | none =>
    dsimp only
    rw [bind_run]
    cases g.store.buildRegistry s <;> rfl

/-- A registry that is known is not built again. -/
theorem registry_of_some (h : s.registry = some models) : g.registry s = .ok models s := by
  rw [registry_run, h]

/-- The first session has the registry. So has the second one, or it would build it from its
tree. -/
def Ahead (models : Registry) (s t : Session) : Prop :=
  s.tree = t.tree ∧ s.registry = some models ∧
    (t.registry = some models ∨ t.registry = none ∧ g.store.IsRegistryOf models t.tree)

variable {g}

/-- A session that is behind comes up by asking for the registry. -/
theorem Ahead.exists_registry_eq_ok (h : g.Ahead models s t) :
    ∃ t', g.registry t = .ok models t' ∧ Alike (some models) (some models) s t' := by
  obtain ⟨htree, hs, ht | ⟨ht, hmodels⟩⟩ := h
  · exact ⟨t, g.registry_of_some ht, htree, hs, ht⟩
  · obtain ⟨t', hbuilt, htree', -⟩ := hmodels t rfl
    rw [registry_run, ht, hbuilt]
    exact ⟨_, rfl, htree.trans htree'.symm, hs, rfl⟩

/-- Asking for the registry leaves a session that has it, and the tree as it was. -/
theorem ahead_of_registry_eq_ok (h : g.registry s = .ok models s') : g.Ahead models s' s := by
  cases hs : s.registry with
  | some known =>
    rw [g.registry_of_some hs] at h
    obtain ⟨rfl, rfl⟩ := EStateM.Result.ok.inj h
    exact ⟨rfl, hs, .inl hs⟩
  | none =>
    rw [registry_run, hs] at h
    cases hbuilt : g.store.buildRegistry s with
    | error stop s₁ => simp [hbuilt] at h
    | ok built s₁ =>
      simp only [hbuilt] at h
      obtain ⟨rfl, rfl⟩ := EStateM.Result.ok.inj h
      have hmodels := DefinitionStore.isRegistryOf_of_buildRegistry hbuilt
      obtain ⟨s₂, hs₂, htree, -⟩ := hmodels s rfl
      obtain ⟨-, rfl⟩ := EStateM.Result.ok.inj (hbuilt.symm.trans hs₂)
      exact ⟨htree, rfl, .inr ⟨hs, hmodels⟩⟩

variable (g)

private theorem agrees_registry_alike (models : Registry) :
    Agrees (Alike (some models) (some models)) g.registry g.registry := by
  intro s t h
  rw [g.registry_of_some h.2.1, g.registry_of_some h.2.2]
  exact .ok rfl h

/-- Same sessions are given the same registry. -/
theorem agrees_registry_same (tree : FileTree) : Agrees (Same tree) g.registry g.registry := by
  intro s t h
  cases hs : s.registry with
  | some models =>
    rw [g.registry_of_some hs, g.registry_of_some (h.2.2 ▸ hs)]
    exact .ok rfl h
  | none =>
    rw [registry_run, registry_run, ← h.2.2, hs]
    have hbuilt := (reads_same tree).buildRegistry g.store s t h
    generalize g.store.buildRegistry s = result, g.store.buildRegistry t = result' at hbuilt
    cases hbuilt with
    | ok hmodels hsession =>
      subst hmodels
      exact .ok rfl ⟨hsession.1, hsession.2.1, rfl⟩
    | error hsession => exact .error hsession

/-! ## Runs -/

/-- What a run does before it writes anything: the registry is built, and the definition unit
looked for. -/
def findUnit (name : String) : Work (Location × Path) := do
  let _ ← g.registry
  g.store.resolve (g.conventions.resourceName name).definitionId

/-- What a run does then: all layers that it is for are rendered and written. -/
def runParts (layer : Layer) (name : String) : Work Report := do
  let report ← timed ("run " ++ layer.name) do
    g.runLayers layer.parts name
      { layer := layer.name
        resource := name
        projectRoot := g.settings.projectRoot.toString
        dryRun := g.exporter.dryRun }
  record (.completed layer report.totalFiles.toNat)
  return { report with success := true }

/-- A run looks for the unit first if a layer needs it. -/
theorem run_eq {token : String} (htoken : resolveLayer token = .ok layer) (hname : name ≠ "") :
    g.run token name =
      if layer.parts.any Layer.needsIdentifier then
        g.findUnit name >>= fun _ => g.runParts layer name
      else g.runParts layer name := by
  unfold run findUnit runParts
  rw [htoken]
  simp only [bne_iff_ne, ne_eq, hname, not_false_eq_true, Bool.and_eq_true, true_and]
  split <;> simp only [bind_assoc]

/-- What a run does before any layer is rendered: where a layer needs the definition unit, it has to
be there. -/
def prepare (layer : Layer) (name : String) : Work PUnit :=
  if name ≠ "" ∧ layer.parts.any Layer.needsIdentifier then do
    let _ ← g.findUnit name
  else pure ()

/-- A run prepares itself and runs its parts. -/
theorem run_of_resolveLayer {token : String} (htoken : resolveLayer token = .ok layer) :
    g.run token name = g.prepare layer name >>= fun _ => g.runParts layer name := by
  by_cases hname : name = ""
  · subst hname
    rw [prepare, if_neg (by simp), pure_bind]
    unfold run runParts
    rw [htoken]
    rfl
  · rw [g.run_eq htoken hname, prepare]
    simp only [hname, ne_eq, not_false_eq_true, true_and]
    split
    · simp only [bind_assoc, pure_bind]
    · rw [pure_bind]

/-- A layer is run where it is rendered and then written. -/
theorem runLayer_eq_ok {e : Export} :
    g.runLayer layer name s = .ok e s' ↔
      ∃ output s₁ s₂, g.layerOutput layer name s = .ok output s₁ ∧
        g.exporter.write output s₁ = .ok e s₂ ∧ s' = s₂.record (.timed layer.name) := by
  constructor
  · intro h
    obtain ⟨s₂, hwork, hs'⟩ := timed_eq_ok.mp h
    obtain ⟨output, s₁, houtput, hwrite⟩ := bind_eq_ok.mp hwork
    exact ⟨output, s₁, s₂, houtput, hwrite, hs'⟩
  · rintro ⟨output, s₁, s₂, houtput, hwrite, hs'⟩
    exact timed_eq_ok.mpr ⟨s₂, bind_eq_ok.mpr ⟨output, s₁, houtput, hwrite⟩, hs'⟩

/-- The layers that a run is for succeed one after another, and their report is that of the run. -/
theorem runParts_eq_ok {report : Report} :
    g.runParts layer name s = .ok report s' ↔
      ∃ collected s₁, g.runLayers layer.parts name
          { layer := layer.name
            resource := name
            projectRoot := g.settings.projectRoot.toString
            dryRun := g.exporter.dryRun } s = .ok collected s₁ ∧
        report = { collected with success := true } ∧
        s' = (s₁.record (.timed ("run " ++ layer.name))).record
          (.completed layer collected.totalFiles.toNat) := by
  constructor
  · intro h
    obtain ⟨collected, s₂, htimed, hreport⟩ := bind_eq_ok.mp h
    obtain ⟨s₁, hlayers, rfl⟩ := timed_eq_ok.mp htimed
    obtain ⟨rfl, rfl⟩ := EStateM.Result.ok.inj hreport
    exact ⟨collected, s₁, hlayers, rfl, rfl⟩
  · rintro ⟨collected, s₁, hlayers, rfl, rfl⟩
    exact bind_eq_ok.mpr ⟨collected, _, timed_eq_ok.mpr ⟨s₁, hlayers, rfl⟩, rfl⟩

/-- A run succeeds where there is a layer to run, it is prepared, and its parts succeed. -/
theorem run_eq_ok {token : String} {report : Report} :
    g.run token name s = .ok report s' ↔
      ∃ layer s₁, resolveLayer token = .ok layer ∧ g.prepare layer name s = .ok () s₁ ∧
        g.runParts layer name s₁ = .ok report s' := by
  cases htoken : resolveLayer token with
  | error failure =>
    rw [run, htoken]
    constructor
    · intro h
      cases h
    · rintro ⟨layer, s₁, hlayer, -⟩
      cases hlayer
  | ok layer =>
    rw [g.run_of_resolveLayer htoken]
    constructor
    · intro h
      obtain ⟨_, s₁, hprepare, hparts⟩ := bind_eq_ok.mp h
      exact ⟨layer, s₁, rfl, hprepare, hparts⟩
    · rintro ⟨_, s₁, hlayer, hprepare, hparts⟩
      obtain rfl := Except.ok.inj hlayer
      exact bind_eq_ok.mpr ⟨(), s₁, hprepare, hparts⟩

/-- Runs layers one by one, each in a run of its own, up to the first that fails. -/
def runEach (layers : List Layer) (name : String) : Work (List Export) := do
  let reports ← layers.mapM fun layer => g.run layer.name name
  return reports.flatMap Report.exports

private theorem runEach_cons (layers : List Layer) :
    g.runEach (layer :: layers) name = (do
      let report ← g.run layer.name name
      let exports ← g.runEach layers name
      return report.exports ++ exports) := by
  simp [runEach, List.mapM_cons, -bind_pure_comp]

private theorem runEach_append (layers others : List Layer) :
    g.runEach (layers ++ others) name = (do
      let exports ← g.runEach layers name
      let more ← g.runEach others name
      return exports ++ more) := by
  simp [runEach, List.mapM_append, -bind_pure_comp]

/-- Layers are run one after another. -/
theorem runLayers_cons (layers : List Layer) (report : Report) :
    g.runLayers (layer :: layers) name report = (do
      let result ← g.runLayer layer name
      g.runLayers layers name (report.addExport result 0)) := by
  simp [runLayers, -bind_pure_comp]

/-- The module is rendered from the name alone. -/
theorem layerOutput_module (hname : name ≠ "") :
    g.layerOutput .module name = (do
      record (.rendering .module)
      return Layer.Wiring.moduleOutput (g.conventions.resourceName name)) := by
  simp [layerOutput, hname, -bind_pure_comp]

/-- What is done with a checked definition. -/
def renderFrom (layer : Layer) (n : ResourceName) (d : Definition) : Work LayerOutput := do
  record (.rendering layer)
  let output ← rendered d (layer.render g.conventions n d)
  if layer = .requestContract then record (.profileChosen n.pascal n.profile)
  return output

/-- A layer with an identifier is rendered from the definition. -/
theorem layerOutput_of_needsIdentifier (hlayer : layer.needsIdentifier) (hname : name ≠ "") :
    g.layerOutput layer name =
      g.definitionFor (g.conventions.resourceName name) true >>=
        g.renderFrom layer (g.conventions.resourceName name) := by
  cases layer with
  | repository | service | controller | requestContract | responseContract =>
    simp only [layerOutput, if_neg hname]
    rfl
  | _ => cases hlayer

/-- A layer that needs an identifier is rendered from the definition unit. -/
theorem exists_layerOutput_eq (hlayer : layer.needsIdentifier) (hname : name ≠ "") :
    ∃ next : Registry → Location × Path → Work LayerOutput,
      g.layerOutput layer name = (do
        let models ← g.registry
        let unit ← g.store.resolve (g.conventions.resourceName name).definitionId
        next models unit) := by
  simp only [g.layerOutput_of_needsIdentifier hlayer hname, definitionFor, DefinitionStore.load,
    bind_assoc]
  exact ⟨_, rfl⟩

variable {unit : Location × Path} {stop : Stop}

/-- Once the unit is found, the layer is rendered as if it had to be found. -/
theorem layerOutput_of_findUnit_eq_ok (hlayer : layer.needsIdentifier) (hname : name ≠ "")
    (h : g.findUnit name s = .ok unit s') :
    g.layerOutput layer name s' = g.layerOutput layer name s := by
  obtain ⟨models, s₁, hregistry, hresolve⟩ := bind_eq_ok.mp h
  obtain rfl := DefinitionStore.session_resolve hresolve
  obtain ⟨next, hnext⟩ := g.exists_layerOutput_eq hlayer hname
  rw [hnext, bind_run_of_ok hregistry,
    bind_run_of_ok (g.registry_of_some (ahead_of_registry_eq_ok hregistry).2.1)]

/-- Without the unit there is no layer. -/
theorem layerOutput_of_findUnit_eq_error (hlayer : layer.needsIdentifier) (hname : name ≠ "")
    (h : g.findUnit name s = .error stop s') : g.layerOutput layer name s = .error stop s' := by
  obtain ⟨next, hnext⟩ := g.exists_layerOutput_eq hlayer hname
  rw [hnext]
  rcases bind_eq_error.mp h with hregistry | ⟨models, s₁, hregistry, hresolve⟩
  · exact bind_run_of_error hregistry
  · rw [bind_run_of_ok hregistry, bind_run_of_error hresolve]

private theorem tree_of_findUnit_eq_error (h : g.findUnit name s = .error stop s') :
    s'.tree = s.tree :=
  tree_of_eq_error ((g.agrees_registry_same s.tree).bind fun _ =>
    (reads_same s.tree).resolve g.store _) h

private theorem runLayer_of_layerOutput_eq_error (h : g.layerOutput layer name s = .error stop s') :
    g.runLayer layer name s = .error stop (s'.record (.timed layer.name)) :=
  timed_eq_error.mpr ⟨s', bind_run_of_error h, rfl⟩

private theorem agrees_runLayer_alike (models : Registry) (layer : Layer) (name : String) :
    Agrees (Alike (some models) (some models)) (g.runLayer layer name) (g.runLayer layer name) :=
  have hedits := edits_alike (some models) (some models)
  hedits.runLayer (fun _ => hedits) (hedits.layerOutput g (g.agrees_registry_alike models) layer name)

/-! ## One layer, with and without a run of its own -/

/-- A run of a layer writes the layer and nothing else. -/
theorem agree_runLayer_runParts {R : Session → Session → Prop} (hR : Quiet R)
    (hlayer : layer.parts = [layer])
    (h : Agree R Eq (g.runLayer layer name s) (g.runLayer layer name t)) :
    Agree R (fun result report => report.exports = [result]) (g.runLayer layer name s)
      (g.runParts layer name t) := by
  unfold runParts
  rw [hlayer, runLayers_cons, bind_run]
  unfold timed
  rw [bind_run]
  generalize g.runLayer layer name s = result, g.runLayer layer name t = result' at h
  cases h with
  | error hsession => exact .error (hR.right _ hsession)
  | ok hvalue hsession =>
    subst hvalue
    exact .ok rfl (hR.right _ (hR.right _ hsession))

private theorem run_of_mem_packageLayers (hlayer : layer ∈ Layer.packageLayers)
    (hname : name ≠ "") :
    layer.parts = [layer] ∧
      g.run layer.name name =
        if layer.needsIdentifier then g.findUnit name >>= fun _ => g.runParts layer name
        else g.runParts layer name := by
  have hown : resolveLayer layer.name = .ok layer ∧ layer.parts = [layer] := by
    simp only [Layer.packageLayers, List.mem_cons, List.not_mem_nil, or_false] at hlayer
    rcases hlayer with rfl | rfl | rfl | rfl | rfl | rfl | rfl <;> exact ⟨rfl, rfl⟩
  refine ⟨hown.2, ?_⟩
  rw [g.run_eq hown.1 hname, hown.2]
  simp

/-- A run of a layer that needs an identifier first finds the unit, which the layer alone would
find as well. -/
theorem agree_runLayer_run_of_needsIdentifier (hlayer : layer ∈ Layer.packageLayers)
    (hneeds : layer.needsIdentifier) (hname : name ≠ "") (h : g.Ahead models s t) :
    Agree (Alike (some models) (some models)) (fun result report => report.exports = [result])
      (g.runLayer layer name s) (g.run layer.name name t) := by
  have hedits := edits_alike (some models) (some models)
  obtain ⟨hparts, hrun⟩ := g.run_of_mem_packageLayers hlayer hname
  obtain ⟨t₁, ht₁, halike⟩ := h.exists_registry_eq_ok
  have hfind : g.findUnit name t =
      g.store.resolve (g.conventions.resourceName name).definitionId t₁ := bind_run_of_ok ht₁
  rw [hrun, if_pos hneeds]
  have hresolve := hedits.resolve g.store (g.conventions.resourceName name).definitionId s t₁ halike
  cases hs : g.store.resolve (g.conventions.resourceName name).definitionId s with
  | error stop s' =>
    rw [hs] at hresolve
    obtain ⟨t₂, ht₂, halike'⟩ := hresolve.exists_of_error
    have hnone : g.findUnit name s = .error stop s' :=
      (bind_run_of_ok (g.registry_of_some h.2.1)).trans hs
    rw [g.runLayer_of_layerOutput_eq_error
        (g.layerOutput_of_findUnit_eq_error hneeds hname hnone),
      bind_run_of_error (hfind.trans ht₂)]
    exact .error (hedits.left _ halike')
  | ok unit s' =>
    obtain rfl := DefinitionStore.session_resolve hs
    rw [hs] at hresolve
    obtain ⟨_, t₂, ht₂, -, halike'⟩ := hresolve.exists_of_ok
    rw [bind_run_of_ok (hfind.trans ht₂)]
    exact g.agree_runLayer_runParts hedits.toQuiet hparts
      (g.agrees_runLayer_alike models layer name s' t₂ halike')

/-- **Step.** A layer of a package and a run of this layer tell the same wherever the registry
does. -/
theorem agree_runLayer_run {R : Session → Session → Prop} (hR : Edits R)
    (hregistry : Agrees R g.registry g.registry) (hlayer : layer ∈ Layer.packageLayers)
    (hname : name ≠ "") (h : R s t) :
    Agree R (fun result report => report.exports = [result]) (g.runLayer layer name s)
      (g.run layer.name name t) := by
  obtain ⟨hparts, hrun⟩ := g.run_of_mem_packageLayers hlayer hname
  have houtput := hR.layerOutput g hregistry layer name
  have hagree := hR.runLayer (fun _ => hR) houtput s t h
  rw [hrun]
  split
  · rename_i hneeds
    cases hfind : g.findUnit name t with
    | error stop t₁ =>
      have hnone := houtput s t h
      rw [g.layerOutput_of_findUnit_eq_error hneeds hname hfind] at hnone
      rw [bind_run_of_error hfind]
      cases hs : g.layerOutput layer name s with
      | ok output s₁ =>
        rw [hs] at hnone
        cases hnone
      | error stop' s₁ =>
        rw [hs] at hnone
        rw [g.runLayer_of_layerOutput_eq_error hs]
        cases hnone with
        | error hsession => exact .error (hR.left _ hsession)
    | ok unit t₁ =>
      have hsame : g.runLayer layer name t₁ = g.runLayer layer name t := by
        unfold runLayer timed
        rw [bind_run, bind_run, g.layerOutput_of_findUnit_eq_ok hneeds hname hfind]
      rw [bind_run_of_ok hfind]
      rw [← hsame] at hagree
      exact g.agree_runLayer_runParts hR.toQuiet hparts hagree
  · exact g.agree_runLayer_runParts hR.toQuiet hparts hagree

/-- Where a layer cannot be rendered, its run stops and writes nothing. -/
theorem exists_run_eq_error (hlayer : layer ∈ Layer.packageLayers) (hname : name ≠ "")
    (h : g.layerOutput layer name s = .error stop s') :
    ∃ s₁, g.run layer.name name s = .error stop s₁ ∧ s₁.tree = s.tree := by
  have htree := tree_of_eq_error
    ((reads_same s.tree).layerOutput g (g.agrees_registry_same s.tree) layer name) h
  obtain ⟨hparts, hrun⟩ := g.run_of_mem_packageLayers hlayer hname
  have hstop {t : Session} (h : g.layerOutput layer name t = .error stop s') :
      ∃ s₁, g.runParts layer name t = .error stop s₁ ∧ s₁.tree = s.tree := by
    refine ⟨_, bind_run_of_error (timed_eq_error.mpr
      ⟨s'.record (.timed layer.name), ?_, rfl⟩), htree⟩
    rw [hparts, runLayers_cons, bind_run_of_error (g.runLayer_of_layerOutput_eq_error h)]
  rw [hrun]
  split
  · rename_i hneeds
    cases hfind : g.findUnit name s with
    | error stop' s₁ =>
      have hnone := g.layerOutput_of_findUnit_eq_error hneeds hname hfind
      obtain ⟨rfl, rfl⟩ := EStateM.Result.error.inj (h.symm.trans hnone)
      exact ⟨s', bind_run_of_error hfind, htree⟩
    | ok unit s₁ =>
      rw [bind_run_of_ok hfind]
      exact hstop ((g.layerOutput_of_findUnit_eq_ok hneeds hname hfind).trans h)
  · exact hstop h

/-- The first of several layers is compared with its run, and then the others with theirs. -/
theorem agree_runLayers_cons {R R' : Session → Session → Prop} {layers : List Layer}
    {report : Report}
    (h : Agree R (fun result report => report.exports = [result]) (g.runLayer layer name s)
      (g.run layer.name name t))
    (hstop : ∀ {s t}, R s t → R' s t)
    (hrest : ∀ result report s' t', g.runLayer layer name s = .ok result s' → R s' t' →
      Agree R' (fun after exports => after.exports = report.exports ++ exports)
        (g.runLayers layers name report s') (g.runEach layers name t')) :
    Agree R' (fun after exports => after.exports = report.exports ++ exports)
      (g.runLayers (layer :: layers) name report s) (g.runEach (layer :: layers) name t) := by
  rw [runLayers_cons, runEach_cons]
  refine h.bind_of_ok hstop fun result first s' t' hs' _ hfirst hsession => ?_
  have hagree := hrest result (report.addExport result 0) s' t' hs' hsession
  rw [bind_run]
  generalize g.runLayers layers name (report.addExport result 0) s' = outcome,
    g.runEach layers name t' = outcome' at hagree
  cases hagree with
  | error hsession => exact .error hsession
  | ok hexports hsession =>
    refine .ok ?_ hsession
    rw [hexports, hfirst]
    exact List.append_assoc _ _ _

/-- **Run.** Layers that are written one after another tell the same as their runs. -/
theorem agree_runLayers_runEach {R : Session → Session → Prop} (hR : Edits R)
    (hregistry : Agrees R g.registry g.registry) {layers : List Layer}
    (hlayers : ∀ layer ∈ layers, layer ∈ Layer.packageLayers) (hname : name ≠ "") (report : Report)
    (h : R s t) :
    Agree R (fun after exports => after.exports = report.exports ++ exports)
      (g.runLayers layers name report s) (g.runEach layers name t) := by
  -- the report collects the exports, so that what was collected before is kept general
  induction layers generalizing report s t with
  | nil => exact .ok (List.append_nil _).symm h
  | cons layer layers ih =>
    obtain ⟨hlayer, hrest⟩ := List.forall_mem_cons.mp hlayers
    exact g.agree_runLayers_cons (g.agree_runLayer_run hR hregistry hlayer hname h) id
      fun _ report _ _ _ hsession => ih hrest report hsession

/-! ## The module -/

variable {result : Export}

/-- There is room in the directories of units for what comes into them with a module. -/
def HasRoomFor (g : Generator) (name : String) (tree : FileTree) : Prop :=
  ∀ (location : Location) (s s' : Session) (result : Export), s.tree = tree →
    g.runLayer .module name s = .ok result s' → tree.HasRoom (g.store.directory location) s'.tree

/-- Writing a module keeps the definition units. -/
theorem keepsUnits_of_runLayer_module (hname : name ≠ "")
    (h : g.runLayer .module name s = .ok result s') : s.tree.KeepsUnits s'.tree := by
  obtain ⟨output, s₂, s₁, houtput, hwrite, rfl⟩ := g.runLayer_eq_ok.mp h
  rw [g.layerOutput_module hname] at houtput
  obtain ⟨rfl, rfl⟩ := EStateM.Result.ok.inj houtput
  exact (Exporter.keepsUnits_of_write_eq_ok rfl (Exporter.isPlainFile_moduleOutput _) hwrite :)

private theorem agrees_runLayer_module {R : Session → Session → Prop} (hR : Edits R)
    (hname : name ≠ "") : Agrees R (g.runLayer .module name) (g.runLayer .module name) := by
  refine hR.runLayer (fun _ => hR) ?_
  rw [g.layerOutput_module hname]
  exact (hR.record _ _).bind fun _ => .pure _

private theorem isDistinct_of_runLayer_module (hname : name ≠ "") (hdistinct : s.tree.IsDistinct)
    (h : g.runLayer .module name s = .ok result s') : s'.tree.IsDistinct := by
  have hR : Edits fun s t => s.tree = t.tree ∧ s.tree.IsDistinct :=
    { left := fun _ h => h
      right := fun _ h => h
      tree_eq := fun h => h.1
      setTree := fun h hreaches => ⟨rfl, hreaches.isDistinct h.2⟩ }
  have hagree := g.agrees_runLayer_module hR hname s s ⟨rfl, hdistinct⟩
  rw [h] at hagree
  obtain ⟨-, -, -, -, -, hdistinct'⟩ := hagree.exists_of_ok
  exact hdistinct'

/-! ## Packages -/

/-- The layers of a package tell the same as their runs, of which only the second one asks for
the registry. -/
theorem agree_package (hname : name ≠ "") (hproper : t.tree.IsProper)
    (hsettled : t.tree.IsSettled g.store.aggregate)
    (hroom : g.HasRoomFor name t.tree) (h : g.Ahead models s t) (report : Report) :
    Agree SameTree
      (fun after exports => after.exports = report.exports ++ exports)
      (g.runLayers Layer.packageLayers name report s)
      (g.runEach Layer.packageLayers name t) := by
  have hedits := edits_alike (some models) t.registry
  obtain ⟨hparts, hrun⟩ := g.run_of_mem_packageLayers
    (show Layer.module ∈ Layer.packageLayers by decide) hname
  obtain ⟨htree, hs, ht⟩ := h
  have hmodule := g.agree_runLayer_runParts hedits.toQuiet hparts
    (g.agrees_runLayer_module hedits hname s t ⟨htree, hs, rfl⟩)
  rw [← show g.run Layer.module.name name = g.runParts .module name from hrun] at hmodule
  refine g.agree_runLayers_cons hmodule And.left fun result report s₁ t₁ hs₁ halike => ?_
  -- the tree has grown by a module, which leaves the registry that is still to be built as it was
  have hahead : g.Ahead models s₁ t₁ := by
    refine ⟨halike.1, halike.2.1, ?_⟩
    rw [halike.2.2, ← halike.1]
    refine ht.imp id fun ⟨hnone, hmodels⟩ => ⟨hnone, ?_⟩
    rw [← htree] at hmodels hproper hsettled hroom
    exact hmodels.keepsUnits (g.keepsUnits_of_runLayer_module hname hs₁) hproper
      (g.isDistinct_of_runLayer_module hname hproper.distinct hs₁) hsettled
      fun location => hroom location s s₁ result rfl hs₁
  -- the controller asks for it, and from then on both sessions have it
  exact (g.agree_runLayers_cons
    (g.agree_runLayer_run_of_needsIdentifier (by decide) rfl hname hahead) id
    fun _ report _ _ _ halike => g.agree_runLayers_runEach (edits_alike _ _)
      (g.agrees_registry_alike models) (by decide) hname report halike).mono And.left id

/-- The same holds of the whole run, which adds the journal and the report. -/
theorem agree_runParts_package (hname : name ≠ "") (hproper : t.tree.IsProper)
    (hsettled : t.tree.IsSettled g.store.aggregate)
    (hroom : g.HasRoomFor name t.tree) (h : g.Ahead models s t) :
    Agree SameTree (fun report exports => report.exports = exports)
      (g.runParts .package name s) (g.runEach Layer.packageLayers name t) := by
  have hagree := g.agree_package hname hproper hsettled hroom h
    { layer := Layer.package.name
      resource := name
      projectRoot := g.settings.projectRoot.toString
      dryRun := g.exporter.dryRun }
  unfold runParts
  rw [bind_run]
  unfold timed
  rw [show Layer.package.parts = Layer.packageLayers from rfl]
  generalize g.runLayers Layer.packageLayers name _ s = outcome,
    g.runEach Layer.packageLayers name t = outcome' at hagree ⊢
  cases hagree with
  | error hsession => exact .error hsession
  | ok hexports hsession => exact .ok hexports hsession

/-- A session that found a unit is ahead. -/
theorem exists_ahead_of_findUnit_eq_ok (h : g.findUnit name s = .ok unit s') :
    ∃ models, g.Ahead models s' s := by
  obtain ⟨models, s₁, hregistry, hresolve⟩ := bind_eq_ok.mp h
  obtain rfl := DefinitionStore.session_resolve hresolve
  exact ⟨models, ahead_of_registry_eq_ok hregistry⟩

/-- Preparing leaves the session, or one that is ahead of it. -/
theorem ahead_of_prepare_eq_ok {done : PUnit} (h : g.prepare layer name s = .ok done s') :
    s' = s ∨ ∃ models, g.Ahead models s' s := by
  unfold prepare at h
  split at h
  · obtain ⟨unit, s₁, hfind, hdone⟩ := bind_eq_ok.mp h
    obtain ⟨-, rfl⟩ := EStateM.Result.ok.inj hdone
    exact .inr (g.exists_ahead_of_findUnit_eq_ok hfind)
  · exact .inl (EStateM.Result.ok.inj h).2.symm

/-- **A package is its layers, run one by one.** Let every place of the tree be there once and in
a directory, let the path of the aggregate units either lead to a place or be made of ordinary
names, and let there be room in the directories of units for what comes into them with the module.
If the unit of the resource is found, then the run of a package and the runs of its layers end in
the same tree, with the same exports or for the same reason; and where a layer cannot be rendered,
this is the tree after the layers before it. If the unit is not found, or the registry cannot be
built, then the run of the package stops and leaves the tree as it was. -/
theorem run_package_agrees {token : String} (htoken : resolveLayer token = .ok .package)
    (hname : name ≠ "") (hproper : s.tree.IsProper)
    (hsettled : s.tree.IsSettled g.settings.infoSchemaPath)
    (hroom : g.HasRoomFor name s.tree) :
    (∀ unit s₁, g.findUnit name s = .ok unit s₁ →
      Agree SameTree (fun report exports => report.exports = exports)
        (g.run token name s) (g.runEach Layer.packageLayers name s) ∧
      ∀ before layer after, Layer.packageLayers = before ++ layer :: after →
        ∀ exports stop s₂ s₃, g.runEach before name s = .ok exports s₂ →
          g.layerOutput layer name s₂ = .error stop s₃ →
            ∃ s', g.run token name s = .error stop s' ∧ s'.tree = s₂.tree) ∧
    ∀ stop s₁, g.findUnit name s = .error stop s₁ →
      ∃ s', g.run token name s = .error stop s' ∧ s'.tree = s.tree := by
  have hrun := g.run_eq htoken hname
  rw [if_pos (by decide)] at hrun
  refine ⟨fun unit s₁ hfind => ?_, fun stop s₁ hfind => ?_⟩
  · obtain ⟨models, hahead⟩ := g.exists_ahead_of_findUnit_eq_ok hfind
    have hagree : Agree SameTree (fun report exports => report.exports = exports)
        (g.run token name s) (g.runEach Layer.packageLayers name s) := by
      rw [hrun, bind_run_of_ok hfind]
      exact g.agree_runParts_package hname hproper hsettled hroom hahead
    refine ⟨hagree, fun before layer after hlayers exports stop s₂ s₃ hbefore hlayer => ?_⟩
    obtain ⟨s₄, hs₄, htree⟩ := g.exists_run_eq_error (by simp [hlayers]) hname hlayer
    have hstop : g.runEach Layer.packageLayers name s = .error stop s₄ := by
      rw [hlayers, runEach_append, bind_run_of_ok hbefore, runEach_cons]
      exact bind_run_of_error (bind_run_of_error hs₄)
    rw [hstop] at hagree
    generalize g.run token name s = outcome at hagree ⊢
    cases hagree with
    | error hsession => exact ⟨_, rfl, hsession.trans htree⟩
  · exact ⟨s₁, hrun ▸ bind_run_of_error hfind, g.tree_of_findUnit_eq_error hfind⟩

end Generator

/-! ## A small project -/

/-- A tree is proper if each place stands once and each entry stands in a directory. -/
theorem FileTree.isProper_of_entries {tree : FileTree} (hdistinct : tree.IsDistinct)
    (h : ∀ e ∈ tree.entries, tree.get? e.1.dropLast = some .directory) : tree.IsProper := by
  refine ⟨hdistinct, fun place name entry hentry => ?_⟩
  have hplace := h _ (mem_entries (by simp) hentry)
  rwa [List.dropLast_concat] at hplace

namespace Generator

/-- Why work stops, if it does. -/
def stopOf {α : Type} : EStateM.Result Stop Session α → Option Stop
  | .ok _ _ => none
  | .error stop _ => some stop

/-- The session that work leaves. -/
def sessionOf {α : Type} : EStateM.Result Stop Session α → Session
  | .ok _ s => s
  | .error _ s => s

/-- A run without a stop has a value. -/
theorem exists_of_stopOf_eq_none {α : Type} {result : EStateM.Result Stop Session α}
    (h : stopOf result = none) : ∃ a, result = .ok a (sessionOf result) := by
  cases result with
  | ok a s => exact ⟨a, rfl⟩
  | error stop s => cases h

/-- A run with a stop is an error. -/
theorem eq_error_of_stopOf_eq_some {α : Type} {result : EStateM.Result Stop Session α} {stop : Stop}
    (h : stopOf result = some stop) : result = .error stop (sessionOf result) := by
  cases result with
  | ok a s => cases h
  | error stop' s => exact congrArg (EStateM.Result.error · s) (Option.some.inj h)

/-- The whole package has its own token. -/
theorem resolveLayer_package : resolveLayer "package" = .ok .package := rfl

/-- A generator for a project that is written below `gen`. -/
def orderGenerator (infoSchemaDir : Path) : Generator :=
  let settings : Settings :=
    { infoSchemaDir
      sourceDir := ⟨.current, ["gen", "src"]⟩
      modelDir := ⟨.current, ["gen", "src", "models"]⟩
      infoDir := ⟨.current, ["gen", "src", "info"]⟩
      appConfigFile := ⟨.current, ["gen", "src", "config.ts"]⟩ }
  { settings, conventions := settings.conventions [], exporter := { settings } }

/-- A project where nothing is written yet. What look like two identifiers of the ordinary model
are relations to the aggregate model, so that it has no identifier. -/
def orderProject : Session :=
  { tree := ⟨[(["prisma"], .directory), (["prisma", "schema"], .directory),
      (["prisma", "schema", "models"], .directory),
      (["prisma", "schema", "models", "order.prisma"], .file (.text
        "// Order\nmodel Order \x7b\n  a OrderInfo @id // key\n  b OrderInfo @id // key\n\x7d\n")),
      (["info"], .directory),
      (["info", "order-info.prisma"], .file (.text
        "// Info\nmodel OrderInfo \x7b\n\x7d\n"))]⟩ }

/-- The unit of the ordinary model. -/
def orderUnit : Location × Path :=
  (.primary, ⟨.current, ["prisma", "schema", "models", "order.prisma"]⟩)

/-- The path of the aggregate units. -/
def direct : Path := ⟨.current, ["info"]⟩

/-- A path to the same directory that leads through one which is made by writing a layer. -/
def detour : Path := ⟨.current, ["gen", "..", "info"]⟩

/-- A package with a layer that cannot be rendered, and one without any unit. -/
theorem run_package_agrees_order :
    (∃ unit s₁, (orderGenerator direct).findUnit "order" orderProject = .ok unit s₁) ∧
    Agree SameTree (fun report exports => report.exports = exports)
      ((orderGenerator direct).run "package" "order" orderProject)
      ((orderGenerator direct).runEach Layer.packageLayers "order" orderProject) ∧
    ∃ stop s', (orderGenerator direct).run "package" "order" {} = .error stop s' ∧
      s'.tree = {} := by
  have hfound : stopOf ((orderGenerator direct).findUnit "order" orderProject) = none := by
    decide +kernel
  obtain ⟨unit, hunit⟩ := exists_of_stopOf_eq_none hfound
  have hnone : stopOf ((orderGenerator direct).findUnit "order" {}) =
      some (.failure (.schemaDirectoryMissing ⟨.current, ["prisma", "schema", "models"]⟩)) := by
    decide +kernel
  have hagrees {s : Session} (hproper : s.tree.IsProper) :=
    (orderGenerator direct).run_package_agrees resolveLayer_package
      (show "order" ≠ "" by decide) hproper (.inr (by decide))
      fun location _ _ _ _ _ => .inl (by cases location <;> decide)
  refine ⟨⟨unit, _, hunit⟩, ?_, ?_⟩
  · have hproper : orderProject.tree.IsProper :=
      FileTree.isProper_of_entries (by decide +kernel) (by decide +kernel)
    exact ((hagrees hproper).1 _ _ hunit).1
  · have hproper : ({} : Session).tree.IsProper :=
      FileTree.isProper_of_entries (by decide) (by decide)
    obtain ⟨s', hs', htree⟩ := (hagrees hproper).2 _ _ (eq_error_of_stopOf_eq_some hnone)
    exact ⟨_, s', hs', htree⟩

/-! ## A path that leads somewhere later

Through the detour the aggregate units are found only once the module is written. The run of a
package lists the units before that, and the runs of the layers do so after it. -/

/-- Outside of the source directory, but through it, the aggregate units make a difference between
a package and its layers. -/
theorem run_package_detour :
    detour.collapse = direct ∧
    (∃ unit s₁, (orderGenerator detour).findUnit "order" orderProject = .ok unit s₁) ∧
    stopOf ((orderGenerator detour).run "package" "order" orderProject) =
      some (.failure (.badModel "order" (.identifier (.composite "Order" ["a", "b"])))) ∧
    stopOf ((orderGenerator detour).runEach Layer.packageLayers "order" orderProject) =
      some (.failure (.badModel "order" (.identifier (.missing "Order")))) := by
  have hfound : stopOf ((orderGenerator detour).findUnit "order" orderProject) = none := by
    decide +kernel
  obtain ⟨unit, hunit⟩ := exists_of_stopOf_eq_none hfound
  exact ⟨by decide, ⟨unit, _, hunit⟩, by decide +kernel, by decide +kernel⟩

end Generator

end NestLayers
