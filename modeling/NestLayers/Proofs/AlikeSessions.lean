import NestLayers.Proofs.LayerRuns

/-!
# Rendering in sessions that read alike

Two sessions of a project read alike if they have the same units in the same directories, and the
same registry: one that they know already, or one that they would build. Whatever can be rendered
in a session is rendered the same in one that reads alike: a layer of a resource, the model classes
and the info layer as well.
-/

namespace NestLayers

variable {α β : Type} {R : Session → Session → Prop} {work : Work α} {next : α → Work β}

/-! ## Work that is repeated -/

/-- Work that is done in a session is done in a related one, with the same result. -/
def Repeats (R : Session → Session → Prop) (work : Work α) : Prop :=
  ∀ s t a s', R s t → work s = .ok a s' → ∃ t', work t = .ok a t' ∧ R s' t'

private theorem Agrees.repeats (h : Agrees R work work) : Repeats R work := by
  intro s t a s' hsession hwork
  have hagree := h s t hsession
  rw [hwork] at hagree
  obtain ⟨_, t', ht', rfl, hsession'⟩ := hagree.exists_of_ok
  exact ⟨t', ht', hsession'⟩

private theorem Repeats.bind (h : Repeats R work) (hnext : ∀ a, Repeats R (next a)) :
    Repeats R (work >>= next) := by
  intro s t b s' hsession hwork
  obtain ⟨a, s₁, hfirst, hrest⟩ := bind_eq_ok.mp hwork
  obtain ⟨t₁, hfirst', hsession₁⟩ := h s t a s₁ hsession hfirst
  obtain ⟨t', hrest', hsession'⟩ := hnext a s₁ t₁ b s' hsession₁ hrest
  exact ⟨t', bind_eq_ok.mpr ⟨a, t₁, hfirst', hrest'⟩, hsession'⟩

private theorem Quiet.isReporting_repeats (hR : Quiet R) : IsReporting (Repeats R) where
  sequential := ⟨fun a => (Agrees.pure a).repeats, Repeats.bind⟩
  fail cause := (Agrees.fail cause).repeats
  record e := (hR.record e e).repeats
  recordNote note := (hR.recordNote note).repeats

namespace Generator

variable {g : Generator} {models : Registry} {layer : Layer} {name : String}
  {output : LayerOutput} {s s' t t' u : Session}

/-! ## Sessions that read alike -/

/-- The sessions are of the same project. They have the same units in the same directories, and know
the same registry or would build it. -/
structure ReadsAlike (g : Generator) (s t : Session) : Prop where
  before : g.IsDefaultProject s.tree
  after : g.IsDefaultProject t.tree
  units : g.SameUnits s.tree t.tree
  schema : g.SameSchema s.tree t.tree
  registry : ∀ models, (∃ s₁, g.registry s = .ok models s₁) ↔ ∃ t₁, g.registry t = .ok models t₁

namespace ReadsAlike

/-- A session reads like an earlier one whose registry it follows. -/
theorem of_follows (hs : g.IsDefaultProject s.tree) (ht : g.IsDefaultProject t.tree)
    (hunits : g.SameUnits s.tree t.tree) (hschema : g.SameSchema s.tree t.tree)
    (hfollows : g.Follows s t) : g.ReadsAlike s t :=
  ⟨hs, ht, hunits, hschema, hfollows.exists_registry_iff hs ht hschema⟩

/-- What is not read is of no account. -/
theorem of_eq (h : g.IsDefaultProject s.tree) (htree : t.tree = s.tree)
    (hregistry : t.registry = s.registry) : g.ReadsAlike s t :=
  .of_follows h (htree ▸ h) (htree ▸ fun _ _ _ => rfl) (htree ▸ fun _ _ => rfl) (.inl hregistry)

/-- Reading alike is symmetric. -/
theorem symm (h : g.ReadsAlike s t) : g.ReadsAlike t s :=
  ⟨h.after, h.before, h.units.symm, fun location names => (h.schema location names).symm,
    fun models => (h.registry models).symm⟩

/-- Reading alike is transitive. -/
theorem trans (h₁ : g.ReadsAlike s t) (h₂ : g.ReadsAlike t u) : g.ReadsAlike s u :=
  ⟨h₁.before, h₂.after, h₁.units.trans h₂.units,
    fun location names => (h₂.schema location names).trans (h₁.schema location names),
    fun models => (h₁.registry models).trans (h₂.registry models)⟩

/-- Reading alike depends on the trees and the registries. -/
theorem congr (h : g.ReadsAlike s t) (hs : s'.tree = s.tree) (hs' : s'.registry = s.registry)
    (ht : t'.tree = t.tree) (ht' : t'.registry = t.registry) : g.ReadsAlike s' t' :=
  (of_eq h.before hs hs').symm.trans (h.trans (of_eq h.after ht ht'))

end ReadsAlike

private theorem quiet_readsAlike (g : Generator) : Quiet g.ReadsAlike :=
  ⟨fun _ h => h.congr rfl rfl rfl rfl, fun _ h => h.congr rfl rfl rfl rfl⟩

/-! ## Reading -/

private theorem repeats_registry (g : Generator) : Repeats g.ReadsAlike g.registry := by
  intro s t models s' h hmodels
  obtain ⟨t', hmodels'⟩ := (h.registry models).mp ⟨s', hmodels⟩
  obtain ⟨hs, hsome, -⟩ := ahead_of_registry_eq_ok hmodels
  obtain ⟨ht, hsome', -⟩ := ahead_of_registry_eq_ok hmodels'
  refine ⟨t', hmodels', hs ▸ h.before, ht ▸ h.after, ?_, ?_, fun known => ?_⟩
  · rw [hs, ht]
    exact h.units
  · rw [hs, ht]
    exact h.schema
  · rw [g.registry_of_some hsome, g.registry_of_some hsome']
    simp

/-- Work that tells the same wherever the trees and the registries are the same is repeated. -/
theorem repeats_of_agrees
    (hwork : ∀ s t, g.ReadsAlike s t →
      Agrees (Between s.tree t.tree s.registry t.registry) work work) :
    Repeats g.ReadsAlike work := by
  intro s t a s' h hs'
  obtain ⟨t', ht', hs, ht, hregistry, hregistry'⟩ :=
    (hwork s t h).repeats s t a s' ⟨rfl, rfl, rfl, rfl⟩ hs'
  exact ⟨t', ht', h.congr hs hregistry ht hregistry'⟩

private theorem repeats_load (g : Generator) (models : Registry) (id : String) :
    Repeats g.ReadsAlike (g.store.load models id) := by
  intro s t d s' h hload
  obtain ⟨t', ht', hs, ht, hregistry, hregistry'⟩ :=
    exists_load_eq_ok h.before h.after h.units hload
  exact ⟨t', ht', h.congr hs hregistry ht hregistry'⟩

private theorem repeats_resolve (g : Generator) (id : String) :
    Repeats g.ReadsAlike (g.store.resolve id) := by
  intro s t unit s' h hresolve
  obtain rfl := DefinitionStore.session_resolve hresolve
  exact ⟨t, resolve_of_sameUnits h.before h.after h.units hresolve, h⟩

private theorem repeats_loadAll (g : Generator) (models : Registry) (withAggregates : Bool) :
    Repeats g.ReadsAlike (g.store.loadAll models withAggregates) :=
  repeats_of_agrees fun _ _ h => Quiet.loadAll (agrees_files h.before h.after h.schema)
    (fun _ _ _ _ _ hsession hfiles _ =>
      agrees_readUnit_of_files h.before h.after h.schema hsession hfiles)
    (quiet_between _ _ _ _) models withAggregates

private theorem repeats_loadAggregates (g : Generator) (models : Registry) :
    Repeats g.ReadsAlike (g.store.loadAggregates models) :=
  repeats_of_agrees fun _ _ h =>
    Quiet.loadAggregates (agrees_files h.before h.after h.schema)
      (fun _ _ _ _ _ hsession hfiles _ =>
        agrees_readUnit_of_files h.before h.after h.schema hsession hfiles)
      (quiet_between _ _ _ _) models

/-! ## Rendering -/

/-- **A layer that is rendered in a session is rendered the same in one that reads alike.** -/
theorem repeats_layerOutput (g : Generator) (layer : Layer) (name : String) :
    Repeats g.ReadsAlike (g.layerOutput layer name) :=
  g.quiet_readsAlike.isReporting_repeats.layerOutput g g.repeats_registry
    (fun models => g.repeats_load models _) (fun models => g.repeats_loadAll models true)
    g.repeats_loadAggregates layer

/-- Work that only reads leaves the tree, and a session that reads as before. -/
theorem readsAlike_of_agrees {a : α} (hproject : g.IsDefaultProject s.tree)
    (hwork : Agrees (g.Trails s) work work) (h : work s = .ok a s') :
    s'.tree = s.tree ∧ g.ReadsAlike s s' := by
  obtain ⟨htree, hfollows⟩ := follows_of_agrees hwork h
  exact ⟨htree, .of_follows hproject (htree ▸ hproject) (htree ▸ fun _ _ _ => rfl)
    (htree ▸ fun _ _ => rfl) hfollows⟩

/-- After rendering, a session reads as before. -/
theorem readsAlike_of_layerOutput_eq_ok (hproject : g.IsDefaultProject s.tree)
    (h : g.layerOutput layer name s = .ok output s') :
    s'.tree = s.tree ∧ g.ReadsAlike s s' :=
  readsAlike_of_agrees hproject
    ((g.reads_trails s).layerOutput g (g.agrees_registry_trails s) layer name) h

/-! ## Before a run -/

/-- The preparation of a run tells the same in sessions that read alike. -/
theorem repeats_prepare (g : Generator) (layer : Layer) (name : String) :
    Repeats g.ReadsAlike (g.prepare layer name) := by
  unfold prepare
  split
  · exact (g.repeats_registry.bind fun _ => g.repeats_resolve _).bind fun _ =>
      (Agrees.pure _).repeats
  · exact (Agrees.pure _).repeats

/-- After its preparation, a session reads as before. -/
theorem readsAlike_of_prepare_eq_ok {done : PUnit} (hproject : g.IsDefaultProject s.tree)
    (h : g.prepare layer name s = .ok done s') : s'.tree = s.tree ∧ g.ReadsAlike s s' := by
  refine readsAlike_of_agrees hproject ?_ h
  unfold prepare
  split
  · exact ((g.agrees_registry_trails s).bind fun _ => (g.reads_trails s).resolve _ _).bind
      fun _ => .pure _
  · exact .pure _

end Generator

end NestLayers
