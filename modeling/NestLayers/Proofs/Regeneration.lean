import NestLayers.Proofs.AlikeSessions
import NestLayers.Proofs.DryRun
import NestLayers.Proofs.LayerTargets

/-!
# Running again

A run that succeeds leaves its layers standing: each of them is rendered from units that no layer
writes, and can be written again where it is. So the same run succeeds once more in the tree that
it left. It makes the same changes, in the same order, and they leave the tree as it is.
-/

namespace NestLayers

open NestLayers.Naming

private theorem Layer.mem_packageLayers_of_target {layer : Layer} (hlayer : layer ≠ .package)
    (h : layer.target = .resource) : layer ∈ packageLayers := by
  revert hlayer h
  cases layer <;> decide

/-- Two layers of a resource. -/
def Layer.IsBeside (first second : Layer) : Prop :=
  first ≠ second ∧ first.target = .resource ∧ second.target = .resource

/-- It is decided by the two layers. -/
instance (first second : Layer) : Decidable (first.IsBeside second) :=
  inferInstanceAs (Decidable (_ ∧ _))

/-- The layers that a layer consists of are the layers of a resource, or only one. -/
theorem Layer.pairwise_parts (layer : Layer) :
    (∀ other ∈ layer.parts, other ≠ .package) ∧ layer.parts.Pairwise IsBeside := by
  cases layer <;> decide

private theorem Layer.target_eq_of_pairwise {layers : List Layer} (h : layers.Pairwise IsBeside)
    {first second : Layer} (hfirst : first ∈ layers) (hsecond : second ∈ layers) :
    first.target = second.target := by
  induction h with
  | nil => cases hfirst
  | cons hlayer _ ih =>
    rcases List.mem_cons.mp hfirst with rfl | hmem <;>
      rcases List.mem_cons.mp hsecond with rfl | hmem'
    · rfl
    · exact (hlayer second hmem').2.1.trans (hlayer second hmem').2.2.symm
    · exact (hlayer first hmem).2.2.trans (hlayer first hmem).2.1.symm
    · exact ih hmem hmem'

/-- What exports tell of layers that are written. -/
theorem Export.map_of_forall₂ {output : Layer → LayerOutput} {base : Layer → Path}
    {layers : List Layer} {exports : List Export}
    (h : List.Forall₂ (fun layer e => Export.IsOf e (output layer) (base layer)) layers exports) :
    exports.map (fun e => (e.layer, e.target, e.files)) =
      layers.map fun layer => ((output layer).layer.name, (base layer).toString,
        (output layer).artifacts.map (Exporter.fileRecord (base layer))) := by
  induction h with
  | nil => rfl
  | cons hfirst _ ih =>
    rw [List.map_cons, List.map_cons, ih, hfirst.layer, hfirst.target,
      FileRecord.forall₂_tells_iff.mp hfirst.files]

namespace Generator

variable {g : Generator} {layer : Layer} {layers : List Layer} {name token : String}
  {n : ResourceName} {s s' s₁ t : Session} {tree : FileTree} {report report' : Report} {e : Export}
  {exports exports' : List Export}

/-! ## A layer -/

/-- A layer was rendered and written, and stands. -/
structure WroteLayer (g : Generator) (name : String) (n : ResourceName) (layer : Layer) (e : Export)
    (s s' : Session) : Prop where
  rendered : ∃ s₁, g.layerOutput layer name s = .ok (g.outputAt s name layer) s₁
  isFor : (g.outputAt s name layer).IsFor layer n
  isOf : e.IsOf (g.outputAt s name layer) (g.targetPath s.tree n layer)
  undergoes : s.tree.Undergoes
    ((g.outputAt s name layer).changesAt (g.targetPath s.tree n layer)) s'.tree
  stands : g.Stands (g.outputAt s name layer) (g.targetPath s.tree n layer) s'.tree
  alike : g.ReadsAlike s s'
  target_eq : ∀ other : Layer, other.target = layer.target →
    g.targetPath s'.tree n other = g.targetPath s.tree n other

section Layers

variable (hlive : g.exporter.dryRun = false) (htargets : g.HasDefaultTargets)
  (hn : g.conventions.resourceName name = n) (hkebab : name ≠ "" → Path.IsPlainName n.kebab)

include hn hkebab

private theorem isFor_of_layerOutput_eq_ok (hlayer : layer ≠ .package) {output : LayerOutput}
    (h : g.layerOutput layer name s = .ok output s') :
    output.IsFor layer n ∧ (layer.target = .resource → Path.IsPlainName n.kebab) := by
  subst hn
  exact ⟨isFor_layerOutput hlayer hkebab h, fun htarget =>
    hkebab (name_ne_of_layerOutput_eq_ok (Layer.mem_packageLayers_of_target hlayer htarget) h)⟩

include hlive

/-- **Step again.** A layer that stands is rendered and written again, if it was rendered in a session
that reads alike. -/
theorem exists_runLayer_again (hlayer : layer ≠ .package) (halike : g.ReadsAlike s t)
    (hrendered : ∃ s₁, g.layerOutput layer name s = .ok (g.outputAt s name layer) s₁)
    (htarget : g.targetPath t.tree n layer = g.targetPath s.tree n layer)
    (hstands : g.Stands (g.outputAt s name layer) (g.targetPath s.tree n layer) tree)
    (hproper : tree.IsProper) (hroom : tree.SameRoom t.tree) :
    ∃ e t', g.runLayer layer name t = .ok e t' ∧ tree.SameRoom t'.tree := by
  obtain ⟨s₁, hs₁⟩ := hrendered
  obtain ⟨t₁, ht₁, -⟩ := g.repeats_layerOutput layer name s t _ s₁ halike hs₁
  obtain ⟨htree, halike₁⟩ := readsAlike_of_layerOutput_eq_ok halike.after ht₁
  obtain ⟨hfor, -⟩ := isFor_of_layerOutput_eq_ok hn hkebab hlayer hs₁
  rw [← htarget, ← htree] at hstands
  rw [← htree] at hroom
  obtain ⟨e, t₂, hwrite, hroom₂⟩ :=
    hstands.exists_write_eq_ok halike₁.after hlive hfor hproper hroom
  exact ⟨e, _, g.runLayer_eq_ok.mpr ⟨_, t₁, t₂, ht₁, hwrite, rfl⟩, hroom₂⟩

include htargets

/-- **Step.** A layer is rendered and written. -/
theorem wroteLayer_of_runLayer_eq_ok (hlayer : layer ≠ .package)
    (hproject : g.IsDefaultProject s.tree) (h : g.runLayer layer name s = .ok e s') :
    g.WroteLayer name n layer e s s' := by
  obtain ⟨output, s₁, s₂, houtput, hwrite, rfl⟩ := g.runLayer_eq_ok.mp h
  obtain ⟨htree, halike⟩ := readsAlike_of_layerOutput_eq_ok hproject houtput
  obtain ⟨hfor, hplain⟩ := isFor_of_layerOutput_eq_ok hn hkebab hlayer houtput
  have hcamel := g.kebab_camel name
  rw [hn] at hcamel
  obtain ⟨hisOf, hundergoes, hstands, hproject₂, hunits, hschema⟩ :=
    stands_of_write_eq_ok halike.after htargets hlive hfor hcamel hplain hwrite
  have hlater : g.ReadsAlike s₁ s₂ := .of_follows halike.after hproject₂ hunits hschema
    (.inl (registry_of_write_eq_ok hwrite))
  rw [htree] at hisOf hundergoes hstands
  obtain rfl := outputAt_of_eq_ok houtput
  refine ⟨⟨s₁, houtput⟩, hfor, hisOf, hundergoes, hstands,
    halike.trans (hlater.congr rfl rfl rfl rfl), fun other hother => ?_⟩
  unfold targetPath
  cases htarget : other.target with
  | models | info => rfl
  | resource =>
    have hisOf := hfor.isOf (hother.symm.trans htarget)
    obtain ⟨-, -, -, -, hlater⟩ := becomes_of_write_eq_ok halike.after hlive hisOf hcamel hwrite
    rw [← htree]
    exact hlater.base_eq

end Layers

/-! ## Layers one after another -/

/-- The changes that layers make when they are written. -/
def changesOf (g : Generator) (name : String) (n : ResourceName) (layers : List Layer)
    (s : Session) : List Change :=
  layers.flatMap fun layer => (g.outputAt s name layer).changesAt (g.targetPath s.tree n layer)

/-- Layers were rendered and written one after another. Each of them is what it is rendered to at
the start, and stands at the end. -/
structure WroteLayers (g : Generator) (name : String) (n : ResourceName) (layers : List Layer)
    (exports : List Export) (s s' : Session) : Prop where
  rendered : ∀ layer ∈ layers, ∃ s₁,
    g.layerOutput layer name s = .ok (g.outputAt s name layer) s₁
  isFor : ∀ layer ∈ layers, (g.outputAt s name layer).IsFor layer n
  exports : List.Forall₂
    (fun layer e => Export.IsOf e (g.outputAt s name layer) (g.targetPath s.tree n layer))
    layers exports
  undergoes : s.tree.Undergoes (g.changesOf name n layers s) s'.tree
  stands : ∀ layer ∈ layers,
    g.Stands (g.outputAt s name layer) (g.targetPath s.tree n layer) s'.tree
  alike : g.ReadsAlike s s'
  target_eq : ∀ other : Layer, (∀ layer ∈ layers, other.target = layer.target) →
    g.targetPath s'.tree n other = g.targetPath s.tree n other

/-- A layer of a resource still stands when other layers of the resource are written. -/
theorem Stands.beside {output : LayerOutput} {base : Path} {before after : FileTree}
    {changes : List Change} (h : g.Stands output base before) (hfor : output.IsFor layer n)
    (hkebab : layer.target = .resource → Path.IsPlainName n.kebab)
    (hbefore : before.IsSound) (hafter : after.IsSound)
    (hundergoes : before.Undergoes changes after)
    (hchanges : ∀ change ∈ changes, ∃ (other : Layer) (output' : LayerOutput),
      layer.IsBeside other ∧ output'.IsFor other n ∧ g.Stands output' base after ∧
        change ∈ output'.changesAt base) : g.Stands output base after := by
  rcases List.eq_nil_or_concat changes with rfl | ⟨front, last, hconcat⟩
  · cases hundergoes
    exact h
  have htarget : output.target ≠ .models := by
    obtain ⟨-, -, ⟨-, hlayer, -⟩, -⟩ := hchanges last (by simp [hconcat])
    simp [hfor.target_eq, hlayer]
  refine h.undergoes hfor.placed htarget hbefore hafter hundergoes (fun change hchange => ?_)
    (fun change hchange place htemporary hputs => ?_) fun a ha change hchange => ?_ <;>
    obtain ⟨other, output', ⟨hne, hlayer, hother⟩, hfor', hstands, hchange⟩ :=
      hchanges change hchange
  · exact hstands.isWithin hfor'.placed change hchange
  · rw [h.way htarget place (hfor'.placed.mem_way_of_puts hchange htemporary hputs)]
    exact Option.some_ne_none _
  · rw [LayerOutput.changesAt_of_resource (hfor'.target_eq.trans hother)] at hchange
    have hwrite : .write (base / a.path) (.text a.content) ∈ output.changes base :=
      List.mem_append_right _ (List.mem_map_of_mem ha)
    exact ((hfor.isOf hlayer).not_writes_of_ne (hfor'.isOf hother) hne (hkebab hlayer) hwrite
      hchange).2

/-- One more layer is written first. -/
theorem WroteLayers.cons (hfirst : g.WroteLayer name n layer e s s₁)
    (hrest : g.WroteLayers name n layers exports s₁ s')
    (hbeside : ∀ other ∈ layers, layer.IsBeside other)
    (hkebab : layer.target = .resource → Path.IsPlainName n.kebab) :
    g.WroteLayers name n (layer :: layers) (e :: exports) s s' := by
  -- the other layers are rendered the same before and after, and go to the same directory
  have hsame : ∀ other ∈ layers, ∃ s₂, g.layerOutput other name s =
      .ok (g.outputAt s₁ name other) s₂ := by
    intro other hother
    obtain ⟨s₂, hs₂⟩ := hrest.rendered other hother
    obtain ⟨s₃, hs₃, -⟩ :=
      g.repeats_layerOutput other name s₁ s _ s₂ hfirst.alike.symm hs₂
    exact ⟨s₃, hs₃⟩
  have houtput : ∀ other ∈ layers, g.outputAt s₁ name other = g.outputAt s name other := by
    intro other hother
    obtain ⟨s₂, hs₂⟩ := hsame other hother
    exact (outputAt_of_eq_ok hs₂).symm
  have htarget : ∀ other ∈ layers,
      g.targetPath s₁.tree n other = g.targetPath s.tree n other := by
    intro other hother
    obtain ⟨-, hlayer, hresource⟩ := hbeside other hother
    exact hfirst.target_eq other (hresource.trans hlayer.symm)
  have hchanges : g.changesOf name n layers s₁ = g.changesOf name n layers s :=
    List.flatMap_congr fun other hother => by rw [houtput other hother, htarget other hother]
  have hundergoes := hrest.undergoes
  rw [hchanges] at hundergoes
  refine ⟨?_, ?_, ?_, hfirst.undergoes.append hundergoes, ?_, hfirst.alike.trans hrest.alike, ?_⟩
  · refine List.forall_mem_cons.mpr ⟨hfirst.rendered, fun other hother => ?_⟩
    rw [← houtput other hother]
    exact hsame other hother
  · refine List.forall_mem_cons.mpr ⟨hfirst.isFor, fun other hother => ?_⟩
    rw [← houtput other hother]
    exact hrest.isFor other hother
  · refine .cons hfirst.isOf (((List.forall₂_and_left _ _).mpr
      ⟨fun other hother => hother, hrest.exports⟩).imp ?_)
    rintro other e ⟨hother, he⟩
    rwa [houtput other hother, htarget other hother] at he
  · refine List.forall_mem_cons.mpr ⟨?_, fun other hother => ?_⟩
    · refine hfirst.stands.beside hfirst.isFor hkebab hfirst.alike.after.sound
        hrest.alike.after.sound hundergoes fun change hchange => ?_
      obtain ⟨other, hother, hchange⟩ := List.mem_flatMap.mp hchange
      have hbase : g.targetPath s.tree n other = g.targetPath s.tree n layer := by
        obtain ⟨-, hlayer, hresource⟩ := hbeside other hother
        rw [targetPath, targetPath, hlayer, hresource]
      have hstands := hrest.stands other hother
      rw [houtput other hother, htarget other hother, hbase] at hstands
      rw [hbase] at hchange
      exact ⟨other, _, hbeside other hother, houtput other hother ▸ hrest.isFor other hother,
        hstands, hchange⟩
    · rw [← houtput other hother, ← htarget other hother]
      exact hrest.stands other hother
  · intro other hother
    obtain ⟨hlayer, hothers⟩ := List.forall_mem_cons.mp hother
    rw [hrest.target_eq other hothers, hfirst.target_eq other hlayer]

section Layers

variable (hlive : g.exporter.dryRun = false) (htargets : g.HasDefaultTargets)
  (hn : g.conventions.resourceName name = n) (hkebab : name ≠ "" → Path.IsPlainName n.kebab)

include hlive htargets hn hkebab

/-- **Run.** Layers that are written one after another stand at the end. -/
theorem exists_wroteLayers_of_runLayers_eq_ok (hlayers : ∀ layer ∈ layers, layer ≠ .package)
    (hbeside : layers.Pairwise Layer.IsBeside) (hproject : g.IsDefaultProject s.tree)
    (h : g.runLayers layers name report s = .ok report' s') :
    ∃ exports, report'.exports = report.exports ++ exports ∧
      g.WroteLayers name n layers exports s s' := by
  induction layers generalizing s report with
  | nil =>
    obtain ⟨rfl, rfl⟩ := EStateM.Result.ok.inj h
    exact ⟨[], (List.append_nil _).symm, by simp, by simp, .nil, .nil _, by simp,
      .of_eq hproject rfl rfl, fun _ _ => rfl⟩
  | cons layer layers ih =>
    obtain ⟨hlayer, hothers⟩ := List.forall_mem_cons.mp hlayers
    obtain ⟨hfirst, hrest⟩ := List.pairwise_cons.mp hbeside
    rw [runLayers_cons] at h
    obtain ⟨e, s₁, hrun, h⟩ := bind_eq_ok.mp h
    have hwrote := wroteLayer_of_runLayer_eq_ok hlive htargets hn hkebab hlayer hproject hrun
    obtain ⟨s₂, hrendered⟩ := hwrote.rendered
    obtain ⟨-, hplain⟩ := isFor_of_layerOutput_eq_ok hn hkebab hlayer hrendered
    obtain ⟨exports, hexports, hwrotes⟩ := ih hothers hrest hwrote.alike.after h
    exact ⟨e :: exports, by simp [hexports, Report.addExport], hwrotes.cons hwrote hfirst hplain⟩

/-- **Run again.** Layers that stand are rendered and written again one after another. -/
theorem exists_runLayers_again (hlayers : ∀ layer ∈ layers, layer ≠ .package)
    (hbeside : layers.Pairwise Layer.IsBeside) (halike : g.ReadsAlike s t)
    (hrendered : ∀ layer ∈ layers, ∃ s₁,
      g.layerOutput layer name s = .ok (g.outputAt s name layer) s₁)
    (htarget : ∀ layer ∈ layers, g.targetPath t.tree n layer = g.targetPath s.tree n layer)
    (hstands : ∀ layer ∈ layers,
      g.Stands (g.outputAt s name layer) (g.targetPath s.tree n layer) tree)
    (hproper : tree.IsProper) (hroom : tree.SameRoom t.tree) (report : Report) :
    ∃ report' t', g.runLayers layers name report t = .ok report' t' := by
  induction layers generalizing t report with
  | nil => exact ⟨report, t, rfl⟩
  | cons layer layers ih =>
    obtain ⟨hlayer, hothers⟩ := List.forall_mem_cons.mp hlayers
    obtain ⟨hfirst, hrest⟩ := List.pairwise_cons.mp hbeside
    obtain ⟨hrendered₁, hrendered⟩ := List.forall_mem_cons.mp hrendered
    obtain ⟨htarget₁, htarget⟩ := List.forall_mem_cons.mp htarget
    obtain ⟨hstands₁, hstands⟩ := List.forall_mem_cons.mp hstands
    obtain ⟨e, t₁, hrun, hroom₁⟩ := exists_runLayer_again hlive hn hkebab hlayer halike
      hrendered₁ htarget₁ hstands₁ hproper hroom
    have hwrote := wroteLayer_of_runLayer_eq_ok hlive htargets hn hkebab hlayer halike.after hrun
    obtain ⟨report', t', hruns⟩ := ih hothers hrest (halike.trans hwrote.alike) hrendered
      (fun other hother => by
        obtain ⟨-, hresource, hresource'⟩ := hfirst other hother
        rw [hwrote.target_eq other (hresource'.trans hresource.symm), htarget other hother])
      hstands hroom₁ (report.addExport e 0)
    exact ⟨report', t', by rw [runLayers_cons]; exact bind_eq_ok.mpr ⟨e, t₁, hrun, hruns⟩⟩

/-- **Again.** Layers that were written are written again in the tree that they left. They leave it as
it is, and are reported with the same directories and files. -/
theorem runLayers_again (hlayers : ∀ layer ∈ layers, layer ≠ .package)
    (hbeside : layers.Pairwise Layer.IsBeside)
    (h : g.runLayers layers name report s = .ok report' s') (halike : g.ReadsAlike s t)
    (htree : t.tree = s'.tree) (hreport : report.exports = []) :
    ∃ report'' t', g.runLayers layers name report t = .ok report'' t' ∧
      (∀ place, t'.tree.get? place = s'.tree.get? place) ∧
      report''.exports.map (fun e => (e.layer, e.target, e.files)) =
        report'.exports.map fun e => (e.layer, e.target, e.files) := by
  obtain ⟨exports, hexports, hwrote⟩ := exists_wroteLayers_of_runLayers_eq_ok hlive htargets hn
    hkebab hlayers hbeside halike.before h
  have htarget : ∀ layer ∈ layers, g.targetPath t.tree n layer = g.targetPath s.tree n layer := by
    intro layer hlayer
    rw [htree]
    exact hwrote.target_eq layer fun other => Layer.target_eq_of_pairwise hbeside hlayer
  obtain ⟨report'', t', hagain⟩ := exists_runLayers_again hlive htargets hn hkebab hlayers hbeside
    halike hwrote.rendered htarget hwrote.stands hwrote.alike.after.sound.toIsProper
    (htree ▸ .refl _) report
  obtain ⟨exports', hexports', hwrote'⟩ := exists_wroteLayers_of_runLayers_eq_ok hlive htargets hn
    hkebab hlayers hbeside halike.after hagain
  -- the second time the layers are rendered the same, and go to the same directories
  have houtput : ∀ layer ∈ layers, g.outputAt t name layer = g.outputAt s name layer := by
    intro layer hlayer
    obtain ⟨s₁, hs₁⟩ := hwrote.rendered layer hlayer
    obtain ⟨t₁, ht₁, -⟩ := g.repeats_layerOutput layer name s t _ s₁ halike hs₁
    exact outputAt_of_eq_ok ht₁
  have hchanges : g.changesOf name n layers t = g.changesOf name n layers s :=
    List.flatMap_congr fun layer hlayer => by rw [houtput layer hlayer, htarget layer hlayer]
  have hundergoes := hwrote'.undergoes
  rw [hchanges, htree] at hundergoes
  refine ⟨report'', t', hagain, hwrote.undergoes.get?_again hundergoes, ?_⟩
  rw [hexports, hexports', hreport, List.nil_append, List.nil_append,
    Export.map_of_forall₂ hwrote.exports, Export.map_of_forall₂ hwrote'.exports]
  exact List.map_congr_left fun layer hlayer => by rw [houtput layer hlayer, htarget layer hlayer]

end Layers

/-! ## Runs -/

/-- A dry run is repeated with the same report. -/
theorem exists_run_dry_again (hdry : g.exporter.dryRun = true)
    (h : g.run token name s = .ok report s') (htree : t.tree = s'.tree)
    (hregistry : t.registry = s'.registry ∨ t.registry = s.registry) :
    ∃ t', g.run token name t = .ok report t' ∧ t'.tree = s'.tree := by
  have hrun {R : Session → Session → Prop} (hR : Reads R) (hbuild : Agrees R g.registry g.registry) :
      Agrees R (g.run token name) (g.run token name) := by
    have hagrees := g.agrees_run_dry_of_reads hR hbuild token name
    rwa [show g.dry = g by rw [dry, Exporter.dry, ← hdry]] at hagrees
  obtain ⟨hkept, hfollows⟩ :=
    follows_of_agrees (hrun (g.reads_trails s) (g.agrees_registry_trails s)) h
  by_cases hsame : t.registry = s.registry
  · have hagree := hrun (reads_same s.tree) (g.agrees_registry_same s.tree) s t
      ⟨rfl, htree.trans hkept, hsame.symm⟩
    rw [h] at hagree
    obtain ⟨_, t', ht', rfl, -, htree', -⟩ := hagree.exists_of_ok
    exact ⟨t', ht', htree'.trans hkept.symm⟩
  · -- the registry was built the first time, and is known the second time
    have hbuilt := hregistry.resolve_right hsame
    rcases hfollows with hfollows | ⟨hnone, models, hmodels, hregistryOf⟩
    · exact absurd (hbuilt.trans hfollows) hsame
    · have hagree := hrun (g.reads_ahead models) (g.agrees_registry_ahead models) t s
        ⟨htree.trans hkept, hbuilt.trans hmodels, .inr ⟨hnone, hregistryOf⟩⟩
      rw [h] at hagree
      obtain ⟨_, t', ht', rfl, htree', -⟩ := hagree.exists_of_ok_right
      exact ⟨t', ht', htree'⟩

/-- **Regeneration is idempotent.** Let a layer or a package be run in a project of the default
layout, for a resource that is named by a word or for no resource. If the run succeeds, then it
succeeds again in the tree that it left, in a session that has kept the registry of the first run
or starts with the one that it started with. The second run leaves the tree exactly as it was, and
reports the same target directories and the same files. -/
theorem run_again (hproject : g.IsDefaultProject s.tree) (htargets : g.HasDefaultTargets)
    (hname : name = "" ∨ IsWord name) (h : g.run token name s = .ok report s')
    (htree : t.tree = s'.tree)
    (hregistry : t.registry = s'.registry ∨ t.registry = s.registry) :
    ∃ report' t', g.run token name t = .ok report' t' ∧
      (∀ place, t'.tree.get? place = s'.tree.get? place) ∧
      report'.exports.map (fun e => (e.layer, e.target, e.files)) =
        report.exports.map fun e => (e.layer, e.target, e.files) := by
  cases hlive : g.exporter.dryRun with
  | true =>
    obtain ⟨t', ht', htree'⟩ := exists_run_dry_again hlive h htree hregistry
    exact ⟨report, t', ht', fun place => by rw [htree'], rfl⟩
  | false =>
    have hkebab : name ≠ "" → Path.IsPlainName (g.conventions.resourceName name).kebab :=
      fun hne => PackageFile.isPlainName_kebab_ofWord _ (hname.resolve_left hne)
    cases htoken : resolveLayer token with
    | error failure =>
      rw [run, htoken] at h
      cases h
    | ok layer =>
      obtain ⟨hlayers, hbeside⟩ := layer.pairwise_parts
      rw [g.run_of_resolveLayer htoken] at h ⊢
      obtain ⟨_, s₀, hprepare, hparts⟩ := bind_eq_ok.mp h
      obtain ⟨report₁, s₁, htimed, hreport⟩ := bind_eq_ok.mp hparts
      obtain ⟨s₂, hruns, rfl⟩ := timed_eq_ok.mp htimed
      obtain ⟨rfl, rfl⟩ := EStateM.Result.ok.inj hreport
      have htree' : t.tree = s₂.tree := htree
      obtain ⟨htree₀, halike₀⟩ := readsAlike_of_prepare_eq_ok hproject hprepare
      obtain ⟨exports, -, hwrote⟩ := exists_wroteLayers_of_runLayers_eq_ok hlive htargets rfl hkebab
        hlayers hbeside halike₀.after hruns
      have halike : g.ReadsAlike s t := by
        have hlater := halike₀.trans hwrote.alike
        rcases hregistry with hkept | hfresh
        · exact hlater.trans (.of_eq hlater.after htree' hkept)
        · exact .of_follows hproject (htree' ▸ hlater.after) (htree' ▸ hlater.units)
            (htree' ▸ hlater.schema) (.inl hfresh)
      obtain ⟨t₀, hprepare', halike'⟩ := g.repeats_prepare layer name s t _ s₀ halike hprepare
      obtain ⟨htree₁, -⟩ := readsAlike_of_prepare_eq_ok halike.after hprepare'
      obtain ⟨report'', t₁, hagain, hplaces, hexports⟩ := runLayers_again hlive htargets rfl hkebab
        hlayers hbeside hruns halike' (htree₁.trans htree') rfl
      exact ⟨_, _, bind_eq_ok.mpr ⟨_, t₀, hprepare', bind_eq_ok.mpr
        ⟨_, _, timed_eq_ok.mpr ⟨t₁, hagain, rfl⟩, rfl⟩⟩, hplaces, hexports⟩

/-- The package of the inner resource of the nested project, in two runs of one session. -/
theorem run_again_nested :
    ∃ report s' report' t', defaultGenerator.run "package" "dto" nestedProject = .ok report s' ∧
      defaultGenerator.run "package" "dto" s' = .ok report' t' ∧
      (∀ place, t'.tree.get? place = s'.tree.get? place) ∧
      report'.exports.map (fun e => (e.layer, e.target, e.files)) =
        report.exports.map fun e => (e.layer, e.target, e.files) := by
  obtain ⟨report, s', -, -, hrun, -⟩ := exists_runs_nestedProject
  obtain ⟨report', t', hagain, hplaces, hexports⟩ := run_again isDefaultProject_nested
    ⟨rfl, rfl⟩ (.inr isWord_nestedProject.1) hrun rfl (.inl rfl)
  exact ⟨report, s', report', t', hrun, hagain, hplaces, hexports⟩

end Generator

end NestLayers
