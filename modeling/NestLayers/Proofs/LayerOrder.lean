import NestLayers.Proofs.ResourceSeparation

/-!
# The order of the layers

The layers of a resource can be written in any order. Each of them is rendered from the definition
unit, which the others leave alone; whichever comes first makes the directory of the resource, and
the others find it; and no layer writes over a file of another one or removes it, although one of
them replaces a directory that holds the directory of another.
-/

namespace NestLayers

open NestLayers.Naming

/-- The sessions have the same tree and the same registry. -/
def Matching (s t : Session) : Prop :=
  s.tree = t.tree ∧ s.registry = t.registry

private theorem edits_matching : Edits Matching where
  left _ h := h
  right _ h := h
  tree_eq h := h.1
  setTree h _ := ⟨rfl, h.2⟩

namespace Generator

variable {g : Generator} {name : String} {n : ResourceName} {layers layers' : List Layer}
  {exports exports' : List Export} {s s₁ s₂ : Session}

private theorem agrees_registry_matching (g : Generator) :
    Agrees Matching g.registry g.registry := by
  intro s t h
  refine (g.agrees_registry_same t.tree s t ⟨h.1, rfl, h.2⟩).mono (fun hsame => ?_) id
  exact ⟨hsame.1.trans hsame.2.1.symm, hsame.2.2⟩

/-- The runs of layers write them one after another. -/
theorem exists_written_of_runEach_eq_ok (hlive : g.exporter.dryRun = false)
    (hproject : g.IsDefaultProject s.tree) (hname : IsWord name)
    (hn : g.conventions.resourceName name = n)
    (hlayers : ∀ layer ∈ layers, layer ∈ Layer.packageLayers) (hnodup : layers.Nodup)
    (h : g.runEach layers name s = .ok exports s₁) :
    ∃ written, g.Written name n layers written s s₁.tree := by
  have hagree := g.agree_runLayers_runEach edits_matching g.agrees_registry_matching hlayers
    hname.ne_empty {} (show Matching s s from ⟨rfl, rfl⟩)
  rw [h] at hagree
  obtain ⟨report, t, hreport, -, htree, -⟩ := hagree.exists_of_ok_right
  have hkebab : Path.IsPlainName n.kebab := by
    rw [← hn]
    exact PackageFile.isPlainName_kebab_ofWord _ hname
  obtain ⟨written, -, hwritten⟩ := exists_written_of_runLayers_eq_ok hlive hn hkebab hlayers hnodup
    hproject hreport
  exact ⟨written, htree ▸ hwritten⟩

/-- **The layers of a resource commute.** Let layers of a package be run one by one in two orders,
from the same session and for a resource that is named by a word. If all of them succeed in both
orders, then the two trees that are left have the same entries. -/
theorem get?_eq_of_runEach_perm (hlive : g.exporter.dryRun = false)
    (hproject : g.IsDefaultProject s.tree) (hname : IsWord name)
    (hlayers : ∀ layer ∈ layers, layer ∈ Layer.packageLayers) (hnodup : layers.Nodup)
    (hperm : layers'.Perm layers) (h : g.runEach layers name s = .ok exports s₁)
    (h' : g.runEach layers' name s = .ok exports' s₂) (place : Place) :
    s₁.tree.get? place = s₂.tree.get? place := by
  obtain ⟨written, hwritten⟩ :=
    exists_written_of_runEach_eq_ok hlive hproject hname rfl hlayers hnodup h
  obtain ⟨written', hwritten'⟩ :=
    exists_written_of_runEach_eq_ok hlive hproject hname rfl
      (fun layer hlayer => hlayers layer (hperm.mem_iff.mp hlayer)) (hperm.nodup_iff.mpr hnodup) h'
  refine hwritten.becomes.get?_congr hwritten'.becomes (fun change => ?_) place
  simp only [List.mem_flatMap, hperm.mem_iff]

private theorem stopOf_runEach_nestedProject :
    stopOf (defaultGenerator.runEach Layer.packageLayers "dto" nestedProject) = none ∧
      stopOf (defaultGenerator.runEach Layer.packageLayers.reverse "dto" nestedProject) = none := by
  decide +kernel

/-- The layers in the order of a package and in the opposite order. -/
theorem get?_eq_of_runEach_perm_reverse :
    ∃ exports s₁ exports' s₂,
      defaultGenerator.runEach Layer.packageLayers "dto" nestedProject = .ok exports s₁ ∧
      defaultGenerator.runEach Layer.packageLayers.reverse "dto" nestedProject = .ok exports' s₂ ∧
      ∀ place, s₁.tree.get? place = s₂.tree.get? place := by
  obtain ⟨exports, h⟩ := exists_of_stopOf_eq_none stopOf_runEach_nestedProject.1
  obtain ⟨exports', h'⟩ := exists_of_stopOf_eq_none stopOf_runEach_nestedProject.2
  exact ⟨exports, _, exports', _, h, h',
    get?_eq_of_runEach_perm rfl isDefaultProject_nested isWord_nestedProject.1 (fun _ => id)
      (by decide) (List.reverse_perm _) h h'⟩

end Generator

end NestLayers
