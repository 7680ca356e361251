import NestLayers.Proofs.Paths
import NestLayers.Proofs.UnitListing

/-!
# Layers that hold no definition units

Writing a layer that clears nothing, and whose files have other names than definition units have,
keeps all units of the tree. The module of a resource is such a layer: whatever the name of the
resource is, its file ends in `.module.ts`.
-/

namespace NestLayers

namespace Path

/-- A text without slashes is one name. -/
theorem splitSlashes_of_notMem {cs : List Char} (h : '/' ∉ cs) : splitSlashes cs = [cs] := by
  induction cs with
  | nil => rfl
  | cons c cs ih =>
    obtain ⟨hc, hcs⟩ := not_or.mp (mt List.mem_cons.mpr h)
    rw [splitSlashes, if_neg (Ne.symm hc), ih hcs]

/-- A text with a piece without slashes at its end has the piece at the end of its last name, and
what comes before it does not depend on the piece. -/
theorem exists_splitSlashes_append (cs : List Char) :
    ∃ names last, ∀ suffix, '/' ∉ suffix →
      splitSlashes (cs ++ suffix) = names ++ [last ++ suffix] := by
  induction cs with
  | nil => exact ⟨[], [], fun suffix hsuffix => splitSlashes_of_notMem hsuffix⟩
  | cons c cs ih =>
    obtain ⟨names, last, hsplit⟩ := ih
    by_cases hc : c = '/'
    · refine ⟨[] :: names, last, fun suffix hsuffix => ?_⟩
      rw [List.cons_append, splitSlashes, if_pos hc, hsplit suffix hsuffix, List.cons_append]
    · cases names with
      | nil =>
        refine ⟨[], c :: last, fun suffix hsuffix => ?_⟩
        rw [List.cons_append, splitSlashes, if_neg hc, hsplit suffix hsuffix]
        rfl
      | cons name names =>
        refine ⟨(c :: name) :: names, last, fun suffix hsuffix => ?_⟩
        rw [List.cons_append, splitSlashes, if_neg hc, hsplit suffix hsuffix]
        rfl

/-- The last name of a path that is given by a text has the end of the text. -/
theorem exists_parts_div (stem : String) :
    ∃ start, ∀ (base : Path) (suffix : String), '/' ∉ suffix.toList → 1 < suffix.length →
      ∃ above, (base / (stem ++ suffix)).parts = above ++ [start ++ suffix] := by
  obtain ⟨names, last, hsplit⟩ := exists_splitSlashes_append stem.toList
  refine ⟨String.ofList last, fun base suffix hslash hlength => ?_⟩
  have hkept : (String.ofList last ++ suffix != "" && String.ofList last ++ suffix != ".") =
      true := by
    have hne {text : String} (htext : text.length ≤ 1) : String.ofList last ++ suffix ≠ text := by
      rintro rfl
      rw [String.length_append] at htext
      omega
    simp only [Bool.and_eq_true, bne_iff_ne]
    exact ⟨hne (by decide), hne (by decide)⟩
  obtain ⟨above, hparts⟩ : ∃ above,
      (ofString (stem ++ suffix)).parts = above ++ [String.ofList last ++ suffix] := by
    rw [parts_ofString, String.toList_append, hsplit _ hslash, List.map_append,
      List.filter_append]
    refine ⟨_, congrArg _ ?_⟩
    simp only [List.map_singleton, String.ofList_append, String.ofList_toList, List.filter_cons,
      hkept, if_true, List.filter_nil]
  change ∃ above, (base.join (ofString (stem ++ suffix))).parts = _
  unfold join
  split
  · exact ⟨above, hparts⟩
  · exact ⟨base.parts ++ above, by rw [hparts, List.append_assoc]⟩

end Path

/-- A source file is no definition unit. -/
theorem not_isUnitName_source (start : String) : ¬ IsUnitName (start ++ ".ts") := by
  unfold IsUnitName Text.endsWith
  simp [DefinitionStore.extension, Text.afterStart?]

namespace Exporter

variable {exporter : Exporter} {output : LayerOutput} {s s' : Session}

/-- The path is that of a file of an ordinary name that is no definition unit. -/
def IsPlainFile (path : Path) : Prop :=
  ∃ above name, path.parts = above ++ [name] ∧ name ≠ ".." ∧ ¬ IsUnitName name

private theorem keepsUnits_of_writeArtifact_eq_ok {base : Path} {a : Artifact} {file : FileRecord}
    (hplain : IsPlainFile (base / a.path)) (h : writeArtifact base a s = .ok file s') :
    s.tree.KeepsUnits s'.tree := by
  obtain ⟨above, name, hparts, hdots, hunit⟩ := hplain
  have hname : (base / a.path).name = name := by simp [Path.name, hparts]
  obtain ⟨place, hlocate, hputs⟩ := puts_of_writeArtifact_eq_ok h
  obtain ⟨above, rfl⟩ := FileTree.exists_of_locate (by simp [hparts]) (hname ▸ hdots) hlocate
  rw [hname] at hputs
  exact hputs.keepsUnits hunit

/-- A layer that clears nothing and writes no definition units keeps those that are there. -/
theorem keepsUnits_of_write_eq_ok {result : Export} (hreset : output.resetDirectories = [])
    (hplain : ∀ base : Path, ∀ a ∈ output.artifacts, IsPlainFile (base / a.path))
    (h : exporter.write output s = .ok result s') : s.tree.KeepsUnits s'.tree := by
  obtain ⟨base, s₁, htarget, h⟩ := bind_eq_ok.mp h
  obtain ⟨written, s₂, hwritten, h⟩ := bind_eq_ok.mp h
  obtain ⟨-, rfl⟩ := EStateM.Result.ok.inj h
  obtain ⟨s₃, hsteps, rfl⟩ := timed_eq_ok.mp hwritten
  have hready := (growsTo_of_targetDirectory_eq_ok htarget).keepsUnits
  have hfiles : ∀ {artifacts : List Artifact} {files : List FileRecord} {s s' : Session},
      (∀ a ∈ artifacts, IsPlainFile (base / a.path)) →
      artifacts.mapM (writeArtifact base) s = .ok files s' → s.tree.KeepsUnits s'.tree := by
    intro artifacts
    induction artifacts with
    | nil =>
      intro files s s' _ h
      obtain ⟨-, rfl⟩ := EStateM.Result.ok.inj h
      exact .refl _
    | cons a artifacts ih =>
      intro files s s' hplain h
      obtain ⟨ha, hartifacts⟩ := List.forall_mem_cons.mp hplain
      obtain ⟨file, s₁, rest, hfile, hrest, -⟩ := mapM_cons_eq_ok.mp h
      exact (keepsUnits_of_writeArtifact_eq_ok ha hfile).trans (ih hartifacts hrest)
  split at hsteps
  · obtain ⟨-, rfl⟩ := EStateM.Result.ok.inj hsteps
    exact hready
  · obtain ⟨removed, s₄, hremoved, hsteps⟩ := bind_eq_ok.mp hsteps
    rw [hreset] at hremoved
    obtain ⟨-, rfl⟩ := EStateM.Result.ok.inj hremoved
    obtain ⟨files, s₅, hmapM, hsteps⟩ := bind_eq_ok.mp hsteps
    obtain ⟨-, rfl⟩ := EStateM.Result.ok.inj hsteps
    have hkeeps := hready.trans (hfiles (hplain base) hmapM)
    exact hkeeps

/-- The path of a source file is that of an ordinary file that is no definition unit. -/
theorem isPlainFile_source (base : Path) (stem : String) : IsPlainFile (base / (stem ++ ".ts")) := by
  obtain ⟨start, hstart⟩ := Path.exists_parts_div stem
  obtain ⟨above, hparts⟩ := hstart base ".ts" (by decide) (by decide)
  refine ⟨above, _, hparts, fun hdots => ?_, not_isUnitName_source start⟩
  have hlength := congrArg String.length hdots
  rw [String.length_append] at hlength
  have hshort : "..".length < ".ts".length := by decide
  omega

/-- The file of a module is no definition unit. -/
theorem isPlainFile_moduleOutput (n : ResourceName) (base : Path) :
    ∀ a ∈ (Layer.Wiring.moduleOutput n).artifacts, IsPlainFile (base / a.path) := by
  intro a ha
  obtain rfl := List.mem_singleton.mp ha
  have hpath : (Layer.Wiring.moduleSource n).artifact.path = n.kebab ++ ".module" ++ ".ts" := by
    rw [← String.toList_inj]
    simp [SourceArtifact.artifact, Layer.Wiring.moduleSource]
  rw [hpath]
  exact isPlainFile_source base _

end Exporter

end NestLayers
