import Mathlib.Data.List.Infix
import NestLayers.Layer.Info
import NestLayers.Proofs.MarkedNames

/-!
# Routes of aggregate models

The finder of an aggregate model is named after the model without the aggregate marker. The marker
is put at the end of a name and taken out where it stands first. The two places are the same for a
base name that neither has the marker in it nor runs into it. Otherwise the marker is only moved to
the end of the name, unless what it is moved over repeats it, and models whose names differ in the
place of the first marker alone have one route.
-/

namespace NestLayers.Text

variable {piece cs front rest : List Char}

/-- The piece stands first in the text between two parts of it. -/
structure FirstBetween (piece cs front rest : List Char) : Prop where
  parts : cs = front ++ (piece ++ rest)
  first : ∀ front' rest', cs = front' ++ (piece ++ rest') → front.length ≤ front'.length

/-- A text without its first piece is what stands before the piece and what stands behind it. -/
theorem FirstBetween.eraseFirst_eq (h : FirstBetween piece cs front rest) :
    eraseFirst piece cs = front ++ rest := by
  induction front generalizing cs with
  | nil =>
    obtain ⟨rfl, -⟩ := h
    rw [List.nil_append, List.nil_append]
    cases hcs : piece ++ rest with
    | nil => rw [(List.append_eq_nil_iff.mp hcs).2]; rfl
    | cons c cs => rw [eraseFirst, ← hcs, afterStart?_append]
  | cons c front ih =>
    obtain ⟨rfl, hfirst⟩ := h
    have hstart : ¬ piece <+: c :: (front ++ (piece ++ rest)) := by
      rintro ⟨behind, hbehind⟩
      exact absurd (hfirst [] behind hbehind.symm) (by simp)
    rw [List.cons_append, eraseFirst_cons_of_not_start hstart, List.cons_append]
    refine congrArg (c :: ·) (ih ⟨rfl, fun front' rest' hparts => ?_⟩)
    have hlater := hfirst (c :: front') rest' (by rw [List.cons_append, List.cons_append, hparts])
    simpa using hlater

/-- A piece of a text stands first in one place. -/
theorem exists_firstBetween (h : piece <:+: cs) : ∃ front rest, FirstBetween piece cs front rest := by
  induction cs with
  | nil => exact ⟨[], [], by simp [List.infix_nil.mp h], fun _ _ _ => Nat.zero_le _⟩
  | cons c cs ih =>
    by_cases hstart : piece <+: c :: cs
    · obtain ⟨rest, hrest⟩ := hstart
      exact ⟨[], rest, hrest.symm, fun _ _ _ => Nat.zero_le _⟩
    · obtain ⟨front, rest, rfl, hfirst⟩ := ih ((List.infix_cons_iff.mp h).resolve_left hstart)
      refine ⟨c :: front, rest, rfl, fun front' rest' hparts => ?_⟩
      cases front' with
      | nil => exact absurd ⟨rest', hparts.symm⟩ hstart
      | cons d front' =>
        have hlater := hfirst front' rest' (List.cons.inj hparts).2
        simpa using hlater

/-- The text has the piece first behind this part of it. -/
def FirstBehind (piece cs front : List Char) : Prop :=
  ∃ rest, FirstBetween piece cs front rest

/-- The first piece of a text can be moved further back in it to make the other text, where it is
the first piece again. -/
def MovesBack (piece cs ds : List Char) : Prop :=
  ∃ front middle rest, FirstBetween piece cs front (middle ++ rest) ∧
    FirstBetween piece ds (front ++ middle) rest

/-- A text in which a piece is put at the end loses this piece exactly if what stands between the
first piece and the end goes with the piece either way. -/
theorem eraseFirst_append_eq_iff :
    eraseFirst piece (cs ++ piece) = cs ↔
      ∃ front tail, cs = front ++ tail ∧ FirstBehind piece (cs ++ piece) front ∧
        tail ++ piece = piece ++ tail := by
  constructor
  · intro herase
    obtain ⟨front, rest, hfirst⟩ := exists_firstBetween (List.suffix_append cs piece).isInfix
    rw [hfirst.eraseFirst_eq] at herase
    obtain rfl := herase
    refine ⟨front, rest, rfl, ⟨rest, hfirst⟩, ?_⟩
    have hparts := hfirst.parts
    rw [List.append_assoc] at hparts
    exact List.append_cancel_left hparts
  · rintro ⟨front, tail, rfl, ⟨rest, hfirst⟩, hcommute⟩
    have hparts := hfirst.parts
    rw [List.append_assoc, hcommute] at hparts
    have hrest : tail = rest := List.append_cancel_left (List.append_cancel_left hparts)
    rw [hfirst.eraseFirst_eq, hrest]

/-- Two texts with the piece are the same without their first pieces exactly if the first piece of
the one can be moved back in it to make the other. -/
theorem eraseFirst_eq_eraseFirst_iff {ds : List Char} (hcs : piece <:+: cs) (hds : piece <:+: ds) :
    eraseFirst piece cs = eraseFirst piece ds ↔
      MovesBack piece cs ds ∨ MovesBack piece ds cs := by
  constructor
  · intro herase
    obtain ⟨front, rest, hfirst⟩ := exists_firstBetween hcs
    obtain ⟨front', rest', hfirst'⟩ := exists_firstBetween hds
    rw [hfirst.eraseFirst_eq, hfirst'.eraseFirst_eq] at herase
    rcases List.append_eq_append_iff.mp herase with ⟨middle, rfl, rfl⟩ | ⟨middle, rfl, rfl⟩
    · exact .inl ⟨front, middle, rest', hfirst, hfirst'⟩
    · exact .inr ⟨front', middle, rest, hfirst', hfirst⟩
  · rintro (⟨front, middle, rest, hfirst, hfirst'⟩ | ⟨front, middle, rest, hfirst, hfirst'⟩)
    · rw [hfirst.eraseFirst_eq, hfirst'.eraseFirst_eq, List.append_assoc]
    · rw [hfirst.eraseFirst_eq, hfirst'.eraseFirst_eq, List.append_assoc]

/-- A piece at the end of a text stands first there if the text without its last character does not
have the piece. -/
theorem firstBetween_of_not_infix_dropLast (h : ¬ piece <:+: (cs ++ piece).dropLast) :
    FirstBetween piece (cs ++ piece) cs [] := by
  refine ⟨by rw [List.append_nil], fun front rest hparts => ?_⟩
  by_cases hrest : rest = []
  · rw [hrest, List.append_nil] at hparts
    rw [List.append_cancel_right hparts]
  · rw [hparts, List.dropLast_append_of_ne_nil (by simp [hrest]),
      List.dropLast_append_of_ne_nil hrest] at h
    exact absurd ⟨front, rest.dropLast, by rw [List.append_assoc]⟩ h

end NestLayers.Text

namespace NestLayers.Layer.Info

open NestLayers.Text NestLayers.Naming

variable {conventions : Conventions} {d e : Definition} {base other : String}

/-- The marker stands in the name at its end and nowhere before. -/
def IsMarkedAtEnd (marker name : String) : Prop :=
  ¬ marker.toList <:+: name.toList.dropLast

/-- It is decided by the characters. -/
instance (marker name : String) : Decidable (IsMarkedAtEnd marker name) :=
  inferInstanceAs (Decidable (¬ _))

private theorem toList_routeName :
    (routeName conventions d).toList =
      eraseFirst conventions.aggregateMarker.toList d.name.toList :=
  toList_withoutMarker _ _

/-- A marker that stands at the end and nowhere before is taken off the name. -/
theorem routeName_of_isMarkedAtEnd (hd : d.name = base ++ conventions.aggregateMarker)
    (h : IsMarkedAtEnd conventions.aggregateMarker d.name) : routeName conventions d = base := by
  rw [IsMarkedAtEnd, hd, String.toList_append] at h
  rw [← String.toList_inj, toList_routeName, hd, String.toList_append,
    (firstBetween_of_not_infix_dropLast h).eraseFirst_eq, List.append_nil]

/-- **The route of an aggregate model.** Let the aggregate marker stand at the end of two names. The
route of the first one is its base name exactly if what stands between its first marker and its end
goes with the marker either way, as nothing does, or the marker itself; this is so if the marker
stands at its end and nowhere before. Two names of this kind with different base names have
different routes. In general the routes are the same exactly if the first marker of one name can be
moved back in it to make the other name. -/
theorem routeName_eq_base_iff (hd : d.name = base ++ conventions.aggregateMarker)
    (he : e.name = other ++ conventions.aggregateMarker) :
    let marker := conventions.aggregateMarker
    (routeName conventions d = base ↔
      ∃ front tail, base.toList = front ++ tail ∧
        FirstBehind marker.toList d.name.toList front ∧
        tail ++ marker.toList = marker.toList ++ tail) ∧
    (IsMarkedAtEnd marker d.name → routeName conventions d = base) ∧
    (IsMarkedAtEnd marker d.name → IsMarkedAtEnd marker e.name → base ≠ other →
      routeName conventions d ≠ routeName conventions e) ∧
    (routeName conventions d = routeName conventions e ↔
      MovesBack marker.toList d.name.toList e.name.toList ∨
        MovesBack marker.toList e.name.toList d.name.toList) := by
  intro marker
  have hmarked {name start : String} (hname : name = start ++ marker) :
      marker.toList <:+: name.toList := by
    rw [hname, String.toList_append]
    exact (List.suffix_append _ _).isInfix
  refine ⟨?_, routeName_of_isMarkedAtEnd hd, fun hdEnd heEnd hne => ?_, ?_⟩
  · rw [← String.toList_inj, toList_routeName, hd, String.toList_append, eraseFirst_append_eq_iff]
  · rwa [routeName_of_isMarkedAtEnd hd hdEnd, routeName_of_isMarkedAtEnd he heEnd]
  · rw [← String.toList_inj, toList_routeName, toList_routeName,
      eraseFirst_eq_eraseFirst_iff (hmarked hd) (hmarked he)]

/-- The unit of an aggregate model. -/
def infoUnit (name : String) : String :=
  "// Model\nmodel " ++ name ++ " \x7b\n  id Int @id // key\n\x7d\n"

/-- What is read from the unit of an aggregate model. -/
def infoModel (name : String) : Definition where
  name := name
  description := "Model"
  fields :=
    [{ name := "id", type := .ofDeclared "Int" false, isArray := false, isId := true
       isRequired := true, tags := {}, description := "key", unknownDirectives := [] }]
  relations := []
  fileId := "model"
  location := .aggregate

/-- The routes of categories and regions are their base names. -/
theorem routeName_category_region :
    (infoModel "CategoryInfo").name = "Category" ++ ({} : Conventions).aggregateMarker ∧
      (infoModel "RegionInfo").name = "Region" ++ ({} : Conventions).aggregateMarker ∧
      IsMarkedAtEnd "Info" "CategoryInfo" ∧ IsMarkedAtEnd "Info" "RegionInfo" ∧
      routeName {} (infoModel "CategoryInfo") = "Category" ∧
      routeName {} (infoModel "CategoryInfo") ≠ routeName {} (infoModel "RegionInfo") := by
  have hcategory : (infoModel "CategoryInfo").name =
      "Category" ++ ({} : Conventions).aggregateMarker := by decide
  have hregion : (infoModel "RegionInfo").name =
      "Region" ++ ({} : Conventions).aggregateMarker := by decide
  have hmarked : IsMarkedAtEnd "Info" "CategoryInfo" ∧ IsMarkedAtEnd "Info" "RegionInfo" := by
    decide
  obtain ⟨-, hbase, hdifferent, -⟩ := routeName_eq_base_iff hcategory hregion
  exact ⟨hcategory, hregion, hmarked.1, hmarked.2, hbase hmarked.1,
    hdifferent hmarked.1 hmarked.2 (by decide)⟩

/-- Two aggregate models with different base names have one route. It is not the base name of the
first one, and the methods of their finders have one name. -/
theorem desks_share_a_route :
    Definition.parse {} "model" .aggregate (infoUnit "InfoDeskInfo") =
        .ok (infoModel "InfoDeskInfo") ∧
      Definition.parse {} "model" .aggregate (infoUnit "DeskInfoInfo") =
        .ok (infoModel "DeskInfoInfo") ∧
      (infoModel "InfoDeskInfo").name = "InfoDesk" ++ ({} : Conventions).aggregateMarker ∧
      (infoModel "DeskInfoInfo").name = "DeskInfo" ++ ({} : Conventions).aggregateMarker ∧
      routeName {} (infoModel "InfoDeskInfo") = "DeskInfo" ∧
      routeName {} (infoModel "DeskInfoInfo") = "DeskInfo" ∧
      (finders {} [infoModel "InfoDeskInfo", infoModel "DeskInfoInfo"]).map Finder.method =
        ["deskInfoFindMany", "deskInfoFindMany"] := by
  decide +kernel

end NestLayers.Layer.Info
