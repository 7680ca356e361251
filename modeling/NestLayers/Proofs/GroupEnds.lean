import NestLayers.Proofs.Lexing

/-!
# Where a group ends

The group that opens at a parenthesis of a line is the first part of the line from there on that
the grammar of groups derives. There is at most one such part, since no group is the beginning of
another one. This file states it by the indices of the line: where the arguments of an attribute
open, the scanner goes on behind the group, or reports the column of the parenthesis if it is never
closed.
-/

namespace NestLayers.FieldLine

open NestLayers.Text

variable {cs rest : List Char} {start e : Nat}

/-- The index behind the group that opens at an index of a line, or the error that is reported if
there is none. -/
def groupEnd (cs : List Char) (start : Nat) : Except SyntaxError Nat :=
  match cutGroup 0 none (cs.drop start) with
  | some cut => .ok (start + cut.1.length)
  | none => .error ⟨.unbalancedGroup, start + 1⟩

/-- What is cut off behind an opening parenthesis is the group that the text starts with. -/
theorem cutGroup_eq_some_iff {group after : List Char} :
    cutGroup 0 none ('(' :: rest) = some (group, after) ↔
      '(' :: rest = group ++ after ∧ IsGroup group := by
  constructor
  · intro h
    exact ⟨(cutGroup_append h).symm, isGroup_of_cutGroup h⟩
  · rintro ⟨hsplit, hgroup⟩
    rw [hsplit]
    exact cutGroup_of_isGroup hgroup after

private theorem drop_of_opens (hopen : cs[start]? = some '(') :
    cs.drop start = '(' :: cs.drop (start + 1) := by
  obtain ⟨hlt, hchar⟩ := List.getElem?_eq_some_iff.mp hopen
  rw [List.drop_eq_getElem_cons hlt, hchar]

/-- The group that opens at an index ends where the grammar has a group. -/
theorem groupEnd_eq_ok_iff (hopen : cs[start]? = some '(') :
    groupEnd cs start = .ok e ↔ e ≤ cs.length ∧ IsGroup (cs.extract start e) := by
  have hdrop := drop_of_opens hopen
  have hlength : (cs.drop start).length = cs.length - start := List.length_drop
  constructor
  · intro h
    unfold groupEnd at h
    split at h
    · rename_i group hcut
      obtain ⟨group, after⟩ := group
      obtain rfl := Except.ok.inj h
      rw [hdrop] at hcut
      obtain ⟨hsplit, hgroup⟩ := cutGroup_eq_some_iff.mp hcut
      rw [← hdrop] at hsplit
      have hextract : cs.extract start (start + group.length) = group := by
        rw [List.extract_eq_take_drop, hsplit, Nat.add_sub_cancel_left, List.take_left]
      rw [hsplit, List.length_append] at hlength
      have hpositive := List.length_pos_iff.mpr hgroup.ne_nil
      exact ⟨by dsimp only; omega, by dsimp only; rwa [hextract]⟩
    · cases h
  · rintro ⟨hle, hgroup⟩
    have hpositive := List.length_pos_iff.mpr hgroup.ne_nil
    have hsize : (cs.extract start e).length = e - start := by
      rw [List.extract_eq_take_drop, List.length_take, hlength]
      omega
    have hsplit : cs.drop start = cs.extract start e ++ cs.drop e := by
      have hsum : start + (e - start) = e := by omega
      rw [List.extract_eq_take_drop, ← hsum, ← List.drop_drop, hsum, List.take_append_drop]
    have hcut : cutGroup 0 none (cs.drop start) = some (cs.extract start e, cs.drop e) := by
      rw [hsplit]
      exact cutGroup_of_isGroup hgroup _
    unfold groupEnd
    rw [hcut]
    dsimp only
    rw [hsize]
    congr 1
    omega

/-- Where no group opens, the column of the parenthesis is reported. -/
theorem groupEnd_eq_error (hopen : cs[start]? = some '(')
    (hnone : ∀ e ≤ cs.length, ¬ IsGroup (cs.extract start e)) :
    groupEnd cs start = .error ⟨.unbalancedGroup, start + 1⟩ := by
  cases h : groupEnd cs start with
  | ok e =>
    obtain ⟨hle, hgroup⟩ := (groupEnd_eq_ok_iff hopen).mp h
    exact absurd hgroup (hnone e hle)
  | error error =>
    unfold groupEnd at h
    split at h
    · cases h
    · rw [← h]

/-- A parenthesis ends the name of an attribute. -/
theorem stops_of_opens (hopen : cs[start]? = some '(') : Stops isAttributeChar (cs.drop start) := by
  rw [drop_of_opens hopen, stops_cons]
  decide

/-- **The scanner goes on where the group ends.** An attribute whose arguments open at an index of
the line is taken up to the end of the group there, and is refused with the error of the group. -/
theorem tokensFrom_groupEnd {i : Nat} {name : List Char} (hopen : cs[start]? = some '(')
    (hname : IsAttributeName name) (hattribute : cs.drop i = '@' :: name ++ cs.drop start) :
    tokensFrom (i + 1) (cs.drop i) = (do
      let e ← groupEnd cs start
      let tokens ← tokensFrom (e + 1) (cs.drop e)
      return ⟨.attribute (String.ofList (cs.extract i e)), i + 1⟩ :: tokens) := by
  have hstart : i + 1 + name.length = start := by
    have hlength := congrArg List.length hattribute
    obtain ⟨hlt, -⟩ := List.getElem?_eq_some_iff.mp hopen
    simp only [List.length_drop, List.length_append, List.length_cons] at hlength
    omega
  have hhead : (cs.drop start).head? = some '(' := by rw [drop_of_opens hopen, List.head?_cons]
  rw [hattribute, tokensFrom_eq_turn, turn_attributeName hname (stops_of_opens hopen),
    cutArguments, if_pos hhead, groupEnd, hstart]
  cases hcut : cutGroup 0 none (cs.drop start) with
  | none => rfl
  | some cut =>
    obtain ⟨group, after⟩ := cut
    have hsplit : cs.drop start = group ++ after := (cutGroup_append hcut).symm
    have hafter : cs.drop (start + group.length) = after := by
      rw [← List.drop_drop, hsplit, List.drop_left]
    have hbody : cs.extract i (start + group.length) = '@' :: name ++ group := by
      have hlength : start + group.length - i = ('@' :: name ++ group).length := by
        simp only [List.length_append, List.length_cons]
        omega
      rw [List.extract_eq_take_drop, hattribute, hsplit, ← List.append_assoc, hlength,
        List.take_left]
    dsimp only [bind, Except.bind]
    rw [← hbody, ← hafter]
    cases tokensFrom (start + group.length + 1) (cs.drop (start + group.length)) <;> rfl

/-- **Groups.** Let a parenthesis open at an index of a line. The group there ends at an index
exactly if the grammar derives the line from the parenthesis up to that index, and no other index
is like that. If there is no such index, the column of the parenthesis is reported. This is what
the scanner does with the arguments of an attribute. -/
theorem groupEnd_derives_first_group (line : String) (start : Nat)
    (hopen : line.toList[start]? = some '(') :
    (∀ e, groupEnd line.toList start = .ok e ↔
      e ≤ line.toList.length ∧ IsGroup (line.toList.extract start e)) ∧
    (∀ e e', e ≤ line.toList.length → IsGroup (line.toList.extract start e) →
      e' ≤ line.toList.length → IsGroup (line.toList.extract start e') → e = e') ∧
    ((∀ e ≤ line.toList.length, ¬ IsGroup (line.toList.extract start e)) →
      groupEnd line.toList start = .error ⟨.unbalancedGroup, start + 1⟩) ∧
    ∀ i name, IsAttributeName name → line.toList.drop i = '@' :: name ++ line.toList.drop start →
      tokensFrom (i + 1) (line.toList.drop i) = do
        let e ← groupEnd line.toList start
        let tokens ← tokensFrom (e + 1) (line.toList.drop e)
        return ⟨.attribute (String.ofList (line.toList.extract i e)), i + 1⟩ :: tokens := by
  refine ⟨fun e => groupEnd_eq_ok_iff hopen, fun e e' hle hgroup hle' hgroup' => ?_,
    groupEnd_eq_error hopen, fun i name => tokensFrom_groupEnd hopen⟩
  have hend := (groupEnd_eq_ok_iff hopen).mpr ⟨hle, hgroup⟩
  have hend' := (groupEnd_eq_ok_iff hopen).mpr ⟨hle', hgroup'⟩
  exact Except.ok.inj (hend.symm.trans hend')

/-- A line with an attribute whose arguments hold parentheses and quotes in quoted strings. -/
def quotingLine : String :=
  "memo String @default(f(\"a)\\\"\", '(\"')) // note"

/-- A line with an attribute whose closing parenthesis stands in a string that is not closed. -/
def unclosedLine : String :=
  "memo String @default(f(\"a)\\\")) // note"

/-- The group of the first line ends behind its last parenthesis, and that of the second line is
reported at its first one. -/
theorem groupEnd_derives_first_group_quoting :
    quotingLine.toList[20]? = some '(' ∧ groupEnd quotingLine.toList 20 = .ok 37 ∧
      IsGroup (quotingLine.toList.extract 20 37) ∧
      (tokensFrom 13 (quotingLine.toList.drop 12) = do
        let e ← groupEnd quotingLine.toList 20
        let tokens ← tokensFrom (e + 1) (quotingLine.toList.drop e)
        return ⟨.attribute (String.ofList (quotingLine.toList.extract 12 e)), 13⟩ :: tokens) ∧
      unclosedLine.toList[20]? = some '(' ∧
      groupEnd unclosedLine.toList 20 = .error ⟨.unbalancedGroup, 21⟩ := by
  have hopen : quotingLine.toList[20]? = some '(' := by decide +kernel
  have hopen' : unclosedLine.toList[20]? = some '(' := by decide +kernel
  have hgroup : IsGroup (quotingLine.toList.extract 20 37) := by decide +kernel
  obtain ⟨hend, -, -, hscan⟩ := groupEnd_derives_first_group quotingLine 20 hopen
  obtain ⟨-, -, herror, -⟩ := groupEnd_derives_first_group unclosedLine 20 hopen'
  exact ⟨hopen, (hend 37).mpr ⟨by decide +kernel, hgroup⟩, hgroup,
    hscan 12 "default".toList (by decide +kernel) (by decide +kernel), hopen',
    herror (by decide +kernel)⟩

end NestLayers.FieldLine
