import NestLayers.Proofs.FirstFaults

/-!
# The tokens of a line cover it

Nothing of a line is lost when it is cut into tokens. The text of each token stands in the line at
the column of the token, tokens stand behind one another, and what no token takes is blank. A line
has at most one comment, which takes everything from its slashes on.

The scan goes through a line in turns. A turn ends the scan, or takes a character at least and goes
on behind it, so that a line takes no more turns than it has characters, and one for its end.
-/

namespace NestLayers.FieldLine

open NestLayers.Text

variable {column : Nat} {cs rest : List Char} {tokens : List Token}

/-! ## Coverage -/

/-- The lexeme stands in the line as it is. Of a comment only a part is kept, and the end of the
line has no text. -/
def Lexeme.IsVerbatim (l : Lexeme) : Prop :=
  (∀ text, l ≠ .comment text) ∧ l ≠ .endOfLine

/-- The token takes the character at a column. A comment takes everything from its slashes on. -/
def Token.Takes (token : Token) (k : Nat) : Prop :=
  token.column ≤ k ∧
    ((∃ text, token.lexeme = .comment text) ∨ k < token.column + token.lexeme.text.length)

/-- How tokens cover a line that starts at a column. -/
structure Covers (column : Nat) (cs : List Char) (tokens : List Token) : Prop where
  from_start : ∀ token ∈ tokens, column ≤ token.column
  increasing : tokens.Pairwise fun token next => token.column < next.column
  /-- Tokens do not overlap. -/
  apart : tokens.Pairwise fun token next =>
    token.column + token.lexeme.text.length ≤ next.column
  /-- The text of a token stands in the line at its column. -/
  verbatim : ∀ token ∈ tokens, token.lexeme.IsVerbatim →
    token.lexeme.text.toList <+: cs.drop (token.column - column)
  blank : ∀ i c, cs[i]? = some c → isBlank c = true ∨ ∃ token ∈ tokens, token.Takes (column + i)
  /-- A comment comes last but for the end of the line, and is the trimmed rest of the line behind
  its slashes. -/
  comment : ∀ token ∈ tokens, ∀ text, token.lexeme = .comment text →
    (∃ front, tokens = front ++ [token, ⟨.endOfLine, column + cs.length⟩] ∧
      ∀ other ∈ front, ∀ text, other.lexeme ≠ .comment text) ∧
    ∃ remark, cs.drop (token.column - column) = '/' :: '/' :: remark ∧
      text = String.ofList (trimChars remark)
  /-- The last token is the end of the line, and no other one is. -/
  last : ∃ front, tokens = front ++ [⟨.endOfLine, column + cs.length⟩] ∧
    ∀ token ∈ front, token.lexeme ≠ .endOfLine

/-- Trimming makes no text longer. -/
theorem length_trimChars_le (cs : List Char) : (trimChars cs).length ≤ cs.length := by
  have hfront := (List.dropWhile_suffix (l := cs) isBlank).length_le
  have hback := (List.dropWhile_suffix (l := (cs.dropWhile isBlank).reverse) isBlank).length_le
  rw [List.length_reverse] at hback
  rw [trimChars, dropTail, List.length_reverse]
  omega

/-- The text of a verbatim lexeme is what stands in the line. -/
theorem IsLexeme.isVerbatim {l : Lexeme} {body : List Char} (h : IsLexeme l body rest) :
    l.IsVerbatim := by
  constructor
  · rintro text rfl
    exact h
  · rintro rfl
    exact h

private theorem IsLexeme.text_eq {l : Lexeme} {body : List Char} (h : IsLexeme l body rest) :
    l.text = String.ofList body := by
  cases l with
  | name text => exact h.1
  | array => rw [show body = ['[', ']'] from h]; rfl
  | optional => rw [show body = ['?'] from h]; rfl
  | «attribute» text => exact h.1
  | comment text => exact h.elim
  | endOfLine => exact h.elim

/-- What stands at a column behind a part of a line stands there in the rest of the line. -/
theorem drop_append_of_column (body : List Char) {k : Nat} (h : column + body.length ≤ k) :
    (body ++ rest).drop (k - column) = rest.drop (k - (column + body.length)) := by
  rw [List.drop_append, List.drop_eq_nil_of_le (by omega), List.nil_append]
  congr 1
  omega

private theorem Covers.endOfLine (column : Nat) : Covers column [] [⟨.endOfLine, column⟩] where
  from_start := by simp
  increasing := List.pairwise_singleton _ _
  apart := List.pairwise_singleton _ _
  verbatim := by simp [Lexeme.IsVerbatim]
  blank := by simp
  comment := by simp
  last := ⟨[], rfl, by simp⟩

/-- A comment covers the rest of a line. -/
theorem Covers.remark (column : Nat) (remark : List Char) :
    Covers column ('/' :: '/' :: remark)
      [⟨.comment (String.ofList (trimChars remark)), column⟩,
        ⟨.endOfLine, column + remark.length + 2⟩] where
  from_start := by simp; omega
  increasing := by simp; omega
  apart := by
    have hle := length_trimChars_le remark
    simp [Lexeme.text]
    omega
  verbatim := by simp [Lexeme.IsVerbatim]
  blank i _ _ := .inr ⟨_, List.mem_cons_self, Nat.le_add_right column i, .inl ⟨_, rfl⟩⟩
  comment := by
    intro token htoken text htext
    rcases List.mem_cons.mp htoken with rfl | htoken
    · obtain rfl := Lexeme.comment.inj htext
      exact ⟨⟨[], rfl, by simp⟩, remark, by simp, rfl⟩
    · obtain rfl := List.mem_singleton.mp htoken
      cases htext
  last := ⟨[_], rfl, by simp⟩

/-- **Step.** A blank before a covered line is not taken by any token. -/
theorem Covers.blank_cons {c : Char} (hc : isBlank c = true) (h : Covers (column + 1) cs tokens) :
    Covers column (c :: cs) tokens := by
  have hend : column + 1 + cs.length = column + (c :: cs).length := by
    rw [List.length_cons]
    omega
  have hdrop (token : Token) (htoken : token ∈ tokens) :
      (c :: cs).drop (token.column - column) = cs.drop (token.column - (column + 1)) :=
    drop_append_of_column [c] (h.from_start token htoken)
  exact
    { from_start := fun token htoken => (Nat.le_succ column).trans (h.from_start token htoken)
      increasing := h.increasing
      apart := h.apart
      verbatim := by
        intro token htoken hverbatim
        rw [hdrop token htoken]
        exact h.verbatim token htoken hverbatim
      blank := by
        intro i d hd
        cases i with
        | zero =>
          obtain rfl : c = d := by simpa using hd
          exact .inl hc
        | succ i =>
          have hcolumn : column + (i + 1) = column + 1 + i := by omega
          rw [hcolumn]
          exact h.blank i d (by simpa using hd)
      comment := by
        intro token htoken text htext
        rw [← hend, hdrop token htoken]
        exact h.comment token htoken text htext
      last := hend ▸ h.last }

/-- **Step.** A lexeme before a covered line is taken by its token. -/
theorem Covers.lexeme {l : Lexeme} {body : List Char} (hl : IsLexeme l body cs)
    (h : Covers (column + body.length) cs tokens) :
    Covers column (body ++ cs) (⟨l, column⟩ :: tokens) := by
  have hpositive : 0 < body.length := List.length_pos_iff.mpr hl.ne_nil
  have htext : l.text.toList = body := by rw [hl.text_eq, String.toList_ofList]
  have hlength : l.text.length = body.length := by rw [← htext, String.length_toList]
  have hend : column + body.length + cs.length = column + (body ++ cs).length := by
    rw [List.length_append]
    omega
  have hdrop (token : Token) (htoken : token ∈ tokens) :
      (body ++ cs).drop (token.column - column) =
        cs.drop (token.column - (column + body.length)) :=
    drop_append_of_column _ (h.from_start token htoken)
  exact
    { from_start := by
        refine List.forall_mem_cons.mpr ⟨le_rfl, fun token htoken => ?_⟩
        exact (Nat.le_add_right column _).trans (h.from_start token htoken)
      increasing := by
        refine List.pairwise_cons.mpr ⟨fun token htoken => ?_, h.increasing⟩
        have hstart := h.from_start token htoken
        dsimp only
        omega
      apart := by
        refine List.pairwise_cons.mpr ⟨fun token htoken => ?_, h.apart⟩
        dsimp only
        rw [hlength]
        exact h.from_start token htoken
      verbatim := by
        refine List.forall_mem_cons.mpr ⟨fun _ => ?_, fun token htoken hverbatim => ?_⟩
        · rw [Nat.sub_self, List.drop_zero, htext]
          exact List.prefix_append body cs
        · rw [hdrop token htoken]
          exact h.verbatim token htoken hverbatim
      blank := by
        intro i c hc
        by_cases hi : i < body.length
        · exact .inr ⟨_, List.mem_cons_self, Nat.le_add_right column i, .inr (by
            dsimp only
            omega)⟩
        · rw [List.getElem?_append_right (by omega)] at hc
          have hcolumn : column + body.length + (i - body.length) = column + i := by omega
          have hrest := h.blank _ c hc
          rw [hcolumn] at hrest
          exact hrest.imp_right fun ⟨token, htoken, htakes⟩ =>
            ⟨token, List.mem_cons_of_mem _ htoken, htakes⟩
      comment := by
        refine List.forall_mem_cons.mpr ⟨fun text heq => ?_, fun token htoken text heq => ?_⟩
        · exact absurd heq (hl.isVerbatim.1 text)
        · obtain ⟨⟨front, hfront, hothers⟩, hremark⟩ := h.comment token htoken text heq
          rw [← hend, hdrop token htoken]
          refine ⟨⟨⟨l, column⟩ :: front, by rw [hfront]; rfl, ?_⟩, hremark⟩
          exact List.forall_mem_cons.mpr ⟨hl.isVerbatim.1, hothers⟩
      last := by
        obtain ⟨front, hfront, hothers⟩ := h.last
        rw [← hend]
        refine ⟨⟨l, column⟩ :: front, by rw [hfront]; rfl, ?_⟩
        exact List.forall_mem_cons.mpr ⟨hl.isVerbatim.2, hothers⟩ }

/-- **Run.** The tokens that a line consists of cover it. -/
theorem Lexes.covers (h : Lexes column cs tokens) : Covers column cs tokens := by
  induction h with
  | endOfLine column => exact .endOfLine column
  | blank hc _ ih => exact ih.blank_cons hc
  | comment column rest => exact .remark column rest
  | lexeme hl _ ih => exact ih.lexeme hl

/-! ## Turns of the scan -/

/-- The scan, broken off after a number of turns. -/
def scanWithin : (turns column : Nat) → List Char → Option (Except SyntaxError (List Token))
  | 0, _, _ => none
  | turns + 1, column, cs =>
    match turn column cs with
    | .last result => some result
    | .next found column rest =>
      (scanWithin turns column rest).map fun result => result.map (found ++ ·)

/-- **Run.** The scan is not broken off if it is given more turns than the line has characters. -/
theorem scanWithin_eq {turns : Nat} (h : cs.length < turns) :
    scanWithin turns column cs = some (tokensFrom column cs) := by
  induction turns generalizing column cs with
  | zero => cases h
  | succ turns ih =>
    rw [scanWithin, tokensFrom_eq_turn]
    cases hturn : turn column cs with
    | last result => rfl
    | next found column' rest =>
      have hlt := length_lt_of_turn hturn
      dsimp only
      rw [ih (by omega), Option.map_some]

/-- **Tokens cover their line.** If a line has tokens, then they cover it: their texts stand in the
line at their columns, which increase from 1 on; what stands between them is blank; a comment is
followed by nothing but the end of the line, and is what is left of the line behind its slashes;
and the end of the line comes last and once, behind the last character. Whether a line has tokens
is told within one turn more than it has characters. -/
theorem tokenize_covers_line (line : String) :
    (∀ tokens, tokenize line = .ok tokens → Covers 1 line.toList tokens) ∧
      scanWithin (line.length + 1) 1 line.toList = some (tokenize line) := by
  constructor
  · intro tokens htokens
    exact (lexes_of_tokensFrom htokens).covers
  · refine scanWithin_eq ?_
    rw [String.length_toList]
    exact Nat.lt_succ_self _

/-- A line with tokens of every kind, two of them without a blank between them, and with slashes in
a quoted string. -/
def crowdedLine : String :=
  "tags Tag[]?@map(\"//\") //  all tags "

/-- The tokens of the line. -/
def crowdedTokens : List Token :=
  [⟨.name "tags", 1⟩, ⟨.name "Tag", 6⟩, ⟨.array, 9⟩, ⟨.optional, 11⟩,
    ⟨.attribute "@map(\"//\")", 12⟩, ⟨.comment "all tags", 23⟩, ⟨.endOfLine, 36⟩]

/-- The tokens of the line cover it. -/
theorem tokenize_covers_line_crowded :
    tokenize crowdedLine = .ok crowdedTokens ∧ Covers 1 crowdedLine.toList crowdedTokens := by
  have htokens : tokenize crowdedLine = .ok crowdedTokens := by decide +kernel
  exact ⟨htokens, (tokenize_covers_line crowdedLine).1 _ htokens⟩

end NestLayers.FieldLine
