import NestLayers.Proofs.ErrorPlaces

/-!
# The first fault of a field line

A text can be continued to a field line if it consists of whole tokens and these are what a field
line starts with. A line is rejected by the scanner, or else by the reader of its tokens. The reader
rejects it at the first token that does not fit, so that everything before this token can be
continued. The scanner does not ask whether the tokens that it has found fit: it may reject a line
behind a token that is at fault already. This is then the token at which the part of the line before
the error, read on its own, is rejected.
-/

namespace NestLayers.FieldLine

open NestLayers.Text

variable {column k : Nat} {cs : List Char} {tokens : List Token} {e : SyntaxError}

/-- The text can be continued to a field line. -/
def CanContinue (cs : List Char) : Prop :=
  ∃ rest field, parse (String.ofList (cs ++ rest)) = .ok field

/-- The text, read as a line, is rejected before a column. -/
def IsRejectedBefore (cs : List Char) (column : Nat) : Prop :=
  ∃ e, parse (String.ofList cs) = .error e ∧ e.column < column

/-! ## Whole tokens -/

/-- The text at a column consists of whole tokens, and none of them is a comment. -/
inductive Opens : (column : Nat) → List Char → List Token → Prop
  | nil (column : Nat) : Opens column [] []
  | blank {column : Nat} {c : Char} {rest : List Char} {tokens : List Token} :
    isBlank c = true → Opens (column + 1) rest tokens → Opens column (c :: rest) tokens
  | lexeme {column : Nat} {l : Lexeme} {body rest : List Char} {tokens : List Token} :
    IsLexeme l body rest → Opens (column + body.length) rest tokens →
    Opens column (body ++ rest) (⟨l, column⟩ :: tokens)

/-- A lexeme has a character. -/
theorem IsLexeme.ne_nil {l : Lexeme} {body rest : List Char} (h : IsLexeme l body rest) :
    body ≠ [] := by
  rintro rfl
  cases l with
  | name text => exact h.2.1
  | array => cases h
  | optional => cases h
  | «attribute» text =>
    obtain ⟨-, name, arguments, hbody, -⟩ := h
    cases hbody
  | comment text => exact h
  | endOfLine => exact h

/-- A lexeme ends where it does if less follows it, or if a blank follows it. -/
theorem IsLexeme.of_head? {l : Lexeme} {body rest rest' : List Char} (h : IsLexeme l body rest)
    (hrest : ∀ c ∈ rest'.head?, c ∈ rest.head? ∨ isBlank c = true) : IsLexeme l body rest' := by
  have hstops {p : Char → Bool} (hp : ∀ c, isBlank c = true → p c = false)
      (hstop : Stops p rest) : Stops p rest' := fun c hc =>
    (hrest c hc).elim (hstop c) (hp c)
  cases l with
  | name text =>
    obtain ⟨htext, hname, hstop⟩ := h
    exact ⟨htext, hname, hstops (fun _ => isWord_of_isBlank) hstop⟩
  | array => exact h
  | optional => exact h
  | «attribute» text =>
    obtain ⟨htext, name, arguments, hbody, hname, hstop, hkind⟩ := h
    refine ⟨htext, name, arguments, hbody, hname, ?_, ?_⟩
    · by_cases hnil : arguments = []
      · rw [hnil] at hstop ⊢
        exact hstops (fun _ => isAttributeChar_of_isBlank) hstop
      · have harguments : Stops isAttributeChar arguments := by
          obtain ⟨c, arguments, rfl⟩ := List.exists_cons_of_ne_nil hnil
          simpa using hstop
        exact harguments.append fun h => absurd h hnil
    · refine hkind.imp_right fun ⟨hnil, hhead⟩ => ⟨hnil, fun hopen => ?_⟩
      exact (hrest '(' hopen).elim hhead fun hblank => absurd hblank (by decide)
  | comment text => exact h
  | endOfLine => exact h

/-- Whole tokens stay as they are before a line that starts with a blank, or at the end. -/
theorem Opens.lexes_append (h : Opens column cs tokens) {rest : List Char} {others : List Token}
    (hrest : ∀ c ∈ rest.head?, isBlank c = true)
    (hothers : Lexes (column + cs.length) rest others) :
    Lexes column (cs ++ rest) (tokens ++ others) := by
  induction h with
  | nil column => exact hothers
  | @blank column c cs tokens hc _ ih =>
    refine .blank hc (ih ?_)
    rwa [List.length_cons, ← Nat.add_assoc, Nat.add_right_comm] at hothers
  | @lexeme column l body after tokens hl _ ih =>
    have hlexeme : IsLexeme l body (after ++ rest) := hl.of_head? fun c hc => by
      cases after with
      | nil => exact .inr (hrest c hc)
      | cons d after => exact .inl hc
    rw [List.append_assoc]
    refine .lexeme hlexeme (ih ?_)
    rwa [List.length_append, ← Nat.add_assoc] at hothers

private theorem Opens.lexes (h : Opens column cs tokens) :
    Lexes column cs (tokens ++ [⟨.endOfLine, column + cs.length⟩]) := by
  have hlexes := h.lexes_append (by simp) (.endOfLine _)
  rwa [List.append_nil] at hlexes

/-- A lexeme that nothing follows. -/
theorem Opens.single {l : Lexeme} {body : List Char} (hl : IsLexeme l body []) (column : Nat) :
    Opens column body [⟨l, column⟩] := by
  have h := Opens.lexeme hl (.nil (column + body.length))
  rwa [List.append_nil] at h

/-- Whole tokens start before the end of their text. -/
theorem Opens.column_lt (h : Opens column cs tokens) :
    ∀ token ∈ tokens, token.column < column + cs.length := by
  induction h with
  | nil column => exact List.forall_mem_nil _
  | blank _ _ ih =>
    intro token htoken
    have hlt := ih token htoken
    rw [List.length_cons]
    omega
  | lexeme hl _ ih =>
    have hbody := List.length_pos_of_ne_nil hl.ne_nil
    refine List.forall_mem_cons.mpr ⟨?_, fun token htoken => ?_⟩
    · dsimp only
      rw [List.length_append]
      omega
    · have hlt := ih token htoken
      rw [List.length_append]
      omega

/-- None of them is a comment. -/
theorem Opens.ne_comment (h : Opens column cs tokens) :
    ∀ token ∈ tokens, ∀ text, token.lexeme ≠ .comment text := by
  induction h with
  | nil column => exact List.forall_mem_nil _
  | blank _ _ ih => exact ih
  | lexeme hl _ ih =>
    refine List.forall_mem_cons.mpr ⟨?_, ih⟩
    rintro text rfl
    exact hl

/-- The part of a text before a column consists of whole tokens. -/
def OpensUpTo (column : Nat) (cs : List Char) (k : Nat) (tokens : List Token) : Prop :=
  ∃ first rest, first ++ rest = cs ∧ k = column + first.length ∧ Opens column first tokens

private theorem OpensUpTo.nil (column : Nat) (cs : List Char) : OpensUpTo column cs column [] :=
  ⟨[], cs, rfl, rfl, .nil column⟩

private theorem OpensUpTo.blank {c : Char} (hc : isBlank c = true)
    (h : OpensUpTo (column + 1) cs k tokens) : OpensUpTo column (c :: cs) k tokens := by
  obtain ⟨first, rest, rfl, rfl, hfirst⟩ := h
  exact ⟨c :: first, rest, rfl, by rw [List.length_cons]; omega, .blank hc hfirst⟩

private theorem OpensUpTo.lexeme {l : Lexeme} {body : List Char} (hl : IsLexeme l body cs)
    (h : OpensUpTo (column + body.length) cs k tokens) :
    OpensUpTo column (body ++ cs) k (⟨l, column⟩ :: tokens) := by
  obtain ⟨first, rest, rfl, rfl, hfirst⟩ := h
  have hlexeme : IsLexeme l body first := hl.of_head? fun c hc => by
    cases first with
    | nil => cases hc
    | cons d first => exact .inl hc
  exact ⟨body ++ first, rest, List.append_assoc .., by rw [List.length_append]; omega,
    .lexeme hlexeme hfirst⟩

/-- The last token of a line is its end. -/
theorem Lexes.exists_concat (h : Lexes column cs tokens) :
    ∃ front k, tokens = front ++ [⟨.endOfLine, k⟩] := by
  induction h with
  | endOfLine column => exact ⟨[], column, rfl⟩
  | blank _ _ ih => exact ih
  | comment column rest => exact ⟨[_], _, rfl⟩
  | lexeme _ _ ih =>
    obtain ⟨front, k, rfl⟩ := ih
    exact ⟨_ :: front, k, rfl⟩

/-- The tokens of a line up to one of them stand before its column. -/
theorem Lexes.opensUpTo {before after : List Token} {token : Token} (h : Lexes column cs tokens)
    (htokens : tokens = before ++ token :: after)
    (hbefore : ∀ other ∈ before, ∀ text, other.lexeme ≠ .comment text) :
    OpensUpTo column cs token.column before := by
  induction h generalizing before with
  | endOfLine column =>
    cases before with
    | nil =>
      obtain ⟨rfl, -⟩ := List.cons.inj htokens
      exact .nil column []
    | cons other before => simp at htokens
  | blank hc _ ih => exact .blank hc (ih htokens hbefore)
  | comment column rest =>
    cases before with
    | nil =>
      obtain ⟨rfl, -⟩ := List.cons.inj htokens
      exact .nil column _
    | cons other before =>
      obtain ⟨rfl, -⟩ := List.cons.inj htokens
      exact absurd rfl (hbefore _ List.mem_cons_self _)
  | lexeme hl _ ih =>
    cases before with
    | nil =>
      obtain ⟨rfl, -⟩ := List.cons.inj htokens
      exact .nil _ _
    | cons other before =>
      obtain ⟨rfl, hrest⟩ := List.cons.inj htokens
      exact .lexeme hl (ih hrest (List.forall_mem_cons.mp hbefore).2)

/-- **The scanner fails behind whole tokens.** -/
theorem exists_opensUpTo_of_tokensFrom_eq_error (h : tokensFrom column cs = .error e) :
    ∃ tokens, OpensUpTo column cs e.column tokens := by
  refine tokensFrom_induction
    (motive := fun column cs result => result = .error e →
      ∃ tokens, OpensUpTo column cs e.column tokens)
    ?_ ?_ ?_ column cs h
  · rintro column cs _ hturn rfl
    obtain ⟨front, rest, rfl, hcolumn, rfl | ⟨l, hl⟩⟩ := turn_eq_error hturn
    · rw [hcolumn]
      exact ⟨[], .nil column _⟩
    · exact ⟨_, front, rest, rfl, hcolumn, .single hl column⟩
  · intro column c rest result hc ih herror
    obtain ⟨tokens, htokens⟩ := ih herror
    exact ⟨tokens, .blank hc htokens⟩
  · intro column l body rest result hl ih herror
    cases result with
    | ok found => cases herror
    | error other =>
      obtain ⟨tokens, htokens⟩ := ih herror
      exact ⟨_, .lexeme hl htokens⟩

/-! ## Tokens of a longer text -/

/-- A lexeme without its text. -/
def Lexeme.kind : Lexeme → Lexeme
  | .name _ => .name ""
  | .attribute _ => .attribute ""
  | .comment _ => .comment ""
  | lexeme => lexeme

private theorem Lexeme.kind_eq_name {l : Lexeme} : l.kind = .name "" ↔ ∃ text, l = .name text := by
  cases l <;> simp [kind]

private theorem Lexeme.kind_eq_array {l : Lexeme} : l.kind = .array ↔ l = .array := by
  cases l <;> simp [kind]

private theorem Lexeme.kind_eq_optional {l : Lexeme} : l.kind = .optional ↔ l = .optional := by
  cases l <;> simp [kind]

private theorem Lexeme.kind_eq_attribute {l : Lexeme} :
    l.kind = .attribute "" ↔ ∃ text, l = .attribute text := by
  cases l <;> simp [kind]

private theorem Lexeme.kind_eq_comment {l : Lexeme} :
    l.kind = .comment "" ↔ ∃ text, l = .comment text := by
  cases l <;> simp [kind]

/-- The kind of the token that starts with a character, other than a blank. -/
def kindAt (c : Char) : Lexeme :=
  if isNameStart c then .name ""
  else if c = '[' then .array
  else if c = '?' then .optional
  else if c = '@' then .attribute ""
  else .comment ""

/-- The first character of a lexeme tells its kind. -/
theorem IsLexeme.exists_cons {l : Lexeme} {body rest : List Char} (h : IsLexeme l body rest) :
    ∃ c tail, body = c :: tail ∧ isBlank c = false ∧ kindAt c = l.kind := by
  cases l with
  | name text =>
    obtain ⟨-, hname, -⟩ := h
    cases body with
    | nil => exact hname.elim
    | cons c tail =>
      have hc : isNameStart c = true := hname.1
      exact ⟨c, tail, rfl, isBlank_of_isNameStart hc, by simp [kindAt, hc, Lexeme.kind]⟩
  | array => exact ⟨'[', [']'], h, by decide, by decide⟩
  | optional => exact ⟨'?', [], h, by decide, by decide⟩
  | «attribute» text =>
    obtain ⟨-, name, arguments, rfl, -⟩ := h
    exact ⟨'@', name ++ arguments, rfl, by decide, rfl⟩
  | comment text => exact h.elim
  | endOfLine => exact h.elim

/-- The first token of a line is of the kind that its first character tells. -/
theorem Lexes.exists_kind {c : Char} {tail : List Char} (h : Lexes column (c :: tail) tokens)
    (hc : isBlank c = false) :
    ∃ token others, tokens = token :: others ∧ token.lexeme.kind = kindAt c := by
  generalize hcs : c :: tail = cs at h
  cases h with
  | endOfLine => cases hcs
  | blank hblank _ =>
    obtain ⟨rfl, -⟩ := List.cons.inj hcs
    rw [hc] at hblank
    cases hblank
  | comment =>
    obtain ⟨rfl, -⟩ := List.cons.inj hcs
    exact ⟨_, _, rfl, rfl⟩
  | lexeme hl _ =>
    obtain ⟨d, rest, rfl, -, hkind⟩ := hl.exists_cons
    obtain ⟨rfl, -⟩ := List.cons.inj hcs
    exact ⟨_, _, rfl, hkind.symm⟩

/-- No token is found in an empty text. -/
theorem Opens.eq_nil (h : Opens column [] tokens) : tokens = [] := by
  generalize hcs : ([] : List Char) = cs at h
  cases h with
  | nil => rfl
  | blank => cases hcs
  | lexeme hl _ => exact absurd (List.append_eq_nil_iff.mp hcs.symm).1 hl.ne_nil

/-- **Whole tokens stay of their kind in a longer line**, where the last one may be longer. -/
theorem Opens.exists_kinds {rest : List Char} {longer : List Token} (h : Opens column cs tokens)
    (hlonger : tokensFrom column (cs ++ rest) = .ok longer) :
    ∃ first others, longer = first ++ others ∧
      first.map (·.lexeme.kind) = tokens.map (·.lexeme.kind) := by
  induction h generalizing longer with
  | nil column => exact ⟨[], longer, rfl, rfl⟩
  | blank hc _ ih =>
    rw [List.cons_append, tokensFrom_eq_turn, turn, if_pos hc] at hlonger
    obtain ⟨later, hlater, rfl⟩ := except_map_eq_ok.mp hlonger
    exact ih hlater
  | @lexeme column l body after tokens hl hafter ih =>
    by_cases hnil : after = []
    · -- the last token may go on in the longer line
      subst hnil
      obtain ⟨c, tail, rfl, hc, hkind⟩ := hl.exists_cons
      obtain ⟨token, others, rfl, htoken⟩ := (lexes_of_tokensFrom hlonger).exists_kind hc
      exact ⟨[token], others, rfl, by simp [hafter.eq_nil, htoken, hkind]⟩
    · have hlexeme : IsLexeme l body (after ++ rest) := hl.of_head? fun c hc => by
        obtain ⟨d, after, rfl⟩ := List.exists_cons_of_ne_nil hnil
        exact .inl hc
      rw [List.append_assoc, tokensFrom_eq_turn, turn_lexeme hlexeme] at hlonger
      obtain ⟨later, hlater, rfl⟩ := except_map_eq_ok.mp hlonger
      obtain ⟨first, others, rfl, hkinds⟩ := ih hlater
      exact ⟨⟨l, column⟩ :: first, others, rfl, by simp [hkinds]⟩

/-! ## What a field line starts with -/

/-- What a field line can start with before its comment: nothing, a name, or a name and a type with
some of the parts that may follow. -/
inductive Begins : List Lexeme → Prop
  | nil : Begins []
  | name (text : String) : Begins [.name text]
  | parts (name typeName : String) (isArray isOptional : Bool) (attributes : List String) :
    Begins (.name name :: .name typeName :: ((if isArray then [.array] else []) ++
      ((if isOptional then [.optional] else []) ++ attributes.map .attribute)))

variable {lexemes : List Lexeme}

/-- A field line goes on after them: none of them is a comment or the end of the line. -/
theorem Begins.goesOn (h : Begins lexemes) :
    ∀ l ∈ lexemes, (∀ text, l ≠ .comment text) ∧ l ≠ .endOfLine := by
  cases h with
  | nil => simp
  | name => simp
  | parts name typeName isArray isOptional attributes =>
    cases isArray <;> cases isOptional <;> simp

/-- A mark, or none, is told by its kind. -/
theorem eq_mark_of_kinds {mark : Lexeme} {present : Bool} (hmark : ∀ {l : Lexeme},
      l.kind = mark.kind → l = mark)
    (h : lexemes.map Lexeme.kind = (if present then [mark] else []).map Lexeme.kind) :
    lexemes = if present then [mark] else [] := by
  cases present with
  | false => simpa using h
  | true =>
    obtain ⟨l, rest, rfl, hl, hrest⟩ := List.map_eq_cons_iff.mp h
    obtain rfl := List.map_eq_nil_iff.mp hrest
    rw [hmark hl, if_pos rfl]

/-- Attributes are told by their kind. -/
theorem exists_attributes_of_kinds {attributes : List String}
    (h : lexemes.map Lexeme.kind = (attributes.map Lexeme.attribute).map Lexeme.kind) :
    ∃ texts : List String, lexemes = texts.map .attribute := by
  refine ⟨lexemes.map Lexeme.text, ?_⟩
  rw [List.map_map]
  refine (List.map_id lexemes).symm.trans (List.map_congr_left fun l hl => ?_)
  have hkind : l.kind ∈ (attributes.map Lexeme.attribute).map Lexeme.kind :=
    h ▸ List.mem_map_of_mem hl
  rw [List.map_map] at hkind
  obtain ⟨text, -, htext⟩ := List.mem_map.mp hkind
  obtain ⟨text, rfl⟩ := Lexeme.kind_eq_attribute.mp htext.symm
  rfl

/-- Only the kinds of lexemes matter. -/
theorem Begins.of_kinds {others : List Lexeme} (h : Begins others)
    (hkinds : lexemes.map Lexeme.kind = others.map Lexeme.kind) : Begins lexemes := by
  cases h with
  | nil =>
    obtain rfl := List.map_eq_nil_iff.mp hkinds
    exact .nil
  | name text =>
    obtain ⟨l, rest, rfl, hl, hrest⟩ := List.map_eq_cons_iff.mp hkinds
    obtain rfl := List.map_eq_nil_iff.mp hrest
    obtain ⟨text, rfl⟩ := Lexeme.kind_eq_name.mp hl
    exact .name text
  | parts name typeName isArray isOptional attributes =>
    obtain ⟨l, afterName, rfl, hl, hafterName⟩ := List.map_eq_cons_iff.mp hkinds
    obtain ⟨l', afterType, rfl, hl', hafterType⟩ := List.map_eq_cons_iff.mp hafterName
    obtain ⟨name, rfl⟩ := Lexeme.kind_eq_name.mp hl
    obtain ⟨typeName, rfl⟩ := Lexeme.kind_eq_name.mp hl'
    rw [List.map_append] at hafterType
    obtain ⟨array, afterArray, rfl, harray, hafterArray⟩ := List.map_eq_append_iff.mp hafterType
    rw [List.map_append] at hafterArray
    obtain ⟨optional, rest, rfl, hoptional, hrest⟩ := List.map_eq_append_iff.mp hafterArray
    obtain ⟨texts, rfl⟩ := exists_attributes_of_kinds hrest
    rw [eq_mark_of_kinds Lexeme.kind_eq_array.mp harray,
      eq_mark_of_kinds Lexeme.kind_eq_optional.mp hoptional]
    exact .parts name typeName isArray isOptional texts

/-- What starts before the end of a mark, or of what follows where there is none, has the mark or
starts what follows. -/
theorem exists_of_prefix_mark {mark : Lexeme} {present : Bool} {others : List Lexeme}
    (h : lexemes <+: (if present then [mark] else []) ++ others) :
    ∃ (found : Bool) (rest : List Lexeme), lexemes = (if found then [mark] else []) ++ rest ∧
      rest <+: others := by
  cases present with
  | false => exact ⟨false, lexemes, rfl, h⟩
  | true =>
    cases lexemes with
    | nil => exact ⟨false, [], rfl, List.nil_prefix⟩
    | cons l rest =>
      obtain ⟨rfl, hrest⟩ := List.cons_prefix_cons.mp h
      exact ⟨true, rest, rfl, hrest⟩

private theorem exists_of_prefix_attributes {attributes : List String} {text : String}
    {others : List Lexeme} (h : lexemes <+: attributes.map .attribute ++ .comment text :: others)
    (hlexemes : ∀ l ∈ lexemes, ∀ text, l ≠ .comment text) :
    ∃ texts : List String, lexemes = texts.map .attribute := by
  induction attributes generalizing lexemes with
  | nil =>
    cases lexemes with
    | nil => exact ⟨[], rfl⟩
    | cons l rest =>
      obtain ⟨rfl, -⟩ := List.cons_prefix_cons.mp h
      exact absurd rfl (hlexemes _ List.mem_cons_self text)
  | cons first attributes ih =>
    cases lexemes with
    | nil => exact ⟨[], rfl⟩
    | cons l rest =>
      obtain ⟨rfl, hrest⟩ := List.cons_prefix_cons.mp h
      obtain ⟨texts, rfl⟩ := ih hrest (List.forall_mem_cons.mp hlexemes).2
      exact ⟨first :: texts, rfl⟩

/-- The lexemes of a field line before its comment are what a field line starts with. -/
theorem begins_of_isPrefix {field : FieldLine} {others : List Lexeme}
    (hstart : lexemes <+: field.lexemes ++ others)
    (hlexemes : ∀ l ∈ lexemes, ∀ text, l ≠ .comment text) : Begins lexemes := by
  simp only [FieldLine.lexemes, List.cons_append, List.append_assoc, List.nil_append] at hstart
  cases lexemes with
  | nil => exact .nil
  | cons l rest =>
    obtain ⟨rfl, hafterName⟩ := List.cons_prefix_cons.mp hstart
    cases rest with
    | nil => exact .name _
    | cons l afterType =>
      obtain ⟨rfl, hafterType⟩ := List.cons_prefix_cons.mp hafterName
      obtain ⟨isArray, afterArray, rfl, hafterArray⟩ := exists_of_prefix_mark hafterType
      obtain ⟨isOptional, rest, rfl, hrest⟩ := exists_of_prefix_mark hafterArray
      obtain ⟨texts, rfl⟩ := exists_of_prefix_attributes hrest fun l hl => hlexemes l (by simp [hl])
      exact .parts _ _ isArray isOptional texts

/-! ## Where tokens are rejected -/

private theorem takeName_cons_eq_error {cause : Lexeme → Cause} {token : Token}
    (h : takeName cause (token :: tokens) = .error e) : e.column = token.column := by
  unfold takeName at h
  split at h
  · cases h
  · rename_i heq
    obtain ⟨rfl, -⟩ := List.cons.inj heq
    obtain rfl := Except.error.inj h
    rfl
  · rename_i heq
    cases heq

private theorem takeComment_cons_eq_error {token : Token}
    (h : takeComment (token :: tokens) = .error e) : e.column = token.column := by
  unfold takeComment at h
  split at h
  · rename_i heq
    obtain ⟨rfl, -⟩ := List.cons.inj heq
    split at h
    · obtain rfl := Except.error.inj h
      rfl
    · cases h
  · rename_i heq
    obtain ⟨rfl, -⟩ := List.cons.inj heq
    obtain rfl := Except.error.inj h
    rfl
  · rename_i heq
    cases heq

/-- What follows two names and is taken off before the comment fits. -/
theorem exists_begins_of_takeAttributes (tokens : List Token) :
    ∃ front, front ++ (takeAttributes (takeMark .optional (takeMark .array tokens).2).2).2 =
        tokens ∧
      ∀ name typeName, Begins (.name name :: .name typeName :: front.map Token.lexeme) := by
  have harray := map_takeMark .array tokens
  have hoptional := map_takeMark .optional (takeMark .array tokens).2
  have hattributes := map_takeAttributes (takeMark .optional (takeMark .array tokens).2).2
  obtain ⟨front, hfront⟩ := (takeAttributes_suffix _).trans
    ((takeMark_suffix .optional _).trans (takeMark_suffix .array tokens))
  have hmap := congrArg (List.map Token.lexeme) hfront
  rw [List.map_append, harray, hoptional, hattributes, ← List.append_assoc,
    ← List.append_assoc] at hmap
  refine ⟨front, hfront, fun name typeName => ?_⟩
  rw [List.append_cancel_right hmap, List.append_assoc]
  exact .parts name typeName _ _ _

/-- **The reader rejects tokens at the first one that does not fit.** -/
theorem exists_begins_of_ofTokens_eq_error
    (h : ofTokens (tokens ++ [⟨.endOfLine, k⟩]) = .error e) :
    ∃ before token after, tokens ++ [⟨.endOfLine, k⟩] = before ++ token :: after ∧
      e.column = token.column ∧ Begins (before.map Token.lexeme) := by
  generalize hall : tokens ++ [⟨.endOfLine, k⟩] = all at h
  have hlast : all.getLast? = some ⟨.endOfLine, k⟩ := by rw [← hall, List.getLast?_concat]
  rcases except_bind_eq_error.mp h with hname | ⟨⟨name, afterName⟩, hname, hafter⟩
  · cases all with
    | nil => cases hlast
    | cons token rest => exact ⟨[], token, rest, rfl, takeName_cons_eq_error hname, .nil⟩
  obtain ⟨column, rfl⟩ := takeName_eq_ok.mp hname
  rcases except_bind_eq_error.mp hafter with htype | ⟨⟨typeName, rest⟩, htype, -⟩
  · cases afterName with
    | nil => simp at hlast
    | cons token rest =>
      exact ⟨[⟨.name name, column⟩], token, rest, rfl, takeName_cons_eq_error htype, .name name⟩
  obtain ⟨column', rfl⟩ := takeName_eq_ok.mp htype
  obtain ⟨front, hfront, hbegins⟩ := exists_begins_of_takeAttributes rest
  rw [ofTokens_names] at h
  rcases except_bind_eq_error.mp h with hcomment | ⟨comment, -, hdone⟩
  · generalize (takeAttributes (takeMark .optional (takeMark .array rest).2).2).2 = remaining
      at hcomment hfront
    subst hfront
    cases remaining with
    | nil =>
      -- the end of the line is not taken off
      rw [List.append_nil] at hlast
      have hmem := List.mem_map_of_mem (f := Token.lexeme) (List.mem_of_getLast? hlast)
      exact absurd rfl ((hbegins name typeName).goesOn _ hmem).2
    | cons token after =>
      exact ⟨⟨.name name, column⟩ :: ⟨.name typeName, column'⟩ :: front, token, after, rfl,
        takeComment_cons_eq_error hcomment, hbegins name typeName⟩
  · cases hdone

/-- Tokens that a field line starts with are rejected at their end, if nothing follows. -/
theorem Begins.ofTokens_eq_error (h : Begins (tokens.map Token.lexeme)) (k : Nat) :
    ∃ e, ofTokens (tokens ++ [⟨.endOfLine, k⟩]) = .error e ∧ e.column = k := by
  generalize hlexemes : tokens.map Token.lexeme = lexemes at h
  cases h with
  | nil =>
    obtain rfl := List.map_eq_nil_iff.mp hlexemes
    exact ⟨_, rfl, rfl⟩
  | name text =>
    obtain ⟨⟨_, column⟩, rest, rfl, rfl, hrest⟩ := List.map_eq_cons_iff.mp hlexemes
    obtain rfl := List.map_eq_nil_iff.mp hrest
    exact ⟨_, rfl, rfl⟩
  | parts name typeName isArray isOptional attributes =>
    obtain ⟨⟨_, column⟩, afterName, rfl, rfl, hafterName⟩ := List.map_eq_cons_iff.mp hlexemes
    obtain ⟨⟨_, column'⟩, rest, rfl, rfl, hrest⟩ := List.map_eq_cons_iff.mp hafterName
    have hall : (rest ++ [(⟨.endOfLine, k⟩ : Token)]).map Token.lexeme =
        (if isArray then [.array] else []) ++ ((if isOptional then [.optional] else []) ++
          (attributes.map .attribute ++ [.endOfLine])) := by
      simp [hrest]
    obtain ⟨-, hafterArray⟩ := takeMark_of_map
      (by cases isOptional <;> cases attributes <;> simp) hall
    obtain ⟨-, hafterOptional⟩ := takeMark_of_map (by cases attributes <;> simp) hafterArray
    obtain ⟨-, hremaining⟩ := takeAttributes_of_map (by simp) hafterOptional
    obtain ⟨front, hfront, -⟩ := exists_begins_of_takeAttributes (rest ++ [⟨.endOfLine, k⟩])
    -- nothing is left but the end of the line
    obtain ⟨token, others, htokens, -, hothers⟩ := List.map_eq_cons_iff.mp hremaining
    obtain rfl := List.map_eq_nil_iff.mp hothers
    rw [htokens] at hfront
    obtain ⟨-, hlast⟩ := List.append_inj' hfront rfl
    obtain rfl := (List.cons.inj hlast).1
    refine ⟨⟨.noComment .endOfLine, k⟩, ?_, rfl⟩
    rw [List.cons_append, List.cons_append, ofTokens_names]
    dsimp only
    rw [htokens]
    rfl

/-- Whole tokens that are completed to those of a field line by what follows can be continued. -/
theorem Opens.canContinue_of_spells (h : Opens 1 cs tokens) {rest : List Char}
    {others : List Lexeme} (field : FieldLine)
    (hspells : Spells (' ' :: rest) others)
    (hlexemes : tokens.map Token.lexeme ++ others = field.lexemes ++ [.endOfLine])
    (hcomment : field.comment ≠ "") : CanContinue cs := by
  obtain ⟨later, hlater, hmap⟩ := hspells (1 + cs.length)
  have hspace : ∀ c ∈ (' ' :: rest).head?, isBlank c = true := by
    rintro c ⟨⟩
    decide
  have hline := (h.lexes_append hspace hlater).spells
  rw [List.map_append, hmap, hlexemes] at hline
  refine ⟨' ' :: rest, field, parse_eq_ok_iff_spells.mpr ⟨hcomment, [.endOfLine], ?_⟩⟩
  rwa [String.toList_ofList]

/-- **What a field line starts with can be continued.** -/
theorem Opens.canContinue (h : Opens 1 cs tokens) (hbegins : Begins (tokens.map Token.lexeme)) :
    CanContinue cs := by
  have hname {rest : List Char} (hrest : Stops isWord rest) : IsLexeme (.name "a") ['a'] rest :=
    ⟨rfl, by decide, hrest⟩
  have hspace : IsBlanks [' '] := by decide
  have hcomment : Spells " //a".toList [.comment "a", .endOfLine] :=
    (Spells.comment ['a']).blanks hspace
  have htype : Spells " a //a".toList [.name "a", .comment "a", .endOfLine] :=
    (hcomment.lexeme (hname (by decide))).blanks hspace
  have hboth : Spells " a a //a".toList [.name "a", .name "a", .comment "a", .endOfLine] :=
    (htype.lexeme (hname (by decide))).blanks hspace
  have hne : "a" ≠ "" := by decide
  generalize hlexemes : tokens.map Token.lexeme = lexemes at hbegins
  cases hbegins with
  | nil =>
    refine h.canContinue_of_spells ⟨"a", "a", false, false, [], "a"⟩ hboth ?_ hne
    rw [hlexemes]
    rfl
  | name text =>
    refine h.canContinue_of_spells ⟨text, "a", false, false, [], "a"⟩ htype ?_ hne
    rw [hlexemes]
    rfl
  | parts name typeName isArray isOptional attributes =>
    refine h.canContinue_of_spells ⟨name, typeName, isArray, isOptional, attributes, "a"⟩ hcomment
      ?_ hne
    simp [hlexemes, FieldLine.lexemes]

/-- A text of whole tokens can be continued exactly if they are what a field line starts with. -/
theorem Opens.canContinue_iff (h : Opens 1 cs tokens) :
    CanContinue cs ↔ Begins (tokens.map Token.lexeme) := by
  refine ⟨?_, h.canContinue⟩
  rintro ⟨rest, field, hparse⟩
  obtain ⟨longer, hlonger, hfield⟩ := except_bind_eq_ok.mp hparse
  rw [tokenize, String.toList_ofList] at hlonger
  obtain ⟨first, others, rfl, hkinds⟩ := h.exists_kinds hlonger
  obtain ⟨-, remaining, hmap⟩ := ofTokens_eq_ok.mp hfield
  rw [List.map_append] at hmap
  have hcomment : ∀ l ∈ first.map Token.lexeme, ∀ text, l ≠ .comment text := by
    rintro l hl text rfl
    obtain ⟨token, htoken, hlexeme⟩ := List.mem_map.mp hl
    have hkind : Lexeme.comment "" ∈ first.map (·.lexeme.kind) :=
      List.mem_map.mpr ⟨token, htoken, by rw [hlexeme]; rfl⟩
    rw [hkinds] at hkind
    obtain ⟨token, htoken, hkind⟩ := List.mem_map.mp hkind
    obtain ⟨text, hlexeme⟩ := Lexeme.kind_eq_comment.mp hkind
    exact h.ne_comment token htoken text hlexeme
  have hbegins : Begins (first.map Token.lexeme) := begins_of_isPrefix ⟨_, hmap⟩ hcomment
  refine hbegins.of_kinds ?_
  rw [List.map_map, List.map_map]
  exact hkinds.symm

/-- A text of whole tokens has no comment, so that it is not a field line. -/
theorem Opens.ofTokens_ne_ok (h : Opens column cs tokens) (k : Nat) (field : FieldLine) :
    ofTokens (tokens ++ [⟨.endOfLine, k⟩]) ≠ .ok field := by
  intro hok
  obtain ⟨-, others, hmap⟩ := ofTokens_eq_ok.mp hok
  have hcomment : Lexeme.comment field.comment ∈
      (tokens ++ [(⟨.endOfLine, k⟩ : Token)]).map Token.lexeme := by
    rw [hmap]
    simp [FieldLine.lexemes]
  obtain ⟨token, htoken, hlexeme⟩ := List.mem_map.mp hcomment
  rcases List.mem_append.mp htoken with htoken | htoken
  · exact h.ne_comment token htoken _ hlexeme
  · obtain rfl := List.mem_singleton.mp htoken
    cases hlexeme

/-- A text of whole tokens that are not what a field line starts with is rejected at one of them. -/
theorem Opens.isRejectedBefore_iff (h : Opens 1 cs tokens) :
    IsRejectedBefore cs (cs.length + 1) ↔ ¬ Begins (tokens.map Token.lexeme) := by
  have hparse : parse (String.ofList cs) = ofTokens (tokens ++ [⟨.endOfLine, 1 + cs.length⟩]) := by
    rw [parse, tokenize, String.toList_ofList, tokensFrom_of_lexes h.lexes]
    rfl
  rw [IsRejectedBefore, hparse]
  constructor
  · rintro ⟨e, he, hcolumn⟩ hbegins
    obtain ⟨e', he', hcolumn'⟩ := hbegins.ofTokens_eq_error (1 + cs.length)
    obtain rfl := Except.error.inj (he.symm.trans he')
    omega
  · intro hbegins
    cases he : ofTokens (tokens ++ [⟨.endOfLine, 1 + cs.length⟩]) with
    | ok field => exact absurd he (h.ofTokens_ne_ok _ field)
    | error e =>
      obtain ⟨before, token, after, htokens, hcolumn, hbefore⟩ :=
        exists_begins_of_ofTokens_eq_error he
      refine ⟨e, rfl, ?_⟩
      have hmem : token ∈ tokens := by
        rcases List.eq_nil_or_concat' after with rfl | ⟨after, last, rfl⟩
        · obtain ⟨rfl, -⟩ := List.append_inj' htokens rfl
          exact absurd hbefore hbegins
        · rw [← List.cons_append, ← List.append_assoc] at htokens
          obtain ⟨rfl, -⟩ := List.append_inj' htokens rfl
          simp
      have hlt := h.column_lt token hmem
      omega

/-! ## Rejected lines -/

/-- A rejected line consists of whole tokens before the error. If the scanner has not rejected it,
these are what a field line starts with. -/
theorem exists_opensUpTo_of_parse_eq_error {line : String} (h : parse line = .error e) :
    ∃ tokens, OpensUpTo 1 line.toList e.column tokens ∧
      ((∃ all, tokenize line = .ok all) → Begins (tokens.map Token.lexeme)) := by
  rcases except_bind_eq_error.mp h with hscan | ⟨all, hall, hread⟩
  · obtain ⟨tokens, htokens⟩ := exists_opensUpTo_of_tokensFrom_eq_error hscan
    refine ⟨tokens, htokens, fun ⟨all, hall⟩ => ?_⟩
    rw [hscan] at hall
    cases hall
  · have hlexes := lexes_of_tokensFrom hall
    obtain ⟨front, k, rfl⟩ := hlexes.exists_concat
    obtain ⟨before, token, after, htokens, hcolumn, hbegins⟩ :=
      exists_begins_of_ofTokens_eq_error hread
    have hcomment : ∀ other ∈ before, ∀ text, other.lexeme ≠ .comment text :=
      fun other hother => (hbegins.goesOn _ (List.mem_map_of_mem hother)).1
    exact ⟨before, hcolumn ▸ hlexes.opensUpTo htokens hcomment, fun _ => hbegins⟩

/-- The part of a text before a column, cut off. -/
theorem OpensUpTo.opens_take (h : OpensUpTo 1 cs k tokens) :
    Opens 1 (cs.take (k - 1)) tokens ∧ k = (cs.take (k - 1)).length + 1 := by
  obtain ⟨first, rest, rfl, rfl, hfirst⟩ := h
  rw [Nat.add_sub_cancel_left, List.take_left]
  exact ⟨hfirst, Nat.add_comm 1 _⟩

/-- **Errors and the first fault of a line.** Let a line be rejected at a column. The part of the
line before this column can be continued to a field line exactly if, read on its own, it is not
rejected at an earlier column. This is so whenever the line has tokens, that is, unless it was
rejected by the scanner. The part before the column at which that part is rejected can always be
continued. -/
theorem canContinue_before_error_iff (line : String) (e : SyntaxError)
    (h : parse line = .error e) :
    let before := line.toList.take (e.column - 1)
    (CanContinue before ↔ ¬ IsRejectedBefore before e.column) ∧
      ((∃ tokens, tokenize line = .ok tokens) → CanContinue before) ∧
      ∀ e', parse (String.ofList before) = .error e' →
        CanContinue (line.toList.take (e'.column - 1)) := by
  intro before
  obtain ⟨tokens, hup, hbegins⟩ := exists_opensUpTo_of_parse_eq_error h
  obtain ⟨hopens, hcolumn⟩ := hup.opens_take
  refine ⟨?_, fun hall => hopens.canContinue (hbegins hall), fun e' h' => ?_⟩
  · rw [hopens.canContinue_iff, hcolumn, hopens.isRejectedBefore_iff, not_not]
  · -- the part before the error has tokens, so that its own error is at the first fault
    obtain ⟨tokens', hup', hbegins'⟩ := exists_opensUpTo_of_parse_eq_error h'
    rw [String.toList_ofList] at hup'
    obtain ⟨hopens', hcolumn'⟩ := hup'.opens_take
    have htokens : ∃ all, tokenize (String.ofList before) = .ok all :=
      ⟨_, by rw [tokenize, String.toList_ofList, tokensFrom_of_lexes hopens.lexes]⟩
    have hcut : before.take (e'.column - 1) = line.toList.take (e'.column - 1) := by
      have hle : (before.take (e'.column - 1)).length ≤ before.length := List.length_take_le' ..
      have hbefore : before.length = e.column - 1 := by
        change (line.toList.take (e.column - 1)).length = e.column - 1
        omega
      rw [List.take_take, Nat.min_eq_left (by omega)]
    rw [← hcut]
    exact hopens'.canContinue (hbegins' htokens)

/-- A line with a second mark for an optional value, and with a character behind it that starts no
token. -/
def doubtfulLine : String :=
  "total Decimal?? = 1 // sum"

/-- The scanner rejects the line at the equals sign, behind the second mark. -/
theorem parse_doubtfulLine : parse doubtfulLine = .error ⟨.unexpectedChar '=', 17⟩ := by
  decide +kernel

/-- Before the equals sign, the line is rejected at the second mark. -/
theorem parse_doubtfulLine_before :
    parse (String.ofList (doubtfulLine.toList.take 16)) = .error ⟨.noComment .optional, 15⟩ := by
  decide +kernel

/-- The error in the line is not at its first fault: the part before the error cannot be
continued. -/
theorem not_canContinue_doubtfulLine :
    parse doubtfulLine = .error ⟨.unexpectedChar '=', 17⟩ ∧
      ¬ CanContinue (doubtfulLine.toList.take 16) := by
  refine ⟨parse_doubtfulLine, ?_⟩
  obtain ⟨tokens, hup, -⟩ := exists_opensUpTo_of_parse_eq_error parse_doubtfulLine
  obtain ⟨hopens, hcolumn⟩ := hup.opens_take
  dsimp only at hopens hcolumn
  rw [hopens.canContinue_iff, ← hopens.isRejectedBefore_iff, ← hcolumn]
  exact ⟨_, parse_doubtfulLine_before, by decide⟩

/-- What stands before the second mark can be continued. -/
theorem canContinue_before_error_doubtfulLine :
    let before := doubtfulLine.toList.take 16
    parse doubtfulLine = .error ⟨.unexpectedChar '=', 17⟩ ∧
      (CanContinue before ↔ ¬ IsRejectedBefore before 17) ∧
      parse (String.ofList before) = .error ⟨.noComment .optional, 15⟩ ∧
      CanContinue (doubtfulLine.toList.take 14) := by
  have h := canContinue_before_error_iff doubtfulLine _ parse_doubtfulLine
  dsimp only at h ⊢
  have hfirst := h.2.2 _ parse_doubtfulLine_before
  dsimp only at hfirst
  exact ⟨parse_doubtfulLine, h.1, parse_doubtfulLine_before, hfirst⟩

end NestLayers.FieldLine
