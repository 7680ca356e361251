import Mathlib.Data.List.Chain
import NestLayers.Proofs.MethodTexts
import NestLayers.Proofs.PackageClosure

/-!
# Calls in the generated classes

The methods of an object that a text calls are read off its code, that is, off what stands outside
of its string literals: they are what follows the object in a dotted word. A service calls methods
of its repository and a controller methods of its service. All that users write stands in literals
or has no dots, so the calls that are read are those that were generated, and each of them has a
declaration to go to.
-/

namespace NestLayers.TypeScript

open NestLayers.Text NestLayers.Naming

/-! ## Reading calls -/

/-- Where a character stands: outside of string literals, in one, or behind a backslash in one. -/
inductive Quoting
  | outside
  | inside
  | escaped
  deriving DecidableEq, Repr

/-- The characters of a line outside of its string literals, with the quotation marks. -/
def code : Quoting → List Char → List Char
  | _, [] => []
  | .outside, c :: rest => c :: code (if c = '\x22' then .inside else .outside) rest
  | .inside, c :: rest =>
    if c = '\x22' then c :: code .outside rest
    else code (if c = '\x5c' then .escaped else .inside) rest
  | .escaped, _ :: rest => code .inside rest

/-- A character that is in no dotted word. -/
def endsWord (c : Char) : Bool :=
  !(isWord c || c == '.' || c == '$')

/-- The dotted words of a line. -/
def dottedWords (line : List Char) : List (List Char) :=
  (code .outside line).splitOnP endsWord

/-- The methods of an object that a line calls. -/
def lineCalls (object : String) (line : List Char) : List String :=
  (dottedWords line).filterMap fun word =>
    (afterStart? (object ++ ".").toList word).map String.ofList

/-- The methods of an object that a text calls, in order. -/
def callsOn (object text : String) : List String :=
  (splitNewlines text.toList).flatMap (lineCalls object)

/-- The object is reached through `this`. -/
def IsMember (object : String) : Prop :=
  ∃ name : String, object = "this." ++ name ∧ ∀ c ∈ name.toList, isWord c = true

/-! ## Texts without calls -/

/-- A text closes its literals, and its code mentions no member. -/
structure IsQuiet (text : String) : Prop where
  closed : ∀ rest, code .outside (text.toList ++ rest) =
    code .outside text.toList ++ code .outside rest
  head : (code .outside text.toList).head? ≠ some '.'
  apart : (code .outside text.toList).IsChain fun c d => ¬ (c = 's' ∧ d = '.')

/-- Outside of literals all characters are code. -/
theorem code_append_of_notMem {cs : List Char} (h : '\x22' ∉ cs) (rest : List Char) :
    code .outside (cs ++ rest) = cs ++ code .outside rest := by
  induction cs with
  | nil => rfl
  | cons c cs ih =>
    obtain ⟨hc, hcs⟩ := not_or.mp (mt List.mem_cons.mpr h)
    rw [List.cons_append, code, if_neg (Ne.symm hc), ih hcs, List.cons_append]

private theorem code_of_notMem {cs : List Char} (h : '\x22' ∉ cs) : code .outside cs = cs := by
  simpa [code] using code_append_of_notMem h []

/-- A text without literals is quiet if it mentions no member. -/
theorem isQuiet_of_notMem {text : String} (hquote : '\x22' ∉ text.toList)
    (hhead : text.toList.head? ≠ some '.')
    (hapart : text.toList.IsChain fun c d => ¬ (c = 's' ∧ d = '.')) : IsQuiet text := by
  have hcode := code_of_notMem hquote
  refine ⟨fun rest => ?_, ?_, ?_⟩
  · rw [hcode, code_append_of_notMem hquote]
  · rwa [hcode]
  · rwa [hcode]

/-- A text without dots and literals is quiet. -/
theorem isQuiet_of_dotless {text : String} (h : ∀ c ∈ text.toList, c ≠ '\x22' ∧ c ≠ '.') :
    IsQuiet text := by
  refine isQuiet_of_notMem (fun hmem => (h _ hmem).1 rfl)
    (fun hhead => (h _ (List.mem_of_head? hhead)).2 rfl) ?_
  exact (List.isChain_isInfix text.toList).imp fun c d hpair hcd =>
    (h d (hpair.subset (by simp))).2 hcd.2

/-- Quiet texts make a quiet text. -/
theorem IsQuiet.append {first second : String} (hfirst : IsQuiet first) (hsecond : IsQuiet second) :
    IsQuiet (first ++ second) := by
  have hcode : code .outside (first ++ second).toList =
      code .outside first.toList ++ code .outside second.toList := by
    rw [String.toList_append, hfirst.closed]
  refine ⟨fun rest => ?_, ?_, ?_⟩
  · rw [hcode, String.toList_append, List.append_assoc, hfirst.closed, hsecond.closed,
      List.append_assoc]
  · rw [hcode, List.head?_append]
    cases hhead : (code .outside first.toList).head? with
    | none => exact hsecond.head
    | some c =>
      rw [Option.some_or, ← hhead]
      exact hfirst.head
  · rw [hcode]
    exact hfirst.apart.append hsecond.apart fun _ _ d hd hcd => hsecond.head (hcd.2 ▸ hd)

/-- The characters of a literal are no code. -/
theorem code_literal (text : String) (rest : List Char) :
    code .outside ((literal text).toList ++ rest) = '\x22' :: '\x22' :: code .outside rest := by
  have hinside (cs : List Char) : code .inside (cs.flatMap escapeLiteralChar ++ '\x22' :: rest) =
      '\x22' :: code .outside rest := by
    induction cs with
    | nil => simp [code]
    | cons c cs ih =>
      rw [List.flatMap_cons, List.append_assoc]
      by_cases hescape : c = '\x5c' ∨ c = '\x22'
      · simp [escapeLiteralChar, hescape, code, ih]
      · obtain ⟨hbackslash, hquote⟩ := not_or.mp hescape
        simp [escapeLiteralChar, hbackslash, hquote, code, ih]
  have hchars : (literal text).toList ++ rest =
      '\x22' :: (text.toList.flatMap escapeLiteralChar ++ '\x22' :: rest) := by
    simp [literal]
  rw [hchars, code, if_pos rfl, hinside]

/-- String literals are quiet. -/
theorem isQuiet_literal (text : String) : IsQuiet (literal text) := by
  have hcode : code .outside (literal text).toList = ['\x22', '\x22'] := by
    simpa [code] using code_literal text []
  refine ⟨fun rest => ?_, ?_, ?_⟩
  · rw [hcode, code_literal, List.cons_append, List.singleton_append]
  · rw [hcode]
    decide
  · rw [hcode]
    decide

/-- A piece between separators is a part of the list. -/
theorem infix_of_mem_splitOnP {p : Char → Bool} {word cs : List Char}
    (h : word ∈ cs.splitOnP p) : word <:+: cs := by
  -- the first piece is at the start, so that a further character in front of it extends it
  suffices hsplit : ∃ first rest, cs.splitOnP p = first :: rest ∧ first <+: cs ∧
      ∀ other ∈ rest, other <:+: cs by
    obtain ⟨first, rest, heq, hfirst, hrest⟩ := hsplit
    rcases List.mem_cons.mp (heq ▸ h) with rfl | hword
    · exact hfirst.isInfix
    · exact hrest word hword
  clear h
  induction cs with
  | nil => exact ⟨[], [], rfl, List.prefix_refl _, by simp⟩
  | cons c cs ih =>
    obtain ⟨first, rest, heq, hfirst, hrest⟩ := ih
    rw [List.splitOnP_cons_eq_if_modifyHead, heq]
    split
    · refine ⟨[], first :: rest, rfl, List.nil_prefix, List.forall_mem_cons.mpr ⟨?_, ?_⟩⟩
      · exact hfirst.isInfix.trans (List.infix_cons List.infix_rfl)
      · exact fun other hother => List.infix_cons (hrest other hother)
    · refine ⟨c :: first, rest, rfl, ?_, fun other hother => List.infix_cons (hrest other hother)⟩
      exact List.cons_prefix_cons.mpr ⟨rfl, hfirst⟩

/-- A quiet text calls nothing. -/
theorem IsQuiet.lineCalls {object text : String} (h : IsQuiet text) (hobject : IsMember object) :
    lineCalls object text.toList = [] := by
  obtain ⟨name, rfl, -⟩ := hobject
  refine List.filterMap_eq_nil_iff.mpr fun word hword => Option.map_eq_none_iff.mpr ?_
  by_contra hcall
  obtain ⟨rest, hrest⟩ := Option.ne_none_iff_exists'.mp hcall
  have hchain := h.apart.infix (infix_of_mem_splitOnP hword)
  rw [append_of_afterStart? hrest] at hchain
  simp at hchain

/-- The calls before and after a character that is in no dotted word. -/
theorem lineCalls_append {text : String} (htext : IsQuiet text) {separator : Char}
    (hseparator : endsWord separator = true) (hquote : separator ≠ '\x22') (object : String)
    (rest : List Char) :
    lineCalls object (text.toList ++ separator :: rest) =
      lineCalls object text.toList ++ lineCalls object rest := by
  have hcode : code .outside (separator :: rest) = separator :: code .outside rest := by
    rw [code, if_neg hquote]
  simp only [lineCalls, dottedWords]
  rw [htext.closed, hcode, List.splitOnP_append_cons _ _ hseparator, List.filterMap_append]

/-- **A call is read** behind a quiet text and a space. -/
theorem lineCalls_call {object before method after : String} (hobject : IsMember object)
    (hbefore : IsQuiet before) (hmethod : method.toList.all isWord = true)
    (hafter : IsQuiet after) :
    lineCalls object (before ++ " " ++ object ++ "." ++ method ++ "(" ++ after).toList =
      [method] := by
  have hword : ∀ c ∈ (object ++ "." ++ method).toList, endsWord c = false ∧ c ≠ '\x22' := by
    obtain ⟨name, rfl, hname⟩ := hobject
    have hchar : ∀ c, isWord c = true → endsWord c = false ∧ c ≠ '\x22' := by
      intro c hc
      refine ⟨by simp [endsWord, hc], ?_⟩
      rintro rfl
      exact absurd hc (by decide)
    simp only [String.toList_append, List.forall_mem_append]
    exact ⟨⟨⟨by simp [endsWord, isWord], fun c hc => hchar c (hname c hc)⟩, by simp [endsWord]⟩,
      fun c hc => hchar c (List.all_eq_true.mp hmethod c hc)⟩
  have hchars : (before ++ " " ++ object ++ "." ++ method ++ "(" ++ after).toList =
      before.toList ++ ' ' :: ((object ++ "." ++ method).toList ++ '(' :: after.toList) := by
    simp
  have hcall : lineCalls object ((object ++ "." ++ method).toList ++ '(' :: after.toList) =
      [method] := by
    have hcode : code .outside ((object ++ "." ++ method).toList ++ '(' :: after.toList) =
        (object ++ "." ++ method).toList ++ '(' :: code .outside after.toList := by
      rw [code_append_of_notMem fun hmem => (hword _ hmem).2 rfl, code, if_neg (by decide)]
    have hquiet : lineCalls object after.toList = [] := hafter.lineCalls hobject
    have hfollows : afterStart? (object ++ ".").toList (object ++ "." ++ method).toList =
        some method.toList := by
      simpa using afterStart?_append (object ++ ".").toList method.toList
    simp only [lineCalls, dottedWords] at hquiet ⊢
    rw [hcode, List.splitOnP_append_cons _ _ (by decide), List.splitOnP_eq_singleton
      fun c hc => (hword c hc).1, List.filterMap_append, hquiet, List.filterMap_cons,
      hfollows]
    simp
  rw [hchars, lineCalls_append hbefore (by decide) (by decide), hbefore.lineCalls hobject, hcall,
    List.nil_append]

/-- A test for texts without literals. -/
def isQuietText (text : String) : Bool :=
  decide ('\x22' ∉ text.toList ∧ text.toList.head? ≠ some '.' ∧
    text.toList.IsChain fun c d => ¬ (c = 's' ∧ d = '.'))

/-- Quiet texts can be tested. -/
theorem isQuiet_of_isQuietText {text : String} (h : isQuietText text = true) : IsQuiet text := by
  obtain ⟨hquote, hhead, hapart⟩ := of_decide_eq_true h
  exact isQuiet_of_notMem hquote hhead hapart

/-- A quiet text stays quiet with a tested text behind it. -/
theorem IsQuiet.followedBy {first second : String} (h : IsQuiet first)
    (hsecond : isQuietText second = true) : IsQuiet (first ++ second) :=
  h.append (isQuiet_of_isQuietText hsecond)

/-- A quiet text stays quiet between tested texts. -/
theorem IsQuiet.between {before text after : String} (hbefore : isQuietText before = true)
    (h : IsQuiet text) (hafter : isQuietText after = true) : IsQuiet (before ++ text ++ after) :=
  ((isQuiet_of_isQuietText hbefore).append h).followedBy hafter

/-! ## Calls of statements, methods and classes -/

/-- A quiet text with a space behind it, as it stands in front of calls. -/
def IsLead (lead : String) : Prop :=
  ∃ before, lead = before ++ " " ∧ IsQuiet before

/-- A test for texts in front of calls. -/
def isLeadText (lead : String) : Bool :=
  lead.toList.getLast? == some ' ' && isQuietText (String.ofList lead.toList.dropLast)

/-- Leads can be tested. -/
theorem isLead_of_isLeadText {lead : String} (h : isLeadText lead = true) : IsLead lead := by
  obtain ⟨hlast, hquiet⟩ := Bool.and_eq_true_iff.mp h
  refine ⟨_, ?_, isQuiet_of_isQuietText hquiet⟩
  rw [← String.toList_inj, String.toList_append, String.toList_ofList]
  exact (List.dropLast_append_getLast? ' ' (beq_iff_eq.mp hlast)).symm

/-- The statement calls methods of the object, or it is quiet. -/
def Statement.IsQuietExcept (object : String) : Statement → Prop
  | .blank => True
  | .remark text => IsQuiet text
  | .call lead receiver method arguments =>
    IsLead lead ∧ receiver = object ∧ method.toList.all isWord = true ∧ IsQuiet arguments
  | .other text => IsQuiet text

/-- The methods of an object that lines call. -/
def linesCalls (object : String) (lines : List String) : List String :=
  lines.flatMap fun line => lineCalls object line.toList

variable {object : String}

private theorem linesCalls_of_isQuiet (hobject : IsMember object) {lines : List String}
    (h : ∀ line ∈ lines, IsQuiet line) : linesCalls object lines = [] :=
  List.flatMap_eq_nil_iff.mpr fun line hline => (h line hline).lineCalls hobject

/-- The margin of a line calls nothing. -/
theorem lineCalls_step (hobject : IsMember object) (text : String) :
    lineCalls object (step ++ text).toList = lineCalls object text.toList := by
  have hblanks : IsQuiet "   " := isQuiet_of_isQuietText (by decide)
  have hchars : (step ++ text).toList = "   ".toList ++ ' ' :: text.toList := by simp [step]
  rw [hchars, lineCalls_append hblanks (by decide) (by decide), hblanks.lineCalls hobject,
    List.nil_append]

/-- The calls of a statement are read off its line. -/
theorem Statement.IsQuietExcept.lineCalls_line {s : Statement} (hobject : IsMember object)
    (h : s.IsQuietExcept object) :
    lineCalls object s.line.toList =
      (match s with
        | .call _ receiver method _ => if receiver = object then some method else none
        | _ => none).toList := by
  cases s with
  | blank => exact (isQuiet_of_isQuietText (by decide)).lineCalls hobject
  | remark text =>
    have htext : IsQuiet text := h
    rw [line, String.append_assoc, lineCalls_step hobject]
    exact ((isQuiet_of_isQuietText (by decide)).append htext).lineCalls hobject
  | other text =>
    have htext : IsQuiet text := h
    rw [line, lineCalls_step hobject]
    exact htext.lineCalls hobject
  | call lead receiver method arguments =>
    obtain ⟨⟨before, rfl, hbefore⟩, rfl, hmethod, harguments⟩ := h
    have hline : (Statement.call (before ++ " ") receiver method arguments).line =
        step ++ (before ++ " " ++ receiver ++ "." ++ method ++ "(" ++ (arguments ++ ");")) := by
      simp only [line, String.append_assoc]
    rw [hline, lineCalls_step hobject, lineCalls_call hobject hbefore hmethod
      (harguments.followedBy (by decide))]
    simp

/-- Calls of the object aside, the method is quiet. -/
@[mk_iff] structure Method.IsQuietExcept (object : String) (m : Method) : Prop where
  doc : ∀ text ∈ m.doc, IsQuiet text
  decorators : ∀ d ∈ m.decorators, IsQuiet d.name ∧ IsQuiet d.arguments
  name : IsQuiet m.name
  parameters : IsQuiet m.parameters
  result : ∀ type ∈ m.result, IsQuiet type
  body : ∀ s ∈ m.body, s.IsQuietExcept object

private theorem Decorator.isQuiet_line {d : Decorator} (h : IsQuiet d.name ∧ IsQuiet d.arguments) :
    IsQuiet d.line :=
  ((h.1.between (by decide) (by decide)).append h.2).followedBy (by decide)

private theorem isQuiet_docComment {text : String} (h : IsQuiet text) : IsQuiet (docComment text) :=
  h.between (by decide) (by decide)

private theorem Method.IsQuietExcept.isQuiet_signature {m : Method} (h : m.IsQuietExcept object) :
    IsQuiet m.signature := by
  have hopening : IsQuiet ("async " ++ m.name ++ "(" ++ m.parameters ++ ")") :=
    ((h.name.between (by decide) (by decide)).append h.parameters).followedBy (by decide)
  unfold signature
  dsimp only
  split
  · rename_i type hresult
    have htype : IsQuiet (": " ++ type) :=
      (isQuiet_of_isQuietText (by decide)).append (h.result type hresult)
    exact (hopening.append htype).followedBy (by decide)
  · exact (hopening.append (isQuiet_of_isQuietText (by decide))).followedBy (by decide)

/-- **The calls of a method are read off its lines.** -/
theorem Method.IsQuietExcept.linesCalls_lines {m : Method} (hobject : IsMember object)
    (h : m.IsQuietExcept object) : linesCalls object m.lines = m.callsOn object := by
  have hheading : ∀ line ∈ (m.doc.map docComment).toList ++ m.decorators.map Decorator.line,
      IsQuiet line := by
    intro line hline
    rcases List.mem_append.mp hline with hline | hline
    · obtain ⟨doc, hdoc, rfl⟩ := Option.map_eq_some_iff.mp (Option.mem_toList.mp hline)
      exact isQuiet_docComment (h.doc doc hdoc)
    · obtain ⟨d, hd, rfl⟩ := List.mem_map.mp hline
      exact Decorator.isQuiet_line (h.decorators d hd)
  have hbrace : ∀ line ∈ ["\x7d"], IsQuiet line :=
    List.forall_mem_singleton.mpr (isQuiet_of_isQuietText (by decide))
  have hbody : linesCalls object (m.body.map Statement.line) = m.callsOn object := by
    rw [linesCalls, List.flatMap_map, callsOn, List.filterMap_eq_flatMap_toList]
    exact List.flatMap_congr fun s hs => (h.body s hs).lineCalls_line hobject
  have hlines : linesCalls object m.lines =
      linesCalls object ((m.doc.map docComment).toList ++ m.decorators.map Decorator.line) ++
        (lineCalls object m.signature.toList ++ linesCalls object (m.body.map Statement.line)) ++
        linesCalls object ["\x7d"] := by
    simp only [linesCalls, lines, List.flatMap_append, List.flatMap_cons]
  rw [hlines, linesCalls_of_isQuiet hobject hheading, linesCalls_of_isQuiet hobject hbrace,
    h.isQuiet_signature.lineCalls hobject, hbody, List.nil_append, List.nil_append, List.append_nil]

/-- What paragraphs call is what each of them calls. -/
theorem linesCalls_paragraphs (hobject : IsMember object) (ps : List (List String)) :
    linesCalls object (paragraphs ps) = ps.flatMap (linesCalls object) := by
  have hempty : IsQuiet "" := isQuiet_of_isQuietText (by decide)
  have hblank : lineCalls object [] = [] := hempty.lineCalls hobject
  fun_induction paragraphs ps with
  | case1 => simp [linesCalls, hblank]
  | case2 p => simp
  | case3 p ps hne ih =>
    rw [List.flatMap_cons, ← ih]
    simp [linesCalls, hblank]

/-- Calls of the object aside, the section is quiet. -/
def Section.IsQuietExcept (object : String) : Section → Prop
  | .fields lines => ∀ line ∈ lines, IsQuiet line
  | .construct parameter => IsQuiet parameter
  | .methods members => ∀ m ∈ members, m.IsQuietExcept object
  | .properties _ => False

private theorem Section.IsQuietExcept.linesCalls_lines {s : Section} (hobject : IsMember object)
    (h : s.IsQuietExcept object) :
    linesCalls object s.lines = s.declaredMethods.flatMap (·.callsOn object) := by
  cases s with
  | fields lines => exact linesCalls_of_isQuiet hobject h
  | construct parameter =>
    have hparameter : IsQuiet parameter := h
    exact linesCalls_of_isQuiet hobject
      (List.forall_mem_singleton.mpr (hparameter.between (by decide) (by decide)))
  | methods members =>
    rw [lines, linesCalls_paragraphs hobject, List.flatMap_map]
    exact List.flatMap_congr fun m hm => (h m hm).linesCalls_lines hobject
  | properties members => exact h.elim

/-- Calls of the object aside, the class is quiet. -/
structure ClassDecl.IsQuietExcept (object : String) (c : ClassDecl) : Prop where
  decorators : ∀ d ∈ c.decorators, IsQuiet d.name ∧ IsQuiet d.arguments
  name : IsQuiet c.name
  heritage : IsQuiet c.heritage
  sections : ∀ s ∈ c.sections, s.IsQuietExcept object

/-- **The calls of a class are read off its lines.** -/
theorem ClassDecl.IsQuietExcept.linesCalls_lines {c : ClassDecl} (hobject : IsMember object)
    (h : c.IsQuietExcept object) (hc : c.IsReadable) :
    linesCalls object c.lines = c.methods.flatMap (·.callsOn object) := by
  have hdecorators : ∀ line ∈ c.decorators.map Decorator.line, IsQuiet line :=
    List.forall_mem_map.mpr fun d hd => Decorator.isQuiet_line (h.decorators d hd)
  have hopening : IsQuiet c.opening := by
    have hkeyword : IsQuiet (if c.exported then "export class " else "class ") := by
      split <;> exact isQuiet_of_isQuietText (by decide)
    exact ((hkeyword.append h.name).append h.heritage).followedBy (by decide)
  have hbrace : lineCalls object "\x7d".toList = [] :=
    (isQuiet_of_isQuietText (by decide)).lineCalls hobject
  have hindent (line : String) :
      lineCalls object (indentLine step line).toList = lineCalls object line.toList := by
    unfold indentLine
    split
    · rfl
    · exact lineCalls_step hobject line
  have hinner : linesCalls object c.inner = c.methods.flatMap (·.callsOn object) := by
    have hlines : linesCalls object c.inner =
        linesCalls object (paragraphs (c.sections.map Section.lines)) := by
      simp only [linesCalls, inner, List.flatMap_map, hindent]
    rw [hlines, linesCalls_paragraphs hobject, List.flatMap_map, methods, List.flatMap_assoc]
    exact List.flatMap_congr fun s hs => (h.sections s hs).linesCalls_lines hobject
  have hlines : linesCalls object c.lines = linesCalls object (c.decorators.map Decorator.line) ++
      (lineCalls object c.opening.toList ++ linesCalls object c.inner) ++
      lineCalls object "\x7d".toList := by
    rw [lines_eq hc.nonempty]
    simp only [linesCalls, List.flatMap_append, List.flatMap_cons, List.flatMap_nil,
      List.append_nil]
  rw [hlines, linesCalls_of_isQuiet hobject hdecorators, hopening.lineCalls hobject, hbrace,
    hinner, List.nil_append, List.nil_append, List.append_nil]

/-- The character stands for itself in a string literal. -/
def isLiteralChar (c : Char) : Bool :=
  c != '\x5c' && c != '\x22'

/-- A literal of a text without quotation marks and backslashes. -/
theorem literal_eq {text : String} (h : text.toList.all isLiteralChar = true) :
    literal text = "\"" ++ text ++ "\"" := by
  have hchars : text.toList.flatMap escapeLiteralChar = text.toList := by
    conv_rhs => rw [← List.flatMap_singleton' text.toList]
    refine List.flatMap_congr fun c hc => ?_
    have hplain : c ≠ '\x5c' ∧ c ≠ '\x22' := by
      simpa [isLiteralChar] using List.all_eq_true.mp h c hc
    simp [escapeLiteralChar, hplain]
  rw [← String.toList_inj]
  simp [literal, hchars]

/-- An import of words. -/
@[mk_iff] structure Import.IsQuiet (i : Import) : Prop where
  names : ∀ name ∈ i.names, name.toList.all isWord = true
  origin : i.origin.toList.all isLiteralChar = true

private theorem Import.IsQuiet.isQuiet_line {i : Import} (h : i.IsQuiet) :
    TypeScript.IsQuiet i.line := by
  have hnames : TypeScript.IsQuiet (String.intercalate ", " (firstOccurrences i.names)) := by
    have hnotMem {c : Char} (hc : isWord c = false) (hseparator : c ∉ ", ".toList) :
        c ∉ (String.intercalate ", " (firstOccurrences i.names)).toList := by
      rw [String.toList_intercalate]
      refine notMem_intercalate hseparator (List.forall_mem_map.mpr fun name hname hmem => ?_)
      have hall := h.names name (mem_firstOccurrences.mp hname)
      rw [List.all_eq_true.mp hall c hmem] at hc
      cases hc
    refine isQuiet_of_dotless fun c hc => ⟨?_, ?_⟩
    · rintro rfl
      exact hnotMem (by decide) (by decide) hc
    · rintro rfl
      exact hnotMem (by decide) (by decide) hc
  have hline : i.line = "import " ++ braced (String.intercalate ", " (firstOccurrences i.names)) ++
      " from " ++ literal i.origin ++ ";" := by
    rw [literal_eq h.origin, line, ← String.toList_inj]
    simp
  rw [hline]
  exact (((hnames.between (by decide) (by decide)).between (by decide) (by decide)).append
    (isQuiet_literal i.origin)).followedBy (by decide)

/-- **The calls of a class are read off the text of its file.** -/
theorem callsOn_ofClass {imports : Imports} {c : ClassDecl} (hobject : IsMember object)
    (himports : ∀ i ∈ imports.entries, IsOneLine i.line ∧ i.IsQuiet) (hc : c.IsReadable)
    (hquiet : c.IsQuietExcept object) :
    callsOn object (SourceFile.ofClass imports c).text =
      c.methods.flatMap (·.callsOn object) := by
  have hempty : TypeScript.IsQuiet "" := isQuiet_of_isQuietText (by decide)
  have hblank : lineCalls object [] = [] := hempty.lineCalls hobject
  have hlines : ∀ line ∈ imports.lines, IsOneLine line ∧ TypeScript.IsQuiet line :=
    List.forall_mem_map.mpr fun i hi =>
      (himports i (List.mem_filter.mp hi).1).imp id Import.IsQuiet.isQuiet_line
  have hone : AreLines (SourceFile.ofClass imports c).lines := by
    rw [SourceFile.lines_ofClass]
    split
    · exact hc.hasLines.areLines_lines
    · exact List.forall_mem_append.mpr ⟨fun line hline => (hlines line hline).1,
        List.forall_mem_cons.mpr ⟨by decide, hc.hasLines.areLines_lines⟩⟩
  have htext : callsOn object (SourceFile.ofClass imports c).text =
      linesCalls object (SourceFile.ofClass imports c).lines := by
    rw [callsOn, SourceFile.splitNewlines_text hone, List.flatMap_append, List.flatMap_singleton,
      hblank, List.append_nil, List.flatMap_map, linesCalls]
  rw [htext, SourceFile.lines_ofClass]
  split
  · exact hquiet.linesCalls_lines hobject hc
  · have happend : linesCalls object (imports.lines ++ "" :: c.lines) =
        linesCalls object imports.lines ++ (lineCalls object [] ++ linesCalls object c.lines) := by
      simp [linesCalls]
    rw [happend, linesCalls_of_isQuiet hobject fun line hline => (hlines line hline).2, hblank,
      hquiet.linesCalls_lines hobject hc, List.nil_append, List.nil_append]

end NestLayers.TypeScript
