import NestLayers.Proofs.PlainClasses

/-!
# Reading methods off a text

A method is read off the lines of a text without knowing how they were made: its signature is a line
that starts with `async`, margin apart, and its body goes up to the next line that only closes a
brace. Read in this way, the text of a class has the methods of the class, whatever is said in
descriptions and messages, as long as no statement looks like a signature or like a closing brace.
-/

namespace NestLayers.TypeScript

open NestLayers.Text

/-- A line without its margin. -/
def bare (line : List Char) : List Char :=
  line.dropWhile isBlank

/-- The line is the signature of a method. -/
def isSignature (line : List Char) : Bool :=
  "async ".toList.isPrefixOf line

/-- A method as it is read: its signature and the lines of its body, without margins. -/
structure MethodText where
  signature : List Char
  body : List (List Char)
  deriving DecidableEq, Repr

/-- The methods in some lines without margins. -/
def methodsIn : List (List Char) → List MethodText
  | [] => []
  | line :: rest =>
    if isSignature line then ⟨line, rest.takeWhile (· != ['\x7d'])⟩ :: methodsIn rest
    else methodsIn rest

/-- The methods that a text declares. -/
def methodsOf (text : String) : List MethodText :=
  methodsIn ((splitNewlines text.toList).map bare)

/-- The text between the first opening parenthesis of a line and its last closing one. -/
def inParentheses (line : List Char) : String :=
  String.ofList (((line.dropWhile (· != '(')).drop 1).reverse.dropWhile (· != ')')).tail.reverse

/-- The name of a method that is read. -/
def MethodText.name (m : MethodText) : String :=
  String.ofList ((m.signature.drop "async ".length).takeWhile (· != '('))

/-- The parameters of a method that is read. -/
def MethodText.parameters (m : MethodText) : String :=
  inParentheses m.signature

/-- What the first statement of a method calls. -/
def MethodText.callee (m : MethodText) : String :=
  String.ofList (((m.body.headD []).takeWhile (· != '(')).reverse.takeWhile (· != ' ')).reverse

/-- What the first statement of a method passes on. -/
def MethodText.passed (m : MethodText) : String :=
  inParentheses (m.body.headD [])

/-- How a method is read. -/
def Method.reading (m : Method) : MethodText :=
  ⟨m.signature.toList, m.body.map fun s => bare s.line.toList⟩

/-- The lines of some texts, without margins. -/
def bareLines (lines : List String) : List (List Char) :=
  lines.flatMap fun line => (splitNewlines line.toList).map bare

/-- Bare lines are those of both parts. -/
theorem bareLines_append (first second : List String) :
    bareLines (first ++ second) = bareLines first ++ bareLines second :=
  List.flatMap_append

/-- Texts of one line each are the lines of all. -/
theorem flatMap_splitNewlines {lines : List String} (h : AreLines lines) :
    (lines.flatMap fun line => splitNewlines line.toList) = lines.map String.toList := by
  induction lines with
  | nil => rfl
  | cons line lines ih =>
    obtain ⟨hline, hlines⟩ := List.forall_mem_cons.mp h
    rw [List.flatMap_cons, splitNewlines_of_isOneLine hline, ih hlines]
    rfl

/-- Single lines are bared one by one. -/
theorem bareLines_of_areLines {lines : List String} (h : AreLines lines) :
    bareLines lines = lines.map fun line => bare line.toList := by
  rw [bareLines, ← List.map_flatMap, flatMap_splitNewlines h, List.map_map]
  rfl

/-- The margin of a body makes no difference. -/
theorem bare_indentLine (line : String) : bare (indentLine step line).toList = bare line.toList := by
  unfold indentLine
  split
  · rfl
  · rw [String.toList_append, bare, List.dropWhile_append_of_pos (List.all_eq_true.mp (by decide))]
    rfl

/-! ## Statements and signatures -/

/-- The text starts in a way that tells it from a signature and from a closing brace. -/
def startsStatement : List Char → Bool
  | [] => false
  | c :: rest => !isBlank c && c != '\x7d' && (c != 'a' || rest.head?.any (· != 's'))

private theorem startsStatement_append {cs : List Char} (h : startsStatement cs = true)
    (rest : List Char) : startsStatement (cs ++ rest) = true := by
  match cs, h with
  | [c], h =>
    simp only [startsStatement, Bool.and_eq_true, List.head?_nil, Option.any_none,
      Bool.or_false] at h
    simp only [List.singleton_append, startsStatement, h, Bool.true_or, Bool.and_true]
  | c :: d :: cs, h => exact h

/-- A statement starts at the front of its text. -/
theorem startsStatement_toList_append {first : String} (h : startsStatement first.toList = true)
    (second : String) : startsStatement (first ++ second).toList = true := by
  rw [String.toList_append]
  exact startsStatement_append h _

/-- A signature starts with two letters that start no statement. -/
theorem exists_of_isSignature {line : List Char} (h : isSignature line = true) :
    ∃ rest, line = 'a' :: 's' :: rest := by
  obtain ⟨rest, rfl⟩ := List.isPrefixOf_iff_prefix.mp h
  exact ⟨"ync ".toList ++ rest, by simp⟩

/-- A line that starts with another character is no signature. -/
theorem isSignature_of_head {line : List Char} (h : line.head? ≠ some 'a') :
    isSignature line = false := by
  by_contra hsignature
  obtain ⟨rest, rfl⟩ := exists_of_isSignature (by simpa using hsignature)
  exact h rfl

/-- What starts a statement is no signature, closes no brace and has no margin. -/
theorem of_startsStatement {cs : List Char} (h : startsStatement cs = true) :
    isSignature cs = false ∧ cs ≠ ['\x7d'] ∧ bare cs = cs := by
  refine ⟨?_, ?_, ?_⟩
  · by_contra hsignature
    obtain ⟨rest, rfl⟩ := exists_of_isSignature (by simpa using hsignature)
    simp [startsStatement] at h
  · rintro rfl
    simp [startsStatement] at h
  · cases cs with
    | nil => rfl
    | cons c cs =>
      simp only [startsStatement, Bool.and_eq_true, Bool.not_eq_true'] at h
      rw [bare, List.dropWhile_cons_of_neg (by simp [h.1.1])]

/-- The statement looks like a statement. -/
def Statement.IsPlain : Statement → Prop
  | .blank => True
  | .remark _ => True
  | .call lead _ _ _ => startsStatement lead.toList = true
  | .other text => startsStatement text.toList = true

/-- A line of a body is no signature and closes no brace. -/
theorem Statement.IsPlain.bare_line {s : Statement} (h : s.IsPlain) :
    isSignature (bare s.line.toList) = false ∧ bare s.line.toList ≠ ['\x7d'] := by
  have hstep (text : String) : bare (step ++ text).toList = bare text.toList := by
    rw [String.toList_append, bare, List.dropWhile_append_of_pos (List.all_eq_true.mp (by decide))]
    rfl
  have hstart {text : String} (htext : startsStatement text.toList = true) :
      isSignature (bare text.toList) = false ∧ bare text.toList ≠ ['\x7d'] := by
    obtain ⟨hsignature, hbrace, hbare⟩ := of_startsStatement htext
    rw [hbare]
    exact ⟨hsignature, hbrace⟩
  cases s with
  | blank => exact ⟨rfl, by decide⟩
  | remark text =>
    rw [line, String.append_assoc, hstep]
    exact hstart (startsStatement_toList_append (by decide) _)
  | call lead receiver method arguments =>
    have hlead : startsStatement lead.toList = true := h
    simp only [line, String.append_assoc, hstep]
    exact hstart (startsStatement_toList_append hlead _)
  | other text =>
    rw [line, hstep]
    exact hstart h

/-- A method whose text can be read: its texts are one line each, and its statements look like
statements. -/
structure Method.IsReadable (m : Method) : Prop where
  texts : AreLines m.texts
  body : ∀ s ∈ m.body, s.IsPlain

/-- Nothing is read off lines without a signature. -/
theorem methodsIn_append {lines : List (List Char)} (h : ∀ line ∈ lines, isSignature line = false)
    (rest : List (List Char)) : methodsIn (lines ++ rest) = methodsIn rest := by
  induction lines with
  | nil => rfl
  | cons line lines ih =>
    obtain ⟨hline, hlines⟩ := List.forall_mem_cons.mp h
    rw [List.cons_append, methodsIn, if_neg (by simp [hline]), ih hlines]

/-- What is read off a heading, a signature, a body and a closing brace. -/
theorem methodsIn_block {heading body : List (List Char)} {signature : List Char}
    (hheading : ∀ line ∈ heading, isSignature line = false)
    (hsignature : isSignature signature = true)
    (hbody : ∀ line ∈ body, isSignature line = false ∧ line ≠ ['\x7d'])
    (rest : List (List Char)) :
    methodsIn (heading ++ signature :: (body ++ ['\x7d'] :: rest)) =
      ⟨signature, body⟩ :: methodsIn rest := by
  have hbrace : methodsIn (['\x7d'] :: rest) = methodsIn rest := by
    rw [methodsIn, if_neg (by decide)]
  have htake : (body ++ ['\x7d'] :: rest).takeWhile (· != ['\x7d']) = body := by
    rw [List.takeWhile_append_of_pos (by simpa using fun line hline => (hbody line hline).2)]
    simp
  rw [methodsIn_append hheading, methodsIn, if_pos hsignature, htake,
    methodsIn_append fun line hline => (hbody line hline).1, hbrace]

/-- **A method is read off its lines.** -/
theorem Method.IsReadable.methodsIn_lines {m : Method} (h : m.IsReadable)
    (rest : List (List Char)) :
    methodsIn (bareLines m.lines ++ rest) = m.reading :: methodsIn rest := by
  have hheading : ∀ line ∈ ((m.doc.map docComment).toList ++ m.decorators.map Decorator.line).map
      fun line => bare line.toList, isSignature line = false := by
    intro line hline
    obtain ⟨text, htext, rfl⟩ := List.mem_map.mp hline
    rcases List.mem_append.mp htext with htext | htext
    · obtain ⟨doc, -, rfl⟩ := Option.map_eq_some_iff.mp (Option.mem_toList.mp htext)
      refine isSignature_of_head ?_
      simp [docComment, bare, isBlank]
    · obtain ⟨d, -, rfl⟩ := List.mem_map.mp htext
      refine isSignature_of_head ?_
      simp [Decorator.line, bare, isBlank]
  have hsignature : bare m.signature.toList = m.signature.toList ∧
      isSignature m.signature.toList = true := by
    simp [signature, bare, isSignature, isBlank]
  have hbody : ∀ line ∈ m.body.map fun s => bare s.line.toList,
      isSignature line = false ∧ line ≠ ['\x7d'] :=
    List.forall_mem_map.mpr fun s hs => (h.body s hs).bare_line
  have hbrace : bare "\x7d".toList = ['\x7d'] := by decide
  have hblock := methodsIn_block hheading hsignature.2 hbody rest
  rw [bareLines_of_areLines (areLines_lines h.texts), lines]
  simpa only [reading, List.map_append, List.map_cons, List.map_map, List.map_nil,
    Function.comp_def, hsignature.1, hbrace, List.append_assoc, List.cons_append,
    List.nil_append] using hblock

/-- **Reading paragraphs.** If something is read off each paragraph, all of it is read off the
paragraphs together. -/
theorem methodsIn_paragraphs {α : Type} {items : List α} (lines : α → List String)
    (methods : α → List MethodText)
    (hitems : ∀ item ∈ items, ∀ rest,
      methodsIn (bareLines (lines item) ++ rest) = methods item ++ methodsIn rest)
    (rest : List (List Char)) :
    methodsIn (bareLines (paragraphs (items.map lines)) ++ rest) =
      items.flatMap methods ++ methodsIn rest := by
  have hblank (rest : List (List Char)) : methodsIn (bareLines [""] ++ rest) = methodsIn rest :=
    methodsIn_append (by decide) rest
  induction items with
  | nil => exact hblank rest
  | cons item items ih =>
    obtain ⟨hitem, hrest⟩ := List.forall_mem_cons.mp hitems
    cases items with
    | nil => simpa [paragraphs] using hitem rest
    | cons next items =>
      have hsplit : bareLines (paragraphs ((item :: next :: items).map lines)) =
          bareLines (lines item) ++
            (bareLines [""] ++ bareLines (paragraphs ((next :: items).map lines))) := by
        rw [← bareLines_append, ← bareLines_append]
        rfl
      rw [hsplit, List.append_assoc, hitem, List.append_assoc, hblank, ih hrest,
        ← List.append_assoc]
      rfl

/-- What stands between the first opening parenthesis and the last closing one is read. -/
theorem inParentheses_eq {before after : List Char} (hbefore : '(' ∉ before)
    (hafter : ')' ∉ after) (inside : List Char) :
    inParentheses (before ++ '(' :: (inside ++ ')' :: after)) = String.ofList inside := by
  have hskipped : ∀ c ∈ before, (c != '(') = true :=
    fun c hc => bne_iff_ne.mpr (ne_of_mem_of_not_mem hc hbefore)
  have hrest : ∀ c ∈ after.reverse, (c != ')') = true := fun c hc =>
    bne_iff_ne.mpr (ne_of_mem_of_not_mem (List.mem_reverse.mp hc) hafter)
  simp only [inParentheses, List.dropWhile_append_of_pos hskipped, List.reverse_append,
    List.reverse_cons, List.append_assoc, List.dropWhile_append_of_pos hrest,
    List.dropWhile_cons, bne_self_eq_false, Bool.false_eq_true, if_false, List.drop_succ_cons,
    List.drop_zero, List.singleton_append, List.tail_cons, List.reverse_reverse]

/-- The name of a method is read off its signature. -/
theorem Method.name_reading {m : Method} (hname : '(' ∉ m.name.toList) :
    m.reading.name = m.name := by
  have hchars : ∀ c ∈ m.name.toList, (c != '(') = true :=
    fun c hc => bne_iff_ne.mpr (ne_of_mem_of_not_mem hc hname)
  obtain ⟨after, hsignature⟩ : ∃ after,
      m.signature.toList.drop "async ".length = m.name.toList ++ '(' :: after := by
    have hlength : "async ".length = 6 := by decide
    unfold signature
    simp [hlength]
  simp [MethodText.name, reading, hsignature, List.takeWhile_append_of_pos hchars]

/-- The parameters of a method are read off its signature. -/
theorem Method.parameters_reading {m : Method} (hname : '(' ∉ m.name.toList)
    (hresult : ∀ type ∈ m.result, ')' ∉ type.toList) : m.reading.parameters = m.parameters := by
  have hbefore : '(' ∉ ("async " ++ m.name).toList := by simp [hname]
  cases hm : m.result with
  | none =>
    have hsignature : m.signature.toList = ("async " ++ m.name).toList ++ '(' ::
        (m.parameters.toList ++ ')' :: " \x7b".toList) := by
      simp [signature, hm]
    rw [MethodText.parameters, reading, hsignature, inParentheses_eq hbefore (by decide),
      String.ofList_toList]
  | some type =>
    have hafter : ')' ∉ (": " ++ type ++ " \x7b").toList := by simp [hresult type hm]
    have hsignature : m.signature.toList = ("async " ++ m.name).toList ++ '(' ::
        (m.parameters.toList ++ ')' :: (": " ++ type ++ " \x7b").toList) := by
      simp [signature, hm]
    rw [MethodText.parameters, reading, hsignature, inParentheses_eq hbefore hafter,
      String.ofList_toList]

/-- The call that a method starts with is read off its first line. -/
theorem Method.call_reading {m : Method} {before receiver method arguments : String}
    {rest : List Statement} (hm : m.body = .call (before ++ " ") receiver method arguments :: rest)
    (hstart : startsStatement (before ++ " ").toList = true) (hbefore : '(' ∉ before.toList)
    (hcallee : ∀ c ∈ (receiver ++ "." ++ method).toList, c ≠ '(' ∧ c ≠ ' ') :
    m.reading.callee = receiver ++ "." ++ method ∧ m.reading.passed = arguments := by
  have hline : m.reading.body.headD [] = (before ++ " ").toList ++
      (receiver ++ "." ++ method).toList ++ '(' :: (arguments.toList ++ ')' :: [';']) := by
    have hbare : bare (Statement.call (before ++ " ") receiver method arguments).line.toList =
        (before ++ " " ++ (receiver ++ "." ++ method ++ "(" ++ arguments ++ ");")).toList := by
      obtain ⟨-, -, hbare⟩ := of_startsStatement (startsStatement_toList_append hstart
        (receiver ++ "." ++ method ++ "(" ++ arguments ++ ");"))
      rw [← hbare, Statement.line]
      simp only [String.append_assoc]
      rw [String.toList_append, bare, List.dropWhile_append_of_pos (List.all_eq_true.mp (by decide))]
      rfl
    simp only [reading, hm, List.map_cons, List.headD_cons, hbare]
    simp
  have hopening : '(' ∉ (before ++ " ").toList ++ (receiver ++ "." ++ method).toList := by
    rw [List.mem_append, not_or]
    exact ⟨by simp [hbefore], fun hmem => (hcallee _ hmem).1 rfl⟩
  have hspace : ∀ c ∈ (receiver ++ "." ++ method).toList.reverse, (c != ' ') = true :=
    fun c hc => bne_iff_ne.mpr (hcallee c (List.mem_reverse.mp hc)).2
  have hskipped : ∀ c ∈ (before ++ " ").toList ++ (receiver ++ "." ++ method).toList,
      (c != '(') = true :=
    fun c hc => bne_iff_ne.mpr (ne_of_mem_of_not_mem hc hopening)
  have hstop (rest : List Char) : Stops (· != '(') ('(' :: rest) := by simp
  constructor
  · have hlead : (before ++ " ").toList.reverse = ' ' :: before.toList.reverse := by simp
    have hspaceStops (rest : List Char) : Stops (· != ' ') (' ' :: rest) := by simp
    rw [MethodText.callee, hline, takeWhile_append_stops hskipped (hstop _), List.reverse_append,
      hlead, takeWhile_append_stops hspace (hspaceStops _), List.reverse_reverse,
      String.ofList_toList]
  · rw [MethodText.passed, hline, inParentheses_eq hopening (by decide), String.ofList_toList]

/-! ## Classes and files -/

/-- The section has no line that looks like a method, besides those of its methods. -/
def Section.HasPlainBodies : Section → Prop
  | .fields lines => ∀ line ∈ lines, startsStatement line.toList = true
  | .construct _ => True
  | .methods members => ∀ m ∈ members, ∀ s ∈ m.body, s.IsPlain
  | .properties _ => False

/-- The methods of a section are read off its lines. -/
theorem Section.methodsIn_lines {s : Section} (htexts : AreLines s.texts)
    (hbodies : s.HasPlainBodies) (rest : List (List Char)) :
    methodsIn (bareLines s.lines ++ rest) =
      s.declaredMethods.map Method.reading ++ methodsIn rest := by
  cases s with
  | fields lines =>
    refine methodsIn_append ?_ rest
    rw [bareLines_of_areLines (areLines_lines htexts)]
    refine List.forall_mem_map.mpr fun line hline => ?_
    obtain ⟨hsignature, -, hbare⟩ := of_startsStatement (hbodies line hline)
    rw [hbare, hsignature]
  | construct parameter =>
    refine methodsIn_append ?_ rest
    rw [bareLines_of_areLines (areLines_lines htexts)]
    refine List.forall_mem_map.mpr (List.forall_mem_singleton.mpr (isSignature_of_head ?_))
    simp [bare, isBlank]
  | methods members =>
    have hreadable : ∀ m ∈ members, m.IsReadable := fun m hm =>
      ⟨fun text htext => htexts text (List.mem_flatMap.mpr ⟨m, hm, htext⟩), hbodies m hm⟩
    have hread := methodsIn_paragraphs Method.lines (fun m => [m.reading])
      (fun m hm => (hreadable m hm).methodsIn_lines) rest
    rw [← List.map_eq_flatMap] at hread
    exact hread
  | properties members => exact hbodies.elim

/-- A class whose lines are one line each. -/
structure ClassDecl.HasLines (c : ClassDecl) : Prop where
  decorators : ∀ d ∈ c.decorators, AreLines d.texts
  name : IsOneLine c.name
  heritage : IsOneLine c.heritage
  sections : ∀ s ∈ c.sections, AreLines s.lines

/-- A class whose methods can be read. -/
structure ClassDecl.IsReadable (c : ClassDecl) : Prop extends c.HasTexts where
  nonempty : c.sections ≠ []
  bodies : ∀ s ∈ c.sections, s.HasPlainBodies

/-- The lines between the braces of a class. -/
def ClassDecl.inner (c : ClassDecl) : List String :=
  (paragraphs (c.sections.map Section.lines)).map (indentLine step)

variable {c : ClassDecl}

/-- The lines of a class with a body. -/
theorem ClassDecl.lines_eq (h : c.sections ≠ []) :
    c.lines = c.decorators.map Decorator.line ++ c.opening :: c.inner ++ ["\x7d"] := by
  rw [lines, if_neg (by simpa using h), inner]
  simp

namespace ClassDecl.HasLines

private theorem areLines_paragraphs (h : c.HasLines) :
    AreLines (paragraphs (c.sections.map Section.lines)) :=
  TypeScript.areLines_paragraphs (List.forall_mem_map.mpr h.sections)

/-- The body of a class consists of lines. -/
theorem areLines_inner (h : c.HasLines) : AreLines c.inner := by
  refine List.forall_mem_map.mpr fun line hline => ?_
  have hone : IsOneLine line := h.areLines_paragraphs line hline
  unfold indentLine
  split
  · exact hone
  · exact isOneLine_append.mpr ⟨by decide, hone⟩

/-- The margin between the braces makes no difference. -/
theorem bareLines_inner (h : c.HasLines) :
    bareLines c.inner = bareLines (paragraphs (c.sections.map Section.lines)) := by
  rw [bareLines_of_areLines h.areLines_inner, bareLines_of_areLines h.areLines_paragraphs, inner,
    List.map_map]
  exact List.map_congr_left fun line _ => bare_indentLine line

/-- A class consists of lines. -/
theorem areLines_lines (h : c.HasLines) : AreLines c.lines := by
  have hdecorators : AreLines (c.decorators.map Decorator.line) :=
    List.forall_mem_map.mpr fun d hd => Decorator.isOneLine_line (h.decorators d hd)
  have hopening := isOneLine_opening h.name h.heritage
  have hbrace : AreLines ["\x7d"] := List.forall_mem_singleton.mpr (by decide)
  by_cases hempty : c.sections = []
  · rw [lines, if_pos (by simpa using hempty)]
    exact List.forall_mem_append.mpr ⟨hdecorators,
      List.forall_mem_singleton.mpr (isOneLine_append.mpr ⟨hopening, by decide⟩)⟩
  · rw [lines_eq hempty]
    exact List.forall_mem_append.mpr ⟨List.forall_mem_append.mpr ⟨hdecorators,
      List.forall_mem_cons.mpr ⟨hopening, h.areLines_inner⟩⟩, hbrace⟩

end ClassDecl.HasLines

/-- A plain class without decorators has its lines. -/
theorem ClassDecl.IsPlain.hasLines (h : c.IsPlain) (hdecorators : c.decorators = []) :
    c.HasLines :=
  ⟨by simp [hdecorators], h.name, h.heritage, h.sections⟩

namespace ClassDecl.IsReadable

/-- A readable class consists of lines. -/
theorem hasLines (h : c.IsReadable) : c.HasLines :=
  ⟨h.decorators, h.name, h.heritage, fun s hs => Section.areLines_lines (h.texts s hs)⟩

/-- The methods of a class are read off the lines between its braces. -/
theorem methodsIn_inner (h : c.IsReadable) (rest : List (List Char)) :
    methodsIn (bareLines c.inner ++ rest) = c.methods.map Method.reading ++ methodsIn rest := by
  rw [h.hasLines.bareLines_inner, methodsIn_paragraphs Section.lines _
    (fun s hs => Section.methodsIn_lines (h.texts s hs) (h.bodies s hs)) rest, methods,
    List.map_flatMap]

/-- **The methods of a class are read off its lines.** -/
theorem methodsIn_lines (h : c.IsReadable) (rest : List (List Char)) :
    methodsIn (bareLines c.lines ++ rest) = c.methods.map Method.reading ++ methodsIn rest := by
  have hdecorators : ∀ line ∈ bareLines (c.decorators.map Decorator.line),
      isSignature line = false := by
    rw [bareLines_of_areLines (List.forall_mem_map.mpr fun d hd =>
      Decorator.isOneLine_line (h.decorators d hd)), List.map_map]
    refine List.forall_mem_map.mpr fun d _ => isSignature_of_head ?_
    simp [Decorator.line, bare, isBlank]
  have hopening : ∀ line ∈ bareLines [c.opening], isSignature line = false := by
    rw [bareLines_of_areLines
      (List.forall_mem_singleton.mpr (isOneLine_opening h.name h.heritage))]
    refine List.forall_mem_singleton.mpr (isSignature_of_head ?_)
    unfold opening
    cases c.exported <;> simp [bare, isBlank]
  have hsplit : bareLines c.lines = bareLines (c.decorators.map Decorator.line) ++
      (bareLines [c.opening] ++ (bareLines c.inner ++ bareLines ["\x7d"])) := by
    rw [lines_eq h.nonempty, bareLines_append, bareLines_append, List.append_assoc,
      ← List.singleton_append, bareLines_append, List.append_assoc]
  have hclosing : ∀ line ∈ bareLines ["\x7d"], isSignature line = false := by decide
  rw [hsplit, List.append_assoc, methodsIn_append hdecorators, List.append_assoc,
    methodsIn_append hopening, List.append_assoc, h.methodsIn_inner, methodsIn_append hclosing]

end ClassDecl.IsReadable

/-- The text of a file whose lines are one line each has these lines, and an empty one. -/
theorem SourceFile.splitNewlines_text {f : SourceFile} (h : AreLines f.lines) :
    splitNewlines f.text.toList = f.lines.map String.toList ++ [[]] := by
  rw [text, splitNewlines_joinLines (by simp), List.flatMap_append, flatMap_splitNewlines h]
  rfl

/-- The lines of the text of a file, without margins. -/
theorem SourceFile.map_bare_splitNewlines (f : SourceFile) :
    (splitNewlines f.text.toList).map bare = bareLines (f.lines ++ [""]) := by
  rw [text, splitNewlines_joinLines (by simp), List.map_flatMap, bareLines]

/-- The lines of a file with one class. -/
theorem SourceFile.lines_ofClass (imports : Imports) (c : ClassDecl) :
    (SourceFile.ofClass imports c).lines =
      if imports.lines.isEmpty then c.lines else imports.lines ++ "" :: c.lines := by
  have hgroup : Group.lines { declarations := [.class_ c] } = c.lines := by
    simp [Group.lines, Declaration.lines]
  rw [lines, ofClass]
  simp only [List.map_cons, List.map_nil, hgroup]
  split <;> rfl

/-- **The methods of a class are read off the text of its file.** -/
theorem methodsOf_ofClass {imports : Imports}
    (himports : ∀ i ∈ imports.entries, IsOneLine i.line) (hc : c.IsReadable) :
    methodsOf (SourceFile.ofClass imports c).text = c.methods.map Method.reading := by
  have hlines : ∀ line ∈ bareLines imports.lines, isSignature line = false := by
    rw [Imports.lines, bareLines_of_areLines (List.forall_mem_map.mpr fun i hi =>
      himports i (List.mem_filter.mp hi).1), List.map_map]
    refine List.forall_mem_map.mpr fun i _ => isSignature_of_head ?_
    simp [Import.line, bare, isBlank]
  have hblank : methodsIn (bareLines [""]) = [] := by decide
  have hclass : methodsIn (bareLines (c.lines ++ [""])) = c.methods.map Method.reading := by
    rw [bareLines_append, hc.methodsIn_lines, hblank, List.append_nil]
  rw [methodsOf, SourceFile.map_bare_splitNewlines, SourceFile.lines_ofClass]
  split
  · exact hclass
  · rw [List.append_assoc, bareLines_append, methodsIn_append hlines, List.cons_append,
      ← List.singleton_append, bareLines_append, methodsIn_append (by decide), hclass]

end NestLayers.TypeScript
