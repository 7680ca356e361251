import NestLayers.Text.Search
import NestLayers.Text.Word

/-!
# Command-line arguments

The command line is `generate LAYER [NAME]` with options before, between and after the plain
arguments. A long option may be shortened as long as it stays unambiguous, and takes its value
in the next argument or after an equals sign. Short options may be joined, also after an equals
sign. Two hyphens end the options and are never a value. Layer and name are taken together at
the first plain argument, so that an option between them leaves the name over.

Arguments that no option and no position takes are an error, but only at the end: help that is
asked for before that is given.
-/

namespace NestLayers.CommandLine

/-- The options. -/
inductive Switch
  | help
  | version
  | root
  | config
  | dryRun
  | verbose
  | quiet
  deriving DecidableEq, Repr

/-- Whether an option takes a value. -/
def Switch.takesValue : Switch → Bool
  | .root | .config => true
  | _ => false

/-- The spellings of options, which differ between the program and its command. -/
abbrev SwitchTable := List (String × Switch)

/-- The options before the command. -/
def programSwitches : SwitchTable :=
  [("-h", .help), ("--help", .help), ("--version", .version)]

/-- The options after the command. -/
def generateSwitches : SwitchTable :=
  [("-h", .help), ("--help", .help), ("--root", .root), ("--config", .config),
   ("--dry-run", .dryRun), ("-v", .verbose), ("--verbose", .verbose), ("-q", .quiet),
   ("--quiet", .quiet)]

/-- Text that follows an option in the same argument. -/
inductive Tail
  | none
  /-- Text after an equals sign. -/
  | value (text : List Char)
  /-- Text directly after a short option. -/
  | joined (text : List Char)
  deriving DecidableEq, Repr

/-- An argument as a table of options sees it. -/
inductive Word
  | plain (text : String)
  | separator
  | switch (spelling : String) (option : Switch) (tail : Tail)
  | unknown
  deriving DecidableEq, Repr

/-- Whether an argument looks like a negative number. A line feed at its end does not matter. -/
def isNegativeNumber (cs : List Char) : Bool :=
  match Text.dropEnd ['\n'] cs with
  | '-' :: number =>
    let fraction := number.dropWhile Text.isDecimalDigit
    if fraction.isEmpty then !number.isEmpty
    else
      match fraction with
      | '.' :: digits => !digits.isEmpty && digits.all Text.isDecimalDigit
      | _ => false
  | _ => false

/-- The part before the first equals sign, and the part after it if there is one. -/
def splitEquals (cs : List Char) : List Char × Tail :=
  match cs.dropWhile (· != '=') with
  | [] => (cs, .none)
  | _ :: value => (cs.takeWhile (· != '='), .value value)

/-- The options that an argument may mean: for two hyphens those it is the beginning of, for
one hyphen the short option it starts with. -/
def candidates (table : SwitchTable) (cs : List Char) : List (String × Switch × Tail) :=
  match cs with
  | '-' :: '-' :: _ =>
    let (start, tail) := splitEquals cs
    table.filterMap fun (spelling, option) =>
      if (Text.afterStart? start spelling.toList).isSome then some (spelling, option, tail)
      else none
  | '-' :: letter :: rest =>
    table.filterMap fun (spelling, option) =>
      if spelling.toList = ['-', letter] then some (spelling, option, .joined rest) else none
  | _ => []

/-- What an argument is to a table of options; none if it may mean several options. -/
def classify (table : SwitchTable) (text : String) : Option Word :=
  let cs := text.toList
  if cs.head? != some '-' then some (.plain text)
  else
    match table.lookup text with
    | some option => some (.switch text option .none)
    | none =>
      if cs.length = 1 then some (.plain text)
      else
        let (start, tail) := splitEquals cs
        match table.lookup (String.ofList start), tail with
        | some option, .value value => some (.switch (String.ofList start) option (.value value))
        | _, _ =>
          match candidates table cs with
          | [(spelling, option, tail)] => some (.switch spelling option tail)
          | [] =>
            if isNegativeNumber cs || cs.contains ' ' then some (.plain text) else some .unknown
          | _ => none

/-- What the arguments are to a table of options. After two hyphens all are plain. -/
def classifyAll (table : SwitchTable) : List String → Option (List Word)
  | [] => some []
  | "--" :: rest => some (.separator :: rest.map Word.plain)
  | text :: rest => do
    let word ← classify table text
    let words ← classifyAll table rest
    return word :: words

/-- What is asked of the generator. -/
structure GenerateOptions where
  layer : String := ""
  name : String := ""
  /-- Where the project is; two hyphens after an equals sign name no place. -/
  root : Option String := some "."
  config : String := ""
  dryRun : Bool := false
  verbosity : Nat := 0
  quiet : Bool := false
  deriving DecidableEq, Repr

/-- What a command line asks for. -/
inductive Request
  | help
  | version
  | generate (options : GenerateOptions)
  deriving DecidableEq, Repr

/-- Why reading stops before the end of the arguments. -/
inductive Halt
  | help
  | version
  | misuse
  deriving DecidableEq, Repr

/-- The request, if reading stopped for one. -/
def Halt.request? : Halt → Option Request
  | .help => some .help
  | .version => some .version
  | .misuse => none

/-- The short option of a letter. -/
def shortSwitch (table : SwitchTable) (letter : Char) : Except Halt (Switch × String) :=
  match table.lookup (String.ofList ['-', letter]) with
  | some option => .ok (option, "")
  | none => .error .misuse

/-- Whether a spelling is that of a short option. -/
def isShort (spelling : String) : Bool :=
  spelling.length = 2

/-- Reads an argument that starts with an option: the options in it with their values. `next` is
the argument after it, if that is a plain one, and the result tells whether it was taken. -/
def readSwitch (table : SwitchTable) (spelling : String) (option : Switch) (tail : Tail)
    (next : Option String) : Except Halt (List (Switch × String) × Bool) :=
  match tail with
  | .none =>
    if option.takesValue then
      match next with
      | some value => .ok ([(option, value)], true)
      | none => .error .misuse
    else .ok ([(option, "")], false)
  | .value text =>
    if option.takesValue then .ok ([(option, String.ofList text)], false)
    else if isShort spelling && !text.isEmpty then do
      return ((option, "") :: (← text.mapM (shortSwitch table)), false)
    else .error .misuse
  | .joined letters => do
    return ((option, "") :: (← letters.mapM (shortSwitch table)), false)

/-- Carries out an option. -/
def GenerateOptions.set (o : GenerateOptions) : Switch × String → Except Halt GenerateOptions
  | (.help, _) => .error .help
  | (.version, _) => .error .version
  | (.root, value) => .ok { o with root := if value = "--" then none else some value }
  | (.config, value) => .ok { o with config := if value = "--" then "" else value }
  | (.dryRun, _) => .ok { o with dryRun := true }
  | (.verbose, _) => .ok { o with verbosity := o.verbosity + 1 }
  | (.quiet, _) => .ok { o with quiet := true }

/-- The plain argument at the start of some words. -/
def nextPlain : List Word → Option String
  | .plain text :: _ => some text
  | _ => none

/-- Whether a word is an option. -/
def Word.isSwitch : Word → Bool
  | .switch _ _ _ | .unknown => true
  | .plain _ | .separator => false

/-- The words without a separator at their start. -/
def afterSeparator : List Word → List Word
  | .separator :: rest => rest
  | words => words

/-- The layer and the name at the start of some words, and the words after them. A separator may
stand before, between and after them. Two hyphens are no name. -/
def takePositions (words : List Word) : Option (String × String × List Word) :=
  match afterSeparator words with
  | .plain layer :: rest =>
    match afterSeparator rest with
    | .plain name :: rest => some (layer, if name = "--" then "" else name, afterSeparator rest)
    | rest => some (layer, "", rest)
  | _ => none

/-- How far the arguments of the command are read. -/
structure Progress where
  options : GenerateOptions := {}
  /-- Whether layer and name are taken. -/
  positioned : Bool := false
  /-- Whether an argument was left over. -/
  leftover : Bool := false
  deriving DecidableEq, Repr

/-- Reads the arguments of the command. `fuel` bounds the number of words. -/
def readWords (table : SwitchTable) :
    (fuel : Nat) → List Word → Progress → Except Halt Progress
  | 0, _, progress => .ok progress
  | _ + 1, [], progress => .ok progress
  | fuel + 1, .unknown :: rest, progress =>
    readWords table fuel rest { progress with leftover := true }
  | fuel + 1, .switch spelling option tail :: rest, progress => do
    let (switches, taken) ← readSwitch table spelling option tail (nextPlain rest)
    let options ← switches.foldlM GenerateOptions.set progress.options
    readWords table fuel (if taken then rest.drop 1 else rest) { progress with options }
  | fuel + 1, word :: rest, progress =>
    match if progress.positioned then none else takePositions (word :: rest) with
    | some (layer, name, rest) =>
      readWords table fuel rest
        { progress with options := { progress.options with layer, name }, positioned := true }
    | none => readWords table fuel (rest.dropWhile (!·.isSwitch)) { progress with leftover := true }

/-- Reads the arguments after the command. -/
def readGenerate (args : List String) : Except Halt Progress := do
  let some words := classifyAll generateSwitches args | .error .misuse
  let progress ← readWords generateSwitches words.length words {}
  if progress.positioned then .ok progress else .error .misuse

/-- Reads the words before the command, each with its argument. -/
def readProgram (leftover : Bool) : List (Word × String) → Except Halt GenerateOptions
  | [] => .error .misuse
  | (.separator, _) :: _ => .error .misuse
  | (.unknown, _) :: rest => readProgram true rest
  | (.switch spelling option tail, _) :: _ => do
    let (switches, _) ← readSwitch programSwitches spelling option tail none
    switches.foldlM GenerateOptions.set {}
  | (.plain command, _) :: rest => do
    if command = "generate" || command = "g" then
      let progress ← readGenerate (rest.map (·.2))
      if leftover || progress.leftover then .error .misuse else .ok progress.options
    else .error .misuse

/-- Reads a command line; none is a misuse. -/
def Request.ofArguments? (args : List String) : Option Request :=
  match classifyAll programSwitches args with
  | none => none
  | some words =>
    match readProgram false (words.zip args) with
    | .ok options => some (.generate options)
    | .error halt => halt.request?

end NestLayers.CommandLine
