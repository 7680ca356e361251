import NestLayers.Path
import NestLayers.Text.Encoding
import NestLayers.Text.Lines
import NestLayers.Text.Quoted

/-!
# File trees

A file tree holds directories and regular files at places below the top directory. A place
is the list of names that leads to it. A path leads to a place through existing directories,
a double dot one level up.

Writing a file is all or nothing: the new content is complete before it takes the place of
the old one, and a refused write leaves every file as it was.
-/

namespace NestLayers

/-- The content of a regular file: text, or bytes that are not UTF-8 text. -/
inductive Content
  | text (value : String)
  | binary (bytes : List UInt8)
  deriving DecidableEq, Repr

/-- The content that some bytes make up. -/
def Content.ofBytes (bytes : ByteArray) : Content :=
  match String.fromUTF8? bytes with
  | some value => .text value
  | none => .binary bytes.toList

/-- What stands at a place. -/
inductive Entry
  | directory
  | file (content : Content)
  deriving DecidableEq, Repr

/-- The names that lead from the top directory to an entry. -/
abbrev Place := List String

/-- The entries of a file tree below the top directory, each place once. -/
structure FileTree where
  entries : List (Place × Entry) := []
  deriving DecidableEq, Repr

/-- Why the file system refuses an operation. -/
inductive FileFault
  /-- Something stands where a directory is to be made. -/
  | fileExists (path : Path)
  /-- A name leads on through a regular file. -/
  | notADirectory (path : Path)
  /-- A directory on the way is missing. -/
  | missing (path : Path)
  /-- A directory stands where a file is to be put. -/
  | isADirectory (temporary path : Path)
  /-- A file is to be put at a double dot or at the top. -/
  | busy (temporary path : Path)
  /-- A name in the path, or the path itself, is too long. -/
  | nameTooLong (path : Path)
  /-- No name for a temporary file is free. -/
  | noTemporaryName
  /-- A null character is in the path. -/
  | nullCharacter
  /-- Calls are nested too deep. -/
  | nestedTooDeep
  /-- A text cannot be encoded, because of half of a surrogate pair. -/
  | notEncodable (before : String) (half : Nat) (after : List Text.CodePoint)
  /-- The file is not UTF-8 text. -/
  | notText (path : Path)
  deriving DecidableEq, Repr

namespace FileFault

/-- The name of the refusal. -/
def name : FileFault → String
  | .fileExists _ | .noTemporaryName => "FileExistsError"
  | .notADirectory _ => "NotADirectoryError"
  | .missing _ => "FileNotFoundError"
  | .isADirectory _ _ => "IsADirectoryError"
  | .busy _ _ | .nameTooLong _ => "OSError"
  | .nullCharacter => "ValueError"
  | .nestedTooDeep => "RecursionError"
  | .notEncodable _ _ _ => "UnicodeEncodeError"
  | .notText _ => "UnicodeDecodeError"

/-- The message for a refusal. -/
def message : FileFault → String
  | .fileExists path => "[Errno 17] File exists: " ++ Text.quoted path.toString
  | .notADirectory path => "[Errno 20] Not a directory: " ++ Text.quoted path.toString
  | .missing path => "[Errno 2] No such file or directory: " ++ Text.quoted path.toString
  | .isADirectory temporary path =>
    "[Errno 21] Is a directory: " ++ Text.quoted temporary.toString ++ " -> " ++
      Text.quoted path.toString
  | .busy temporary path =>
    "[Errno 16] Device or resource busy: " ++ Text.quoted temporary.toString ++ " -> " ++
      Text.quoted path.toString
  | .nameTooLong path => "[Errno 36] File name too long: " ++ Text.quoted path.toString
  | .noTemporaryName => "[Errno 17] No usable temporary file name found"
  | .nullCharacter => "embedded null byte"
  | .nestedTooDeep => "maximum recursion depth exceeded"
  | .notEncodable before half after => Text.encodingMessage before half after
  | .notText path => "The file " ++ path.toString ++ " is not UTF-8 text."

/-- Whether the file system itself refuses the operation. A path or a text that cannot be passed to
it, calls that are nested too deep and a file that is no text are not its refusals. -/
def isRefusal : FileFault → Bool
  | .nullCharacter | .nestedTooDeep | .notEncodable _ _ _ | .notText _ => false
  | _ => true

end FileFault

namespace FileTree

/-- What stands at a place. The top directory is always there. -/
def get? (tree : FileTree) (place : Place) : Option Entry :=
  if place = [] then some .directory else tree.entries.lookup place

/-- Whether a directory stands at a place. -/
def isDirectoryAt (tree : FileTree) (place : Place) : Bool :=
  tree.get? place == some .directory

/-- Puts an entry at a place, over what stood there. -/
def insert (tree : FileTree) (place : Place) (entry : Entry) : FileTree :=
  ⟨tree.entries.filter (·.1 != place) ++ [(place, entry)]⟩

/-- Takes away what stands at a place. -/
def erase (tree : FileTree) (place : Place) : FileTree :=
  ⟨tree.entries.filter (·.1 != place)⟩

/-- Takes away what stands at a place, with everything below it. -/
def eraseBelow (tree : FileTree) (place : Place) : FileTree :=
  ⟨tree.entries.filter fun (other, _) => !place.isPrefixOf other⟩

/-- Dropping the entries of one place does not change what is found at another. -/
theorem lookup_filter_of_ne {place other : Place} (h : other ≠ place)
    (entries : List (Place × Entry)) :
    (entries.filter (·.1 != place)).lookup other = entries.lookup other := by
  induction entries with
  | nil => rfl
  | cons entry rest ih =>
    obtain ⟨first, value⟩ := entry
    by_cases hfirst : first = place
    · subst hfirst
      simp [List.lookup_cons, beq_false_of_ne h, ih]
    · by_cases hother : other = first
      · subst hother
        simp [h]
      · simp [hfirst, List.lookup_cons, beq_false_of_ne hother, ih]

/-- Nothing is found at a place whose entries are dropped. -/
theorem lookup_filter_self (place : Place) (entries : List (Place × Entry)) :
    (entries.filter (·.1 != place)).lookup place = none := by
  induction entries with
  | nil => rfl
  | cons entry rest ih =>
    obtain ⟨first, value⟩ := entry
    by_cases hfirst : first = place
    · simp [hfirst, ih]
    · have hplace : place ≠ first := fun h => hfirst h.symm
      simp [hfirst, List.lookup_cons, beq_false_of_ne hplace, ih]

/-- What was put at a place stands there. -/
theorem get?_insert_self {tree : FileTree} {place : Place} {entry : Entry} (h : place ≠ []) :
    (tree.insert place entry).get? place = some entry := by
  simp [get?, insert, h, List.lookup_append, lookup_filter_self]

/-- Putting an entry at a place changes no other place. -/
theorem get?_insert_of_ne {tree : FileTree} {place other : Place} {entry : Entry}
    (h : other ≠ place) : (tree.insert place entry).get? other = tree.get? other := by
  simp [get?, insert, List.lookup_append, lookup_filter_of_ne h, List.lookup_cons,
    beq_false_of_ne h]

/-- Nothing stands at a place after what stood there was taken away. -/
theorem get?_erase_self {tree : FileTree} {place : Place} (h : place ≠ []) :
    (tree.erase place).get? place = none := by
  simp [get?, erase, h, lookup_filter_self]

/-- Taking away what stands at a place changes no other place. -/
theorem get?_erase_of_ne {tree : FileTree} {place other : Place} (h : other ≠ place) :
    (tree.erase place).get? other = tree.get? other := by
  simp [get?, erase, lookup_filter_of_ne h]

/-- Why a path leads nowhere. -/
inductive Obstacle
  | missing
  | notADirectory
  | nameTooLong
  | nullCharacter
  deriving DecidableEq, Repr

/-- The refusal of an operation on a path that leads nowhere. -/
def Obstacle.fault (path : Path) : Obstacle → FileFault
  | .missing => .missing path
  | .notADirectory => .notADirectory path
  | .nameTooLong => .nameTooLong path
  | .nullCharacter => .nullCharacter

/-- The greatest size of a name in bytes. -/
def longestName : Nat := 255

/-- The greatest size of a path in bytes. -/
def longestPath : Nat := 4095

/-- How many calls of a function that calls itself may be nested. -/
def deepestNesting : Nat := 990

/-- The place that some names lead to from another one. Every name leads on from an existing
directory; the last one may lead to nothing. -/
def follow (tree : FileTree) (place : Place) : List String → Except Obstacle Place
  | [] => .ok place
  | name :: names =>
    match tree.get? place with
    | some .directory =>
      if longestName < name.utf8ByteSize then .error .nameTooLong
      else tree.follow (if name = ".." then place.dropLast else place ++ [name]) names
    | some (.file _) => .error .notADirectory
    | none => .error .missing

/-- The place that a path leads to. -/
def locate (tree : FileTree) (path : Path) : Except Obstacle Place :=
  if path.hasNull then .error .nullCharacter
  else if longestPath < path.toString.utf8ByteSize then .error .nameTooLong
  else tree.follow [] path.parts

/-- What a path leads to. -/
def at? (tree : FileTree) (path : Path) : Option Entry :=
  match tree.locate path with
  | .ok place => tree.get? place
  | .error _ => none

/-- What a path leads to. A path that leads nowhere leads to nothing, but one that is too long is
refused. -/
def find (tree : FileTree) (path : Path) : Except FileFault (Option Entry) :=
  match tree.locate path with
  | .ok place => .ok (tree.get? place)
  | .error .nameTooLong => .error (.nameTooLong path)
  | .error _ => .ok none

/-- Whether a path leads to a directory. -/
def isDirectory (tree : FileTree) (path : Path) : Bool :=
  tree.at? path == some .directory

/-- The last names of the entries directly below a place, in increasing order. -/
def children (tree : FileTree) (place : Place) : List String :=
  Text.inOrder (tree.entries.filterMap fun (other, _) =>
    match other.getLast? with
    | some name => if other.dropLast = place then some name else none
    | none => none)

/-- The path of a name in a directory. -/
def entryPath (directory : Path) (name : String) : Path :=
  { directory with parts := directory.parts ++ [name] }

/-- What stands at an entry that a directory lists. It is looked up by its path, which leads to the
entry unless it is too long. -/
def findEntry (tree : FileTree) (place : Place) (directory : Path) (name : String) :
    Except FileFault (Option Entry) :=
  let path := entryPath directory name
  if longestPath < path.toString.utf8ByteSize then .error (.nameTooLong path)
  else .ok (tree.get? (place ++ [name]))

/-- The first directory of a name below a directory: the entries are visited in increasing order of
their names, and each directory with what it holds before the next entry. The search calls itself
for every directory that it visits, and `depth` is the number of calls that may be nested. -/
def searchFrom (tree : FileTree) (name : String) :
    (depth : Nat) → (place : Place) → (directory : Path) → Except FileFault (Option Path)
  | 0, _, _ => .error .nestedTooDeep
  | depth + 1, place, directory =>
    (tree.children place).findSomeM? fun child => do
      match ← tree.findEntry place directory child with
      | some .directory =>
        if child = name then return some (entryPath directory child)
        else tree.searchFrom name depth (place ++ [child]) (entryPath directory child)
      | _ => return none

/-- The first directory of a name below a path. What is not a directory has none below it. -/
def findDirectory (tree : FileTree) (root : Path) (name : String) :
    Except FileFault (Option Path) := do
  match ← tree.find root, tree.locate root with
  | some .directory, .ok place => tree.searchFrom name deepestNesting place root
  | _, _ => return none

/-- Makes one directory. -/
def makeDirectory (tree : FileTree) (path : Path) : Except FileFault FileTree :=
  match tree.locate path with
  | .error obstacle => .error (obstacle.fault path)
  | .ok place =>
    match tree.get? place with
    | some _ => .error (.fileExists path)
    | none => .ok (tree.insert place .directory)

/-- Makes one directory, unless it is there. -/
def ensureDirectory (tree : FileTree) (path : Path) : Except FileFault FileTree :=
  match tree.makeDirectory path with
  | .ok made => .ok made
  | .error fault => if tree.isDirectory path then .ok tree else .error fault

/-- Makes a directory and those above it, unless they are there. The names come reversed, from
the last one up, and `depth` is the number of calls that may be nested. The tree keeps the
directories that were made before a refusal. -/
def makeDirectoriesUp (tree : FileTree) (start : PathStart) :
    (depth : Nat) → List String → FileTree × Option FileFault
  | 0, _ => (tree, some .nestedTooDeep)
  | _ + 1, [] => (tree, none)
  | depth + 1, name :: above =>
    let path : Path := ⟨start, (name :: above).reverse⟩
    match tree.makeDirectory path with
    | .ok made => (made, none)
    | .error (.missing _) =>
      match tree.makeDirectoriesUp start depth above with
      | (made, some fault) => (made, some fault)
      | (made, none) =>
        match made.ensureDirectory path with
        | .ok done => (done, none)
        | .error fault => (made, some fault)
    | .error fault => (tree, if tree.isDirectory path then none else some fault)

/-- Makes a directory and those above it, unless they are there. -/
def makeDirectories (tree : FileTree) (path : Path) : FileTree × Option FileFault :=
  tree.makeDirectoriesUp path.start deepestNesting path.parts.reverse

/-- The name of a temporary file for a name, with a random part. -/
def temporaryName (name random : String) : String :=
  "." ++ name ++ "." ++ random ++ ".tmp"

/-- The path of the temporary file for a path, without double dots. Its random part is shown as a
row of crosses. -/
def temporaryPath (path : Path) : Path :=
  path.parent.collapse / temporaryName path.name "XXXXXXXX"

/-- The number of random parts that are tried. -/
def temporaryAttempts : Nat := 10000

/-- The random part of an attempt: eight characters that tell it from the other ones. -/
def randomPart (attempt : Nat) : String :=
  String.ofList ((Nat.toDigits 10 (100000000 + attempt)).drop 1)

/-- A free place for a temporary file in a directory, if one of some attempts meets it. -/
def temporaryPlace? (tree : FileTree) (directory : Place) (name : String) :
    (attempts : Nat) → Option Place
  | 0 => none
  | attempts + 1 =>
    let place := directory ++ [temporaryName name (randomPart attempts)]
    match tree.get? place with
    | none => some place
    | some _ => tree.temporaryPlace? directory name attempts

/-- Moves a temporary file with some content to a path, over a regular file there. -/
def replaceFile (tree : FileTree) (temporary : Place) (path : Path) (content : Content) :
    Except FileFault FileTree :=
  if path.parts.isEmpty || path.name == ".." then .error (.busy (temporaryPath path) path)
  else
    match tree.locate path with
    | .error obstacle => .error (obstacle.fault path)
    | .ok place =>
      if tree.isDirectoryAt place then .error (.isADirectory (temporaryPath path) path)
      else .ok ((tree.erase temporary).insert place (.file content))

/-- Puts a content at a path whose directory is there. The content goes to a temporary file,
which then takes its place, or is taken away if it cannot. -/
def putFile (tree : FileTree) (path : Path) (content : Content) : FileTree × Option FileFault :=
  match tree.locate (temporaryPath path) with
  | .error obstacle => (tree, some (obstacle.fault (temporaryPath path)))
  | .ok shown =>
    match tree.temporaryPlace? shown.dropLast path.name temporaryAttempts with
    | none => (tree, some .noTemporaryName)
    | some temporary =>
      let staged := tree.insert temporary (.file content)
      match staged.replaceFile temporary path content with
      | .error fault => (staged.erase temporary, some fault)
      | .ok done => (done, none)

/-- The text that a path leads to, with its line ends turned into line feeds. A path that does
not lead to a regular file has no text. -/
def readText (tree : FileTree) (path : Path) : Except FileFault String :=
  match tree.at? path with
  | some (.file (.text value)) => .ok (String.ofList (Text.unifyNewlines value.toList))
  | some (.file (.binary _)) => .error (.notText path)
  | _ => .error (.missing path)

/-- The regular files directly in a directory, in increasing order of their names. -/
def filesIn (tree : FileTree) (path : Path) : Except FileFault (List Path) :=
  match tree.locate path with
  | .error _ => .ok []
  | .ok place => (tree.children place).filterMapM fun name => do
    match ← tree.findEntry place path name with
    | some (.file _) => return some (entryPath path name)
    | _ => return none

/-- Takes away those of some entries of a directory that are regular files, one after another, and
tells which they were. The tree keeps those after an entry that is refused. -/
def clearNames (tree : FileTree) (place : Place) (path : Path) :
    List String → FileTree × Except FileFault (List Path)
  | [] => (tree, .ok [])
  | name :: names =>
    match tree.findEntry place path name with
    | .error fault => (tree, .error fault)
    | .ok (some (.file _)) =>
      let (cleared, removed) := (tree.erase (place ++ [name])).clearNames place path names
      (cleared, removed.map (entryPath path name :: ·))
    | .ok _ => tree.clearNames place path names

/-- Takes away the regular files directly in a directory, and tells which they were. -/
def clearFiles (tree : FileTree) (path : Path) : FileTree × Except FileFault (List Path) :=
  match tree.locate path with
  | .error _ => (tree, .ok [])
  | .ok place => tree.clearNames place path (tree.children place)

/-- All entries below a place, as relative paths in increasing order; directories end with a
slash. -/
def listing (tree : FileTree) (place : Place) : List String :=
  Text.inOrder (tree.entries.filterMap fun (other, entry) =>
    if place.isPrefixOf other && place.length < other.length then
      let path := String.intercalate "/" (other.drop place.length)
      some (if entry == .directory then path ++ "/" else path)
    else none)

end FileTree

end NestLayers
