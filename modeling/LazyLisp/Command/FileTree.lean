/-!
# Files

Where the command finds its program. `FileError` says why a path cannot be
read; `FileTree` is a directory as a value, with what there is in and below it,
in which paths are resolved component by component, as they are on disk.
-/

namespace LazyLisp

/-- Why a path cannot be read. -/
inductive FileError
  /-- There is nothing at the path. -/
  | missing
  /-- There is a directory at the path. -/
  | isDirectory
  /-- The path goes through a file as if it were a directory. -/
  | notDirectory
  /-- The path, or one of the names in it, is longer than the system takes. -/
  | tooLong
  /-- Another cause, in the words of the system. -/
  | other (text : String)
  deriving DecidableEq, Repr

namespace FileError

/-- The text of the error. -/
def message : FileError → String
  | missing => "No such file or directory"
  | isDirectory => "Is a directory"
  | notDirectory => "Not a directory"
  | tooLong => "File name too long"
  | other text => text

end FileError

/-- The path starts at the root of all directories. -/
def isAbsolute (path : String) : Bool :=
  path.toList.head? == some '/'

/-- Cuts a list of characters at its slashes. -/
def splitSlashes : List Char → List (List Char)
  | [] => [[]]
  | c :: cs =>
    match splitSlashes cs with
    | [] => [[c]]
    | piece :: pieces => if c == '/' then [] :: piece :: pieces else (c :: piece) :: pieces

/-- The components of a path. Empty ones, and those that are a single point,
    mean nothing and are dropped; the empty path is the current directory. -/
def pathComponents (path : String) : List String :=
  ((splitSlashes path.toList).map String.ofList).filter fun c => c ≠ "" && c ≠ "."

/-- The path in its plain form. -/
def plainPath (path : String) : String :=
  let joined := "/".intercalate (pathComponents path)
  if isAbsolute path then "/" ++ joined
  else if joined = "" then "."
  else joined

/-- The largest number of bytes in a name. -/
def nameLimit : Nat := 255

/-- The largest number of bytes in a path. -/
def pathLimit : Nat := 4095

/-- Why nothing is found along a path through directories of which nothing is
    known: they hold no name, and what is above one is another. -/
def lostPath : List String → FileError
  | [] => .isDirectory
  | c :: path =>
    if c = ".." then lostPath path
    else if nameLimit < c.utf8ByteSize then .tooLong
    else .missing

/-- The current directory: the files and directories below it, each by the
    components of its path. -/
structure FileTree where
  files : List (List String × ByteArray)
  directories : List (List String)

namespace FileTree

/-- There is a directory at the place, the current one included; a file has
    all directories on its way. -/
def isDirectory (tree : FileTree) (place : List String) : Bool :=
  place.isEmpty || tree.directories.any place.isPrefixOf
    || tree.files.any fun (file, _) => place.isPrefixOf file && place.length < file.length

/-- Goes from a place along the components of a path, and reads the file at its
    end. A name is looked for only where there is a directory, and only if it is
    not too long. Nothing is known of what is above the current directory. -/
def walk (tree : FileTree) : List String → List String → Except FileError ByteArray
  | place, [] =>
    match tree.files.lookup place with
    | some content => .ok content
    | none => if tree.isDirectory place then .error .isDirectory else .error .missing
  | place, c :: path =>
    if (tree.files.lookup place).isSome then .error .notDirectory
    else if !tree.isDirectory place then .error .missing
    else if c = ".." then
      if !place.isEmpty then walk tree place.dropLast path else .error (lostPath path)
    else if nameLimit < c.utf8ByteSize then .error .tooLong
    else walk tree (place ++ [c]) path

/-- Reads the file at a path. -/
def read (tree : FileTree) (path : String) : Except FileError ByteArray :=
  if pathLimit < (plainPath path).utf8ByteSize then .error .tooLong
  else if isAbsolute path then .error (lostPath (pathComponents path))
  else tree.walk [] (pathComponents path)

end FileTree

end LazyLisp
