/-!
The files that commands work on. Commands see them only through a `FileSystem`, so they run the same
on a disk and on a tree held in memory. A path is followed name by name: every name but the last has
to lead to a directory, also one that `..` leaves again.
-/
namespace Fonds

/-- Why a file or directory cannot be used. -/
inductive FileError where
  | missing
  | alreadyThere
  /-- A name on the way leads to a file. -/
  | notADirectory
  | isADirectory
  /-- What else a disk may say. -/
  | other (text : String)
  deriving DecidableEq

/-- What commands ask of the files. -/
structure FileSystem (m : Type → Type) where
  read : String → ExceptT FileError m String
  /-- Whether there is a file or directory. That is unknown if a name on the way leads to a file. -/
  exists? : String → ExceptT FileError m Bool
  /-- Writes a file whose directory is there. -/
  write : String → String → ExceptT FileError m Unit
  /-- Creates a directory unless it is there. What holds it has to be there. -/
  createDirectory : String → ExceptT FileError m Unit

namespace FileError

def message : FileError → String
  | .missing => "No such file or directory (os error 2)"
  | .alreadyThere => "File exists (os error 17)"
  | .notADirectory => "Not a directory (os error 20)"
  | .isADirectory => "Is a directory (os error 21)"
  | .other text => text

end FileError

/-- The path of a name in a directory. An absolute name stands for itself. -/
def joinPath (dir name : String) : String :=
  if dir = "" ∨ name.toList.head? = some '/' then name
  else if dir.toList.getLast? = some '/' then dir ++ name
  else dir ++ "/" ++ name

/-- The names on a path. A slash at the end leaves an empty name behind it. -/
def pathNames (path : String) : List String := path.splitOn "/"

/-- The path of names. -/
def pathOf (names : List String) : String := String.intercalate "/" names

/-- Whether a name on a path stays where it is. -/
def staysThere (name : String) : Bool := name = "" ∨ name = "."

/-- Names without those at the end that have a property. -/
def withoutEnd (p : String → Bool) (names : List String) : List String :=
  (names.reverse.dropWhile p).reverse

/-- The path of the directory that holds what a path names. -/
def directoryOf (path : String) : String :=
  pathOf (withoutEnd staysThere (withoutEnd staysThere (pathNames path)).dropLast)

namespace FileSystem

variable {m : Type → Type} [Monad m]

/-- Creates the directories that names lead through, each after those before it. What follows the
last name that leads anywhere belongs to it, so `a/.` is not there to create before `a` is. -/
def createThrough (files : FileSystem m) (passed : List String) :
    List String → ExceptT FileError m Unit
  | [] => pure ()
  | name :: rest => do
    let passed := passed ++ [name]
    if rest.all staysThere then files.createDirectory (pathOf (passed ++ rest))
    else
      unless staysThere name do files.createDirectory (pathOf passed)
      files.createThrough passed rest

/-- Creates the directories on a path that are not there yet. Those created before one cannot be
stay. -/
def createDirectories (files : FileSystem m) (path : String) : ExceptT FileError m Unit :=
  unless path = "" do files.createThrough [] (pathNames path)

/-- Writes a file, creating its directory first. -/
def place (files : FileSystem m) (path text : String) : ExceptT FileError m Unit := do
  files.createDirectories (directoryOf path)
  files.write path text

end FileSystem

/-- Directories and files in memory, by the names that lead to them from the root. -/
structure FileTree where
  directories : List (List String)
  files : List (List String × String)

/-- What a path leads to. -/
inductive Place where
  | directory (names : List String)
  | file (names : List String) (text : String)
  /-- Nothing yet, in a directory that is there. -/
  | vacant (names : List String)

namespace FileTree

/-- A tree with nothing in it but one directory below its root. -/
def ofDirectory (name : String) : FileTree := ⟨[[name]], []⟩

def isDirectory (t : FileTree) (names : List String) : Bool := names ∈ t.directories

def file? (t : FileTree) (names : List String) : Option String := Option.map Prod.snd <|
  t.files.find? fun file => file.1 = names

/-- Follows names from a directory. -/
def follow (t : FileTree) (here : List String) : List String → Except FileError Place
  | [] => .ok (.directory here)
  | name :: rest =>
    if staysThere name then t.follow here rest
    else if name = ".." then t.follow here.dropLast rest
    else
      let there := here ++ [name]
      if t.isDirectory there then t.follow there rest
      else
        match t.file? there, rest with
        | some text, [] => .ok (.file there text)
        | some _, _ => .error .notADirectory
        | none, [] => .ok (.vacant there)
        | none, _ => .error .missing

def locate (t : FileTree) (path : String) : Except FileError Place := t.follow [] (pathNames path)

def read (t : FileTree) (path : String) : Except FileError String := do
  match ← t.locate path with
  | .file _ text => .ok text
  | .directory _ => .error .isADirectory
  | .vacant _ => .error .missing

def exists? (t : FileTree) (path : String) : Except FileError Bool :=
  match t.locate path with
  | .ok (.vacant _) | .error .missing => .ok false
  | .ok _ => .ok true
  | .error e => .error e

def write (t : FileTree) (path text : String) : Except FileError FileTree := do
  match ← t.locate path with
  | .file names _ | .vacant names =>
    .ok { t with files := (names, text) :: t.files.filter (·.1 ≠ names) }
  | .directory _ => .error .isADirectory

/-- Creates a directory unless it is there. Slashes at the end do not matter. -/
def createDirectory (t : FileTree) (path : String) : Except FileError FileTree := do
  match ← t.follow [] (withoutEnd (· = "") (pathNames path)) with
  | .directory _ => .ok t
  | .file _ _ => .error .alreadyThere
  | .vacant names => .ok { t with directories := names :: t.directories }

/-- Runs a change that may fail. A failed one leaves the tree as it is. -/
def change (f : FileTree → Except FileError FileTree) :
    ExceptT FileError (StateM FileTree) Unit := .mk fun t =>
  match f t with
  | .ok t' => (.ok (), t')
  | .error e => (.error e, t)

end FileTree

/-- The file system of a tree in memory. -/
def FileSystem.inMemory : FileSystem (StateM FileTree) where
  read path := .mk fun t => (t.read path, t)
  exists? path := .mk fun t => (t.exists? path, t)
  write path text := FileTree.change fun t => t.write path text
  createDirectory path := FileTree.change fun t => t.createDirectory path

end Fonds
