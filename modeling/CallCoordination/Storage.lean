import CallCoordination.Logging.Level

/-!
# Storage

A tree of directories and files, as far as settings are read from it and logs are written to it.
Paths are resolved part by part, so the first part that fails decides the error.
-/

namespace CallCoordination

/-- A file: what it held before, and the events logged to it since. -/
structure File where
  bytes : ByteArray := .empty
  logged : List Level := []

inductive Node where
  | directory
  | file (content : File)
  /-- A device that reads as empty and keeps nothing. -/
  | void

abbrev Location := List String

structure Storage where
  nodes : List (Location × Node)
  here : Location

inductive StorageError where
  | notFound
  | notADirectory
  | isADirectory
  | nameTooLong
  | nulInName
  | notUtf8
  deriving DecidableEq, Repr

def StorageError.message : StorageError → String
  | notFound => "No such file or directory (os error 2)"
  | notADirectory => "Not a directory (os error 20)"
  | isADirectory => "Is a directory (os error 21)"
  | nameTooLong => "File name too long (os error 36)"
  | nulInName => "file name contained an unexpected NUL byte"
  | notUtf8 => "stream did not contain valid UTF-8"

namespace Storage

structure Path where
  absolute : Bool
  parts : List String
  slashed : Bool
  deriving DecidableEq, Repr

namespace Path

def maxPart : Nat := 255

def maxText : Nat := 4095

def parse (s : String) : Except StorageError Path :=
  if '\x00' ∈ s.toList then .error .nulInName
  else if s.isEmpty then .error .notFound
  else if s.utf8ByteSize > maxText then .error .nameTooLong
  else
    .ok
      { absolute := s.toList.head? = some '/'
        parts := (s.splitOn "/").filter (· ≠ "")
        slashed := s.toList.getLast? = some '/' }

end Path

def node? (storage : Storage) (location : Location) : Option Node :=
  if location = [] then some .directory else storage.nodes.lookup location

def put (storage : Storage) (location : Location) (node : Node) : Storage :=
  { storage with
    nodes := (storage.nodes.filter (·.1 ≠ location)) ++ [(location, node)] }

def addDirectory (storage : Storage) (location : Location) : Storage :=
  (List.range location.length).foldl (fun s n => s.put (location.take (n + 1)) .directory) storage

def requireDirectory (storage : Storage) (location : Location) : Except StorageError Unit :=
  match storage.node? location with
  | some .directory => .ok ()
  | some _ => .error .notADirectory
  | none => .error .notFound

def enter (storage : Storage) (location : Location) (part : String) :
    Except StorageError Location := do
  storage.requireDirectory location
  if part = "." then return location
  if part = ".." then return location.dropLast
  if part.utf8ByteSize > Path.maxPart then throw .nameTooLong
  let next := location ++ [part]
  if (storage.node? next).isNone then throw .notFound
  return next

def start (storage : Storage) (path : Path) : Location :=
  if path.absolute then [] else storage.here

def locate (storage : Storage) (path : Path) : Except StorageError Location := do
  let location ← path.parts.foldlM storage.enter (storage.start path)
  if path.slashed then storage.requireDirectory location
  return location

def read (storage : Storage) (path : String) : Except StorageError String := do
  let location ← storage.locate (← Path.parse path)
  match storage.node? location with
  | some .directory => throw .isADirectory
  | some .void => return ""
  | some (.file content) =>
    match String.fromUTF8? content.bytes with
    | some s => return s
    | none => throw .notUtf8
  | none => throw .notFound

/-- Create an empty file, or empty the one that exists, and give its location. -/
def create (storage : Storage) (path : String) : Except StorageError (Location × Storage) := do
  let path ← Path.parse path
  match path.parts.getLast? with
  | none => throw .isADirectory
  | some last =>
    let directory ← path.parts.dropLast.foldlM storage.enter (storage.start path)
    storage.requireDirectory directory
    if path.slashed || last = "." || last = ".." then throw .isADirectory
    if last.utf8ByteSize > Path.maxPart then throw .nameTooLong
    let location := directory ++ [last]
    match storage.node? location with
    | some .directory => throw .isADirectory
    | some .void => return (location, storage)
    | _ => return (location, storage.put location (.file {}))

def log (storage : Storage) (location : Location) (level : Level) : Storage :=
  match storage.node? location with
  | some (.file content) =>
    storage.put location (.file { content with logged := content.logged ++ [level] })
  | _ => storage

def filesHere (storage : Storage) : List (String × File) :=
  storage.nodes.filterMap fun (location, node) =>
    match node, location.getLast? with
    | .file content, some name =>
      if location.dropLast = storage.here then some (name, content) else none
    | _, _ => none

end Storage

end CallCoordination
