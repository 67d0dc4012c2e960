import CallCoordination.Settings
import CallCoordination.Storage
import CallCoordination.Toml.Document

/-!
# Loading settings from storage
-/

namespace CallCoordination

inductive LoadError where
  | storage (path : String) (cause : StorageError)
  /-- The text is no document, or a field of it has the wrong type. -/
  | document
  deriving DecidableEq, Repr

def LoadError.message? : LoadError → Option String
  | storage path cause => some (cause.message ++ ": " ++ path)
  | document => none

namespace Settings

def ofToml? (s : String) : Option Settings := (Toml.parse? s).bind (ofDatum? Toml.dialect)

def load (storage : Storage) (path : String) : Except LoadError Settings :=
  match storage.read path with
  | .error cause => .error (.storage path cause)
  | .ok s =>
    match ofToml? s with
    | some settings => .ok settings
    | none => .error .document

end Settings

end CallCoordination
