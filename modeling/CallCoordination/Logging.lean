import CallCoordination.Settings
import CallCoordination.Storage

/-!
# Logging

The settings name the least important level that is logged and where to. Only the first set-up
takes effect, but each one creates the file that it names.
-/

namespace CallCoordination

structure Threshold where
  ranks : Nat
  deriving DecidableEq, Repr

namespace Threshold

def admits (threshold : Threshold) (level : Level) : Bool := level.rank ≤ threshold.ranks

/-- Levels without a valid text are logged up to `info`. -/
def default : Threshold := ⟨Level.info.rank⟩

/-- A count of levels, which may have a plus sign in front. -/
def ofCount? (s : String) : Option Threshold :=
  let ds :=
    match s.toList with
    | '+' :: ds => ds
    | ds => ds
  if ds.isEmpty || !ds.all Char.isDigit then none
  else
    let n := ds.foldl (fun n c => 10 * n + (c.toNat - 48)) 0
    if n ≤ Level.all.length then some ⟨n⟩ else none

/-- The name of a level in any case; no text is the most important level. -/
def ofName? (s : String) : Option Threshold :=
  if s.isEmpty then some ⟨Level.error.rank⟩
  else
    let name := s.map Char.toUpper
    if name = "OFF" then some ⟨0⟩
    else (Level.all.find? (·.name = name)).map fun level => ⟨level.rank⟩

def ofText? (s : String) : Option Threshold := ofCount? s <|> ofName? s

def ofSettings (settings : Settings) : Threshold :=
  (settings.logLevel.bind ofText?).getD default

end Threshold

inductive Sink where
  | console
  | file (location : Location)
  deriving DecidableEq

structure Logger where
  threshold : Threshold
  sink : Sink
  deriving DecidableEq

structure LogError where
  path : String
  cause : StorageError
  deriving DecidableEq, Repr

def LogError.message (e : LogError) : String :=
  "failed to create log file " ++ e.path ++ ": " ++ e.cause.message

/-- What can be seen of logging: the storage, the console, and the logger in use. -/
structure Logging where
  storage : Storage
  console : List Level := []
  logger : Option Logger := none

namespace Logging

def install (l : Logging) (logger : Logger) : Logging :=
  { l with logger := l.logger <|> some logger }

/-- Set up logging. The answer is whether there is a file writer to be flushed at the end. -/
def setUp (l : Logging) (settings : Settings) : Except LogError Bool × Logging :=
  let threshold := Threshold.ofSettings settings
  match settings.logFile with
  | none => (.ok false, l.install ⟨threshold, .console⟩)
  | some path =>
    match l.storage.create path with
    | .error cause => (.error ⟨path, cause⟩, l)
    | .ok (location, storage) =>
      (.ok true, { l with storage := storage }.install ⟨threshold, .file location⟩)

def emit (l : Logging) (level : Level) : Logging :=
  match l.logger with
  | none => l
  | some logger =>
    if logger.threshold.admits level then
      match logger.sink with
      | .console => { l with console := l.console ++ [level] }
      | .file location => { l with storage := l.storage.log location level }
    else l

end Logging

end CallCoordination
