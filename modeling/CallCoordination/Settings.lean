import CallCoordination.Datum
import CallCoordination.Policy

/-!
# Settings

The settings of a process, and how they are read from a document. Whatever a document leaves out
keeps its default, on both levels.
-/

namespace CallCoordination

def Policy.ofDatum? (dialect : Datum.Dialect) : Datum → Option Policy :=
  let default : Policy := {}
  Datum.record dialect Policy.mk
    ("swap_rollback", Datum.bool?, default.swapRollback)
    ("hold_settled_on_entry", Datum.bool?, default.holdSettledOnEntry)
    ("mismatch_reason", Datum.text?, default.mismatchReason)

structure Settings where
  logLevel : Option String := some "info"
  /-- Where the log goes, if not to the console. -/
  logFile : Option String := none
  policy : Policy := {}
  deriving DecidableEq, Repr

namespace Settings

instance : Inhabited Settings := ⟨{}⟩

def ofDatum? (dialect : Datum.Dialect) : Datum → Option Settings :=
  let default : Settings := {}
  Datum.record dialect Settings.mk
    ("log_level", Datum.textOrNull?, default.logLevel)
    ("log_file", Datum.textOrNull?, default.logFile)
    ("coordination", Policy.ofDatum? dialect, default.policy)

end Settings

end CallCoordination
