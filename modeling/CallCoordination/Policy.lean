/-!
# The choices a coordination leaves open
-/

namespace CallCoordination

structure Policy where
  /-- Resume the leg that was put on hold when the leg to be resumed goes away. -/
  swapRollback : Bool := true
  /-- Count a leg that is on hold or gone at the start as put on hold. -/
  holdSettledOnEntry : Bool := true
  /-- The reason given when a placed call is not the one that was allocated. -/
  mismatchReason : String := "original connection is different"
  deriving DecidableEq, Repr

instance : Inhabited Policy := ⟨{}⟩

end CallCoordination
