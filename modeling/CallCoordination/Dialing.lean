import CallCoordination.Leg

/-!
# Outgoing calls

An outgoing call is dialled twice: once deferred, which allocates its connection, and once for
real. Both orders come from the same `OutgoingCall`, so they differ in nothing but `deferred`.
-/

namespace CallCoordination

inductive Callee where
  | address (number : String)
  | conference (participants : List String)
  deriving DecidableEq, Repr

namespace Callee

def isConference : Callee → Bool
  | address _ => false
  | conference _ => true

/-- The number, or the participants between brackets with commas. -/
def text : Callee → String
  | address number => number
  | conference participants => "conference[" ++ ",".intercalate participants ++ "]"

end Callee

structure DialTerms where
  video : Video := .audioOnly
  extras : Option Extras := none
  /-- Allocate the connection, but keep the call off the network. -/
  deferred : Bool := false
  deriving DecidableEq, Repr

/-- A call to be made once the other leg is on hold. -/
structure OutgoingCall where
  callee : Callee
  video : Video
  extras : Option Extras
  deriving DecidableEq, Repr

/-- The terms on which a call is dialled. A conference takes its participants and no extras. -/
def OutgoingCall.terms (call : OutgoingCall) (deferred : Bool) : DialTerms where
  video := call.video
  extras := if call.callee.isConference then none else call.extras
  deferred := deferred

inductive DialFault where
  | callState (reason : String)
  | outOfService
  deriving DecidableEq, Repr

def DialFault.message : DialFault → String
  | callState reason => "call state error: " ++ reason
  | outOfService => "service unavailable"

inductive DialAnswer where
  | placed (connection : ConnectionId)
  | raised (fault : DialFault)
  deriving DecidableEq, Repr

end CallCoordination
