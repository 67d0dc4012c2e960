import CallCoordination.Dialing

/-!
# Why a coordination fails
-/

namespace CallCoordination

inductive Failure where
  | holdFailed (leg : Leg.Id)
  | resumeFailed (leg : Leg.Id)
  | peerDisconnected (leg : Leg.Id)
  | identityMismatch (expected actual : ConnectionId)
  | dialRaised (fault : DialFault)
  | alreadyStarted
  deriving DecidableEq, Repr

def Failure.message : Failure → String
  | holdFailed leg => "hold failed on leg " ++ leg.text
  | resumeFailed leg => "resume failed on leg " ++ leg.text
  | peerDisconnected leg => "peer leg " ++ leg.text ++ " disconnected"
  | identityMismatch expected actual =>
    "connection identity mismatch: expected " ++ expected.text ++ ", got " ++ actual.text
  | dialRaised fault => "dial failed: " ++ fault.message
  | alreadyStarted => "coordination already started"

end CallCoordination
