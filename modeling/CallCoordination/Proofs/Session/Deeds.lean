import CallCoordination.Proofs.Session.Ages

/-!
# What a coordinator does itself

A trace shows what all coordinators did that share the legs. The deeds of one of them are what its
own operations have added.
-/

namespace CallCoordination.Session

variable {r : Roster} {b : Behaviour r}

/-- What the coordinator itself adds to the trace in a turn. -/
def deedsIn (s : Session b) : Turn b → List (Event r)
  | .perform operation => (s.perform operation).2.world.trace.drop s.world.trace.length
  | .elsewhere _ _ | .stir _ _ => []

/-- What the coordinator itself adds to the trace in a run, oldest first. -/
def deeds (s : Session b) : List (Turn b) → List (Event r)
  | [] => []
  | turn :: later => s.deedsIn turn ++ (s.turn turn).deeds later

theorem trace_perform (s : Session b) (operation : Operation r) :
    (s.perform operation).2.world.trace = s.world.trace ++ s.deedsIn (.perform operation) := by
  obtain ⟨events, htrace, -⟩ := (moves_perform s operation).grows
  rw [deedsIn, htrace, List.drop_left]

theorem observer_turn (s : Session b) (turn : Turn b) :
    (s.turn turn).coordinator.observer = s.coordinator.observer := by
  cases turn with
  | perform operation => exact (ages_perform s operation).observer
  | elsewhere _ _ | stir _ _ => rfl

end CallCoordination.Session
