import CallCoordination.Session.Flow

/-!
# Phases only move forward

Each handler either leaves phase and world's wire as they are or enters a phase of lower rank. This
is what lets a coordinator drain a mailbox that its own requests may fill again.
-/

namespace CallCoordination

namespace Session

variable {r : Roster} {b : Behaviour r}

@[simp] theorem phase_ask (s : Session b) (slot : Slot r) (request : LegRequest) :
    (s.ask slot request).phase = s.phase := rfl

@[simp] theorem phase_recordFailure (s : Session b) (failure : Failure) :
    (s.recordFailure failure).phase = s.phase := rfl

@[simp] theorem phase_enter (s : Session b) (phase : Phase r) : (s.enter phase).phase = phase := rfl

@[simp] theorem phase_release (s : Session b) (wanted : List Leg.Id) :
    (s.release wanted).phase = s.phase := rfl

@[simp] theorem phase_watch (s : Session b) (slot : Slot r) : (s.watch slot).phase = s.phase := by
  unfold watch
  split <;> rfl

@[simp] theorem phase_watchExactly (s : Session b) (wanted : List (Slot r)) :
    (s.watchExactly wanted).phase = s.phase := by
  have (slots : List (Slot r)) (t : Session b) : (slots.foldl watch t).phase = t.phase := by
    induction slots generalizing t with
    | nil => rfl
    | cons slot slots ih => simp [ih]
  simp [watchExactly, this]

@[simp] theorem phase_complete (s : Session b) (success : Bool) :
    (s.complete success).phase = s.phase := by
  unfold complete
  split
  · rfl
  · exact phase_watchExactly s []

@[simp] theorem phase_finish (s : Session b) (success : Bool) :
    (s.finish success).phase = .done := by
  simp [finish]

theorem coordinator_reportFault (s : Session b) (leg : Slot r) (fault : DialFault) :
    (s.reportFault leg fault).coordinator = s.coordinator := by
  unfold reportFault
  split <;> rfl

theorem phase_reportFault (s : Session b) (leg : Slot r) (fault : DialFault) :
    (s.reportFault leg fault).phase = s.phase :=
  congrArg (·.phase) (coordinator_reportFault s leg fault)

theorem phase_place (s : Session b) (leg : Slot r) (call : OutgoingCall)
    (pending : ConnectionId) : (s.place leg call pending).phase = .done := by
  unfold place
  split
  · simp
  · dsimp only
    split
    · split <;> simp
    · simp

theorem rank_rollBack_le (s : Session b) (held : Slot r) (cause : Failure) :
    (s.rollBack held cause).phase.rank ≤ 1 := by
  unfold rollBack
  dsimp only
  split <;> simp [Phase.rank]

theorem rank_holdSettled_le (s : Session b) (hold : Slot r) (next : Continuation r) :
    (s.holdSettled hold next).phase.rank ≤ 2 := by
  unfold holdSettled
  cases next with
  | answer leg video => simp [Phase.rank]
  | place leg call pending => simp [phase_place, Phase.rank]
  | resume leg =>
    dsimp only
    split
    · simp [Phase.rank]
    · simp [Phase.rank]
    · exact Nat.le_succ_of_le (rank_rollBack_le _ _ _)

theorem phase_holdFailed (s : Session b) (hold : Slot r) (next : Continuation r) :
    (s.holdFailed hold next).phase = .done := by
  simp [holdFailed]

/-- What hearing a signal does to phase and mailbox: the phase moves forward, or both stay. -/
def Advances (s t : Session b) : Prop :=
  t.phase.rank < s.phase.rank ∨ t.phase = s.phase ∧ t.mailbox = s.mailbox

theorem Advances.refl (s : Session b) : Advances s s := .inr ⟨rfl, rfl⟩

theorem advances_hearState (s : Session b) (leg : Leg.Id) (state : Leg.State) :
    Advances s (s.hearState leg state) := by
  unfold hearState
  split
  next hold next h =>
    split
    · refine .inl (Nat.lt_of_le_of_lt (rank_holdSettled_le s hold next) ?_)
      simp [h, Phase.rank]
    · exact .refl s
  next held resume h =>
    split
    · split
      · exact .inl (by simp [h, Phase.rank])
      · refine .inl (Nat.lt_of_le_of_lt (rank_rollBack_le s held _) ?_)
        simp [h, Phase.rank]
      · exact .refl s
    · exact .refl s
  next resume h =>
    split
    · exact .inl (by simp [h, Phase.rank])
    · exact .refl s
  · exact .inr ⟨rfl, rfl⟩
  · exact .refl s

theorem advances_hearEvent (s : Session b) (leg : Leg.Id) (event : ConnectionEvent) :
    Advances s (s.hearEvent leg event) := by
  unfold hearEvent
  split
  next hold next h =>
    split
    · exact .inl (by simp [phase_holdFailed, h, Phase.rank])
    · exact .refl s
  next held resume h =>
    split
    · refine .inl (Nat.lt_of_le_of_lt (rank_rollBack_le s held _) ?_)
      simp [h, Phase.rank]
    · exact .refl s
  next resume h =>
    split
    · exact .inl (by simp [h, Phase.rank])
    · exact .refl s
  · exact .inr ⟨rfl, rfl⟩
  · exact .refl s

theorem advances_dispatch (s : Session b) (signal : Signal) :
    Advances s (s.dispatch signal) := by
  unfold dispatch
  split
  · exact .refl s
  · split
    · exact advances_hearState s _ _
    · exact advances_hearEvent s _ _
    · exact .refl s

end Session

end CallCoordination
