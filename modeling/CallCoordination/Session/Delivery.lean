import CallCoordination.Session.Progress

/-!
# Working through the mailbox

`processPending` and `serve` hear the signals of the mailbox in order until the outcome is known or
nothing is left. Both end although hearing a signal may bring new ones: with each signal either the
phase moves forward or the mailbox gets shorter.
-/

namespace CallCoordination

namespace Session

variable {r : Roster} {b : Behaviour r}

def pop (s : Session b) : Option (Signal × Session b) :=
  (s.world.collect s.coordinator.observer).map fun (signal, world) =>
    (signal, { s with world := world })

theorem pop_eq_some {s t : Session b} {signal : Signal} (h : s.pop = some (signal, t)) :
    t.coordinator = s.coordinator ∧ s.mailbox = signal :: t.mailbox := by
  simp only [pop, Option.map_eq_some_iff, Prod.exists, Prod.mk.injEq] at h
  obtain ⟨_, world, hc, rfl, rfl⟩ := h
  exact ⟨rfl, World.mailbox_of_collect hc⟩

def workload (s : Session b) : Nat × Nat := (s.phase.rank, s.mailbox.length)

theorem workload_dispatch_lt {s t : Session b} {signal : Signal} (h : s.pop = some (signal, t)) :
    Prod.Lex (· < ·) (· < ·) (t.dispatch signal).workload s.workload := by
  obtain ⟨hc, hm⟩ := pop_eq_some h
  have hp : t.phase = s.phase := congrArg (·.phase) hc
  rw [Prod.lex_def]
  simp only [workload]
  rcases advances_dispatch t signal with hlt | ⟨heq, hbox⟩
  · exact .inl (hp ▸ hlt)
  · exact .inr ⟨by rw [heq, hp], by simp [hbox, hm]⟩

/-- Hear every signal until the outcome is known or the mailbox is empty, and count them. -/
def processPending (s : Session b) : Nat × Session b :=
  if s.coordinator.isCompleted then (0, s)
  else
    match _ : s.pop with
    | none => (0, s)
    | some (signal, t) =>
      let (count, last) := (t.dispatch signal).processPending
      (count + 1, last)
termination_by s.workload
decreasing_by exact workload_dispatch_lt ‹_›

/-- Hear signals as long as there are any; the answer is the outcome, or nothing if more signals
would be needed to reach one. -/
def serve (s : Session b) : Option Bool × Session b :=
  match s.coordinator.outcome with
  | some outcome => (some outcome, s)
  | none =>
    match _ : s.pop with
    | none => (none, s)
    | some (signal, t) => (t.dispatch signal).serve
termination_by s.workload
decreasing_by exact workload_dispatch_lt ‹_›

end Session

end CallCoordination
