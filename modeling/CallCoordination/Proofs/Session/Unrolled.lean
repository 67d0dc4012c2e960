import CallCoordination.Proofs.Session.Deeds
import CallCoordination.Proofs.Session.Heeding
import CallCoordination.Proofs.Session.Wire

/-!
# Runs, one signal at a time

To work through the mailbox is to take one signal after the other from it and to hear each before
the next. Put in the place of `process` and `serve`, these turns make a run in which no turn hears
more than one signal. It leads to the same session, and the coordinator does the same in it.
-/

namespace CallCoordination

variable {r : Roster} {b : Behaviour r}

/-- A public turn in which at most one signal is heard. -/
def Turn.Single : Turn b → Prop
  | perform operation => operation = .pop ∨ operation.isPublic = true ∧ operation.takes = false
  | elsewhere _ _ | stir _ _ => True

theorem Turn.Single.isPublic {turn : Turn b} (h : turn.Single) : turn.Public := by
  cases turn with
  | elsewhere _ _ | stir _ _ => trivial
  | perform operation => exact h.imp id And.left

namespace Session

theorem eq_of_mem_hearing {signals : List Signal} {turn : Turn b} (h : turn ∈ hearing signals) :
    turn = .perform .pop ∨ ∃ signal, turn = .perform (.dispatch signal) := by
  obtain ⟨signal, -, hmem⟩ := List.mem_flatMap.mp h
  simp only [List.mem_cons, List.not_mem_nil, or_false] at hmem
  exact hmem.imp id fun hheard => ⟨signal, hheard⟩

/-! ## Deeds of a longer run -/

theorem deeds_append (s : Session b) (turns later : List (Turn b)) :
    s.deeds (turns ++ later) = s.deeds turns ++ (s.run turns).deeds later := by
  induction turns generalizing s with
  | nil => rfl
  | cons turn turns ih => rw [List.cons_append, deeds, deeds, ih, List.append_assoc, run_cons]

theorem deeds_singleton (s : Session b) (turn : Turn b) : s.deeds [turn] = s.deedsIn turn :=
  List.append_nil _

theorem deedsIn_of_trace {s : Session b} {operation : Operation r} {events : List (Event r)}
    (h : (s.perform operation).2.world.trace = s.world.trace ++ events) :
    s.deedsIn (.perform operation) = events := by
  rw [deedsIn, h, List.drop_left]

/-- A coordinator that is left to itself makes the whole history. -/
theorem trace_run_of_performs (s : Session b) {turns : List (Turn b)}
    (alone : ∀ turn ∈ turns, ∃ operation, turn = .perform operation) :
    (s.run turns).world.trace = s.world.trace ++ s.deeds turns := by
  induction turns generalizing s with
  | nil => exact (List.append_nil _).symm
  | cons turn later ih =>
    obtain ⟨operation, rfl⟩ := alone turn List.mem_cons_self
    have hlater := ih (s.turn (.perform operation)) fun t ht =>
      alone t (List.mem_cons_of_mem _ ht)
    rw [run_cons, hlater, deeds, ← List.append_assoc, ← trace_perform]
    rfl

/-! ## Unrolling -/

/-- The turns that a turn consists of. -/
def unrolledIn (s : Session b) : Turn b → List (Turn b)
  | .perform operation =>
    match operation with
    | .process | .serve => hearing (s.pending.map Prod.fst)
    | _ => [.perform operation]
  | .elsewhere other operation => [.elsewhere other operation]
  | .stir memory effects => [.stir memory effects]

/-- The same run, with a turn for each signal that is taken from the mailbox. -/
def unrolled (s : Session b) : List (Turn b) → List (Turn b)
  | [] => []
  | turn :: later => s.unrolledIn turn ++ (s.turn turn).unrolled later

theorem drains_or_unrolledIn_eq (s : Session b) (turn : Turn b) :
    (turn = .perform .process ∨ turn = .perform .serve) ∧
        s.unrolledIn turn = hearing (s.pending.map Prod.fst) ∨
      s.unrolledIn turn = [turn] := by
  cases turn with
  | elsewhere _ _ | stir _ _ => exact .inr rfl
  | perform operation =>
    cases operation with
    | process => exact .inl ⟨.inl rfl, rfl⟩
    | serve => exact .inl ⟨.inr rfl, rfl⟩
    | _ => exact .inr rfl

theorem turn_eq_of_drains {s : Session b} {turn : Turn b}
    (h : turn = .perform .process ∨ turn = .perform .serve) :
    s.turn turn = s.run (hearing (s.pending.map Prod.fst)) := by
  rw [run_hearing_pending]
  rcases h with rfl | rfl
  · rfl
  · exact congrArg Prod.snd (serve_eq s)

theorem run_unrolledIn (s : Session b) (turn : Turn b) :
    s.run (s.unrolledIn turn) = s.turn turn := by
  rcases s.drains_or_unrolledIn_eq turn with ⟨hdrains, hunrolled⟩ | hunrolled
  · rw [hunrolled, turn_eq_of_drains hdrains]
  · rw [hunrolled, run_cons, run_nil]

theorem deeds_unrolledIn (s : Session b) (turn : Turn b) :
    s.deeds (s.unrolledIn turn) = s.deedsIn turn := by
  rcases s.drains_or_unrolledIn_eq turn with ⟨hdrains, hunrolled⟩ | hunrolled
  · have halone : ∀ t ∈ (hearing (s.pending.map Prod.fst) : List (Turn b)),
        ∃ operation, t = .perform operation := by
      intro t ht
      rcases eq_of_mem_hearing ht with rfl | ⟨signal, rfl⟩
      · exact ⟨_, rfl⟩
      · exact ⟨_, rfl⟩
    have htrace := s.trace_run_of_performs halone
    rw [← turn_eq_of_drains hdrains] at htrace
    rw [hunrolled]
    rcases hdrains with rfl | rfl
    · exact (deedsIn_of_trace htrace).symm
    · exact (deedsIn_of_trace htrace).symm
  · rw [hunrolled, deeds_singleton]

theorem run_unrolled (s : Session b) (turns : List (Turn b)) :
    s.run (s.unrolled turns) = s.run turns := by
  induction turns generalizing s with
  | nil => rfl
  | cons turn later ih => rw [unrolled, run_append, run_unrolledIn, ih, run_cons]

theorem deeds_unrolled (s : Session b) (turns : List (Turn b)) :
    s.deeds (s.unrolled turns) = s.deeds turns := by
  induction turns generalizing s with
  | nil => rfl
  | cons turn later ih =>
    rw [unrolled, deeds_append, deeds_unrolledIn, run_unrolledIn, ih, deeds]

theorem single_unrolledIn (s : Session b) {turn : Turn b} (hpublic : turn.Public) :
    ∀ t ∈ s.unrolledIn turn, t.Single := by
  intro t ht
  cases turn with
  | elsewhere _ _ | stir _ _ =>
    obtain rfl := List.mem_singleton.mp ht
    trivial
  | perform operation =>
    rcases hpublic with rfl | hpublic
    · obtain rfl := List.mem_singleton.mp ht
      exact .inl rfl
    · cases operation with
      | process | serve =>
        rcases eq_of_mem_hearing ht with rfl | ⟨signal, rfl⟩
        · exact .inl rfl
        · exact .inr ⟨rfl, rfl⟩
      | watchExactly _ | rewatch _ | complete _ | recordFailure _ | pop =>
        simp [Operation.isPublic] at hpublic
      | _ =>
        obtain rfl := List.mem_singleton.mp ht
        exact .inr ⟨rfl, rfl⟩

/-- What holds of the turns that each turn consists of holds of all turns of the unrolled run. -/
theorem forall_mem_unrolled {P Q : Turn b → Prop}
    (hparts : ∀ (s : Session b) (turn : Turn b), P turn → ∀ t ∈ s.unrolledIn turn, Q t)
    (s : Session b) {turns : List (Turn b)} (hturns : ∀ turn ∈ turns, P turn) :
    ∀ t ∈ s.unrolled turns, Q t := by
  induction turns generalizing s with
  | nil => simp [unrolled]
  | cons turn later ih =>
    obtain ⟨hturn, hlater⟩ := List.forall_mem_cons.mp hturns
    intro t ht
    rcases List.mem_append.mp ht with ht | ht
    · exact hparts s turn hturn t ht
    · exact ih (s.turn turn) hlater t ht

theorem single_unrolled (s : Session b) {turns : List (Turn b)}
    (allPublic : ∀ turn ∈ turns, turn.Public) : ∀ turn ∈ s.unrolled turns, turn.Single :=
  forall_mem_unrolled (fun s _ hpublic => s.single_unrolledIn hpublic) s allPublic

end Session

end CallCoordination
