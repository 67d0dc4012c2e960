import CallCoordination.Proofs.Session.Ages
import Mathlib.Data.List.Induction

/-!
# Watches are live registrations

A registration is live from the request that makes it to the next request to drop it, whatever the
leg makes of either. The trace shows both kinds of requests, and what a coordinator watches is what
is live by the trace.
-/

namespace CallCoordination

variable {r : Roster} {b : Behaviour r}

/-- The live registrations of an observer after an event, if these are the ones before it. -/
def Event.amend (observer : Observer) (live : List (Watch r)) : Event r → List (Watch r)
  | asked slot (.register registration) =>
    if registration.observer = observer then live ++ [⟨slot, registration.epoch⟩] else live
  | asked slot (.unregister other) =>
    if other = observer then live.filter (·.leg ≠ slot) else live
  | _ => live

/-- An event that is about no registration of the observer. -/
def Event.Spares (observer : Observer) (event : Event r) : Prop :=
  ∀ live, event.amend observer live = live

namespace World

/-- The live registrations of an observer, oldest first. -/
def liveRegistrations (w : World b) (observer : Observer) : List (Watch r) :=
  w.trace.foldl (Event.amend observer) []

theorem liveRegistrations_of_trace {w w' : World b} {events : List (Event r)}
    (h : w'.trace = w.trace ++ events) (observer : Observer) :
    w'.liveRegistrations observer =
      events.foldl (Event.amend observer) (w.liveRegistrations observer) := by
  rw [liveRegistrations, h, List.foldl_append, liveRegistrations]

theorem Grows.liveRegistrations_eq {observer : Observer} {w w' : World b}
    (h : Grows (·.Spares observer) w w') :
    w'.liveRegistrations observer = w.liveRegistrations observer := by
  obtain ⟨events, htrace, hspares⟩ := h
  have hfold (live : List (Watch r)) : events.foldl (Event.amend observer) live = live := by
    clear htrace
    induction events generalizing live with
    | nil => rfl
    | cons event events ih =>
      rw [List.foldl_cons, hspares event List.mem_cons_self]
      exact ih (fun later hlater => hspares later (List.mem_cons_of_mem event hlater)) live
  rw [liveRegistrations_of_trace htrace, hfold]

/-! ## What it means to be live -/

theorem exists_split_append_singleton {α : Type} (xs : List α) (x y z : α) :
    (∃ before after, xs ++ [x] = before ++ y :: after ∧ z ∉ after) ↔
      x = y ∨ x ≠ z ∧ ∃ before after, xs = before ++ y :: after ∧ z ∉ after := by
  constructor
  · rintro ⟨before, after, hsplit, hnot⟩
    rcases List.eq_nil_or_concat after with rfl | ⟨rest, last, rfl⟩
    · left
      obtain ⟨-, hlast⟩ := List.append_inj' hsplit rfl
      exact List.singleton_inj.mp hlast
    · right
      rw [List.concat_eq_append, ← List.cons_append, ← List.append_assoc] at hsplit
      obtain ⟨hrest, hlast⟩ := List.append_inj' hsplit rfl
      obtain rfl := List.singleton_inj.mp hlast
      rw [List.concat_eq_append, List.mem_append, List.mem_singleton, not_or] at hnot
      exact ⟨Ne.symm hnot.2, before, rest, hrest, hnot.1⟩
  · rintro (rfl | ⟨hne, before, after, rfl, hnot⟩)
    · exact ⟨xs, [], rfl, List.not_mem_nil⟩
    · refine ⟨before, after ++ [x], by simp, ?_⟩
      rw [List.mem_append, List.mem_singleton, not_or]
      exact ⟨hnot, Ne.symm hne⟩

theorem mem_amend_iff {observer : Observer} {live : List (Watch r)} {event : Event r}
    {watch : Watch r} :
    watch ∈ event.amend observer live ↔
      event = .asked watch.leg (.register ⟨observer, watch.epoch⟩) ∨
        event ≠ .asked watch.leg (.unregister observer) ∧ watch ∈ live := by
  obtain ⟨leg, epoch⟩ := watch
  cases event with
  | asked slot request =>
    cases request with
    | register registration =>
      obtain ⟨owner, number⟩ := registration
      have hmade : (⟨leg, epoch⟩ : Watch r) = ⟨slot, number⟩ ↔ slot = leg ∧ number = epoch := by
        rw [Watch.mk.injEq, eq_comm, eq_comm (a := epoch)]
      by_cases howner : owner = observer
      · simp [Event.amend, howner, hmade, or_comm]
      · simp [Event.amend, howner]
    | unregister other =>
      by_cases hother : other = observer
      · simp [Event.amend, hother, and_comm, eq_comm (a := leg)]
      · simp [Event.amend, hother]
    | hold | resume | answer _ | disconnect _ => simp [Event.amend]
  | dialled _ _ _ _ | told _ _ _ | faultReported _ _ _ | heardState _ _ | heardEvent _ _ =>
    simp [Event.amend]

/-- A registration is live if it was asked for and its leg was not asked since to drop it. -/
theorem mem_liveRegistrations_iff (w : World b) (observer : Observer) (watch : Watch r) :
    watch ∈ w.liveRegistrations observer ↔ ∃ before after,
      w.trace = before ++ .asked watch.leg (.register ⟨observer, watch.epoch⟩) :: after ∧
        .asked watch.leg (.unregister observer) ∉ after := by
  rw [liveRegistrations]
  induction w.trace using List.reverseRecOn with
  | nil => simp
  | append_singleton events event ih =>
    rw [List.foldl_append, List.foldl_cons, List.foldl_nil, mem_amend_iff, ih,
      exists_split_append_singleton]

theorem asked_of_live {w : World b} {observer : Observer} {watch : Watch r}
    (h : watch ∈ w.liveRegistrations observer) :
    .asked watch.leg (.register ⟨observer, watch.epoch⟩) ∈ w.trace := by
  obtain ⟨before, after, htrace, -⟩ := (w.mem_liveRegistrations_iff observer watch).mp h
  rw [htrace]
  exact List.mem_append_right _ List.mem_cons_self

end World

/-! ## Events that spare an observer -/

namespace Event

theorem spares_of_not_isRegistration {event : Event r} (h : event.isRegistration = false)
    (observer : Observer) : event.Spares observer := by
  intro live
  cases event with
  | asked slot request =>
    cases request with
    | register _ | unregister _ => simp [isRegistration, LegRequest.isRegistration] at h
    | hold | resume | answer _ | disconnect _ => rfl
  | dialled _ _ _ _ | told _ _ _ | faultReported _ _ _ | heardState _ _ | heardEvent _ _ => rfl

end Event

theorem World.Move.spares {mover observer : Observer} (hne : observer ≠ mover) {w w' : World b}
    (h : Move mover w w') : Grows (·.Spares observer) w w' := by
  cases h with
  | @ask slot request hrequest =>
    refine (grows_ask w slot request).mono ?_
    rintro event rfl live
    cases request with
    | register registration => exact if_neg fun h => hne (h.symm.trans hrequest)
    | unregister other => exact if_neg fun h => hne (h.symm.trans hrequest)
    | hold | resume | answer _ | disconnect _ => rfl
  | dial slot callee terms => exact .single (trace_dial w slot callee terms) fun _ => rfl
  | tell success listener => exact .single (trace_emit w _) fun _ => rfl
  | report handler leg fault => exact .single (trace_emit w _) fun _ => rfl
  | noteState leg state => exact .single rfl fun _ => rfl
  | noteEvent leg event => exact .single rfl fun _ => rfl
  | collect hcollect => exact .of_eq _ (by rw [collect_eq_some hcollect])

theorem World.Moves.spares {mover observer : Observer} (hne : observer ≠ mover) {w w' : World b}
    (h : Moves mover w w') : Grows (·.Spares observer) w w' := by
  induction h with
  | refl => exact .refl _ w
  | tail _ hmove ih => exact ih.trans (hmove.spares hne)

namespace Session

/-- The coordinator watches exactly what is live by the trace. -/
def Upheld (s : Session b) : Prop :=
  s.coordinator.watches = s.world.liveRegistrations s.coordinator.observer

namespace Upheld

variable {s t : Session b}

theorem of_grows (h : s.Upheld) (hobserver : t.coordinator.observer = s.coordinator.observer)
    (hwatches : t.coordinator.watches = s.coordinator.watches)
    (hgrows : World.Grows (·.Spares s.coordinator.observer) s.world t.world) : t.Upheld := by
  rw [Upheld, hobserver, hwatches, hgrows.liveRegistrations_eq]
  exact h

theorem of_same (h : s.Upheld) (hc : t.coordinator = s.coordinator)
    (hgrows : World.Grows (·.Spares s.coordinator.observer) s.world t.world) : t.Upheld :=
  h.of_grows (by rw [hc]) (by rw [hc]) hgrows

/-! ## Watching -/

theorem release (h : s.Upheld) (wanted : List Leg.Id) : (s.release wanted).Upheld := by
  have hfold (dropped : List (Watch r)) (w : World b) :
      (dropped.foldl (fun w watch => w.ask watch.leg (.unregister s.coordinator.observer))
        w).liveRegistrations s.coordinator.observer =
          (w.liveRegistrations s.coordinator.observer).filter
            fun watch => ∀ other ∈ dropped, watch.leg ≠ other.leg := by
    induction dropped generalizing w with
    | nil => simp
    | cons other dropped ih =>
      have hfirst := World.liveRegistrations_of_trace
        (World.trace_ask w other.leg (.unregister s.coordinator.observer)) s.coordinator.observer
      rw [List.foldl_cons, ih, hfirst]
      simp [Event.amend, List.filter_filter, Bool.and_comm]
  change s.coordinator.watches.filter _ = World.liveRegistrations _ _
  rw [Session.release, hfold, ← h]
  apply List.filter_congr
  intro watch hmem
  rw [decide_eq_decide]
  constructor
  · rintro hwanted other hother heq
    have hunwanted := of_decide_eq_true (List.mem_filter.mp hother).2
    exact hunwanted (heq ▸ hwanted)
  · intro hspared
    by_contra hunwanted
    exact hspared watch (List.mem_filter.mpr ⟨hmem, decide_eq_true hunwanted⟩) rfl

theorem watch (h : s.Upheld) (slot : Slot r) : (s.watch slot).Upheld := by
  unfold Session.watch
  split
  · exact h
  · have hlive := World.liveRegistrations_of_trace (World.trace_ask s.world slot
      (.register ⟨s.coordinator.observer, s.coordinator.issued + 1⟩)) s.coordinator.observer
    change s.coordinator.watches ++ _ = World.liveRegistrations _ _
    rw [hlive, h]
    simp [Event.amend]

theorem watchExactly (h : s.Upheld) (wanted : List (Slot r)) : (s.watchExactly wanted).Upheld := by
  have hfold (slots : List (Slot r)) {t : Session b} (ht : t.Upheld) :
      (slots.foldl Session.watch t).Upheld := by
    induction slots generalizing t with
    | nil => exact ht
    | cons slot slots ih => exact ih (ht.watch slot)
  exact hfold wanted (h.release _)

theorem rewatch (h : s.Upheld) (wanted : List (Slot r)) : (s.rewatch wanted).Upheld :=
  (h.watchExactly []).watchExactly wanted

/-! ## Everything else -/

theorem enter (h : s.Upheld) (phase : Phase r) : (s.enter phase).Upheld := by
  unfold Session.enter
  split
  · exact h.rewatch _
  · exact h.watchExactly _

theorem ask (h : s.Upheld) (slot : Slot r) {request : LegRequest}
    (hrequest : request.isRegistration = false) : (s.ask slot request).Upheld := by
  refine h.of_same rfl ((World.grows_ask s.world slot request).mono ?_)
  rintro event rfl
  have hevent : Event.isRegistration (.asked slot request) = false := hrequest
  exact Event.spares_of_not_isRegistration hevent _

theorem complete (h : s.Upheld) (success : Bool) : (s.complete success).Upheld := by
  unfold Session.complete
  split
  · exact h
  · refine (h.watchExactly []).of_grows rfl rfl ?_
    refine (World.grows_foldl_tell (s.watchExactly []).world success _).mono ?_
    intro event hcall live
    cases event <;> simp_all [Event.call?, Event.amend]

theorem step (h : s.Upheld) (hstep : Step s t) : t.Upheld := by
  cases hstep with
  | begin _ _ => exact (h.enter _).ask _ rfl
  | enter _ => exact h.enter _
  | @ask slot request hrequest =>
    apply h.ask
    cases request <;> simp_all [LegRequest.isFollowUp, LegRequest.isRegistration]
  | dial slot callee terms =>
    exact h.of_same rfl (.single (World.trace_dial _ _ _ _) fun _ => rfl)
  | report slot fault =>
    refine h.of_same (coordinator_reportFault s slot fault)
      ((grows_reportFault s slot fault).mono ?_)
    rintro event ⟨handler, rfl⟩
    exact fun _ => rfl
  | fail failure => exact h.of_grows rfl rfl (.refl _ _)
  | noteState leg state => exact h.of_same rfl (.single rfl fun _ => rfl)
  | noteEvent leg event => exact h.of_same rfl (.single rfl fun _ => rfl)
  | pop hpop => exact h.of_same (pop_eq_some hpop).1 (.of_eq _ (trace_pop hpop))

theorem acts (h : s.Upheld) (hacts : Acts s t) : t.Upheld := by
  induction hacts with
  | nothing s => exact h
  | finish s success => exact (h.enter .done).complete success
  | step hstep _ ih => exact ih (h.step hstep)

theorem perform (h : s.Upheld) (operation : Operation r) : (s.perform operation).2.Upheld := by
  cases performs s operation with
  | acts hacts _ _ => exact h.acts hacts
  | addListener _ | removeListener _ | setHandler _ => exact h
  | watchExactly legs => exact h.watchExactly legs
  | rewatch legs => exact h.rewatch legs
  | complete success => exact h.complete success

theorem turn (h : s.Upheld) {turn : Turn b} (hapart : turn.Apart s.coordinator.observer) :
    (s.turn turn).Upheld := by
  cases turn with
  | perform operation => exact h.perform operation
  | elsewhere other operation =>
    exact h.of_same rfl ((moves_perform ⟨other, s.world⟩ operation).spares (Ne.symm hapart))
  | stir memory effects => exact h.of_same rfl (.of_eq _ (World.trace_stir s.world memory effects))

end Upheld

end Session

end CallCoordination
