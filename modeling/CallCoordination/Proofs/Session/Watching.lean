import CallCoordination.Proofs.World.Trace
import CallCoordination.Session.Progress

/-!
# Watching legs

To watch exactly the legs of a phase changes nothing of a coordinator but its watches, its epochs
and its phase, and the only events are requests to keep or to drop a registration. A phase needs at
most one leg, so afterwards at most one is watched.
-/

namespace CallCoordination

namespace Coordinator

variable {r : Roster}

def watchedIds (c : Coordinator r) : List Leg.Id := c.watches.map (·.leg.id)

theorem isWatching_iff {c : Coordinator r} {leg : Leg.Id} :
    c.isWatching leg = true ↔ leg ∈ c.watchedIds := by
  simp [isWatching, watchedIds]

end Coordinator

namespace Session

variable {r : Roster} {b : Behaviour r}

/-! ## What a coordinator keeps -/

section View

variable {α : Type} {f : Coordinator r → α}

theorem view_watch (hf : ∀ c watches issued, f { c with watches := watches, issued := issued } = f c)
    (s : Session b) (slot : Slot r) : f (s.watch slot).coordinator = f s.coordinator := by
  unfold watch
  split
  · rfl
  · exact hf s.coordinator _ _

theorem view_watchExactly
    (hf : ∀ c watches issued, f { c with watches := watches, issued := issued } = f c)
    (s : Session b) (wanted : List (Slot r)) :
    f (s.watchExactly wanted).coordinator = f s.coordinator := by
  have hfold (slots : List (Slot r)) (t : Session b) :
      f (slots.foldl watch t).coordinator = f t.coordinator := by
    induction slots generalizing t with
    | nil => rfl
    | cons slot slots ih => rw [List.foldl_cons, ih, view_watch hf]
  rw [watchExactly, hfold]
  exact hf s.coordinator _ s.coordinator.issued

theorem view_enter
    (hf : ∀ c watches issued phase,
      f { c with watches := watches, issued := issued, phase := phase } = f c)
    (s : Session b) (phase : Phase r) : f (s.enter phase).coordinator = f s.coordinator := by
  have hphase (c : Coordinator r) : f { c with phase := phase } = f c :=
    hf c c.watches c.issued phase
  have hwatch (c : Coordinator r) (watches : List (Watch r)) (issued : Nat) :
      f { c with watches := watches, issued := issued } = f c :=
    hf c watches issued c.phase
  unfold enter
  rw [hphase]
  split
  · rw [rewatch, view_watchExactly hwatch, view_watchExactly hwatch]
  · exact view_watchExactly hwatch s _

end View

@[simp] theorem listeners_watchExactly (s : Session b) (wanted : List (Slot r)) :
    (s.watchExactly wanted).coordinator.listeners = s.coordinator.listeners :=
  view_watchExactly (f := (·.listeners)) (fun _ _ _ => rfl) s wanted

@[simp] theorem outcome_watchExactly (s : Session b) (wanted : List (Slot r)) :
    (s.watchExactly wanted).coordinator.outcome = s.coordinator.outcome :=
  view_watchExactly (f := (·.outcome)) (fun _ _ _ => rfl) s wanted

@[simp] theorem failure_watchExactly (s : Session b) (wanted : List (Slot r)) :
    (s.watchExactly wanted).coordinator.failure = s.coordinator.failure :=
  view_watchExactly (f := (·.failure)) (fun _ _ _ => rfl) s wanted

@[simp] theorem policy_enter (s : Session b) (phase : Phase r) :
    (s.enter phase).coordinator.policy = s.coordinator.policy :=
  view_enter (f := (·.policy)) (fun _ _ _ _ => rfl) s phase

@[simp] theorem listeners_enter (s : Session b) (phase : Phase r) :
    (s.enter phase).coordinator.listeners = s.coordinator.listeners :=
  view_enter (f := (·.listeners)) (fun _ _ _ _ => rfl) s phase

@[simp] theorem outcome_enter (s : Session b) (phase : Phase r) :
    (s.enter phase).coordinator.outcome = s.coordinator.outcome :=
  view_enter (f := (·.outcome)) (fun _ _ _ _ => rfl) s phase

@[simp] theorem completedAt_enter (s : Session b) (phase : Phase r) :
    (s.enter phase).coordinator.completedAt = s.coordinator.completedAt :=
  view_enter (f := (·.completedAt)) (fun _ _ _ _ => rfl) s phase

@[simp] theorem failure_enter (s : Session b) (phase : Phase r) :
    (s.enter phase).coordinator.failure = s.coordinator.failure :=
  view_enter (f := (·.failure)) (fun _ _ _ _ => rfl) s phase

@[simp] theorem failure_complete (s : Session b) (success : Bool) :
    (s.complete success).coordinator.failure = s.coordinator.failure := by
  unfold complete
  split
  · rfl
  · exact failure_watchExactly s []

@[simp] theorem failure_finish (s : Session b) (success : Bool) :
    (s.finish success).coordinator.failure = s.coordinator.failure :=
  (failure_complete _ success).trans (failure_enter s .done)

/-! ## Watches -/

@[simp] theorem watches_watchExactly_nil (s : Session b) :
    (s.watchExactly []).coordinator.watches = [] := by
  simp [watchExactly, release]

theorem watchedIds_watch (s : Session b) (slot : Slot r) :
    (s.watch slot).coordinator.watchedIds =
      if slot.id ∈ s.coordinator.watchedIds then s.coordinator.watchedIds
      else s.coordinator.watchedIds ++ [slot.id] := by
  unfold watch
  by_cases h : slot.id ∈ s.coordinator.watchedIds
  · rw [if_pos h, if_pos (Coordinator.isWatching_iff.mpr h)]
  · rw [if_neg h, if_neg fun hw => h (Coordinator.isWatching_iff.mp hw)]
    simp [Coordinator.watchedIds]

theorem watchedIds_release (s : Session b) (wanted : List Leg.Id) :
    (s.release wanted).coordinator.watchedIds = s.coordinator.watchedIds.filter (· ∈ wanted) := by
  simp only [release, Coordinator.watchedIds, List.filter_map]
  rfl

theorem watchedIds_watchExactly_single {s : Session b} (h : s.coordinator.watchedIds.Nodup)
    (slot : Slot r) : (s.watchExactly [slot]).coordinator.watchedIds = [slot.id] := by
  have hfilter : s.coordinator.watchedIds.filter (· ∈ [slot.id]) =
      List.replicate (s.coordinator.watchedIds.count slot.id) slot.id := by
    simp only [List.mem_singleton, List.filter_eq]
  simp only [watchExactly, List.map_cons, List.map_nil, List.foldl_cons, List.foldl_nil]
  rw [watchedIds_watch, watchedIds_release, hfilter]
  by_cases hmem : slot.id ∈ s.coordinator.watchedIds
  · simp [h.count, hmem]
  · simp [h.count, hmem]

theorem watchedIds_enter {s : Session b} (h : s.coordinator.watchedIds.Nodup) (phase : Phase r) :
    (s.enter phase).coordinator.watchedIds = phase.watched.map Slot.id := by
  cases phase with
  | awaitingHold hold next => exact watchedIds_watchExactly_single h hold
  | awaitingResume held resume => exact watchedIds_watchExactly_single h resume
  | rollingBack resume =>
    refine watchedIds_watchExactly_single (s := s.watchExactly []) ?_ resume
    simp [Coordinator.watchedIds]
  | idle _ | done | plain | recorder => exact congrArg _ (watches_watchExactly_nil s)

/-- The legs under watch are the given one alone, through the latest registration. -/
def WatchesOnly (s : Session b) (slot : Slot r) (epoch : Nat) : Prop :=
  s.coordinator.watches = [⟨slot, epoch⟩] ∧ s.coordinator.issued = epoch

theorem watchesOnly_watchExactly {s : Session b} {slot : Slot r}
    (h : slot.id ∉ s.coordinator.watchedIds) :
    (s.watchExactly [slot]).WatchesOnly slot (s.coordinator.issued + 1) := by
  have hnone : (s.release [slot.id]).coordinator.watches = [] := by
    refine List.filter_eq_nil_iff.mpr ?_
    intro watch hmem
    simp only [List.mem_singleton, decide_eq_true_eq]
    exact fun he => h (List.mem_map.mpr ⟨watch, hmem, he⟩)
  have hnot : ¬ (s.release [slot.id]).coordinator.isWatching slot.id = true := by
    simp [Coordinator.isWatching, hnone]
  simp only [watchExactly, List.map_cons, List.map_nil, List.foldl_cons, List.foldl_nil]
  rw [WatchesOnly, watch, if_neg hnot]
  exact ⟨by rw [hnone]; rfl, rfl⟩

theorem world_watchExactly {s : Session b} {slot : Slot r}
    (h : slot.id ∉ s.coordinator.watchedIds) :
    (s.watchExactly [slot]).world = (s.release [slot.id]).world.ask slot
      (.register ⟨s.coordinator.observer, s.coordinator.issued + 1⟩) := by
  have hnot : ¬ (s.release [slot.id]).coordinator.isWatching slot.id = true := by
    rw [Coordinator.isWatching_iff, watchedIds_release]
    exact fun hmem => h (List.mem_filter.mp hmem).1
  simp only [watchExactly, List.map_cons, List.map_nil, List.foldl_cons, List.foldl_nil]
  rw [watch, if_neg hnot]
  rfl

theorem watchesOnly_enter {s : Session b} {phase : Phase r} {slot : Slot r}
    (hp : phase.watched = [slot]) (h : slot.id ∉ s.coordinator.watchedIds) :
    (s.enter phase).WatchesOnly slot (s.coordinator.issued + 1) := by
  cases phase with
  | awaitingHold hold next =>
    obtain rfl : hold = slot := by simpa [Phase.watched] using hp
    exact watchesOnly_watchExactly h
  | awaitingResume held resume =>
    obtain rfl : resume = slot := by simpa [Phase.watched] using hp
    exact watchesOnly_watchExactly h
  | rollingBack resume =>
    obtain rfl : resume = slot := by simpa [Phase.watched] using hp
    exact watchesOnly_watchExactly (s := s.watchExactly []) (by simp [Coordinator.watchedIds])
  | idle _ | done | plain | recorder => simp [Phase.watched] at hp

theorem watchesOnly_rollingBack (s : Session b) (slot : Slot r) :
    (s.enter (.rollingBack slot)).WatchesOnly slot (s.coordinator.issued + 1) :=
  watchesOnly_watchExactly (s := s.watchExactly []) (by simp [Coordinator.watchedIds])

/-! ## The world around the watches -/

section World

variable {P : World b → Prop}

/-- Watching only adds and drops registrations, so it preserves whatever these preserve. -/
theorem watchExactly_preserves
    (hask : ∀ w slot request, LegRequest.isRegistration request = true → P w →
      P (w.ask slot request))
    {s : Session b} (h : P s.world) (wanted : List (Slot r)) :
    P (s.watchExactly wanted).world := by
  have hrelease (watches : List (Watch r)) {w : World b} (hw : P w) :
      P (watches.foldl (fun w watch => w.ask watch.leg (.unregister s.coordinator.observer)) w) := by
    induction watches generalizing w with
    | nil => exact hw
    | cons watch watches ih => exact ih (hask w watch.leg _ rfl hw)
  have hwatch (slots : List (Slot r)) {t : Session b} (ht : P t.world) :
      P (slots.foldl watch t).world := by
    induction slots generalizing t with
    | nil => exact ht
    | cons slot slots ih =>
      apply ih
      unfold watch
      split
      · exact ht
      · exact hask t.world slot (.register _) rfl ht
  exact hwatch wanted (hrelease _ h)

theorem enter_preserves
    (hask : ∀ w slot request, LegRequest.isRegistration request = true → P w →
      P (w.ask slot request))
    {s : Session b} (h : P s.world) (phase : Phase r) : P (s.enter phase).world := by
  unfold enter
  split
  · exact watchExactly_preserves hask (watchExactly_preserves hask h []) _
  · exact watchExactly_preserves hask h _

end World

theorem trace_release (s : Session b) (wanted : List Leg.Id) :
    (s.release wanted).world.trace = s.world.trace ++
      (s.coordinator.watches.filter (·.leg.id ∉ wanted)).map fun watch =>
        .asked watch.leg (.unregister s.coordinator.observer) := by
  have hfold (watches : List (Watch r)) (w : World b) :
      (watches.foldl (fun w watch => w.ask watch.leg (.unregister s.coordinator.observer)) w).trace =
        w.trace ++ watches.map fun watch => .asked watch.leg
          (.unregister s.coordinator.observer) := by
    induction watches generalizing w with
    | nil => exact (List.append_nil _).symm
    | cons watch watches ih =>
      rw [List.foldl_cons, ih, World.trace_ask, List.append_assoc]
      rfl
  exact hfold _ s.world

theorem grows_registration {w w' : World b} (h : World.Grows (·.isRegistration) w w')
    (slot : Slot r) {request : LegRequest} (hr : request.isRegistration = true) :
    World.Grows (·.isRegistration) w (w'.ask slot request) :=
  h.trans ((World.grows_ask w' slot request).mono fun _ he => he ▸ hr)

theorem grows_watchExactly (s : Session b) (wanted : List (Slot r)) :
    World.Grows (·.isRegistration) s.world (s.watchExactly wanted).world :=
  watchExactly_preserves (P := World.Grows (·.isRegistration) s.world)
    (fun _ slot _ hr h => grows_registration h slot hr) (.refl _ _) wanted

theorem grows_enter (s : Session b) (phase : Phase r) :
    World.Grows (·.isRegistration) s.world (s.enter phase).world :=
  enter_preserves (P := World.Grows (·.isRegistration) s.world)
    (fun _ slot _ hr h => grows_registration h slot hr) (.refl _ _) phase

@[simp] theorem demands_enter (s : Session b) (phase : Phase r) :
    (s.enter phase).world.demands = s.world.demands :=
  (grows_enter s phase).demands_eq fun _ => Event.isDemand_of_isRegistration

@[simp] theorem calls_enter (s : Session b) (phase : Phase r) :
    (s.enter phase).world.calls = s.world.calls :=
  (grows_enter s phase).calls_eq fun _ => Event.call?_of_isRegistration

@[simp] theorem calls_watchExactly (s : Session b) (wanted : List (Slot r)) :
    (s.watchExactly wanted).world.calls = s.world.calls :=
  (grows_watchExactly s wanted).calls_eq fun _ => Event.call?_of_isRegistration

/-- To finish is to drop registrations and to call listeners, and no more. -/
theorem grows_finish (s : Session b) (success : Bool) :
    World.Grows (fun event => event.isRegistration = true ∨ event.call? ≠ none) s.world
      (s.finish success).world := by
  refine ((grows_enter s .done).mono fun _ => .inl).trans ?_
  unfold finish complete
  split
  · exact .refl _ _
  · have hwatches := (grows_watchExactly (s.enter .done) []).mono
      fun event (h : event.isRegistration = true) =>
        Or.inl (b := event.call? ≠ none) h
    exact hwatches.trans ((World.grows_foldl_tell _ success _).mono fun _ => .inr)

@[simp] theorem demands_finish (s : Session b) (success : Bool) :
    (s.finish success).world.demands = s.world.demands := by
  refine (grows_finish s success).demands_eq ?_
  rintro event (h | h)
  · exact Event.isDemand_of_isRegistration h
  · exact Event.isDemand_of_call? h

end Session

end CallCoordination
