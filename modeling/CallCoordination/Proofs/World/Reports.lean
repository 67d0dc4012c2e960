import CallCoordination.Proofs.World.Moves
import CallCoordination.Proofs.World.States

/-!
# Legs that report

A leg reports if whoever is registered on it is sent each state that it changes to. Then a state
that is looked for cannot be reached behind a registration that was made before: as long as the
letter about it is not taken, it waits in the mailbox.
-/

namespace CallCoordination

variable {r : Roster} {b : Behaviour r}

/-- Whether an effect can change a state without a word about it. -/
def Effect.isSilent : Effect r → Bool
  | setState .. => true
  | _ => false

namespace World

/-- Whoever was registered on a leg whose state has changed from `w` to `w'` was sent the new
state meanwhile. -/
def Reports (w w' : World b) : Prop :=
  ∃ letters, w'.wire = w.wire ++ letters ∧
    ∀ slot, w'.state slot ≠ w.state slot → ∀ registration ∈ (w.leg slot).registrations,
      letter slot none (.stateChanged (w'.state slot)) registration ∈ letters

namespace Reports

theorem refl (w : World b) : w.Reports w :=
  ⟨[], (List.append_nil _).symm, fun _ h => absurd rfl h⟩

theorem trans {w w' w'' : World b} (h : w.Reports w') (h' : w'.Reports w'')
    (hsame : ∀ slot, (w'.leg slot).registrations = (w.leg slot).registrations) :
    w.Reports w'' := by
  obtain ⟨first, hfirst, hsent⟩ := h
  obtain ⟨rest, hrest, hsent'⟩ := h'
  refine ⟨first ++ rest, by rw [hrest, hfirst, List.append_assoc], ?_⟩
  intro slot hne registration hmem
  rw [List.mem_append]
  by_cases hlast : w''.state slot = w'.state slot
  · rw [hlast] at hne ⊢
    exact .inl (hsent slot hne registration hmem)
  · exact .inr (hsent' slot hlast registration (hsame slot ▸ hmem))

theorem apply (w : World b) {effect : Effect r} (h : effect.isSilent = false) :
    w.Reports (w.apply effect) := by
  have unmoved {w' : World b} (hwire : ∃ letters, w'.wire = w.wire ++ letters)
      (hstate : w'.state = w.state) : w.Reports w' := by
    obtain ⟨letters, hletters⟩ := hwire
    exact ⟨letters, hletters, fun slot hne => absurd (congrFun hstate slot) hne⟩
  cases effect with
  | setState slot state => simp [Effect.isSilent] at h
  | notify slot under notification => exact unmoved ⟨_, rfl⟩ (state_apply w _)
  | send slot index under notification => exact unmoved ⟨_, rfl⟩ (state_apply w _)
  | queueAnswer slot answer => exact unmoved ⟨[], (List.append_nil _).symm⟩ (state_apply w _)
  | changeState slot state =>
    have hstate : (w.apply (.changeState slot state)).state =
        Function.update w.state slot state := state_apply w _
    refine ⟨_, rfl, fun other hne registration hmem => ?_⟩
    rw [hstate] at hne ⊢
    by_cases he : other = slot
    · subst he
      rw [Function.update_self, World.setState, leg_modifyLeg_self]
      exact List.mem_map_of_mem hmem
    · exact absurd (Function.update_of_ne he state w.state) hne

end Reports

end World

namespace Behaviour

/-- Effects that leave nobody unaware of a change of state. -/
def Frank (b : Behaviour r) (effects : List (Effect r)) : Prop :=
  ∀ w : World b, w.Reports (w.applyAll effects)

/-- Whatever happens in response to an event, legs report their changes of state. -/
def Reports (b : Behaviour r) : Prop := ∀ memory event, b.Frank (b.react memory event).2

theorem frank_of_not_silent {effects : List (Effect r)}
    (h : ∀ effect ∈ effects, effect.isSilent = false) : b.Frank effects := by
  induction effects with
  | nil => exact World.Reports.refl
  | cons effect effects ih =>
    intro w
    have hfirst : w.Reports (w.apply effect) := .apply w (h effect List.mem_cons_self)
    have hrest := ih (fun other hmem => h other (List.mem_cons_of_mem _ hmem)) (w.apply effect)
    exact hfirst.trans hrest (World.registrations_apply w effect)

theorem frank_changeState (b : Behaviour r) (slot : Slot r) (state : Leg.State) :
    b.Frank [.changeState slot state] :=
  frank_of_not_silent (by simp [Effect.isSilent])

end Behaviour

theorem Script.reports_behaviour {script : Script r}
    (hlegs : ∀ leg, ∀ entry ∈ script.legs leg, ∀ effect ∈ entry.2, effect.isSilent = false)
    (hlisteners : ∀ entry ∈ script.listeners, ∀ effect ∈ entry.2, effect.isSilent = false) :
    script.behaviour.Reports := by
  have honCue (leg : Slot r) (cue : Cue) :
      ∀ effect ∈ script.onCue leg cue, effect.isSilent = false := by
    intro effect hmem
    unfold onCue at hmem
    cases hlookup : (script.legs leg).lookup cue with
    | some effects =>
      rw [hlookup] at hmem
      obtain ⟨before, after, hentry, -⟩ := List.lookup_eq_some_iff.mp hlookup
      exact hlegs leg (cue, effects) (by simp [hentry]) effect hmem
    | none =>
      rw [hlookup] at hmem
      cases cue with
      | disconnect =>
        obtain rfl : effect = .changeState leg .disconnected := by simpa [unscripted] using hmem
        rfl
      | hold | resume | answer | dial | register | unregister =>
        simp [unscripted] at hmem
  intro memory event
  refine Behaviour.frank_of_not_silent (b := script.behaviour) ?_
  intro effect hmem
  cases event with
  | asked leg request => exact honCue leg request.cue effect hmem
  | dialled leg callee terms answer => exact honCue leg .dial effect hmem
  | told listener success registrations =>
    simp only [behaviour, response] at hmem
    cases hlookup : script.listeners.lookup listener with
    | some effects =>
      rw [hlookup] at hmem
      obtain ⟨before, after, hentry, -⟩ := List.lookup_eq_some_iff.mp hlookup
      exact hlisteners (listener, effects) (by simp [hentry]) effect hmem
    | none =>
      rw [hlookup] at hmem
      exact absurd hmem List.not_mem_nil
  | faultReported _ _ _ | heardState _ _ | heardEvent _ _ => exact absurd hmem List.not_mem_nil

namespace World

theorem reports_emit (hb : b.Reports) (w : World b) (event : Event r) :
    w.Reports (w.emit event) := by
  exact hb w.memory event { w.note event with memory := (b.react w.memory event).1 }

/-! ## What a registration guards against -/

/-- The registration is held by its leg, and the leg is in none of the states that are looked for,
unless a letter about one of them, sent through this registration, is in the mailbox. -/
structure Guards (w : World b) (goal : Leg.State → Bool) (observer : Observer) (slot : Slot r)
    (epoch : Nat) : Prop where
  registered : ⟨observer, epoch⟩ ∈ (w.leg slot).registrations
  reported : goal (w.state slot) = true →
    ∃ state, goal state = true ∧ ⟨slot.id, epoch, .stateChanged state⟩ ∈ w.mailbox observer

namespace Guards

variable {w w' : World b} {goal : Leg.State → Bool} {observer : Observer} {slot : Slot r}
  {epoch : Nat}

/-- A change of the state is reported through the registration. -/
theorem of_reports (h : w.Guards goal observer slot epoch) (hreports : w.Reports w')
    (hregistered : ⟨observer, epoch⟩ ∈ (w'.leg slot).registrations) :
    w'.Guards goal observer slot epoch := by
  obtain ⟨letters, hwire, hsent⟩ := hreports
  refine ⟨hregistered, fun hgoal => ?_⟩
  rw [mailbox_of_wire hwire]
  by_cases hstate : w'.state slot = w.state slot
  · rw [hstate] at hgoal
    obtain ⟨state, hreached, hmem⟩ := h.reported hgoal
    exact ⟨state, hreached, List.mem_append_left _ hmem⟩
  · have hletter := hsent slot hstate _ h.registered
    refine ⟨w'.state slot, hgoal, List.mem_append_right _ ?_⟩
    have hmine : (letter slot none (.stateChanged (w'.state slot)) ⟨observer, epoch⟩) ∈
        letters.filter (·.recipient = observer) :=
      List.mem_filter.mpr ⟨hletter, by simp [letter]⟩
    exact List.mem_map_of_mem hmine

theorem of_same (h : w.Guards goal observer slot epoch)
    (hregistered : ⟨observer, epoch⟩ ∈ (w'.leg slot).registrations)
    (hstate : w'.state slot = w.state slot)
    (hmailbox : w'.mailbox observer = w.mailbox observer) :
    w'.Guards goal observer slot epoch :=
  ⟨hregistered, fun hgoal => hmailbox ▸ h.reported (hstate ▸ hgoal)⟩

theorem emit (hb : b.Reports) (h : w.Guards goal observer slot epoch) (event : Event r) :
    (w.emit event).Guards goal observer slot epoch :=
  h.of_reports (reports_emit hb w event) (registrations_emit w event slot ▸ h.registered)

theorem note (h : w.Guards goal observer slot epoch) (event : Event r) :
    (w.note event).Guards goal observer slot epoch :=
  h.of_same h.registered rfl rfl

theorem stir (h : w.Guards goal observer slot epoch) (memory : b.Memory)
    {effects : List (Effect r)} (hfrank : b.Frank effects) :
    (w.stir memory effects).Guards goal observer slot epoch := by
  have hmemory : World.Guards { w with memory := memory } goal observer slot epoch :=
    h.of_same h.registered rfl rfl
  refine hmemory.of_reports (hfrank _) ?_
  rw [World.stir, registrations_applyAll]
  exact h.registered

theorem modifyLeg (h : w.Guards goal observer slot epoch) (other : Slot r) {f : Leg → Leg}
    (hregistered : ⟨observer, epoch⟩ ∈ (w.leg other).registrations →
      ⟨observer, epoch⟩ ∈ (f (w.leg other)).registrations)
    (hstate : ∀ leg, (f leg).state = leg.state) :
    (w.modifyLeg other f).Guards goal observer slot epoch := by
  refine h.of_same ?_ (congrFun (state_modifyLeg_of_same w other hstate) slot) rfl
  by_cases he : slot = other
  · subst he
    rw [leg_modifyLeg_self]
    exact hregistered h.registered
  · rw [leg_modifyLeg_ne w he]
    exact h.registered

theorem ask (hb : b.Reports) (h : w.Guards goal observer slot epoch) (other : Slot r)
    {request : LegRequest} (hkept : request ≠ .unregister observer) :
    (w.ask other request).Guards goal observer slot epoch := by
  cases request with
  | register registration =>
    exact (h.modifyLeg other (f := (·.register registration))
      (List.mem_append_left _) fun _ => rfl).emit hb _
  | unregister gone =>
    have hne : observer ≠ gone := fun he => hkept (he ▸ rfl)
    refine (h.modifyLeg other (f := (·.unregister gone)) (fun hmem => ?_) fun leg => ?_).emit hb _
    · unfold Leg.unregister
      split
      · exact hmem
      · exact List.mem_filter.mpr ⟨hmem, by simpa using hne⟩
    · unfold Leg.unregister
      split <;> rfl
  | hold | resume | answer _ | disconnect _ => exact h.emit hb _

/-- To take another letter from the mailbox does no harm. -/
theorem collect (h : w.Guards goal observer slot epoch) {signal : Signal}
    (hcollect : w.collect observer = some (signal, w'))
    (hother : ∀ state, goal state = true → signal ≠ ⟨slot.id, epoch, .stateChanged state⟩) :
    w'.Guards goal observer slot epoch := by
  have hmailbox := mailbox_of_collect hcollect
  obtain rfl := collect_eq_some hcollect
  refine ⟨h.registered, fun hgoal => ?_⟩
  obtain ⟨state, hreached, hmem⟩ := h.reported hgoal
  rw [hmailbox, List.mem_cons] at hmem
  rcases hmem with hfirst | hmem
  · exact absurd hfirst.symm (hother state hreached)
  · exact ⟨state, hreached, hmem⟩

/-- Nothing that is done on behalf of another observer can spoil a guard. -/
theorem moves (hb : b.Reports) (h : w.Guards goal observer slot epoch) {other : Observer}
    (hmoves : Moves other w w') (hne : observer ≠ other) :
    w'.Guards goal observer slot epoch := by
  induction hmoves with
  | refl => exact h
  | tail _ hmove ih =>
    cases hmove with
    | @ask leg request hrequest =>
      refine ih.ask hb leg ?_
      rintro rfl
      exact hne hrequest
    | dial leg callee terms =>
      exact (ih.modifyLeg leg (f := fun l => { l with answers := l.answers.tail })
        (fun hmem => hmem) fun _ => rfl).emit hb _
    | tell success listener => exact ih.emit hb _
    | report handler leg fault => exact ih.emit hb _
    | noteState leg state => exact ih.note _
    | noteEvent leg event => exact ih.note _
    | collect hcollect =>
      have hmailbox := mailbox_collect_of_ne hcollect hne
      obtain rfl := collect_eq_some hcollect
      exact ih.of_same ih.registered rfl hmailbox

end Guards

/-- A registration made while the leg is in none of the states that are looked for guards against
all of them, whatever the leg does in the very call that registers it. -/
theorem guards_register (hb : b.Reports) {w : World b} {goal : Leg.State → Bool} {slot : Slot r}
    (h : goal (w.state slot) = false) (observer : Observer) (epoch : Nat) :
    (w.ask slot (.register ⟨observer, epoch⟩)).Guards goal observer slot epoch := by
  have hregistered : (w.modifyLeg slot (·.register ⟨observer, epoch⟩)).Guards goal observer slot
      epoch := by
    refine ⟨?_, fun hgoal => ?_⟩
    · rw [leg_modifyLeg_self]
      exact List.mem_append_right _ (List.mem_singleton_self _)
    · have hkept (leg : Leg) : (leg.register ⟨observer, epoch⟩).state = leg.state := rfl
      rw [state_modifyLeg_of_same w slot hkept, h] at hgoal
      cases hgoal
  exact hregistered.emit hb _

end World

end CallCoordination
