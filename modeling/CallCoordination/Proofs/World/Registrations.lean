import CallCoordination.World.Lemmas

/-!
# Registrations in a world

The registrations of an observer change only when a leg is asked to add or to drop one of them.
Whatever else happens, and whatever is asked for another observer, leaves them alone. A sticky leg
stays sticky.
-/

namespace CallCoordination

def LegRequest.isRegistration : LegRequest → Bool
  | register _ | unregister _ => true
  | _ => false

namespace World

variable {r : Roster} {b : Behaviour r}

def registrationsOf (w : World b) (observer : Observer) (slot : Slot r) : List Registration :=
  (w.leg slot).registrations.filter (·.observer = observer)

theorem registrationsOf_congr {w w' : World b} {slot : Slot r}
    (h : (w'.leg slot).registrations = (w.leg slot).registrations) (observer : Observer) :
    w'.registrationsOf observer slot = w.registrationsOf observer slot := by
  rw [registrationsOf, registrationsOf, h]

/-! ## Sticky legs -/

theorem sticky_modifyLeg (w : World b) (slot other : Slot r) (f : Leg → Leg)
    (h : ∀ leg, (f leg).sticky = leg.sticky) :
    ((w.modifyLeg slot f).leg other).sticky = (w.leg other).sticky := by
  by_cases he : other = slot
  · subst he
    simp [h]
  · rw [leg_modifyLeg_ne w he]

@[simp] theorem sticky_apply (w : World b) (effect : Effect r) (slot : Slot r) :
    ((w.apply effect).leg slot).sticky = (w.leg slot).sticky := by
  cases effect with
  | changeState leg state =>
    exact sticky_modifyLeg w leg slot ({ · with state := state }) fun _ => rfl
  | setState leg state => exact sticky_modifyLeg w leg slot _ fun _ => rfl
  | notify leg under notification => rfl
  | send leg index under notification => rfl
  | queueAnswer leg answer => exact sticky_modifyLeg w leg slot _ fun _ => rfl

@[simp] theorem sticky_applyAll (w : World b) (effects : List (Effect r)) (slot : Slot r) :
    ((w.applyAll effects).leg slot).sticky = (w.leg slot).sticky := by
  induction effects generalizing w with
  | nil => rfl
  | cons effect effects ih => rw [applyAll_cons, ih, sticky_apply]

@[simp] theorem sticky_stir (w : World b) (memory : b.Memory) (effects : List (Effect r))
    (slot : Slot r) : ((w.stir memory effects).leg slot).sticky = (w.leg slot).sticky :=
  sticky_applyAll { w with memory := memory } effects slot

@[simp] theorem sticky_emit (w : World b) (event : Event r) (slot : Slot r) :
    ((w.emit event).leg slot).sticky = (w.leg slot).sticky :=
  sticky_stir (w.note event) _ _ slot

theorem sticky_unregister (leg : Leg) (observer : Observer) :
    (leg.unregister observer).sticky = leg.sticky := by
  unfold Leg.unregister
  split <;> rfl

@[simp] theorem sticky_ask (w : World b) (slot other : Slot r) (request : LegRequest) :
    ((w.ask slot request).leg other).sticky = (w.leg other).sticky := by
  cases request with
  | register registration =>
    rw [ask, sticky_emit]
    exact sticky_modifyLeg w slot other _ fun _ => rfl
  | unregister observer =>
    rw [ask, sticky_emit]
    exact sticky_modifyLeg w slot other _ fun leg => sticky_unregister leg observer
  | hold | resume | answer _ | disconnect _ => exact sticky_emit w _ other

@[simp] theorem sticky_dial (w : World b) (slot other : Slot r) (callee : Callee)
    (terms : DialTerms) :
    ((w.dial slot callee terms).2.leg other).sticky = (w.leg other).sticky := by
  rw [dial, sticky_emit]
  exact sticky_modifyLeg w slot other _ fun _ => rfl

theorem sticky_foldl_tell (w : World b) (success : Bool) (listeners : List Listener)
    (slot : Slot r) :
    ((listeners.foldl (tell · success ·) w).leg slot).sticky = (w.leg slot).sticky := by
  induction listeners generalizing w with
  | nil => rfl
  | cons listener listeners ih => rw [List.foldl_cons, ih, tell, sticky_emit]

/-! ## What leaves registrations alone -/

@[simp] theorem registrationsOf_stir (w : World b) (memory : b.Memory)
    (effects : List (Effect r)) (observer : Observer) (slot : Slot r) :
    (w.stir memory effects).registrationsOf observer slot = w.registrationsOf observer slot :=
  registrationsOf_congr (registrations_applyAll { w with memory := memory } effects slot) observer

@[simp] theorem registrationsOf_emit (w : World b) (event : Event r) (observer : Observer)
    (slot : Slot r) :
    (w.emit event).registrationsOf observer slot = w.registrationsOf observer slot :=
  registrationsOf_congr (registrations_emit w event slot) observer

@[simp] theorem registrationsOf_dial (w : World b) (leg slot : Slot r) (callee : Callee)
    (terms : DialTerms) (observer : Observer) :
    (w.dial leg callee terms).2.registrationsOf observer slot = w.registrationsOf observer slot := by
  rw [dial, registrationsOf_emit]
  apply registrationsOf_congr
  exact registrations_modifyLeg w leg slot (fun l => { l with answers := l.answers.tail }) fun _ => rfl

@[simp] theorem registrationsOf_tell (w : World b) (success : Bool) (listener : Listener)
    (observer : Observer) (slot : Slot r) :
    (w.tell success listener).registrationsOf observer slot = w.registrationsOf observer slot :=
  registrationsOf_emit w _ observer slot

@[simp] theorem registrationsOf_foldl_tell (w : World b) (success : Bool)
    (listeners : List Listener) (observer : Observer) (slot : Slot r) :
    (listeners.foldl (tell · success ·) w).registrationsOf observer slot =
      w.registrationsOf observer slot := by
  induction listeners generalizing w with
  | nil => rfl
  | cons listener listeners ih => rw [List.foldl_cons, ih, registrationsOf_tell]

theorem registrationsOf_ask {request : LegRequest} (h : request.isRegistration = false)
    (w : World b) (leg slot : Slot r) (observer : Observer) :
    (w.ask leg request).registrationsOf observer slot = w.registrationsOf observer slot := by
  cases request with
  | register _ | unregister _ => simp [LegRequest.isRegistration] at h
  | hold | resume | answer _ | disconnect _ => exact registrationsOf_emit w _ observer slot

/-! ## What changes them -/

theorem registrationsOf_modifyLeg_ne (w : World b) {leg slot : Slot r} (h : slot ≠ leg)
    (f : Leg → Leg) (observer : Observer) :
    (w.modifyLeg leg f).registrationsOf observer slot = w.registrationsOf observer slot := by
  rw [registrationsOf, leg_modifyLeg_ne w h, registrationsOf]

theorem registrationsOf_register (w : World b) (leg slot : Slot r) (registration : Registration)
    (observer : Observer) :
    (w.ask leg (.register registration)).registrationsOf observer slot =
      if slot = leg ∧ registration.observer = observer then
        w.registrationsOf observer slot ++ [registration]
      else w.registrationsOf observer slot := by
  rw [ask, registrationsOf_emit]
  by_cases he : slot = leg
  · subst he
    by_cases ho : registration.observer = observer <;>
      simp [registrationsOf, Leg.register, ho]
  · rw [registrationsOf_modifyLeg_ne w he, if_neg fun h => he h.1]

theorem registrationsOf_unregister_of_ne (w : World b) (leg slot : Slot r)
    {mine observer : Observer} (h : observer ≠ mine) :
    (w.ask leg (.unregister mine)).registrationsOf observer slot =
      w.registrationsOf observer slot := by
  rw [ask, registrationsOf_emit]
  by_cases he : slot = leg
  · subst he
    rw [registrationsOf, leg_modifyLeg_self, registrationsOf, Leg.unregister]
    split
    · rfl
    · rw [List.filter_filter]
      apply List.filter_congr
      intro registration _
      by_cases ho : registration.observer = observer <;> simp [ho, h]
  · rw [registrationsOf_modifyLeg_ne w he]

theorem registrationsOf_unregister {w : World b} {leg : Slot r}
    (loyal : (w.leg leg).sticky = false) (slot : Slot r) (observer : Observer) :
    (w.ask leg (.unregister observer)).registrationsOf observer slot =
      if slot = leg then [] else w.registrationsOf observer slot := by
  rw [ask, registrationsOf_emit]
  by_cases he : slot = leg
  · subst he
    simp [registrationsOf, Leg.unregister, loyal]
  · rw [registrationsOf_modifyLeg_ne w he, if_neg he]

end World

end CallCoordination
