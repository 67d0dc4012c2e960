import CallCoordination.Proofs.Session.Course

/-!
# Answering a call that may have stopped ringing

The leg to answer is not watched, so its state may change unnoticed. It is looked at once, when the
hold has settled, and is then either answered or left alone; it is never asked for anything else.
The action succeeds in both cases: a call that has been given up meanwhile is no failure.
-/

namespace CallCoordination

variable {r : Roster} {b : Behaviour r}

/-- The leg that is asked for something, or dialled. -/
def Event.leg? : Event r → Option (Slot r)
  | asked leg _ => some leg
  | dialled leg .. => some leg
  | _ => none

theorem Event.leg?_of_call? {event : Event r} (h : event.call? ≠ none) : event.leg? = none := by
  cases event <;> simp_all [call?, leg?]

namespace Session

variable {s m : Session b} {hold leg : Slot r} {video : Video}

theorem closes_leaveHold_answer (h : m.Waits hold (.answer leg video)) {e : HoldEnd b}
    (hworld : m.world = e.world) :
    ∃ acts cause, Closes m (m.leaveHold hold (.answer leg video) e.exit) acts cause ∧
      cause.isNone = decide (e.exit = .settled) ∧
      (e.Finds leg .ringing → acts = [.asked leg (.answer video)]) ∧
      (¬ e.Finds leg .ringing → acts = []) := by
  cases hexit : e.exit with
  | failed =>
    refine ⟨_, _, closes_holdFailed h.expects.undecided h.failure hold (.answer leg video), rfl,
      ?_, fun _ => rfl⟩
    rintro ⟨hsettled, -⟩
    cases hexit.symm.trans hsettled
  | settled =>
    refine ⟨_, _, closes_answer h.expects.undecided h.failure hold leg video, rfl, ?_, ?_⟩
    · rintro ⟨-, hrings⟩
      rw [World.answering, hworld, if_pos hrings]
    · intro hnot
      rw [World.answering, hworld, if_neg fun hrings => hnot ⟨hexit, hrings⟩]

/-- What a coordinator does to answer a call: it has the other leg held, answers if there is still
something to answer, and closes. -/
theorem Unstarted.answers {turns : List (Turn b)} (h : s.Unstarted (.answer hold leg video))
    (single : ∀ turn ∈ turns, turn.Single) :
    let ended := s.holdEnd? (.answer hold leg video) turns
    let removal : Event r := .asked hold (.unregister s.coordinator.observer)
    (s.run turns).coordinator.outcome = ended.map (fun e => decide (e.exit = .settled)) ∧
    ∃ begun acts closing, s.deeds turns = begun ++ acts ++ closing ∧
      begun.Sublist [.asked hold (.register ⟨s.coordinator.observer, 1⟩), .asked hold .hold] ∧
      ((∃ e ∈ ended, e.Finds leg .ringing) → acts = [.asked leg (.answer video)]) ∧
      ((¬ ∃ e ∈ ended, e.Finds leg .ringing) → acts = []) ∧
      (closing = [] ∨ ∃ told, closing = removal :: told ∧ ∀ event ∈ told, event.call? ≠ none) := by
  intro ended removal
  have hcourse : s.Course (.answer hold leg video) turns ended := h.course single
  generalize ended = ended at hcourse
  cases hcourse with
  | unstarted hrun hdeeds =>
    exact ⟨hrun.undecided, [], [], [], hdeeds, List.nil_sublist _, by simp, fun _ => rfl, .inl rfl⟩
  | refused haction _ _ _ _ => cases haction
  | waiting hleaves hrun hdeeds =>
    cases hleaves
    refine ⟨hrun.expects.undecided, s.onset hold (.answer leg video) ++ [.asked hold .hold], [], [],
      ?_, .refl _, by simp, fun _ => rfl, .inl rfl⟩
    rw [hdeeds, List.append_nil, List.append_nil]
    rfl
  | @ended next e requests m later hleaves hrequests hends =>
    cases hleaves
    obtain ⟨acts, cause, hcloses, hcause, hrings, hsilent⟩ :=
      closes_leaveHold_answer hends.waits hends.world
    obtain ⟨houtcome, -, told, hdeeds, htold⟩ := hends.concluded hcloses
    refine ⟨by rw [houtcome, hcause]; rfl, _, acts, _, hdeeds, hrequests.cons_cons _, ?_, ?_,
      .inr ⟨told, rfl, htold⟩⟩
    · rintro ⟨_, ⟨⟩, hfinds⟩
      exact hrings hfinds
    · exact fun hnot => hsilent fun hfinds => hnot ⟨e, rfl, hfinds⟩

end Session

/-- After any run of public operations, whatever legs do. The leg to answer is answered, and asked
for nothing else, if it rings at the moment at which the hold settles; no listener is called before
that and the registration on the leg to hold is not dropped before. In all other runs it is asked
for nothing at all. The other leg is watched, held and let go, each once at most, and for nothing
else. The outcome is how the hold has ended, as far as it has. -/
theorem ringing_leg_is_answered (hold leg : Slot r) (apart : hold ≠ leg) (video : Video)
    (policy : Policy) (handler : Option FaultHandler) (observer : Observer) (w : World b)
    (turns : List (Turn b)) (allPublic : ∀ turn ∈ turns, turn.Public) :
    let action : Action r := .answer hold leg video
    let s := Session.opened (.action action policy handler) observer w
    let ended := s.holdEnd? action (s.unrolled turns)
    let removal : Event r := .asked hold (.unregister observer)
    ((∃ e ∈ ended, e.Finds leg .ringing) → ∃ before after,
      s.deeds turns = before ++ .asked leg (.answer video) :: after ∧
      (∀ event ∈ before ++ after, event.leg? ≠ some leg) ∧
      ∀ event ∈ before, event.call? = none ∧ event ≠ removal) ∧
    ((¬ ∃ e ∈ ended, e.Finds leg .ringing) → ∀ event ∈ s.deeds turns, event.leg? ≠ some leg) ∧
    ((s.deeds turns).filter (·.leg? = some hold)).Sublist
      [.asked hold (.register ⟨observer, 1⟩), .asked hold .hold, removal] ∧
    (s.run turns).coordinator.outcome = ended.map fun e => decide (e.exit = .settled) := by
  intro action s ended removal
  have hunstarted := Session.unstarted_opened action policy handler observer w
  obtain ⟨houtcome, begun, acts, closing, hdeeds, hbegun, hrings, hsilent, hclosing⟩ :=
    hunstarted.answers (s.single_unrolled allPublic)
  rw [s.run_unrolled] at houtcome
  rw [s.deeds_unrolled] at hdeeds
  have hother : some hold ≠ some leg := fun h => apart (Option.some.inj h)
  have hbegun : begun.Sublist [.asked hold (.register ⟨observer, 1⟩), .asked hold .hold] := hbegun
  have hbefore (event : Event r) (hmem : event ∈ begun) :
      event = .asked hold (.register ⟨observer, 1⟩) ∨ event = .asked hold .hold := by
    simpa using hbegun.subset hmem
  have hafter (event : Event r) (hmem : event ∈ closing) :
      event = removal ∨ event.call? ≠ none := by
    rcases hclosing with rfl | ⟨told, rfl, htold⟩
    · cases hmem
    · exact (List.mem_cons.mp hmem).imp id (htold event)
  have haround (event : Event r) (hmem : event ∈ begun ++ closing) : event.leg? ≠ some leg := by
    rcases List.mem_append.mp hmem with hmem | hmem
    · rcases hbefore event hmem with rfl | rfl
      · exact hother
      · exact hother
    · rcases hafter event hmem with rfl | hcall
      · exact hother
      · simp [Event.leg?_of_call? hcall]
  refine ⟨?_, ?_, ?_, houtcome⟩
  · intro hfinds
    refine ⟨begun, closing, ?_, haround, ?_⟩
    · rw [hdeeds, hrings hfinds, List.append_assoc]
      rfl
    · intro event hmem
      rcases hbefore event hmem with rfl | rfl
      · exact ⟨rfl, by simp [removal]⟩
      · exact ⟨rfl, by simp [removal]⟩
  · intro hnot
    rw [hdeeds, hsilent hnot, List.append_nil]
    exact haround
  · have hfirst : (begun.filter (·.leg? = some hold)).Sublist
        [.asked hold (.register ⟨observer, 1⟩), .asked hold .hold] :=
      List.filter_sublist.trans hbegun
    have hnone : acts.filter (·.leg? = some hold) = [] := by
      by_cases hfinds : ∃ e ∈ ended, e.Finds leg .ringing
      · rw [hrings hfinds]
        simp [Event.leg?, Ne.symm apart]
      · rw [hsilent hfinds, List.filter_nil]
    have hlast : (closing.filter (·.leg? = some hold)).Sublist [removal] := by
      rcases hclosing with rfl | ⟨told, rfl, htold⟩
      · exact List.nil_sublist _
      · have hquiet : told.filter (·.leg? = some hold) = [] := by
          refine List.filter_eq_nil_iff.mpr fun event hmem => ?_
          simp [Event.leg?_of_call? (htold event hmem)]
        rw [List.filter_cons_of_pos (by simp [Event.leg?]), hquiet]
        exact .refl _
    rw [hdeeds, List.filter_append, List.filter_append, hnone, List.append_nil]
    exact hfirst.append hlast

/-- The call starts to ring while the other leg is asked to hold. A hold that fails afterwards, or
under an older registration, comes too late or too early. -/
theorem ringing_leg_is_answered_of_late_ring :
    let script : Script [⟨"a"⟩, ⟨"b"⟩] :=
      { legs := fun leg => if leg = 0 then [(.hold, [.changeState 1 .ringing])] else [] }
    let w : World script.behaviour := .fresh #v[{ state := .active }, { state := .idle }] ()
    let turns : List (Turn script.behaviour) :=
      [.perform (.addListener ⟨"l"⟩), .perform .start,
        .perform (.dispatch ⟨⟨"a"⟩, 0, .connectionEvent .holdFailed⟩),
        .stir () [.changeState 0 .holding], .perform .pop,
        .perform (.dispatch ⟨⟨"a"⟩, 1, .stateChanged .holding⟩), .stir () [.setState 1 .active],
        .perform (.dispatch ⟨⟨"a"⟩, 1, .connectionEvent .holdFailed⟩)]
    let s := Session.opened (.action (.answer 0 1 .audioOnly) {} none) ⟨0⟩ w
    (0 : Slot [⟨"a"⟩, ⟨"b"⟩]) ≠ 1 ∧ (∀ turn ∈ turns, turn.Public) ∧
      (∃ before after, s.deeds turns = before ++ .asked 1 (.answer .audioOnly) :: after ∧
        ∀ event ∈ before ++ after, event.leg? ≠ some 1) ∧
      (s.run turns).coordinator.outcome = some true := by
  intro script w turns s
  have apart : (0 : Slot [⟨"a"⟩, ⟨"b"⟩]) ≠ 1 := by decide
  have allPublic : ∀ turn ∈ turns, turn.Public := by
    simp [turns, Turn.Public, Operation.isPublic]
  obtain ⟨hanswered, -, -, houtcome⟩ :=
    ringing_leg_is_answered 0 1 apart .audioOnly {} none ⟨0⟩ w turns allPublic
  let ended := s.holdEnd? (.answer 0 1 .audioOnly) (s.unrolled turns)
  have hexit : ended.map (·.exit) = some .settled := by decide
  have hstate : ended.map (·.world.state 1) = some .ringing := by decide
  have hdone : ended.map (fun e => decide (e.exit = .settled)) = some true := by decide
  obtain ⟨e, hend, hexit⟩ := Option.map_eq_some_iff.mp hexit
  rw [hend] at hstate
  have hfinds : e.Finds 1 .ringing := ⟨hexit, Option.some.inj hstate⟩
  obtain ⟨before, after, hdeeds, hothers, -⟩ := hanswered ⟨e, hend, hfinds⟩
  refine ⟨apart, allPublic, ⟨before, after, hdeeds, hothers⟩, ?_⟩
  rw [houtcome]
  exact hdone

end CallCoordination
