import CallCoordination.Proofs.Noise
import CallCoordination.Proofs.Switchboard.Acts

/-!
# Coordinators that share legs are isolated

Legs keep the registrations of all coordinators in one list and notify all of them, but each
registration is of one observer, and each coordinator acts in the name of its own. So whatever is
done to one of them, the others keep what they have, and only what legs send them can arrive. What
is sent to a coordinator that was dropped stays on the wire, and nobody takes it.
-/

namespace CallCoordination

variable {r : Roster} {b : Behaviour r}

namespace World

/-! ## Standing by -/

/-- The observer stands by while `w` becomes `w'`: it keeps its registrations, and what arrives for
it was sent through them. -/
structure StandsBy (observer : Observer) (w w' : World b) : Prop where
  registrations : ∀ slot, w'.registrationsOf observer slot = w.registrationsOf observer slot
  arrives : ∃ arrived, w'.mailbox observer = w.mailbox observer ++ arrived ∧
    ∀ signal ∈ arrived, ∃ slot, ∃ registration ∈ w.registrationsOf observer slot,
      signal.epoch = registration.epoch

namespace StandsBy

variable {observer : Observer} {w w' w'' : World b}

theorem of_same (hregistrations : ∀ slot,
    w'.registrationsOf observer slot = w.registrationsOf observer slot)
    (hmailbox : w'.mailbox observer = w.mailbox observer) : StandsBy observer w w' :=
  ⟨hregistrations, [], by rw [hmailbox, List.append_nil], nofun⟩

theorem refl (observer : Observer) (w : World b) : StandsBy observer w w :=
  of_same (fun _ => rfl) rfl

theorem trans (h : StandsBy observer w w') (h' : StandsBy observer w' w'') :
    StandsBy observer w w'' := by
  obtain ⟨hregistrations, first, hfirst, hsent⟩ := h
  obtain ⟨hregistrations', rest, hrest, hsent'⟩ := h'
  refine ⟨fun slot => (hregistrations' slot).trans (hregistrations slot), first ++ rest, ?_, ?_⟩
  · rw [hrest, hfirst, List.append_assoc]
  · intro signal hmem
    rcases List.mem_append.mp hmem with hmem | hmem
    · exact hsent signal hmem
    · obtain ⟨slot, registration, hheld, hepoch⟩ := hsent' signal hmem
      exact ⟨slot, registration, hregistrations slot ▸ hheld, hepoch⟩

theorem stir (observer : Observer) (w : World b) (memory : b.Memory)
    (effects : List (Effect r)) : StandsBy observer w (w.stir memory effects) := by
  obtain ⟨letters, hwire, hsent⟩ := sent_applyAll { w with memory := memory } effects
  have hgrown : (w.stir memory effects).wire = w.wire ++ letters := hwire
  have hmailbox := mailbox_of_wire hgrown observer
  refine ⟨fun slot => registrationsOf_stir w memory effects observer slot, _, hmailbox, ?_⟩
  intro signal hmem
  obtain ⟨letter, hletter, rfl⟩ := List.mem_map.mp hmem
  obtain ⟨hin, hto⟩ := List.mem_filter.mp hletter
  obtain ⟨slot, registration, hheld, hrecipient, hepoch⟩ := hsent letter hin
  have hmine : registration.observer = observer := hrecipient.symm.trans (of_decide_eq_true hto)
  exact ⟨slot, registration, List.mem_filter.mpr ⟨hheld, decide_eq_true hmine⟩, hepoch⟩

theorem emit (observer : Observer) (w : World b) (event : Event r) :
    StandsBy observer w (w.emit event) := by
  have hstir := stir observer (w.note event) (b.react w.memory event).1 (b.react w.memory event).2
  exact ⟨hstir.registrations, hstir.arrives⟩

/-- A request on behalf of another observer. -/
theorem ask {mover : Observer} (hne : observer ≠ mover) (w : World b) (slot : Slot r)
    {request : LegRequest} (h : request.OnBehalf mover) :
    StandsBy observer w (w.ask slot request) := by
  cases request with
  | hold | resume | answer _ | disconnect _ => exact emit observer w _
  | register registration =>
    let registered := w.modifyLeg slot (·.register registration)
    have hother : registration.observer ≠ observer := fun hmine => hne (hmine.symm.trans h)
    have hkept (other : Slot r) :
        registered.registrationsOf observer other = w.registrationsOf observer other := by
      have hasked := registrationsOf_register w slot other registration observer
      rw [if_neg fun hboth => hother hboth.2] at hasked
      exact (registrationsOf_emit registered _ observer other).symm.trans hasked
    exact (of_same hkept rfl).trans (emit observer registered _)
  | unregister dropped =>
    let unregistered := w.modifyLeg slot (·.unregister dropped)
    have hother : observer ≠ dropped := fun hmine => hne (hmine.trans h)
    have hkept (other : Slot r) :
        unregistered.registrationsOf observer other = w.registrationsOf observer other := by
      have hasked := registrationsOf_unregister_of_ne w slot other hother
      exact (registrationsOf_emit unregistered _ observer other).symm.trans hasked
    exact (of_same hkept rfl).trans (emit observer unregistered _)

end StandsBy

theorem Move.standsBy {observer mover : Observer} (hne : observer ≠ mover) {w w' : World b}
    (h : Move mover w w') : StandsBy observer w w' := by
  cases h with
  | ask slot hrequest => exact .ask hne w slot hrequest
  | dial slot callee terms =>
    let asked := w.modifyLeg slot fun leg => { leg with answers := leg.answers.tail }
    have hkept (other : Slot r) :
        asked.registrationsOf observer other = w.registrationsOf observer other :=
      registrationsOf_congr (registrations_modifyLeg w slot other
        (fun leg => { leg with answers := leg.answers.tail }) fun _ => rfl) observer
    exact (StandsBy.of_same hkept rfl).trans (.emit observer asked _)
  | tell success listener => exact .emit observer w _
  | report handler leg fault => exact .emit observer w _
  | noteState _ _ | noteEvent _ _ => exact .of_same (fun _ => rfl) rfl
  | collect hcollect =>
    refine .of_same (fun _ => ?_) (mailbox_collect_of_ne hcollect hne)
    rw [collect_eq_some hcollect]
    rfl

theorem Moves.standsBy {observer mover : Observer} (hne : observer ≠ mover) {w w' : World b}
    (h : Moves mover w w') : StandsBy observer w w' := by
  induction h with
  | refl => exact .refl observer w
  | tail _ hmove ih => exact ih.trans (hmove.standsBy hne)

/-! ## Letters that nobody takes -/

/-- The worlds are the same but for the letters to one observer. -/
structure SameBut (lost : Observer) (w w' : World b) : Prop where
  legs : w'.legs = w.legs
  trace : w'.trace = w.trace
  memory : w'.memory = w.memory
  mailbox : ∀ observer, observer ≠ lost → w'.mailbox observer = w.mailbox observer

namespace SameBut

variable {lost : Observer} {w w' : World b}

theorem post (w : World b) (letter : Letter) : w.SameBut letter.recipient (w.post [letter]) := by
  refine ⟨rfl, rfl, rfl, fun observer hne => ?_⟩
  rw [mailbox_post, List.filter_singleton, decide_eq_false (Ne.symm hne)]
  exact List.append_nil _

/-- Whatever is done to the same world behind either of the two wires keeps the worlds the same. -/
theorem exists_behind (h : w.SameBut lost w') :
    ∃ (v : World b) (letters letters' : List Letter), w = v.behind letters ∧
      w' = v.behind letters' ∧
      ∀ u : World b, (u.behind letters).SameBut lost (u.behind letters') := by
  obtain ⟨legs', wire', trace', memory'⟩ := w'
  obtain ⟨hlegs, htrace, hmemory, hmailbox⟩ := h
  dsimp only at hlegs htrace hmemory
  subst hlegs htrace hmemory
  refine ⟨{ w with wire := [] }, w.wire, wire', (behind_wire w).symm, ?_, fun u => ?_⟩
  · simp [behind]
  · refine ⟨rfl, rfl, rfl, fun observer hne => ?_⟩
    rw [mailbox_behind, mailbox_behind]
    exact congrArg (· ++ u.mailbox observer) (hmailbox observer hne)

theorem stir (h : w.SameBut lost w') (memory : b.Memory) (effects : List (Effect r)) :
    (w.stir memory effects).SameBut lost (w'.stir memory effects) := by
  obtain ⟨v, letters, letters', rfl, rfl, hsame⟩ := h.exists_behind
  have hstir (letters : List Letter) : (v.behind letters).stir memory effects =
      (v.stir memory effects).behind letters := stir_amid v { letters := letters } memory effects
  rw [hstir, hstir]
  exact hsame _

end SameBut

end World

namespace Session

/-! ## Sessions of other observers -/

/-- The same coordinator in two worlds that differ in letters to somebody else. -/
structure SameBut (lost : Observer) (s t : Session b) : Prop where
  observer_ne : s.coordinator.observer ≠ lost
  coordinator : t.coordinator = s.coordinator
  world : s.world.SameBut lost t.world

namespace SameBut

variable {lost : Observer} {s t : Session b}

theorem mailbox_eq (h : s.SameBut lost t) : t.mailbox = s.mailbox := by
  rw [Session.mailbox, h.coordinator]
  exact h.world.mailbox _ h.observer_ne

theorem perform_of_not_takes (h : s.SameBut lost t) {operation : Operation r}
    (htakes : operation.takes = false) :
    (t.perform operation).1 = (s.perform operation).1 ∧
      (s.perform operation).2.SameBut lost (t.perform operation).2 := by
  obtain ⟨c, w⟩ := s
  obtain ⟨c', w'⟩ := t
  obtain ⟨hne, rfl, hworld⟩ := h
  obtain ⟨v, letters, letters', rfl, rfl, hsame⟩ := hworld.exists_behind
  let u : Session b := ⟨c', v⟩
  have hperform (letters : List Letter) : (u.behind letters).perform operation =
      ((u.perform operation).1, (u.perform operation).2.behind letters) := by
    rw [behind_eq_amid, perform_amid u _ (.inl rfl) (.inr htakes), behind_eq_amid]
  have hobserver := (tidy_perform u operation).observer
  change ((u.behind letters').perform operation).1 = ((u.behind letters).perform operation).1 ∧
    ((u.behind letters).perform operation).2.SameBut lost
      ((u.behind letters').perform operation).2
  rw [hperform, hperform]
  exact ⟨rfl, by rw [coordinator_behind, hobserver]; exact hne, rfl, hsame _⟩

theorem pop_eq_none (h : s.SameBut lost t) (hnone : s.pop = none) : t.pop = none :=
  pop_of_mailbox (h.mailbox_eq.trans (mailbox_of_pop_eq_none hnone))

/-- The next letter is the same one. -/
theorem exists_pop (h : s.SameBut lost t) {signal : Signal} {s' : Session b}
    (hpop : s.pop = some (signal, s')) :
    ∃ t', t.pop = some (signal, t') ∧ s'.SameBut lost t' := by
  obtain ⟨hc, hmailbox⟩ := pop_eq_some hpop
  rw [← h.mailbox_eq] at hmailbox
  obtain ⟨t', hpop'⟩ := Session.exists_pop hmailbox
  obtain ⟨hc', hmailbox'⟩ := pop_eq_some hpop'
  have hs := Alike.of_pop hpop
  have ht := Alike.of_pop hpop'
  refine ⟨t', hpop', hc ▸ h.observer_ne, ?_, ?_⟩
  · rw [hc', hc, h.coordinator]
  · refine ⟨?_, ?_, ?_, fun observer hne => ?_⟩
    · rw [ht.legs, hs.legs, h.world.legs]
    · rw [ht.trace, hs.trace, h.world.trace]
    · rw [ht.memory, hs.memory, h.world.memory]
    · by_cases hmine : observer = s.coordinator.observer
      · have hrest := (List.cons.inj (hmailbox.symm.trans hmailbox')).2
        rw [Session.mailbox, Session.mailbox, hc', hc, h.coordinator] at hrest
        rw [hmine, hrest]
      · rw [ht.others observer (h.coordinator ▸ hmine), hs.others observer hmine,
          h.world.mailbox observer hne]

theorem dispatch (h : s.SameBut lost t) (signal : Signal) :
    (s.dispatch signal).SameBut lost (t.dispatch signal) := by
  have htakes : (Operation.dispatch signal : Operation r).takes = false := rfl
  exact (h.perform_of_not_takes htakes).2

theorem processPending (h : s.SameBut lost t) :
    t.processPending.1 = s.processPending.1 ∧
      s.processPending.2.SameBut lost t.processPending.2 := by
  fun_induction Session.processPending s generalizing t with
  | case1 s hdone =>
    rw [processPending_of_completed (h.coordinator ▸ hdone)]
    exact ⟨rfl, h⟩
  | case2 s hdone hnone =>
    rw [processPending_of_pop_eq_none (h.pop_eq_none hnone)]
    exact ⟨rfl, h⟩
  | case3 s hdone signal s' hsome count last hrec ih =>
    obtain ⟨t', hsome', hsame⟩ := h.exists_pop hsome
    obtain ⟨hcount, hlast⟩ := ih (hsame.dispatch signal)
    rw [hrec] at hcount hlast
    rw [processPending_of_pop_eq_some (h.coordinator ▸ hdone) hsome']
    exact ⟨congrArg (· + 1) hcount, hlast⟩

theorem perform (h : s.SameBut lost t) (operation : Operation r) :
    (t.perform operation).1 = (s.perform operation).1 ∧
      (s.perform operation).2.SameBut lost (t.perform operation).2 := by
  cases operation with
  | process =>
    obtain ⟨hcount, hlast⟩ := h.processPending
    exact ⟨congrArg Reply.processed hcount, hlast⟩
  | serve =>
    have hlast := h.processPending.2
    simp only [Session.perform, serve_eq]
    exact ⟨by rw [hlast.coordinator], hlast⟩
  | pop =>
    cases hpop : s.pop with
    | none =>
      have hpop' := h.pop_eq_none hpop
      rw [Session.perform, Session.perform, hpop, hpop']
      exact ⟨rfl, h⟩
    | some next =>
      obtain ⟨t', hpop', hsame⟩ := h.exists_pop hpop
      rw [Session.perform, Session.perform, hpop, hpop']
      exact ⟨rfl, hsame⟩
  | _ => exact h.perform_of_not_takes rfl

end SameBut

end Session

namespace Switchboard

/-! ## Other seats -/

/-- What is done through one seat leaves the others in place, and their observers stand by. -/
theorem Operates.others {board board' : Switchboard b} {name other : String} {seat : Seat r}
    (h : board.Operates name board') (allotted : board.Allotted)
    (hseat : board.seat? other = some seat) (hne : name ≠ other) :
    board'.seat? other = some seat ∧
      board.world.StandsBy seat.coordinator.observer board'.world := by
  cases h with
  | nobody => exact ⟨hseat, .refl _ _⟩
  | @performs acting hacting operation t ht popped =>
    have hmoves := Session.moves_perform ⟨acting.coordinator, board.world⟩ operation
    rw [← ht] at hmoves
    have hapart := allotted.apart name acting other seat hacting hseat (Ne.symm hne)
    rw [seat?_setSeat, if_neg (Ne.symm hne)]
    exact ⟨hseat, hmoves.standsBy hapart⟩

theorem Allotted.others {board : Switchboard b} (allotted : board.Allotted) {name : String}
    {seat : Seat r} (hseat : board.seat? name = some seat) {act : Act b}
    (hne : act.name? ≠ some name) :
    (board.act act).seat? name = some seat ∧
      board.world.StandsBy seat.coordinator.observer (board.act act).world := by
  have hother {other : String} (hname : act.name? = some other) : other ≠ name :=
    fun hsame => hne (hname.trans (congrArg some hsame))
  cases act with
  | openSeat other o =>
    refine ⟨?_, .refl _ _⟩
    change (board.openSeat other o).seat? name = some seat
    rw [seat?_openSeat, if_neg (Ne.symm (hother rfl)), hseat]
  | drop other =>
    refine ⟨?_, .refl _ _⟩
    change (board.unseat other).seat? name = some seat
    rw [seat?_unseat, if_neg (Ne.symm (hother rfl)), hseat]
  | perform other operation =>
    exact (operates_perform board other operation).others allotted hseat (hother rfl)
  | redispatch other index =>
    exact (operates_redispatch board other index).others allotted hseat (hother rfl)
  | stir memory effects => exact ⟨hseat, .stir _ board.world memory effects⟩

/-! ## Lost letters -/

/-- An observer that was handed out, but not to any coordinator that has a seat now. -/
structure Lost (board : Switchboard b) (observer : Observer) : Prop where
  handedOut : observer.number < board.nextObserver
  unseated : ∀ name seat, board.seat? name = some seat → seat.coordinator.observer ≠ observer

namespace Lost

variable {board board' : Switchboard b} {lost : Observer}

theorem operates (h : board.Lost lost) {name : String} (hoperates : board.Operates name board') :
    board'.Lost lost := by
  cases hoperates with
  | nobody => exact h
  | @performs seat hseat operation t ht popped =>
    have hobserver := (Session.tidy_perform ⟨seat.coordinator, board.world⟩ operation).observer
    rw [← ht] at hobserver
    refine ⟨h.handedOut, fun other seat' hseat' => ?_⟩
    rw [seat?_setSeat] at hseat'
    split at hseat'
    · obtain ⟨_, -, rfl⟩ := Option.map_eq_some_iff.mp hseat'
      rw [hobserver]
      exact h.unseated name seat hseat
    · exact h.unseated other seat' hseat'

/-- A coordinator that was dropped does not come back: a new one has a new observer. -/
theorem act (h : board.Lost lost) (act : Act b) : (board.act act).Lost lost := by
  cases act with
  | openSeat name o =>
    refine ⟨Nat.lt_succ_of_lt h.handedOut, fun other seat hseat => ?_⟩
    change (board.openSeat name o).seat? other = some seat at hseat
    rw [seat?_openSeat] at hseat
    split at hseat
    · obtain rfl := Option.some.inj hseat
      rw [observer_coordinator]
      rintro rfl
      exact Nat.lt_irrefl _ h.handedOut
    · exact h.unseated other seat hseat
  | drop name =>
    refine ⟨h.handedOut, fun other seat hseat => ?_⟩
    change (board.unseat name).seat? other = some seat at hseat
    rw [seat?_unseat] at hseat
    split at hseat
    · cases hseat
    · exact h.unseated other seat hseat
  | perform name operation => exact h.operates (operates_perform board name operation)
  | redispatch name index => exact h.operates (operates_redispatch board name index)
  | stir memory effects => exact ⟨h.handedOut, h.unseated⟩

end Lost

/-- The boards are the same but for the letters to one observer. -/
structure SameBut (lost : Observer) (board board' : Switchboard b) : Prop where
  seats : board'.seats = board.seats
  nextObserver : board'.nextObserver = board.nextObserver
  world : board.world.SameBut lost board'.world

namespace SameBut

variable {board board' : Switchboard b} {lost : Observer}

theorem seat?_eq (h : board.SameBut lost board') (name : String) :
    board'.seat? name = board.seat? name := by
  rw [seat?, h.seats, seat?]

theorem openSeat (h : board.SameBut lost board') (name : String) (o : Opening r) :
    (board.openSeat name o).SameBut lost (board'.openSeat name o) := by
  have hnow : board'.world.now = board.world.now := by rw [World.now, h.world.trace, World.now]
  refine ⟨?_, congrArg (· + 1) h.nextObserver, h.world⟩
  simp only [Switchboard.openSeat, unseat, h.seats, h.nextObserver, hnow]

theorem perform (h : board.SameBut lost board') (hlost : board.Lost lost) (name : String)
    (operation : Operation r) :
    (board.act (.perform name operation)).SameBut lost
      (board'.act (.perform name operation)) := by
  simp only [Switchboard.act, Switchboard.perform, h.seat?_eq name]
  cases hseat : board.seat? name with
  | none => exact h
  | some seat =>
    have hsame : Session.SameBut lost ⟨seat.coordinator, board.world⟩
        ⟨seat.coordinator, board'.world⟩ := ⟨hlost.unseated name seat hseat, rfl, h.world⟩
    obtain ⟨hreply, hlast⟩ := hsame.perform operation
    refine ⟨?_, h.nextObserver, hlast.world⟩
    simp only [Option.map_some, Option.getD_some, setSeat, h.seats, hreply, hlast.coordinator]

theorem act (h : board.SameBut lost board') (hlost : board.Lost lost) (act : Act b) :
    (board.act act).SameBut lost (board'.act act) := by
  cases act with
  | openSeat name o => exact h.openSeat name o
  | drop name =>
    refine ⟨?_, h.nextObserver, h.world⟩
    simp only [Switchboard.act, Switchboard.drop, unseat, h.seats]
  | perform name operation => exact h.perform hlost name operation
  | redispatch name index =>
    simp only [Switchboard.act, redispatch, h.seat?_eq name]
    cases hseat : board.seat? name with
    | none => exact h
    | some seat =>
      cases hsignal : seat.popped[index]? with
      | none => simpa [hsignal] using h
      | some signal =>
        have hdispatch := h.perform hlost name (.dispatch signal)
        simpa [Switchboard.act, hsignal] using hdispatch
  | stir memory effects => exact ⟨h.seats, h.nextObserver, h.world.stir memory effects⟩

theorem acts (h : board.SameBut lost board') (hlost : board.Lost lost) (history : List (Act b)) :
    (board.acts history).Lost lost ∧
      (board.acts history).SameBut lost (board'.acts history) := by
  induction history generalizing board board' with
  | nil => exact ⟨hlost, h⟩
  | cons first later ih => exact ih (h.act hlost first) (hlost.act first)

end SameBut

end Switchboard

/-- Whatever was done so far at a switchboard, and whatever legs do. An act that concerns another
seat, even if it completes, drops or replaces the coordinator there, leaves a seat with its
coordinator as it is, and with all its registrations; its mailbox only grows at the end, by signals
of the epochs of these registrations. A letter to a coordinator that was dropped, or replaced, makes
no difference to any other, ever: all seats, all legs and the mailboxes of all coordinators are the
same as without it. -/
theorem coordinators_are_isolated (w : World b) (next : Nat) (history : List (Act b)) :
    let board := ({ world := w, nextObserver := next } : Switchboard b).acts history
    (∀ name seat act, board.seat? name = some seat → act.name? ≠ some name →
      let after := board.act act
      let observer := seat.coordinator.observer
      after.seat? name = some seat ∧
      (∀ slot, after.world.registrationsOf observer slot =
        board.world.registrationsOf observer slot) ∧
      ∃ arrived, after.world.mailbox observer = board.world.mailbox observer ++ arrived ∧
        ∀ signal ∈ arrived, ∃ slot, ∃ registration ∈ board.world.registrationsOf observer slot,
          signal.epoch = registration.epoch) ∧
    ∀ letter : Letter, letter.recipient.number < board.nextObserver →
      (∀ name seat, board.seat? name = some seat →
        seat.coordinator.observer ≠ letter.recipient) →
      ∀ later,
        let here := board.acts later
        let there := ({ board with world := board.world.post [letter] } : Switchboard b).acts later
        there.seats = here.seats ∧ there.world.legs = here.world.legs ∧
        there.world.trace = here.world.trace ∧
        ∀ name seat, here.seat? name = some seat →
          there.world.mailbox seat.coordinator.observer =
            here.world.mailbox seat.coordinator.observer := by
  intro board
  have allotted : board.Allotted := (Switchboard.allotted_of_seats_nil w next).acts history
  refine ⟨fun name seat act hseat hne => ?_, fun letter hold unseated later => ?_⟩
  · obtain ⟨hkept, hregistrations, harrives⟩ := allotted.others hseat hne
    exact ⟨hkept, hregistrations, harrives⟩
  · intro here there
    have hsent : board.SameBut letter.recipient
        { board with world := board.world.post [letter] } := ⟨rfl, rfl, .post board.world letter⟩
    obtain ⟨hlost, hsame⟩ := hsent.acts ⟨hold, unseated⟩ later
    refine ⟨hsame.seats, hsame.world.legs, hsame.world.trace, fun name seat hseat => ?_⟩
    exact hsame.world.mailbox _ (hlost.unseated name seat hseat)

/-- Of three coordinators on one leg the first was replaced by the last. All three registrations are
of epoch 1 and the leg still holds the first one, so only the observer tells them apart. -/
theorem coordinators_are_isolated_of_replacement :
    let answer : Opening [⟨"a"⟩, ⟨"b"⟩] := .action (.answer 0 1 .audioOnly) {} none
    let swap : Opening [⟨"a"⟩, ⟨"b"⟩] := .action (.swap 0 1) {} none
    let history : List (Act (Script.behaviour (r := [⟨"a"⟩, ⟨"b"⟩]) {})) :=
      [.openSeat "x" answer, .perform "x" .start, .openSeat "y" swap, .perform "y" .start,
        .openSeat "x" answer, .perform "x" .start]
    let board := ({ world := World.pair .active .ringing } : Switchboard _).acts history
    let letter := World.letter (0 : Slot [⟨"a"⟩, ⟨"b"⟩]) none (.stateChanged .holding) ⟨⟨0⟩, 1⟩
    (board.world.leg 0).registrations = [⟨⟨0⟩, 1⟩, ⟨⟨1⟩, 1⟩, ⟨⟨2⟩, 1⟩] ∧
      (board.act (.drop "y")).seat? "x" = board.seat? "x" ∧
      (∀ later,
        (({ board with world := board.world.post [letter] } : Switchboard _).acts later).seats =
          (board.acts later).seats) ∧
      ((board.act (.perform "y" (.dispatch letter.signal))).seat? "y").bind
        (·.coordinator.outcome) = some false := by
  intro answer swap history board letter
  obtain ⟨hothers, hletters⟩ := coordinators_are_isolated
    (World.pair .active .ringing) 0 history
  have hobservers : ∀ entry ∈ board.seats, entry.2.coordinator.observer ≠ ⟨0⟩ := by decide
  have unseated : ∀ name seat, board.seat? name = some seat →
      seat.coordinator.observer ≠ letter.recipient := by
    intro name seat hseat
    obtain ⟨before, after, hentry, -⟩ := List.lookup_eq_some_iff.mp hseat
    exact hobservers (name, seat) (hentry ▸ by simp)
  have hseated : (board.seat? "x").isSome = true := by decide
  obtain ⟨seat, hseat⟩ := Option.isSome_iff_exists.mp hseated
  refine ⟨by decide, ?_, fun later => ?_, by decide⟩
  · obtain ⟨hkept, -⟩ := hothers "x" seat (.drop "y") hseat (by simp [Act.name?])
    exact hkept.trans hseat.symm
  · obtain ⟨hseats, -⟩ := hletters letter (by decide) unseated later
    exact hseats

end CallCoordination
