import CallCoordination.Proofs.Isolation
import CallCoordination.Proofs.Session.Deeds

/-!
# A seat's own run

As long as a seat is neither dropped nor opened again, what is done at a switchboard is a run of the
coordinator that sits there. Operations on the seat are its turns, what is done through other seats
is done elsewhere, and to open or to drop other seats is nothing to it.
-/

namespace CallCoordination

variable {r : Roster} {b : Behaviour r}

/-- An act that leaves a seat its coordinator, and the coordinator to public operations. -/
def Act.Respects (name : String) : Act b → Prop
  | openSeat other _ | drop other => other ≠ name
  | perform other operation => other = name → (Turn.perform operation : Turn b).Public
  | redispatch _ _ | stir _ _ => True

/-- What is done by others and for others leaves an observer unknown. -/
theorem World.Unknown.of_standsBy {w w' : World b} {observer : Observer} (h : w.Unknown observer)
    (hstands : w.StandsBy observer w') (hepochs : w'.epochs observer = w.epochs observer) :
    w'.Unknown observer where
  unregistered slot := (hstands.registrations slot).trans (h.unregistered slot)
  unmailed := by
    obtain ⟨arrived, hmailbox, hsent⟩ := hstands.arrives
    cases arrived with
    | nil => rw [hmailbox, h.unmailed, List.append_nil]
    | cons signal rest =>
      obtain ⟨slot, registration, hheld, -⟩ := hsent signal List.mem_cons_self
      rw [h.unregistered slot] at hheld
      exact absurd hheld List.not_mem_nil
  unmentioned := hepochs.trans h.unmentioned

namespace Switchboard

/-! ## Turns -/

/-- The session in which a coordinator with a seat is operated. -/
def session (board : Switchboard b) (seat : Seat r) : Session b := ⟨seat.coordinator, board.world⟩

/-- From one board to the other a seat keeps its coordinator, which has these turns. -/
structure Turns (board board' : Switchboard b) (name : String) (seat seat' : Seat r)
    (turns : List (Turn b)) : Prop where
  seated : board'.seat? name = some seat'
  session : board'.session seat' = (board.session seat).run turns
  fair : ∀ turn ∈ turns, turn.Public ∧ turn.Apart seat.coordinator.observer

variable {board board' : Switchboard b} {name : String} {seat : Seat r}

theorem Turns.nothing (hseat : board'.seat? name = some seat)
    (hworld : board'.world = board.world) :
    board.Turns board' name seat seat [] where
  seated := hseat
  session := congrArg (Session.mk seat.coordinator) hworld
  fair _ hmem := absurd hmem List.not_mem_nil

theorem Turns.single {seat' : Seat r} {turn : Turn b} (hseat : board'.seat? name = some seat')
    (hsession : board'.session seat' = (board.session seat).turn turn) (hpublic : turn.Public)
    (hapart : turn.Apart seat.coordinator.observer) :
    board.Turns board' name seat seat' [turn] where
  seated := hseat
  session := hsession
  fair _ hmem := by
    obtain rfl := List.mem_singleton.mp hmem
    exact ⟨hpublic, hapart⟩

theorem Turns.trans {seat' seat'' : Seat r} {board'' : Switchboard b} {turns later : List (Turn b)}
    (h : board.Turns board' name seat seat' turns)
    (h' : board'.Turns board'' name seat' seat'' later) :
    board.Turns board'' name seat seat'' (turns ++ later) where
  seated := h'.seated
  session := by rw [h'.session, h.session, Session.run_append]
  fair turn hmem := by
    have hsame : seat'.coordinator.observer = seat.coordinator.observer := by
      have hobserver := (Session.ages_run (board.session seat) fun turn hmem =>
        (h.fair turn hmem).2).observer
      rw [← h.session] at hobserver
      exact hobserver
    rcases List.mem_append.mp hmem with hmem | hmem
    · exact h.fair turn hmem
    · exact hsame ▸ h'.fair turn hmem

/-- To hear a popped signal again is to hear it, if there is one. -/
theorem act_redispatch (board : Switchboard b) (name : String) (index : Nat) :
    board.act (.redispatch name index) = board ∨ ∃ signal,
      board.act (.redispatch name index) = board.act (.perform name (.dispatch signal)) := by
  simp only [act, redispatch]
  cases board.seat? name with
  | none => exact .inl rfl
  | some seat =>
    cases hsignal : seat.popped[index]? with
    | none => simp [hsignal]
    | some signal => exact .inr ⟨signal, by simp [hsignal]⟩

theorem Allotted.exists_turns_perform (allotted : board.Allotted)
    (hseat : board.seat? name = some seat) (other : String) (operation : Operation r)
    (hpublic : other = name → (Turn.perform operation : Turn b).Public) :
    ∃ seat' turns, board.Turns (board.act (.perform other operation)) name seat seat' turns ∧
      (.perform .start ∈ turns ↔ other = name ∧ operation = .start) := by
  cases hacting : board.seat? other with
  | none =>
    have hother : other ≠ name := by
      rintro rfl
      cases hseat.symm.trans hacting
    have hboard : board.act (.perform other operation) = board := by
      simp [Switchboard.act, Switchboard.perform, hacting]
    rw [hboard]
    exact ⟨seat, [], .nothing hseat rfl, by simp [hother]⟩
  | some acting =>
    obtain ⟨popped, hboard⟩ : ∃ popped,
        let t := ((board.session acting).perform operation).2
        board.act (.perform other operation) =
          setSeat { board with world := t.world } other ⟨t.coordinator, popped⟩ := by
      simp only [Switchboard.act, Switchboard.perform, hacting, Option.map_some, Option.getD_some]
      exact ⟨_, rfl⟩
    by_cases hother : other = name
    · subst hother
      obtain rfl := Option.some.inj (hacting.symm.trans hseat)
      refine ⟨⟨((board.session acting).perform operation).2.coordinator, popped⟩,
        [.perform operation], .single ?_ ?_ (hpublic rfl) trivial, by simp [eq_comm]⟩
      · rw [hboard, seat?_setSeat, if_pos rfl]
        exact congrArg (Option.map _) hseat
      · rw [hboard]
        rfl
    · have hapart := allotted.apart name seat other acting hseat hacting hother
      refine ⟨seat, [.elsewhere acting.coordinator operation], .single ?_ ?_ trivial hapart,
        by simp [hother]⟩
      · rw [hboard, seat?_setSeat, if_neg (Ne.symm hother)]
        exact hseat
      · rw [hboard]
        rfl

theorem Allotted.exists_turns_act (allotted : board.Allotted)
    (hseat : board.seat? name = some seat) {act : Act b} (hact : act.Respects name) :
    ∃ seat' turns, board.Turns (board.act act) name seat seat' turns ∧
      (.perform .start ∈ turns ↔ act = .perform name .start) := by
  cases act with
  | openSeat other o =>
    refine ⟨seat, [], .nothing ?_ rfl, by simp⟩
    change (board.openSeat other o).seat? name = some seat
    rw [seat?_openSeat, if_neg (Ne.symm hact), hseat]
  | drop other =>
    refine ⟨seat, [], .nothing ?_ rfl, by simp⟩
    change (board.unseat other).seat? name = some seat
    rw [seat?_unseat, if_neg (Ne.symm hact), hseat]
  | perform other operation =>
    simpa using allotted.exists_turns_perform hseat other operation hact
  | redispatch other index =>
    rcases board.act_redispatch other index with hboard | ⟨signal, hboard⟩
    · rw [hboard]
      exact ⟨seat, [], .nothing hseat rfl, by simp⟩
    · rw [hboard]
      simpa using allotted.exists_turns_perform hseat other (.dispatch signal) fun _ => .inr rfl
  | stir memory effects =>
    exact ⟨seat, [.stir memory effects], .single hseat rfl trivial trivial, by simp⟩

/-- What is done at a switchboard while a seat is respected is a run of the coordinator there, and
it is started in that run if it is started at the switchboard. -/
theorem Allotted.exists_turns_acts (allotted : board.Allotted)
    (hseat : board.seat? name = some seat) {history : List (Act b)}
    (hrespects : ∀ act ∈ history, act.Respects name) :
    ∃ seat' turns, board.Turns (board.acts history) name seat seat' turns ∧
      (.perform .start ∈ turns ↔ .perform name .start ∈ history) := by
  induction history generalizing board seat with
  | nil => exact ⟨seat, [], .nothing hseat rfl, by simp⟩
  | cons first later ih =>
    obtain ⟨hfirst, hlater⟩ := List.forall_mem_cons.mp hrespects
    obtain ⟨seat', turns, hturns, hstart⟩ := allotted.exists_turns_act hseat hfirst
    obtain ⟨seat'', turns', hturns', hstart'⟩ := ih (allotted.act first) hturns.seated hlater
    refine ⟨seat'', turns ++ turns', hturns.trans hturns', ?_⟩
    rw [List.mem_append, List.mem_cons, hstart, hstart', eq_comm]

/-! ## Observers that nobody has heard of -/

/-- Nobody has heard of the observers that are not handed out yet. -/
def Unmet (board : Switchboard b) : Prop :=
  ∀ observer : Observer, board.nextObserver ≤ observer.number → board.world.Unknown observer

namespace Unmet

theorem operates (h : board.Unmet) (allotted : board.Allotted)
    (hoperates : board.Operates name board') : board'.Unmet := by
  cases hoperates with
  | nobody => exact h
  | @performs seat hseat operation t ht popped =>
    intro observer hnext
    have hne : observer ≠ seat.coordinator.observer := by
      rintro rfl
      exact Nat.not_le_of_lt (allotted.seated name seat hseat) hnext
    have hmoves := Session.moves_perform (board.session seat) operation
    rw [session, ← ht] at hmoves
    exact (h observer hnext).of_standsBy (hmoves.standsBy hne) (hmoves.epochs_of_ne hne)

theorem act (h : board.Unmet) (allotted : board.Allotted) (act : Act b) :
    (board.act act).Unmet := by
  cases act with
  | openSeat name o => exact fun observer hnext => h observer (Nat.le_of_succ_le hnext)
  | drop name => exact h
  | perform name operation => exact h.operates allotted (operates_perform board name operation)
  | redispatch name index => exact h.operates allotted (operates_redispatch board name index)
  | stir memory effects =>
    intro observer hnext
    exact (h observer hnext).of_standsBy (.stir observer board.world memory effects)
      (World.epochs_stir board.world memory effects observer)

theorem acts (h : board.Unmet) (allotted : board.Allotted) (history : List (Act b)) :
    (board.acts history).Unmet :=
  (acts_induction (P := fun board => board.Unmet ∧ board.Allotted) ⟨h, allotted⟩
    (fun _ act hboard => ⟨hboard.1.act hboard.2 act, hboard.2.act act⟩) history).1

end Unmet

/-! ## Names -/

theorem lookup_map_update_self {α : Type} {entries : List (String × α)} {name : String} {value : α}
    (hdistinct : (entries.map Prod.fst).Nodup) (h : entries.lookup name = some value) :
    (entries.map fun entry => if entry.1 = name then (name, value) else entry) = entries := by
  induction entries with
  | nil => rfl
  | cons entry entries ih =>
    obtain ⟨first, old⟩ := entry
    obtain ⟨hnew, hrest⟩ := List.nodup_cons.mp hdistinct
    by_cases hfirst : first = name
    · subst hfirst
      obtain rfl : old = value := by simpa using h
      have hothers : ∀ entry ∈ entries, entry.1 ≠ first := fun entry hmem hsame =>
        hnew (List.mem_map.mpr ⟨entry, hmem, hsame⟩)
      have hrest : (entries.map fun entry => if entry.1 = first then (first, old) else entry) =
          entries.map id :=
        List.map_congr_left fun entry hmem => if_neg (hothers entry hmem)
      rw [List.map_cons, if_pos rfl, hrest, List.map_id]
    · rw [lookup_cons_of_ne (Ne.symm hfirst)] at h
      rw [List.map_cons, if_neg hfirst, ih hrest h]

/-- No two seats bear one name. -/
def Distinct (board : Switchboard b) : Prop := (board.seats.map Prod.fst).Nodup

theorem Distinct.setSeat_eq_self (h : board.Distinct) (hseat : board.seat? name = some seat) :
    board.setSeat name seat = board := by
  rw [Switchboard.setSeat, lookup_map_update_self h hseat]

namespace Distinct

theorem unseat (h : board.Distinct) (name : String) : (board.unseat name).Distinct :=
  h.sublist (List.filter_sublist.map _)

theorem setSeat (h : board.Distinct) (name : String) (seat : Seat r) :
    (board.setSeat name seat).Distinct := by
  have hnames : (board.setSeat name seat).seats.map Prod.fst = board.seats.map Prod.fst := by
    rw [Switchboard.setSeat, List.map_map]
    apply List.map_congr_left
    intro entry _
    by_cases hname : entry.1 = name
    · simp [hname]
    · simp [hname]
  rw [Distinct, hnames]
  exact h

theorem openSeat (h : board.Distinct) (name : String) (o : Opening r) :
    (board.openSeat name o).Distinct := by
  rw [Distinct, Switchboard.openSeat, List.map_append, List.nodup_append]
  refine ⟨h.unseat name, by simp, ?_⟩
  rintro other hother _ hnew rfl
  obtain ⟨entry, hmem, rfl⟩ := List.mem_map.mp hother
  obtain ⟨-, hne⟩ := List.mem_filter.mp hmem
  rw [List.map_cons, List.map_nil, List.mem_singleton] at hnew
  exact of_decide_eq_true hne hnew

theorem operates (h : board.Distinct) (hoperates : board.Operates name board') :
    board'.Distinct := by
  cases hoperates with
  | nobody => exact h
  | @performs seat hseat operation t ht popped =>
    have hworld : Distinct { board with world := t.world } := h
    exact hworld.setSeat name _

theorem act (h : board.Distinct) (act : Act b) : (board.act act).Distinct := by
  cases act with
  | openSeat name o => exact h.openSeat name o
  | drop name => exact h.unseat name
  | perform name operation => exact h.operates (operates_perform board name operation)
  | redispatch name index => exact h.operates (operates_redispatch board name index)
  | stir memory effects => exact h

theorem acts (h : board.Distinct) (history : List (Act b)) : (board.acts history).Distinct :=
  acts_induction h (fun _ act hboard => hboard.act act) history

end Distinct

end Switchboard

end CallCoordination
