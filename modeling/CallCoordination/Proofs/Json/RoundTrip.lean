import CallCoordination.Json.Codec
import CallCoordination.Proofs.Json.Reading

/-!
# Reading undoes writing

Ids, states, causes, callees and policies are written as trees of texts and flags, which read back
as the trees that they are. What is left is that each format reads its own trees as the values that
they were made of.
-/

namespace CallCoordination

namespace Json

namespace Tree

/-! ## Trees of texts and flags -/

/-- Whether a tree is written in tokens that read back. -/
def IsWritten (tree : Tree) : Prop := ∀ token ∈ tree.tokens, token.IsWritten

theorem isWritten_ofText (s : String) : (ofText s).IsWritten := by
  intro token hmem
  rw [List.mem_singleton.mp hmem]
  exact ⟨s.toList, rfl⟩

theorem isWritten_ofBool (flag : Bool) : (ofBool flag).IsWritten := by
  intro token hmem
  rw [List.mem_singleton.mp hmem]
  trivial

theorem isWritten_array {items : List Tree} (h : ∀ item ∈ items, item.IsWritten) :
    (array items).IsWritten := by
  have hmore (items : List Tree) (h : ∀ item ∈ items, item.IsWritten) :
      ∀ token ∈ tokensOfMoreItems items, token.IsWritten := by
    induction items with
    | nil => simp [tokensOfMoreItems, Token.IsWritten]
    | cons item items ih =>
      obtain ⟨hitem, hitems⟩ := List.forall_mem_cons.mp h
      simp only [tokensOfMoreItems, List.cons_append, List.forall_mem_cons, List.forall_mem_append]
      exact ⟨trivial, hitem, ih hitems⟩
  cases items with
  | nil => simp [IsWritten, tokens, tokensOfItems, Token.IsWritten]
  | cons item items =>
    obtain ⟨hitem, hitems⟩ := List.forall_mem_cons.mp h
    simp only [IsWritten, tokens, tokensOfItems, List.forall_mem_cons, List.forall_mem_append]
    exact ⟨trivial, hitem, hmore items hitems⟩

theorem isWritten_ofMembers {members : List (String × Tree)}
    (h : ∀ member ∈ members, member.2.IsWritten) : (ofMembers members).IsWritten := by
  have hmore (members : List (String × Tree)) (h : ∀ member ∈ members, member.2.IsWritten) :
      ∀ token ∈ tokensOfMoreMembers
        (members.map fun member => (Quoted.encode member.1.toList, member.2)), token.IsWritten := by
    induction members with
    | nil => simp [tokensOfMoreMembers, Token.IsWritten]
    | cons member members ih =>
      obtain ⟨hmember, hmembers⟩ := List.forall_mem_cons.mp h
      simp only [List.map_cons, tokensOfMoreMembers, List.cons_append, List.forall_mem_cons,
        List.forall_mem_append]
      exact ⟨trivial, ⟨_, rfl⟩, trivial, hmember, ih hmembers⟩
  cases members with
  | nil => simp [IsWritten, ofMembers, tokens, tokensOfMembers, Token.IsWritten]
  | cons member members =>
    obtain ⟨hmember, hmembers⟩ := List.forall_mem_cons.mp h
    simp only [IsWritten, ofMembers, tokens, List.map_cons, tokensOfMembers, List.cons_append,
      List.forall_mem_cons, List.forall_mem_append]
    exact ⟨trivial, ⟨_, rfl⟩, trivial, hmember, hmore members hmembers⟩

@[simp] theorem datum_ofText (s : String) : (ofText s).datum = .text s := by
  rw [ofText, datum, Quoted.decode_encode]
  exact congrArg Datum.text String.ofList_toList

@[simp] theorem datum_ofBool (flag : Bool) : (ofBool flag).datum = .bool flag := by
  cases flag <;> rfl

@[simp] theorem dataOfItems_eq (items : List Tree) : dataOfItems items = items.map datum := by
  induction items with
  | nil => rfl
  | cons item items ih => rw [dataOfItems, ih, List.map_cons]

@[simp] theorem datum_ofMembers (members : List (String × Tree)) :
    (ofMembers members).datum = .table (members.map fun member => (member.1, member.2.datum)) := by
  have hdata : dataOfMembers (members.map fun member => (Quoted.encode member.1.toList, member.2)) =
      some (members.map fun member => (member.1, member.2.datum)) := by
    induction members with
    | nil => rfl
    | cons member members ih =>
      rw [List.map_cons, dataOfMembers, Quoted.decode_encode, ih]
      simp
  rw [ofMembers, datum, hdata]

theorem datum_array_ofText (texts : List String) :
    (array (texts.map ofText)).datum = .list (texts.map .text) := by
  rw [datum, dataOfItems_eq, List.map_map]
  congr 2
  funext s
  exact datum_ofText s

/-! ## Limits -/

@[simp] theorem isStorable_ofText (depth : Nat) (s : String) :
    (ofText s).isStorable depth = true := by
  rw [ofText, isStorable, Quoted.decode_encode, Option.isSome_some]

theorem isStorable_array {depth : Nat} {items : List Tree}
    (h : ∀ item ∈ items, item.isStorable depth = true) :
    (array items).isStorable (depth + 1) = true := by
  rw [isStorable]
  induction items with
  | nil => rfl
  | cons item items ih =>
    obtain ⟨hitem, hitems⟩ := List.forall_mem_cons.mp h
    rw [areStorable, hitem, ih hitems, Bool.and_self]

theorem isStorable_ofMembers {depth : Nat} {members : List (String × Tree)}
    (h : ∀ member ∈ members, member.2.isStorable depth = true) :
    (ofMembers members).isStorable (depth + 1) = true := by
  rw [ofMembers, isStorable]
  induction members with
  | nil => rfl
  | cons member members ih =>
    obtain ⟨hmember, hmembers⟩ := List.forall_mem_cons.mp h
    simp [areStorableMembers, Quoted.decode_encode, hmember, ih hmembers]

end Tree

/-! ## Formats -/

theorem texts?_list (texts : List String) :
    (Datum.list (texts.map .text)).texts? = some texts := by
  rw [Datum.texts?]
  induction texts with
  | nil => rfl
  | cons s texts ih =>
    rw [List.map_cons, List.mapM_cons, ih]
    rfl

/-- The tag is told from the members that go with it by its name. -/
theorem tagged?_table (tag : String) {members : List (String × Datum)}
    (hother : ∀ member ∈ members, member.1 ≠ "type") :
    (Datum.table (("type", .text tag) :: members)).tagged? = some (tag, .named members) := by
  have hnone : members.filter (·.1 = "type") = [] :=
    List.filter_eq_nil_iff.mpr fun member hmem => by simpa using hother member hmem
  have hall : members.filter (·.1 ≠ "type") = members :=
    List.filter_eq_self.mpr fun member hmem => by simpa using hother member hmem
  simp only [Datum.tagged?, List.filter_cons, hnone, hall]
  rfl

theorem tagged?_tagged (tag : String) (members : List (String × Tree))
    (hother : ∀ member ∈ members, member.1 ≠ "type")
    (hstorable : ∀ member ∈ members, member.2.isStorable (Tree.nestingLimit - 1) = true) :
    tagged? (tagged tag members) =
      some (tag, .named (members.map fun member => (member.1, member.2.datum))) := by
  have hlimit : (tagged tag members).isStorable Tree.nestingLimit = true :=
    Tree.isStorable_ofMembers (List.forall_mem_cons.mpr ⟨Tree.isStorable_ofText _ tag, hstorable⟩)
  rw [tagged?, if_pos hlimit, tagged, Tree.datum_ofMembers, List.map_cons, Tree.datum_ofText]
  apply tagged?_table
  intro member hmem
  obtain ⟨given, hgiven, rfl⟩ := List.mem_map.mp hmem
  exact hother given hgiven

/-- A format whose trees read back as what they were written for. -/
class LawfulFormat (α : Type) [Format α] : Prop where
  isWritten : ∀ a : α, (Format.tree a).IsWritten
  ofTree?_tree : ∀ a : α, Format.ofTree? (Format.tree a) = some a

/-- What is written reads back. So no two values are written alike, and a text that is read as a
value may differ from what this value is written as, but not in the value. -/
structure RoundTrips (α : Type) [Format α] : Prop where
  read?_write : ∀ a : α, read? (write a) = some a
  injective : ∀ a a' : α, write a = write a' → a = a'
  settles : ∀ (text : String) (a : α), read? text = some a → read? (write a) = some a

theorem LawfulFormat.roundTrips {α : Type} [Format α] [LawfulFormat α] : RoundTrips α := by
  have hread (a : α) : read? (write a) = some a := by
    rw [read?, write, Tree.parse?_render (isWritten a), Option.bind_some, ofTree?_tree]
  refine ⟨hread, fun a a' hsame => ?_, fun _ a _ => hread a⟩
  have hboth := hread a'
  rw [← hsame, hread] at hboth
  exact Option.some.inj hboth

end Json

open Json (LawfulFormat RoundTrips Tree Format)

instance : LawfulFormat Leg.Id where
  isWritten id := Tree.isWritten_ofText id.text
  ofTree?_tree id := by simp [Format.tree, Format.ofTree?, Datum.text?]

instance : LawfulFormat ConnectionId where
  isWritten id := Tree.isWritten_ofText id.text
  ofTree?_tree id := by simp [Format.tree, Format.ofTree?, Datum.text?]

instance : LawfulFormat Leg.State where
  isWritten state := Tree.isWritten_ofText state.name
  ofTree?_tree state := by
    simp [Format.tree, Format.ofTree?, Datum.name?, Leg.State.ofName?_name]

instance : LawfulFormat Video where
  isWritten video := Tree.isWritten_ofText video.name
  ofTree?_tree video := by
    simp [Format.tree, Format.ofTree?, Datum.name?, Video.ofName?_name]

instance : LawfulFormat ReleaseCause where
  isWritten cause := by
    cases cause with
    | errorUnspecified => exact Tree.isWritten_ofMembers (by simp [Tree.isWritten_ofText])
    | internalFailure reason =>
      exact Tree.isWritten_ofMembers (by simp [Tree.isWritten_ofText])
  ofTree?_tree cause := by
    cases cause with
    | errorUnspecified =>
      have htagged := Json.tagged?_tagged "error_unspecified" [] nofun nofun
      simp [Format.tree, Format.ofTree?, ReleaseCause.tree, htagged, ReleaseCause.ofTagged?,
        Datum.Payload.isEmpty]
    | internalFailure reason =>
      have htagged := Json.tagged?_tagged "internal_failure"
        [("reason", .ofText reason)] (by simp) (by simp)
      simp [Format.tree, Format.ofTree?, ReleaseCause.tree, htagged, ReleaseCause.ofTagged?,
        Datum.Payload.only?, Datum.text?]

instance : LawfulFormat Callee where
  isWritten callee := by
    cases callee with
    | address number => exact Tree.isWritten_ofMembers (by simp [Tree.isWritten_ofText])
    | conference participants =>
      have hlist : (Tree.array (participants.map .ofText)).IsWritten :=
        Tree.isWritten_array (by simp [Tree.isWritten_ofText])
      exact Tree.isWritten_ofMembers (by simp [Tree.isWritten_ofText, hlist])
  ofTree?_tree callee := by
    cases callee with
    | address number =>
      have htagged := Json.tagged?_tagged "address"
        [("number", .ofText number)] (by simp) (by simp)
      simp [Format.tree, Format.ofTree?, Callee.tree, htagged, Callee.ofTagged?,
        Datum.Payload.only?, Datum.text?]
    | conference participants =>
      have hlist : (Tree.array (participants.map .ofText)).isStorable (Tree.nestingLimit - 1) = true :=
        Tree.isStorable_array (by simp)
      have htagged := Json.tagged?_tagged "conference"
        [("participants", .array (participants.map .ofText))] (by simp) (by simpa using hlist)
      simp [Format.tree, Format.ofTree?, Callee.tree, htagged, Callee.ofTagged?,
        Datum.Payload.only?, Tree.datum_array_ofText, Json.texts?_list]

instance : LawfulFormat Policy where
  isWritten policy :=
    Tree.isWritten_ofMembers (by simp [Tree.isWritten_ofText, Tree.isWritten_ofBool])
  ofTree?_tree policy := by
    simp [Format.tree, Format.ofTree?, Policy.ofDatum?, Datum.record, Datum.member, Datum.bool?,
      Datum.text?]

/-- Every id, state, video mode, cause, callee and policy reads back from the JSON text that it is
written as, whatever characters are in it and however many participants a conference has. -/
theorem json_round_trips :
    RoundTrips Leg.Id ∧ RoundTrips ConnectionId ∧ RoundTrips Leg.State ∧ RoundTrips Video ∧
      RoundTrips ReleaseCause ∧ RoundTrips Callee ∧ RoundTrips Policy := by
  refine ⟨?_, ?_, ?_, ?_, ?_, ?_, ?_⟩ <;> exact LawfulFormat.roundTrips

example : Json.write (Callee.conference ["a,b", "", "\x22\n"]) =
    "\x7b\"type\":\"conference\",\"participants\":[\"a,b\",\"\",\"\\\"\\n\"]\x7d" := by
  decide

end CallCoordination
