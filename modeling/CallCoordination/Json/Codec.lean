import CallCoordination.Dialing
import CallCoordination.Json.Tree
import CallCoordination.Settings

/-!
# The JSON forms of the domain types

Ids are strings, states and video modes are names, causes and callees are objects with a `type`.
-/

namespace CallCoordination

namespace Json

namespace Tree

mutual

/-- The data of a tree. A string that cannot be decoded is nothing that can be asked for, and
neither is an object with such a key. -/
def datum : Tree → Datum
  | literal .null => .null
  | literal .true => .bool true
  | literal .false => .bool false
  | number _ => .other
  | string body =>
    match Quoted.decode body with
    | some cs => .text (String.ofList cs)
    | none => .other
  | array items => .list (dataOfItems items)
  | object members =>
    match dataOfMembers members with
    | some members => .table members
    | none => .other

def dataOfItems : List Tree → List Datum
  | [] => []
  | item :: items => item.datum :: dataOfItems items

def dataOfMembers : List (List Char × Tree) → Option (List (String × Datum))
  | [] => some []
  | (key, value) :: members =>
    match Quoted.decode key, dataOfMembers members with
    | some cs, some rest => some ((String.ofList cs, value.datum) :: rest)
    | _, _ => none

end

end Tree

/-- A record that is written as an array has no more items than fields. -/
def dialect : Datum.Dialect := ⟨false⟩

class Format (α : Type) where
  tree : α → Tree
  ofTree? : Tree → Option α

section

variable {α : Type} [Format α]

def write (a : α) : String := (Format.tree a).render

def read? (s : String) : Option α := (Tree.parse? s).bind Format.ofTree?

end

/-- An object that carries its tag as the member `type`, in front of the others. -/
def tagged (tag : String) (members : List (String × Tree)) : Tree :=
  .ofMembers (("type", .ofText tag) :: members)

/-- Split a tagged value, which has to be evaluated as a whole for that. -/
def tagged? (tree : Tree) : Option (String × Datum.Payload) :=
  if tree.isStorable Tree.nestingLimit then tree.datum.tagged? else none

end Json

open Json (Tree Format)

instance : Format Leg.Id where
  tree id := .ofText id.text
  ofTree? t := t.datum.text?.map (⟨·⟩)

instance : Format ConnectionId where
  tree id := .ofText id.text
  ofTree? t := t.datum.text?.map (⟨·⟩)

instance : Format Leg.State where
  tree state := .ofText state.name
  ofTree? t := t.datum.name?.bind Leg.State.ofName?

instance : Format Video where
  tree video := .ofText video.name
  ofTree? t := t.datum.name?.bind Video.ofName?

namespace ReleaseCause

def tree : ReleaseCause → Tree
  | errorUnspecified => Json.tagged "error_unspecified" []
  | internalFailure reason => Json.tagged "internal_failure" [("reason", .ofText reason)]

def ofTagged? : String × Datum.Payload → Option ReleaseCause
  | ("error_unspecified", payload) => if payload.isEmpty then some errorUnspecified else none
  | ("internal_failure", payload) =>
    ((payload.only? "reason").bind Datum.text?).map internalFailure
  | _ => none

instance : Format ReleaseCause where
  tree := tree
  ofTree? t := (Json.tagged? t).bind ofTagged?

end ReleaseCause

namespace Callee

def tree : Callee → Tree
  | address number => Json.tagged "address" [("number", .ofText number)]
  | conference participants =>
    Json.tagged "conference" [("participants", .array (participants.map .ofText))]

def ofTagged? : String × Datum.Payload → Option Callee
  | ("address", payload) => ((payload.only? "number").bind Datum.text?).map address
  | ("conference", payload) =>
    ((payload.only? "participants").bind Datum.texts?).map conference
  | _ => none

instance : Format Callee where
  tree := tree
  ofTree? t := (Json.tagged? t).bind ofTagged?

end Callee

instance : Format Policy where
  tree policy :=
    .ofMembers
      [("swap_rollback", .ofBool policy.swapRollback),
        ("hold_settled_on_entry", .ofBool policy.holdSettledOnEntry),
        ("mismatch_reason", .ofText policy.mismatchReason)]
  ofTree? t := Policy.ofDatum? Json.dialect t.datum

/-- The settings in a JSON text. Settings are only read. -/
def Settings.ofJson? (s : String) : Option Settings :=
  (Tree.parse? s).bind fun t => ofDatum? Json.dialect t.datum

end CallCoordination
