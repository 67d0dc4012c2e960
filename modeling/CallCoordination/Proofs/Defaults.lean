import CallCoordination.Json.Codec
import CallCoordination.Proofs.Json.Reading
import CallCoordination.Proofs.Records
import CallCoordination.Proofs.Toml.Reading
import CallCoordination.Settings.Load
import Mathlib

/-!
# Defaults and what overrides them

Settings, and the policy in them, are what a document gives for their fields and the defaults for
everything else. What is given is told by name alone: the order of fields and fields that are not
known do not matter. A field that is given twice or has the wrong type spoils the whole record, on
both levels, and with it the document.
-/

namespace CallCoordination

namespace Datum

/-! ## Kinds of fields -/

inductive Kind where
  | flag
  | text
  | textOrNull
  /-- A record, which a list can stand for as well as a table. -/
  | record
  deriving DecidableEq

def Kind.Has : Kind → Datum → Prop
  | flag, .bool _ => True
  | text, .text _ => True
  | textOrNull, .null | textOrNull, .text _ => True
  | record, .table _ | record, .list _ => True
  | _, _ => False

/-- A field is given something of another kind. -/
def Misfits (schema : List (String × Kind)) (members : List (String × Datum)) : Prop :=
  ∃ f ∈ schema, ∃ d, (f.1, d) ∈ members ∧ ¬ f.2.Has d

theorem bool?_eq_none_iff (d : Datum) : bool? d = none ↔ ¬ Kind.flag.Has d := by
  cases d <;> simp [bool?, Kind.Has]

theorem text?_eq_none_iff (d : Datum) : text? d = none ↔ ¬ Kind.text.Has d := by
  cases d <;> simp [text?, Kind.Has]

theorem textOrNull?_eq_none_iff (d : Datum) : textOrNull? d = none ↔ ¬ Kind.textOrNull.Has d := by
  cases d <;> simp [textOrNull?, Kind.Has]

/-! ## Values that are read exactly -/

def ofTextOrNull : Option String → Datum
  | none => .null
  | some s => .text s

section

variable {α : Type} {read : Datum → Option α} {write : α → Datum}

/-- The reader accepts what is written for a value, and nothing else. -/
def Reads (read : Datum → Option α) (write : α → Datum) : Prop :=
  ∀ d a, read d = some a ↔ d = write a

theorem reads_bool? : Reads bool? .bool := by
  intro d flag
  cases d <;> simp [bool?]

theorem reads_text? : Reads text? .text := by
  intro d s
  cases d <;> simp [text?]

theorem reads_textOrNull? : Reads textOrNull? ofTextOrNull := by
  intro d s
  cases d <;> cases s <;> simp [textOrNull?, ofTextOrNull]

theorem Reads.valueOf_eq_some_iff (h : Reads read write) {name : String} {default a : α}
    {d : Option Datum} :
    valueOf (name, read, default) d = some a ↔
      ∃ given : Option α, d = given.map write ∧ given.getD default = a := by
  cases d with
  | none =>
    constructor
    · intro hdefault
      exact ⟨none, rfl, Option.some.inj hdefault⟩
    · rintro ⟨given, hnone, rfl⟩
      obtain rfl := Option.map_eq_none_iff.mp hnone.symm
      rfl
  | some d =>
    constructor
    · intro hread
      exact ⟨some a, congrArg some ((h d a).mp hread), rfl⟩
    · rintro ⟨given, hsome, rfl⟩
      obtain ⟨a, rfl, rfl⟩ := Option.map_eq_some_iff.mp hsome.symm
      exact (h _ a).mpr rfl

end

end Datum

open Datum (field Gives Repeats Misfits OverridesDefaults ofTextOrNull)

/-! ## Policies -/

namespace Policy

def schema : List (String × Datum.Kind) :=
  [("swap_rollback", .flag), ("hold_settled_on_entry", .flag), ("mismatch_reason", .text)]

def fieldNames : List String := schema.map Prod.fst

theorem nodup_fieldNames : fieldNames.Nodup := by decide

/-- The values that a policy is given. -/
structure Given where
  swapRollback : Option Bool := none
  holdSettledOnEntry : Option Bool := none
  mismatchReason : Option String := none
  deriving DecidableEq, Repr

namespace Given

def fields (given : Given) : List (String × Datum) :=
  field "swap_rollback" (given.swapRollback.map .bool) ++
    field "hold_settled_on_entry" (given.holdSettledOnEntry.map .bool) ++
    field "mismatch_reason" (given.mismatchReason.map .text)

/-- The policy that has every value that is given, and those of the other policy for the rest. -/
def overriding (given : Given) (base : Policy) : Policy where
  swapRollback := given.swapRollback.getD base.swapRollback
  holdSettledOnEntry := given.holdSettledOnEntry.getD base.holdSettledOnEntry
  mismatchReason := given.mismatchReason.getD base.mismatchReason

def IsIn (dialect : Datum.Dialect) (given : Given) (d : Datum) : Prop :=
  Gives dialect fieldNames given.fields d

end Given

/-- What keeps a table from being a policy. -/
def Spoils (members : List (String × Datum)) : Prop :=
  Repeats fieldNames members ∨ Misfits schema members

variable {dialect : Datum.Dialect}

theorem ofDatum?_eq_some_iff {d : Datum} {policy : Policy} :
    ofDatum? dialect d = some policy ↔
      ∃ given : Given, given.IsIn dialect d ∧ given.overriding {} = policy := by
  rw [ofDatum?, Datum.record_eq_some_iff (by exact nodup_fieldNames)]
  constructor
  · rintro ⟨d₁, d₂, d₃, hgives, rollback, onEntry, reason, h₁, h₂, h₃, rfl⟩
    obtain ⟨g₁, rfl, rfl⟩ := Datum.reads_bool?.valueOf_eq_some_iff.mp h₁
    obtain ⟨g₂, rfl, rfl⟩ := Datum.reads_bool?.valueOf_eq_some_iff.mp h₂
    obtain ⟨g₃, rfl, rfl⟩ := Datum.reads_text?.valueOf_eq_some_iff.mp h₃
    exact ⟨⟨g₁, g₂, g₃⟩, hgives, rfl⟩
  · rintro ⟨given, hgives, rfl⟩
    exact ⟨_, _, _, hgives, _, _, _,
      Datum.reads_bool?.valueOf_eq_some_iff.mpr ⟨given.swapRollback, rfl, rfl⟩,
      Datum.reads_bool?.valueOf_eq_some_iff.mpr ⟨given.holdSettledOnEntry, rfl, rfl⟩,
      Datum.reads_text?.valueOf_eq_some_iff.mpr ⟨given.mismatchReason, rfl, rfl⟩, rfl⟩

theorem ofDatum?_table_eq_none_iff {members : List (String × Datum)} :
    ofDatum? dialect (.table members) = none ↔ Spoils members := by
  rw [ofDatum?, Datum.record_table_eq_none_iff]
  refine or_congr Iff.rfl ?_
  simp [Datum.Refuses, Misfits, schema, Datum.bool?_eq_none_iff, Datum.text?_eq_none_iff]

theorem overridesDefaults (dialect : Datum.Dialect) :
    OverridesDefaults fieldNames (ofDatum? dialect) (Given.IsIn dialect) (·.overriding {})
      Spoils where
  eq_some_iff _ _ := ofDatum?_eq_some_iff
  eq_none_iff _ := ofDatum?_table_eq_none_iff
  congr _ _ hperm := by
    rw [ofDatum?]
    exact Datum.record_table_congr nodup_fieldNames hperm

end Policy

/-! ## Settings -/

namespace Settings

def schema : List (String × Datum.Kind) :=
  [("log_level", .textOrNull), ("log_file", .textOrNull), ("coordination", .record)]

def fieldNames : List String := schema.map Prod.fst

theorem nodup_fieldNames : fieldNames.Nodup := by decide

/-- The values that settings are given. A level or file can be given as one that there is not. -/
structure Given where
  logLevel : Option (Option String) := none
  logFile : Option (Option String) := none
  policy : Option Policy.Given := none
  deriving DecidableEq, Repr

namespace Given

/-- The policy is given as a record of its own. -/
def fields (given : Given) (policy : Option Datum) : List (String × Datum) :=
  field "log_level" (given.logLevel.map ofTextOrNull) ++
    field "log_file" (given.logFile.map ofTextOrNull) ++
    field "coordination" policy

/-- The settings that have every value that is given, and those of the others for the rest. A policy
that is not given is one that is given nothing. -/
def overriding (given : Given) (base : Settings) : Settings where
  logLevel := given.logLevel.getD base.logLevel
  logFile := given.logFile.getD base.logFile
  policy := (given.policy.getD {}).overriding base.policy

def IsIn (dialect : Datum.Dialect) (given : Given) (d : Datum) : Prop :=
  ∃ policy : Option Datum, Option.Rel (Policy.Given.IsIn dialect) given.policy policy ∧
    Gives dialect fieldNames (given.fields policy) d

end Given

/-- What keeps a table from being settings: its own fields, or those of the policy in it. -/
def Spoils (dialect : Datum.Dialect) (members : List (String × Datum)) : Prop :=
  Repeats fieldNames members ∨ Misfits schema members ∨
    ∃ d, ("coordination", d) ∈ members ∧ Policy.ofDatum? dialect d = none

variable {dialect : Datum.Dialect}

theorem valueOf_policy_eq_some_iff {name : String} {d : Option Datum} {policy : Policy} :
    Datum.valueOf (name, Policy.ofDatum? dialect, {}) d = some policy ↔
      ∃ given : Option Policy.Given, Option.Rel (Policy.Given.IsIn dialect) given d ∧
        (given.getD {}).overriding {} = policy := by
  cases d with
  | none =>
    constructor
    · intro hdefault
      exact ⟨none, .none, Option.some.inj hdefault⟩
    · rintro ⟨_, ⟨⟩, rfl⟩
      rfl
  | some d =>
    constructor
    · intro hread
      obtain ⟨given, hgiven, rfl⟩ := Policy.ofDatum?_eq_some_iff.mp hread
      exact ⟨some given, .some hgiven, rfl⟩
    · rintro ⟨_, hgiven, rfl⟩
      cases hgiven with
      | some hgiven => exact Policy.ofDatum?_eq_some_iff.mpr ⟨_, hgiven, rfl⟩

theorem ofDatum?_eq_some_iff {d : Datum} {settings : Settings} :
    ofDatum? dialect d = some settings ↔
      ∃ given : Given, given.IsIn dialect d ∧ given.overriding {} = settings := by
  rw [ofDatum?, Datum.record_eq_some_iff (by exact nodup_fieldNames)]
  constructor
  · rintro ⟨d₁, d₂, d₃, hgives, level, file, policy, h₁, h₂, h₃, rfl⟩
    obtain ⟨g₁, rfl, rfl⟩ := Datum.reads_textOrNull?.valueOf_eq_some_iff.mp h₁
    obtain ⟨g₂, rfl, rfl⟩ := Datum.reads_textOrNull?.valueOf_eq_some_iff.mp h₂
    obtain ⟨g₃, hpolicy, rfl⟩ := valueOf_policy_eq_some_iff.mp h₃
    exact ⟨⟨g₁, g₂, g₃⟩, ⟨d₃, hpolicy, hgives⟩, rfl⟩
  · rintro ⟨given, ⟨policy, hpolicy, hgives⟩, rfl⟩
    exact ⟨_, _, _, hgives, _, _, _,
      Datum.reads_textOrNull?.valueOf_eq_some_iff.mpr ⟨given.logLevel, rfl, rfl⟩,
      Datum.reads_textOrNull?.valueOf_eq_some_iff.mpr ⟨given.logFile, rfl, rfl⟩,
      valueOf_policy_eq_some_iff.mpr ⟨given.policy, hpolicy, rfl⟩, rfl⟩

theorem policy_eq_none_of_not_has {d : Datum} (h : ¬ Datum.Kind.record.Has d) :
    Policy.ofDatum? dialect d = none := by
  cases d with
  | table _ | list _ => exact absurd trivial h
  | null | bool _ | text _ | other => rfl

theorem ofDatum?_table_eq_none_iff {members : List (String × Datum)} :
    ofDatum? dialect (.table members) = none ↔ Spoils dialect members := by
  have hpolicy : (∃ d, ("coordination", d) ∈ members ∧ ¬ Datum.Kind.record.Has d) →
      ∃ d, ("coordination", d) ∈ members ∧ Policy.ofDatum? dialect d = none :=
    fun ⟨d, hmem, hkind⟩ => ⟨d, hmem, policy_eq_none_of_not_has hkind⟩
  rw [ofDatum?, Datum.record_table_eq_none_iff]
  refine or_congr Iff.rfl ?_
  simp only [Datum.Refuses, Misfits, schema, Datum.textOrNull?_eq_none_iff, List.mem_cons,
    List.not_mem_nil, or_false, exists_eq_or_imp, exists_eq_left]
  rw [or_assoc, or_assoc, or_iff_right_of_imp hpolicy]

theorem overridesDefaults (dialect : Datum.Dialect) :
    OverridesDefaults fieldNames (ofDatum? dialect) (Given.IsIn dialect) (·.overriding {})
      (Spoils dialect) where
  eq_some_iff _ _ := ofDatum?_eq_some_iff
  eq_none_iff _ := ofDatum?_table_eq_none_iff
  congr _ _ hperm := by
    rw [ofDatum?]
    exact Datum.record_table_congr nodup_fieldNames hperm

/-- A policy that is not given is the same as one that is given nothing. -/
theorem ofDatum?_cons_empty_policy {members : List (String × Datum)}
    (h : ∀ member ∈ members, member.1 ≠ "coordination") :
    ofDatum? dialect (.table (("coordination", .table []) :: members)) =
      ofDatum? dialect (.table members) := by
  have habsent : members.filter (·.1 = "coordination") = [] :=
    List.filter_eq_nil_iff.mpr fun member hmem => by simpa using h member hmem
  simp [ofDatum?, Datum.record, Datum.member, habsent, Policy.ofDatum?]

end Settings

/-! ## Documents -/

namespace Json.Tree

/-- The members of an object, with their names decoded and their values as data. -/
def HasMembers (fields : List (List Char × Tree)) (members : List (String × Datum)) : Prop :=
  List.Forall₂ (fun field member =>
    Quoted.decode field.1 = some member.1.toList ∧ field.2.datum = member.2) fields members

theorem dataOfMembers_eq_some_iff {fields : List (List Char × Tree)}
    {members : List (String × Datum)} :
    dataOfMembers fields = some members ↔ HasMembers fields members := by
  rw [HasMembers]
  induction fields generalizing members with
  | nil => rw [List.forall₂_nil_left_iff, dataOfMembers, Option.some_inj, eq_comm]
  | cons field fields ih =>
    obtain ⟨key, value⟩ := field
    rw [List.forall₂_cons_left_iff, dataOfMembers]
    constructor
    · intro h
      split at h
      next cs rest hkey hrest =>
        obtain rfl := Option.some.inj h
        exact ⟨_, _, ⟨by rw [hkey, String.toList_ofList], rfl⟩, ih.mp hrest, rfl⟩
      next => cases h
    · rintro ⟨⟨name, d⟩, rest, ⟨hkey, rfl⟩, hrest, rfl⟩
      simp [hkey, ih.mpr hrest]

theorem datum_object_of_hasMembers {fields : List (List Char × Tree)}
    {members : List (String × Datum)} (h : HasMembers fields members) :
    (object fields).datum = .table members := by
  rw [datum, dataOfMembers_eq_some_iff.mpr h]

/-- An object with a name that cannot be decoded. -/
theorem datum_object_of_forall_not {fields : List (List Char × Tree)}
    (h : ∀ members, ¬ HasMembers fields members) : (object fields).datum = .other := by
  have hnone : dataOfMembers fields = none := Option.eq_none_iff_forall_ne_some.mpr
    fun members hsome => h members (dataOfMembers_eq_some_iff.mp hsome)
  rw [datum, hnone]

end Json.Tree

namespace Settings

variable {storage : Storage} {path s : String} {d : Datum}

theorem load_eq (hread : storage.read path = .ok s) (hparse : Toml.parse? s = some d) :
    load storage path = ((ofDatum? Toml.dialect d).map .ok).getD (.error .document) := by
  simp only [load, hread, ofToml?, hparse, Option.bind_some]
  cases ofDatum? Toml.dialect d <;> rfl

theorem load_eq_ok_iff (hread : storage.read path = .ok s) (hparse : Toml.parse? s = some d)
    {settings : Settings} :
    load storage path = .ok settings ↔ ofDatum? Toml.dialect d = some settings := by
  rw [load_eq hread hparse]
  cases ofDatum? Toml.dialect d <;> simp

theorem load_eq_document_iff (hread : storage.read path = .ok s) (hparse : Toml.parse? s = some d) :
    load storage path = .error .document ↔ ofDatum? Toml.dialect d = none := by
  rw [load_eq hread hparse]
  cases ofDatum? Toml.dialect d <;> simp

end Settings

/-- Reading a policy or settings is overriding the defaults by what is given, and a policy that is
not given is as good as an empty one. An object is read so if its names can be decoded, and a
document always: no name is given twice in one, so that only a wrong type can spoil it. A date or
time is read as a table that gives nothing. -/
theorem given_overrides_defaults :
    (∀ dialect : Datum.Dialect,
      OverridesDefaults Policy.fieldNames (Policy.ofDatum? dialect) (Policy.Given.IsIn dialect)
        (·.overriding {}) Policy.Spoils ∧
      OverridesDefaults Settings.fieldNames (Settings.ofDatum? dialect)
        (Settings.Given.IsIn dialect) (·.overriding {}) (Settings.Spoils dialect) ∧
      ∀ members : List (String × Datum), (∀ member ∈ members, member.1 ≠ "coordination") →
        Settings.ofDatum? dialect (.table (("coordination", .table []) :: members)) =
          Settings.ofDatum? dialect (.table members)) ∧
    (∀ s fields, Json.Tree.parse? s = some (.object fields) →
      (∀ members, Json.Tree.HasMembers fields members →
        Json.read? s = Policy.ofDatum? Json.dialect (.table members) ∧
          Settings.ofJson? s = Settings.ofDatum? Json.dialect (.table members)) ∧
      ((∀ members, ¬ Json.Tree.HasMembers fields members) →
        (Json.read? s : Option Policy) = none ∧ Settings.ofJson? s = none)) ∧
    (∀ storage path s d, Storage.read storage path = .ok s → Toml.parse? s = some d →
      ∃ members, d = .table members ∧
        (∀ settings, Settings.load storage path = .ok settings ↔
          Settings.ofDatum? Toml.dialect (.table members) = some settings) ∧
        (Settings.load storage path = .error .document ↔
          Misfits Settings.schema members ∨
            ∃ d, ("coordination", d) ∈ members ∧ Policy.ofDatum? Toml.dialect d = none) ∧
        ∀ inner, ("coordination", .table inner) ∈ members →
          (Policy.ofDatum? Toml.dialect (.table inner) = none ↔ Misfits Policy.schema inner)) ∧
    ∀ word, Toml.Scalar.isDateTime word = true → Toml.Scalar.ofWord? word = some (.table []) := by
  refine ⟨fun dialect => ⟨Policy.overridesDefaults dialect, Settings.overridesDefaults dialect,
    fun _ => Settings.ofDatum?_cons_empty_policy⟩, ?_, ?_,
    fun _ => Toml.Scalar.ofWord?_of_isDateTime⟩
  · intro s fields hparse
    have hpolicy : (Json.read? s : Option Policy) =
        Policy.ofDatum? Json.dialect (Json.Tree.object fields).datum := by
      rw [Json.read?, hparse]
      rfl
    have hsettings : Settings.ofJson? s =
        Settings.ofDatum? Json.dialect (Json.Tree.object fields).datum := by
      rw [Settings.ofJson?, hparse]
      rfl
    rw [hpolicy, hsettings]
    refine ⟨fun members hmembers => ?_, fun hnone => ?_⟩
    · rw [Json.Tree.datum_object_of_hasMembers hmembers]
      exact ⟨rfl, rfl⟩
    · rw [Json.Tree.datum_object_of_forall_not hnone]
      exact ⟨rfl, rfl⟩
  · intro storage path s d hread hparse
    obtain ⟨members, rfl, hd⟩ := Toml.unambiguous_of_parse? hparse
    cases hd with
    | table hnames hmembers =>
      refine ⟨members, rfl, fun _ => Settings.load_eq_ok_iff hread hparse, ?_, fun inner hmem => ?_⟩
      · rw [Settings.load_eq_document_iff hread hparse, Settings.ofDatum?_table_eq_none_iff]
        exact or_iff_right (Datum.not_repeats_of_nodup hnames)
      · rw [Policy.ofDatum?_table_eq_none_iff]
        cases hmembers _ hmem with
        | table hinner _ => exact or_iff_right (Datum.not_repeats_of_nodup hinner)

/-- A list is no wrong type for the policy, a date counts as a policy that is given nothing, and a
name that cannot be decoded spoils an object although no field has it. -/
theorem policy_is_read_from_list :
    Toml.parse? "coordination = [false]" =
        some (.table [("coordination", .list [.bool false])]) ∧
      Settings.ofToml? "coordination = [false]" = some { policy := { swapRollback := false } } ∧
      Settings.ofToml? "coordination = 1979-05-27" = some {} ∧
      Json.Tree.parse? "\x7b\"\\ud800\":0\x7d" =
        some (.object [(['\x5c', 'u', 'd', '8', '0', '0'], .number ['0'])]) ∧
      Settings.ofJson? "\x7b\"\\ud800\":0\x7d" = none := by
  refine ⟨by cbv, by decide, by decide, by cbv, by cbv⟩

/-- A directory with one file, which holds that text. -/
def Storage.single (s : String) : Storage :=
  { nodes := [(["c"], .file { bytes := s.toUTF8 })], here := [] }

theorem Storage.read_single (s : String) : (single s).read "c" = .ok s := by
  have hpath : Path.parse "c" = .ok ⟨false, ["c"], false⟩ := by cbv
  have hplace : (single s).locate ⟨false, ["c"], false⟩ = .ok ["c"] := by cbv
  have hnode : (single s).node? ["c"] = some (.file { bytes := s.toUTF8 }) := rfl
  have htext : String.fromUTF8? s.toUTF8 = some s := by
    rw [String.fromUTF8?, String.toUTF8_eq_toByteArray, dif_pos s.isValidUTF8]
    rfl
  rw [read, hpath]
  simp only [bind, Except.bind, hplace, hnode, htext]
  rfl

/-- An object with its fields in another order, an unknown one in front and a level that there is
not, a document with one field on each level, and a time. -/
theorem given_overrides_defaults_of_partial :
    let json :=
      "\x7b\"x\":[1],\"coordination\":\x7b\"swap_rollback\":false\x7d,\"log_level\":null\x7d"
    let toml := "log_level = \"debug\"\n\n[coordination]\nswap_rollback = false\n"
    let object : List (String × Datum) := [("x", .list [.other]),
      ("coordination", .table [("swap_rollback", .bool false)]), ("log_level", .null)]
    let document : List (String × Datum) := [("log_level", .text "debug"),
      ("coordination", .table [("swap_rollback", .bool false)])]
    (∃ fields, Json.Tree.parse? json = some (.object fields) ∧
        Json.Tree.HasMembers fields object) ∧
      Settings.ofJson? json = some { logLevel := none, policy := { swapRollback := false } } ∧
      (Storage.single toml).read "c" = .ok toml ∧ Toml.parse? toml = some (.table document) ∧
      Settings.load (.single toml) "c" =
        .ok { logLevel := some "debug", policy := { swapRollback := false } } ∧
      Toml.Scalar.isDateTime "07:32:00".toList = true ∧
      Toml.Scalar.ofWord? "07:32:00".toList = some (.table []) := by
  intro json toml object document
  obtain ⟨hdialects, hjson, htoml, hdate⟩ := given_overrides_defaults
  let fields : List (List Char × Json.Tree) := [("x".toList, .array [.number ['1']]),
    ("coordination".toList, .object [("swap_rollback".toList, .literal .false)]),
    ("log_level".toList, .literal .null)]
  have hobject : Json.Tree.parse? json = some (.object fields) := by
    have hscan : Json.Token.scan? json.toList = some (Json.Tree.object fields).tokens := by
      decide +kernel
    rw [Json.Tree.parse?, hscan, Option.bind_some, Json.Tree.ofTokens?_tokens]
  have hpolicy : (Json.Tree.object [("swap_rollback".toList, .literal .false)]).datum =
      .table [("swap_rollback", .bool false)] := by cbv
  have hmembers : Json.Tree.HasMembers fields object :=
    .cons ⟨by decide, rfl⟩ (.cons ⟨by decide, hpolicy⟩ (.cons ⟨by decide, rfl⟩ .nil))
  have hinner (dialect : Datum.Dialect) : Option.Rel (Policy.Given.IsIn dialect)
      (some { swapRollback := some false }) (some (.table [("swap_rollback", .bool false)])) :=
    .some Datum.gives_table_self
  have hparse : Toml.parse? toml = some (.table document) := by cbv
  refine ⟨⟨_, hobject, hmembers⟩, ?_, Storage.read_single toml, hparse, ?_, by decide,
    hdate _ (by decide)⟩
  · rw [((hjson _ _ hobject).1 object hmembers).2]
    exact ((hdialects Json.dialect).2.1.eq_some_iff _ _).mpr
      ⟨⟨some none, none, some { swapRollback := some false }⟩,
        ⟨_, hinner _, [("x", .list [.other])], by simp [Settings.fieldNames, Settings.schema],
          (List.reverse_perm object).symm⟩, rfl⟩
  · obtain ⟨_, ⟨⟩, hload, -⟩ := htoml _ "c" toml _ (Storage.read_single toml) hparse
    exact (hload _).mpr (((hdialects Toml.dialect).2.1.eq_some_iff _ _).mpr
      ⟨⟨some (some "debug"), none, some { swapRollback := some false }⟩,
        ⟨_, hinner _, Datum.gives_table_self⟩, rfl⟩)

end CallCoordination
