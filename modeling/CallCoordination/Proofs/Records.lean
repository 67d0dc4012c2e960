import CallCoordination.Datum
import Mathlib.Data.List.Nodup
import Mathlib.Data.List.Perm.Basic

/-!
# Records with defaults

A record is read from a table or from a list. What it is given is told here without reading it: for
each field one datum or none, which a table has in any order and among any other members, and a list
in the order of the fields. The record is then read field by field, from what is given or from the
default.
-/

namespace CallCoordination.Datum

/-! ## What is given -/

/-- The members that a table has for a field: one, or none. -/
def field (name : String) (given : Option Datum) : List (String × Datum) :=
  (given.map (name, ·)).toList

/-- Whether a datum gives exactly these fields to a record whose fields have these names. A table
may have other members, and it may have them anywhere. The items of a list are given to the fields
in their order, and what is left over is for the dialect to allow. -/
def Gives (dialect : Dialect) (names : List String) (fields : List (String × Datum)) :
    Datum → Prop
  | table members => ∃ unknown : List (String × Datum),
    (∀ member ∈ unknown, member.1 ∉ names) ∧ members.Perm (fields ++ unknown)
  | list items =>
    names.zip items = fields ∧ (items.length ≤ names.length ∨ dialect.surplusItems = true)
  | _ => False

section Tables

variable {dialect : Dialect} {names : List String} {name other : String} {given : Option Datum}
  {fields members members' : List (String × Datum)}

@[simp] theorem field_none (name : String) : field name none = [] := rfl

@[simp] theorem field_some (name : String) (d : Datum) : field name (some d) = [(name, d)] := rfl

theorem fst_of_mem_field {member : String × Datum} (h : member ∈ field name given) :
    member.1 = name := by
  cases given with
  | none => cases h
  | some d => rw [List.mem_singleton.mp h]

@[simp] theorem filter_field_self : (field name given).filter (·.1 = name) = field name given :=
  List.filter_eq_self.mpr fun _ hmem => decide_eq_true (fst_of_mem_field hmem)

theorem filter_field_of_ne (h : name ≠ other) : (field name given).filter (·.1 = other) = [] :=
  List.filter_eq_nil_iff.mpr fun _ hmem => by simpa [fst_of_mem_field hmem] using h

theorem eq_field_of_perm (h : members.Perm (field name given)) : members = field name given := by
  cases given with
  | none => exact List.perm_nil.mp h
  | some d => exact List.perm_singleton.mp h

theorem field_injective {d d' : Option Datum} (h : field name d = field name d') : d = d' := by
  cases d <;> cases d' <;> simp_all

/-- Fields of different names can be told apart. -/
theorem filter_fields {n₁ n₂ n₃ : String} (hnames : [n₁, n₂, n₃].Nodup) (d₁ d₂ d₃ : Option Datum) :
    let fields := field n₁ d₁ ++ field n₂ d₂ ++ field n₃ d₃
    fields.filter (·.1 = n₁) = field n₁ d₁ ∧ fields.filter (·.1 = n₂) = field n₂ d₂ ∧
      fields.filter (·.1 = n₃) = field n₃ d₃ := by
  obtain ⟨⟨h₁₂, h₁₃⟩, h₂₃⟩ : (n₁ ≠ n₂ ∧ n₁ ≠ n₃) ∧ n₂ ≠ n₃ := by simpa using hnames
  simp [filter_field_of_ne, h₁₂, h₁₂.symm, h₁₃, h₁₃.symm, h₂₃, h₂₃.symm]

theorem mem_names_of_mem_fields {n₁ n₂ n₃ : String} {d₁ d₂ d₃ : Option Datum}
    {member : String × Datum} (h : member ∈ field n₁ d₁ ++ field n₂ d₂ ++ field n₃ d₃) :
    member.1 ∈ [n₁, n₂, n₃] := by
  simp only [List.mem_append] at h
  rcases h with (h | h) | h <;> simp [fst_of_mem_field h]

theorem perm_filter_of_gives (h : Gives dialect names fields (table members)) (name : String)
    (hname : name ∈ names) :
    (members.filter (·.1 = name)).Perm (fields.filter (·.1 = name)) := by
  obtain ⟨unknown, hunknown, hperm⟩ := h
  have hnone : unknown.filter (·.1 = name) = [] := by
    refine List.filter_eq_nil_iff.mpr fun member hmem => ?_
    simpa using fun hsame : member.1 = name => hunknown member hmem (hsame ▸ hname)
  have hfilter := hperm.filter (·.1 = name)
  rwa [List.filter_append, hnone, List.append_nil] at hfilter

theorem gives_table_self : Gives dialect names fields (table fields) :=
  ⟨[], fun _ hmem => absurd hmem List.not_mem_nil, by rw [List.append_nil]⟩

/-- Only the members that the record knows count, and their order does not. -/
theorem gives_table_iff (hfields : ∀ member ∈ fields, member.1 ∈ names) :
    Gives dialect names fields (table members) ↔ (members.filter (·.1 ∈ names)).Perm fields := by
  constructor
  · rintro ⟨unknown, hunknown, hperm⟩
    have hall : fields.filter (·.1 ∈ names) = fields :=
      List.filter_eq_self.mpr fun member hmem => decide_eq_true (hfields member hmem)
    have hnone : unknown.filter (·.1 ∈ names) = [] :=
      List.filter_eq_nil_iff.mpr fun member hmem => by simpa using hunknown member hmem
    have hknown := hperm.filter (·.1 ∈ names)
    rwa [List.filter_append, hall, hnone, List.append_nil] at hknown
  · intro hperm
    refine ⟨members.filter fun member => !decide (member.1 ∈ names), ?_, ?_⟩
    · intro member hmem
      simpa using List.of_mem_filter hmem
    · exact (List.filter_append_perm (·.1 ∈ names) members).symm.trans (hperm.append_right _)

/-- The known members, one name after the other. -/
theorem perm_flatMap_filter (hnames : names.Nodup) (members : List (String × Datum)) :
    (members.filter (·.1 ∈ names)).Perm
      (names.flatMap fun name => members.filter (·.1 = name)) := by
  induction names with
  | nil => simp
  | cons name later ih =>
    obtain ⟨hname, hlater⟩ := List.nodup_cons.mp hnames
    have hsplit := List.filter_append_perm (·.1 = name) (members.filter (·.1 ∈ name :: later))
    have hsame : (members.filter (·.1 ∈ name :: later)).filter (·.1 = name) =
        members.filter (·.1 = name) := by
      rw [List.filter_filter]
      apply List.filter_congr
      intro member _
      by_cases hmember : member.1 = name <;> simp [hmember]
    have hrest : (members.filter (·.1 ∈ name :: later)).filter (fun m => !decide (m.1 = name)) =
        members.filter (·.1 ∈ later) := by
      rw [List.filter_filter]
      apply List.filter_congr
      intro member _
      by_cases hmember : member.1 = name <;> simp [hmember, hname]
    rw [hsame, hrest] at hsplit
    exact hsplit.symm.trans ((ih hlater).append_left _)

end Tables

/-! ## Reading -/

section

variable {α : Type}

/-- The value of a field with that name, reader and default, once it is known what it is given. -/
def valueOf (f : String × (Datum → Option α) × α) (given : Option Datum) : Option α :=
  given.elim (some f.2.2) f.2.1

/-- One of the names is given more than once. -/
def Repeats (names : List String) (members : List (String × Datum)) : Prop :=
  ∃ name ∈ names, 1 < members.countP (·.1 = name)

/-- The field is given something that its reader refuses. -/
def Refuses (members : List (String × Datum)) (f : String × (Datum → Option α) × α) : Prop :=
  ∃ d, (f.1, d) ∈ members ∧ f.2.1 d = none

variable {members : List (String × Datum)} {f : String × (Datum → Option α) × α} {a : α}

theorem filter_eq_singleton {name : String} {member : String × Datum}
    (h : members.filter (·.1 = name) = [member]) :
    member.1 = name ∧ ∀ d, (name, d) ∈ members ↔ d = member.2 := by
  have hmem (other : String × Datum) : other ∈ members ∧ other.1 = name ↔ other = member := by
    have hfilter : other ∈ members.filter (·.1 = name) ↔ other = member := by
      rw [h, List.mem_singleton]
    rwa [List.mem_filter, decide_eq_true_iff] at hfilter
  obtain ⟨_, hname⟩ := (hmem member).mpr rfl
  refine ⟨hname, fun d => ?_⟩
  have hd := hmem (name, d)
  rw [and_iff_left rfl] at hd
  rw [hd, Prod.ext_iff, and_iff_right hname.symm]

theorem member_eq_some_iff : member members f.1 f.2.1 f.2.2 = some a ↔
    ∃ given : Option Datum, members.filter (·.1 = f.1) = field f.1 given ∧
      valueOf f given = some a := by
  unfold member
  constructor
  · intro h
    split at h
    next hnone => exact ⟨none, hnone, h⟩
    next name d hone =>
      obtain ⟨rfl, -⟩ := filter_eq_singleton hone
      exact ⟨some d, hone, h⟩
    next => cases h
  · rintro ⟨given, hgiven, hvalue⟩
    rw [hgiven]
    cases given <;> exact hvalue

theorem member_eq_none_iff : member members f.1 f.2.1 f.2.2 = none ↔
    1 < members.countP (·.1 = f.1) ∨ Refuses members f := by
  rw [Refuses, List.countP_eq_length_filter, member]
  cases hfilter : members.filter (·.1 = f.1) with
  | nil =>
    have habsent : ∀ d, (f.1, d) ∉ members := fun d hmem => by
      simpa using List.filter_eq_nil_iff.mp hfilter (f.1, d) hmem
    simp [habsent]
  | cons entry rest =>
    cases rest with
    | nil => simp [(filter_eq_singleton hfilter).2]
    | cons _ _ => simp

theorem not_repeats_of_nodup {names : List String} (h : (members.map Prod.fst).Nodup) :
    ¬ Repeats names members := by
  rintro ⟨name, -, hcount⟩
  have hone := List.nodup_iff_count_le_one.mp h name
  rw [List.count, List.countP_map] at hone
  exact absurd hcount (Nat.not_lt.mpr hone)

end

section Records

variable {α β γ δ : Type} {dialect : Dialect} {build : α → β → γ → δ}
  {first : String × (Datum → Option α) × α} {second : String × (Datum → Option β) × β}
  {third : String × (Datum → Option γ) × γ} {members members' : List (String × Datum)} {x : δ}

/-- A table is no record only if a field is given twice, or something that its reader refuses. -/
theorem record_table_eq_none_iff :
    record dialect build first second third (table members) = none ↔
      Repeats [first.1, second.1, third.1] members ∨
        Refuses members first ∨ Refuses members second ∨ Refuses members third := by
  have hmember : record dialect build first second third (table members) = none ↔
      member members first.1 first.2.1 first.2.2 = none ∨
        member members second.1 second.2.1 second.2.2 = none ∨
          member members third.1 third.2.1 third.2.2 = none := by
    rw [record]
    cases member members first.1 first.2.1 first.2.2 with
    | none => simp
    | some a =>
      cases member members second.1 second.2.1 second.2.2 with
      | none => simp
      | some b => cases member members third.1 third.2.1 third.2.2 <;> simp
  rw [hmember, member_eq_none_iff, member_eq_none_iff, member_eq_none_iff]
  simp only [Repeats, List.mem_cons, List.not_mem_nil, or_false, exists_eq_or_imp,
    exists_eq_left]
  tauto

/-- What is built of three fields, each with the value of what it is given. -/
def Builds (dialect : Dialect) (build : α → β → γ → δ)
    (first : String × (Datum → Option α) × α) (second : String × (Datum → Option β) × β)
    (third : String × (Datum → Option γ) × γ) (d : Datum) (x : δ) : Prop :=
  ∃ d₁ d₂ d₃ : Option Datum,
    Gives dialect [first.1, second.1, third.1]
      (field first.1 d₁ ++ field second.1 d₂ ++ field third.1 d₃) d ∧
    ∃ a b c, valueOf first d₁ = some a ∧ valueOf second d₂ = some b ∧
      valueOf third d₃ = some c ∧ build a b c = x

theorem record_table_eq_some_iff (hnames : [first.1, second.1, third.1].Nodup) :
    record dialect build first second third (table members) = some x ↔
      Builds dialect build first second third (table members) x := by
  constructor
  · intro h
    obtain ⟨a, ha, hrest⟩ := Option.bind_eq_some_iff.mp h
    obtain ⟨b, hb, hrest⟩ := Option.bind_eq_some_iff.mp hrest
    obtain ⟨c, hc, hx⟩ := Option.bind_eq_some_iff.mp hrest
    obtain ⟨d₁, h₁, ha⟩ := member_eq_some_iff.mp ha
    obtain ⟨d₂, h₂, hb⟩ := member_eq_some_iff.mp hb
    obtain ⟨d₃, h₃, hc⟩ := member_eq_some_iff.mp hc
    refine ⟨d₁, d₂, d₃, ?_, a, b, c, ha, hb, hc, Option.some.inj hx⟩
    have hperm := perm_flatMap_filter hnames members
    simp only [List.flatMap_cons, List.flatMap_nil, h₁, h₂, h₃, List.append_nil] at hperm
    rw [← List.append_assoc] at hperm
    exact (gives_table_iff fun _ => mem_names_of_mem_fields).mpr hperm
  · rintro ⟨d₁, d₂, d₃, hgives, a, b, c, ha, hb, hc, rfl⟩
    obtain ⟨hfirst, hsecond, hthird⟩ := filter_fields hnames d₁ d₂ d₃
    have h₁ := perm_filter_of_gives hgives first.1 (by simp)
    have h₂ := perm_filter_of_gives hgives second.1 (by simp)
    have h₃ := perm_filter_of_gives hgives third.1 (by simp)
    rw [hfirst] at h₁
    rw [hsecond] at h₂
    rw [hthird] at h₃
    have ha' := member_eq_some_iff.mpr ⟨d₁, eq_field_of_perm h₁, ha⟩
    have hb' := member_eq_some_iff.mpr ⟨d₂, eq_field_of_perm h₂, hb⟩
    have hc' := member_eq_some_iff.mpr ⟨d₃, eq_field_of_perm h₃, hc⟩
    simp [record, ha', hb', hc']

/-- Neither the order of members matters nor those of other names. -/
theorem record_table_congr (hnames : [first.1, second.1, third.1].Nodup)
    (h : (members.filter (·.1 ∈ [first.1, second.1, third.1])).Perm
      (members'.filter (·.1 ∈ [first.1, second.1, third.1]))) :
    record dialect build first second third (table members) =
      record dialect build first second third (table members') := by
  apply Option.ext
  intro x
  rw [record_table_eq_some_iff hnames, record_table_eq_some_iff hnames]
  refine exists_congr fun d₁ => exists_congr fun d₂ => exists_congr fun d₃ => and_congr_left' ?_
  rw [gives_table_iff fun _ => mem_names_of_mem_fields,
    gives_table_iff fun _ => mem_names_of_mem_fields]
  exact ⟨h.symm.trans, h.trans⟩

theorem item_eq_valueOf (items : List Datum) (index : Nat)
    (f : String × (Datum → Option α) × α) :
    item items index f.2.1 f.2.2 = valueOf f items[index]? := by
  rw [item]
  cases items[index]? <;> rfl

theorem record_list_eq_some_iff (hnames : [first.1, second.1, third.1].Nodup)
    {items : List Datum} :
    record dialect build first second third (list items) = some x ↔
      Builds dialect build first second third (list items) x := by
  have hzip : [first.1, second.1, third.1].zip items =
      field first.1 items[0]? ++ field second.1 items[1]? ++ field third.1 items[2]? := by
    match items with
    | [] | [_] | [_, _] => rfl
    | _ :: _ :: _ :: _ => simp
  constructor
  · intro h
    simp only [record, item_eq_valueOf] at h
    split at h
    · cases h
    next hfits =>
      obtain ⟨a, ha, hrest⟩ := Option.bind_eq_some_iff.mp h
      obtain ⟨b, hb, hrest⟩ := Option.bind_eq_some_iff.mp hrest
      obtain ⟨c, hc, hx⟩ := Option.bind_eq_some_iff.mp hrest
      have hfits' : items.length ≤ 3 ∨ dialect.surplusItems = true := by
        simpa [← or_iff_not_imp_left, or_comm, imp_iff_not_or] using hfits
      exact ⟨_, _, _, ⟨hzip, hfits'⟩, a, b, c, ha, hb, hc, Option.some.inj hx⟩
  · rintro ⟨d₁, d₂, d₃, ⟨hfields, hfits⟩, a, b, c, ha, hb, hc, rfl⟩
    obtain ⟨h₁, h₂, h₃⟩ := filter_fields hnames d₁ d₂ d₃
    obtain ⟨h₁', h₂', h₃'⟩ := filter_fields hnames items[0]? items[1]? items[2]?
    rw [hzip] at hfields
    rw [← hfields] at h₁ h₂ h₃
    obtain rfl := field_injective (h₁'.symm.trans h₁)
    obtain rfl := field_injective (h₂'.symm.trans h₂)
    obtain rfl := field_injective (h₃'.symm.trans h₃)
    have hall : (!dialect.surplusItems && decide (items.length > 3)) = false := by
      rcases hfits with hfits | hfits
      · simpa using fun _ => hfits
      · simp [hfits]
    simp [record, item_eq_valueOf, hall, ha, hb, hc]

/-- A record is read from what its fields are given, and from nothing else. -/
theorem record_eq_some_iff (hnames : [first.1, second.1, third.1].Nodup) {d : Datum} :
    record dialect build first second third d = some x ↔
      Builds dialect build first second third d x := by
  cases d with
  | table members => exact record_table_eq_some_iff hnames
  | list items => exact record_list_eq_some_iff hnames
  | null | bool _ | text _ | other => simp [record, Builds, Gives]

end Records

/-- A record is its defaults, overridden by what a datum gives to its fields. -/
structure OverridesDefaults {α γ : Type} (names : List String) (read : Datum → Option α)
    (IsIn : γ → Datum → Prop) (result : γ → α) (Spoils : List (String × Datum) → Prop) : Prop where
  eq_some_iff (d : Datum) (a : α) : read d = some a ↔ ∃ given, IsIn given d ∧ result given = a
  eq_none_iff (members : List (String × Datum)) : read (table members) = none ↔ Spoils members
  /-- Neither the order of members matters nor those of other names. -/
  congr (members members' : List (String × Datum)) :
    (members.filter (·.1 ∈ names)).Perm (members'.filter (·.1 ∈ names)) →
      read (table members) = read (table members')

end CallCoordination.Datum
