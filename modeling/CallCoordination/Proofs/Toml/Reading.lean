import CallCoordination.Toml.Document
import Mathlib.Data.List.Nodup

/-!
# What a TOML document is read as

However a document builds a table, by headers, by dotted keys or in one piece, no name is given in
it twice. A statement that would give a name again is refused, and the others either put a new name
at the end or replace what is under an old one. The reader hands over the data of its arrays and
inline tables as soon as they are closed, and these are built in the same way.

Dates and times are read as empty tables. They are told from numbers by the mark behind their first
digits, which no number has there.
-/

namespace CallCoordination

/-- No table in it has two members of one name. -/
inductive Datum.Unambiguous : Datum → Prop where
  | null : Unambiguous .null
  | bool (b : Bool) : Unambiguous (.bool b)
  | text (s : String) : Unambiguous (.text s)
  | other : Unambiguous .other
  | list {items : List Datum} (hitems : ∀ item ∈ items, Unambiguous item) :
    Unambiguous (.list items)
  | table {members : List (String × Datum)} (hnames : (members.map Prod.fst).Nodup)
    (hmembers : ∀ member ∈ members, Unambiguous member.2) : Unambiguous (.table members)

namespace Toml

/-! ## Tables -/

inductive Item.Unambiguous : Item → Prop where
  | value {d : Datum} (h : d.Unambiguous) : Unambiguous (.value d)
  | table (origin : Origin) {members : Members} (hnames : (members.map Prod.fst).Nodup)
    (hmembers : ∀ member ∈ members, Unambiguous member.2) : Unambiguous (.table origin members)
  | tables {elements : List Members} (hnames : ∀ element ∈ elements, (element.map Prod.fst).Nodup)
    (hmembers : ∀ element ∈ elements, ∀ member ∈ element, Unambiguous member.2) :
    Unambiguous (.tables elements)

structure Members.Unambiguous (members : Members) : Prop where
  names : (members.map Prod.fst).Nodup
  items : ∀ member ∈ members, member.2.Unambiguous

namespace Members.Unambiguous

variable {members : Members} {key : String} {item : Item}

theorem nil : Members.Unambiguous [] := ⟨List.nodup_nil, nofun⟩

theorem lookup (h : members.Unambiguous) (hlookup : members.lookup key = some item) :
    item.Unambiguous := by
  obtain ⟨before, after, rfl, -⟩ := List.lookup_eq_some_iff.mp hlookup
  exact h.items (key, item) (by simp)

theorem add (h : members.Unambiguous) (hnone : members.lookup key = none)
    (hitem : item.Unambiguous) : Members.Unambiguous (members ++ [(key, item)]) := by
  refine ⟨?_, List.forall_mem_append.mpr ⟨h.items, by simpa using hitem⟩⟩
  rw [List.map_append, List.nodup_append]
  refine ⟨h.names, List.nodup_singleton _, ?_⟩
  intro name hname last hlast hsame
  obtain ⟨member, hmem, rfl⟩ := List.mem_map.mp hname
  obtain rfl := List.mem_singleton.mp hlast
  exact absurd hsame.symm (by simpa using List.lookup_eq_none_iff.mp hnone member hmem)

theorem put (h : members.Unambiguous) (hitem : item.Unambiguous) :
    (members.put key item).Unambiguous := by
  have hnames : (members.put key item).map Prod.fst = members.map Prod.fst := by
    rw [Members.put, List.map_map]
    apply List.map_congr_left
    intro member _
    simp only [Function.comp]
    split
    next hkey => exact hkey.symm
    · rfl
  refine ⟨hnames ▸ h.names, fun member hmem => ?_⟩
  obtain ⟨old, hold, rfl⟩ := List.mem_map.mp hmem
  split
  · exact hitem
  · exact h.items old hold

theorem of_table {origin : Origin} (h : (Item.table origin members).Unambiguous) :
    members.Unambiguous := by
  cases h with
  | table _ hnames hmembers => exact ⟨hnames, hmembers⟩

theorem table (h : members.Unambiguous) (origin : Origin) :
    (Item.table origin members).Unambiguous :=
  .table origin h.names h.items

/-- What keeps the table at the end of a path unambiguous keeps all those on the way so. -/
theorem within {dotted : Bool} {change : Origin → Members → Option Members}
    (hchange : ∀ origin members, members.Unambiguous →
      ∀ next ∈ change origin members, next.Unambiguous)
    (h : members.Unambiguous) (origin : Origin) (path : List String) :
    ∀ next ∈ members.within dotted change origin path, next.Unambiguous := by
  induction path generalizing members origin with
  | nil => exact hchange origin members h
  | cons key path ih =>
    intro next hnext
    rw [Option.mem_def, Members.within] at hnext
    split at hnext
    next hnone =>
      obtain ⟨inner, hinner, hadd⟩ := Option.bind_eq_some_iff.mp hnext
      obtain rfl := Option.some.inj hadd
      exact h.add hnone ((ih nil _ inner hinner).table _)
    next => cases hnext
    next origin' inner hlookup =>
      split at hnext
      · cases hnext
      · obtain ⟨changed, hchanged, hput⟩ := Option.bind_eq_some_iff.mp hnext
        obtain rfl := Option.some.inj hput
        exact h.put ((ih (of_table (h.lookup hlookup)) _ changed hchanged).table _)
    next elements hlookup =>
      obtain ⟨last, hlast, hrest⟩ := Option.bind_eq_some_iff.mp hnext
      obtain ⟨changed, hchanged, hput⟩ := Option.bind_eq_some_iff.mp hrest
      obtain rfl := Option.some.inj hput
      cases h.lookup hlookup with
      | tables hnames hmembers =>
        have hmem : last ∈ elements := List.mem_of_getLast? hlast
        have hnew := ih ⟨hnames last hmem, hmembers last hmem⟩ _ changed hchanged
        refine h.put (.tables ?_ ?_)
        · exact List.forall_mem_append.mpr
            ⟨fun element hmem => hnames element (List.dropLast_subset elements hmem),
              by simpa using hnew.names⟩
        · exact List.forall_mem_append.mpr
            ⟨fun element hmem => hmembers element (List.dropLast_subset elements hmem),
              by simpa using hnew.items⟩

theorem assign (h : members.Unambiguous) (path : List String) (key : String) {d : Datum}
    (hd : d.Unambiguous) (origin : Origin) :
    ∀ next ∈ Members.assign path key d origin members, next.Unambiguous := by
  refine h.within (fun origin members h next hnext => ?_) origin path
  split at hnext
  · cases hnext
  · split at hnext
    · cases hnext
    next hnone =>
      obtain rfl := Option.some.inj hnext
      exact h.add (Option.not_isSome_iff_eq_none.mp hnone) (.value hd)

theorem beginTable (h : members.Unambiguous) (path : List String) (key : String) :
    ∀ next ∈ members.beginTable path key, next.Unambiguous := by
  refine h.within (fun _ members h next hnext => ?_) .header path
  split at hnext
  next hnone =>
    obtain rfl := Option.some.inj hnext
    exact h.add hnone (nil.table _)
  next inner hlookup =>
    obtain rfl := Option.some.inj hnext
    exact h.put ((of_table (h.lookup hlookup)).table _)
  next => cases hnext

theorem beginElement (h : members.Unambiguous) (path : List String) (key : String) :
    ∀ next ∈ members.beginElement path key, next.Unambiguous := by
  refine h.within (fun _ members h next hnext => ?_) .header path
  split at hnext
  next hnone =>
    obtain rfl := Option.some.inj hnext
    exact h.add hnone (.tables (by simp) (by simp))
  next elements hlookup =>
    obtain rfl := Option.some.inj hnext
    cases h.lookup hlookup with
    | tables hnames hmembers =>
      exact h.put (.tables (List.forall_mem_append.mpr ⟨hnames, by simp⟩)
        (List.forall_mem_append.mpr ⟨hmembers, by simp⟩))
  next => cases hnext

end Members.Unambiguous

/-! ## Statements -/

def Statement.Unambiguous : Statement → Prop
  | assign _ d => d.Unambiguous
  | _ => True

theorem Draft.unambiguous_step {draft : Draft} {statement : Statement}
    (h : draft.members.Unambiguous) (hstatement : statement.Unambiguous) :
    ∀ next ∈ draft.step statement, next.members.Unambiguous := by
  intro next hnext
  cases statement with
  | assign path d =>
    obtain ⟨members, hmembers, hdraft⟩ := Option.bind_eq_some_iff.mp hnext
    obtain rfl := Option.some.inj hdraft
    exact h.within (fun origin _ h => h.assign path.before path.last hstatement origin) .header
      draft.current members hmembers
  | table path =>
    obtain ⟨members, hmembers, hdraft⟩ := Option.bind_eq_some_iff.mp hnext
    obtain rfl := Option.some.inj hdraft
    exact h.beginTable path.before path.last members hmembers
  | element path =>
    obtain ⟨members, hmembers, hdraft⟩ := Option.bind_eq_some_iff.mp hnext
    obtain rfl := Option.some.inj hdraft
    exact h.beginElement path.before path.last members hmembers

theorem map_fst_data (members : Members) : (data members).map Prod.fst = members.map Prod.fst := by
  induction members with
  | nil => rfl
  | cons member members ih => rw [data, List.map_cons, List.map_cons, ih]

mutual

theorem Item.Unambiguous.datum : (item : Item) → item.Unambiguous → item.datum.Unambiguous
  | .value _, .value h => h
  | .table _ members, .table _ hnames hmembers =>
    .table (map_fst_data members ▸ hnames) (unambiguous_data members hmembers)
  | .tables elements, .tables hnames hmembers =>
    .list (unambiguous_dataOfElements elements hnames hmembers)

theorem unambiguous_data : (members : List (String × Item)) →
    (∀ member ∈ members, member.2.Unambiguous) →
    ∀ member ∈ data members, member.2.Unambiguous
  | [], _ => nofun
  | (_, item) :: members, h =>
    List.forall_mem_cons.mpr
      ⟨Item.Unambiguous.datum item (List.forall_mem_cons.mp h).1,
        unambiguous_data members (List.forall_mem_cons.mp h).2⟩

theorem unambiguous_dataOfElements : (elements : List (List (String × Item))) →
    (∀ element ∈ elements, (element.map Prod.fst).Nodup) →
    (∀ element ∈ elements, ∀ member ∈ element, member.2.Unambiguous) →
    ∀ d ∈ dataOfElements elements, d.Unambiguous
  | [], _, _ => nofun
  | members :: elements, hnames, hmembers =>
    List.forall_mem_cons.mpr
      ⟨.table (map_fst_data members ▸ (List.forall_mem_cons.mp hnames).1)
          (unambiguous_data members (List.forall_mem_cons.mp hmembers).1),
        unambiguous_dataOfElements elements (List.forall_mem_cons.mp hnames).2
          (List.forall_mem_cons.mp hmembers).2⟩

end

theorem unambiguous_of_ofStatements? {statements : List Statement} {d : Datum}
    (h : ∀ statement ∈ statements, statement.Unambiguous) (hd : ofStatements? statements = some d) :
    ∃ members, d = .table members ∧ d.Unambiguous := by
  have hrun (draft last : Draft) (hdraft : draft.members.Unambiguous)
      (hlast : statements.foldlM Draft.step draft = some last) : last.members.Unambiguous := by
    clear hd
    induction statements generalizing draft with
    | nil => exact Option.some.inj hlast ▸ hdraft
    | cons first later ih =>
      obtain ⟨hfirst, hlater⟩ := List.forall_mem_cons.mp h
      obtain ⟨next, hnext, hrest⟩ := Option.bind_eq_some_iff.mp hlast
      exact ih hlater next (Draft.unambiguous_step hdraft hfirst next hnext) hrest
  obtain ⟨last, hlast, htable⟩ := Option.bind_eq_some_iff.mp hd
  obtain rfl := Option.some.inj htable
  have hmembers := hrun {} last .nil hlast
  exact ⟨_, rfl, .table (map_fst_data _ ▸ hmembers.names) (unambiguous_data _ hmembers.items)⟩

/-! ## The reader -/

theorem Scalar.unambiguous_of_ofWord? {word : List Char} {d : Datum} (h : ofWord? word = some d) :
    d.Unambiguous := by
  unfold ofWord? at h
  split at h
  · exact Option.some.inj h ▸ .bool true
  · split at h
    · exact Option.some.inj h ▸ .bool false
    · split at h
      · exact Option.some.inj h ▸ .other
      · split at h
        · exact Option.some.inj h ▸ .table List.nodup_nil nofun
        · cases h

def Frame.Unambiguous : Frame → Prop
  | assignment _ => True
  | array before => ∀ d ∈ before, d.Unambiguous
  | table before | member before _ => ∀ entry ∈ before, entry.2.Unambiguous

structure Reader.Unambiguous (reader : Reader) : Prop where
  stack : ∀ frame ∈ reader.stack, frame.Unambiguous
  statements : ∀ statement ∈ reader.statements, statement.Unambiguous

namespace Reader.Unambiguous

variable {reader : Reader}

theorem move (h : reader.Unambiguous) (mode : Mode) :
    ∀ next ∈ some { reader with mode := mode }, next.Unambiguous := by
  rintro next ⟨⟩
  exact ⟨h.stack, h.statements⟩

theorem stay (h : reader.Unambiguous) : ∀ next ∈ some reader, next.Unambiguous := by
  rintro next ⟨⟩
  exact h

/-- A header has no data of its own. -/
theorem header (h : reader.Unambiguous) (mode : Mode) (statement : Statement)
    (hstatement : statement.Unambiguous) :
    ∀ next ∈ some ({ reader with mode := mode }.state statement), next.Unambiguous := by
  rintro next ⟨⟩
  exact ⟨h.stack, List.forall_mem_cons.mpr ⟨hstatement, h.statements⟩⟩

theorem push (h : reader.Unambiguous) (frame : Frame) (hframe : frame.Unambiguous) (mode : Mode) :
    ∀ next ∈ reader.push frame mode, next.Unambiguous := by
  intro next hnext
  rw [Option.mem_def, Reader.push] at hnext
  split at hnext
  · obtain rfl := Option.some.inj hnext
    exact ⟨List.forall_mem_cons.mpr ⟨hframe, h.stack⟩, h.statements⟩
  · cases hnext

theorem complete (h : reader.Unambiguous) {d : Datum} (hd : d.Unambiguous) :
    ∀ next ∈ reader.complete d, next.Unambiguous := by
  intro next hnext
  rw [Option.mem_def, Reader.complete] at hnext
  split at hnext
  next hstack =>
    obtain rfl := Option.some.inj hnext
    obtain ⟨-, hrest⟩ := List.forall_mem_cons.mp (hstack ▸ h.stack)
    exact ⟨hrest, List.forall_mem_cons.mpr ⟨hd, h.statements⟩⟩
  next hstack =>
    obtain rfl := Option.some.inj hnext
    obtain ⟨hframe, hrest⟩ := List.forall_mem_cons.mp (hstack ▸ h.stack)
    exact ⟨List.forall_mem_cons.mpr ⟨List.forall_mem_cons.mpr ⟨hd, hframe⟩, hrest⟩, h.statements⟩
  next hstack =>
    obtain rfl := Option.some.inj hnext
    obtain ⟨hframe, hrest⟩ := List.forall_mem_cons.mp (hstack ▸ h.stack)
    exact ⟨List.forall_mem_cons.mpr ⟨List.forall_mem_cons.mpr ⟨hd, hframe⟩, hrest⟩, h.statements⟩
  next => cases hnext

theorem close (h : reader.Unambiguous) : ∀ next ∈ reader.close, next.Unambiguous := by
  intro next hnext
  rw [Option.mem_def, Reader.close] at hnext
  split at hnext
  next before stack hstack =>
    obtain ⟨hframe, hrest⟩ := List.forall_mem_cons.mp (hstack ▸ h.stack)
    have hlist : (Datum.list before.reverse).Unambiguous :=
      .list fun item hitem => hframe item (List.mem_reverse.mp hitem)
    have hopen : Reader.Unambiguous { reader with stack := stack } := ⟨hrest, h.statements⟩
    exact hopen.complete hlist next hnext
  next before stack hstack =>
    obtain ⟨hframe, hrest⟩ := List.forall_mem_cons.mp (hstack ▸ h.stack)
    obtain ⟨d, hd, hcomplete⟩ := Option.bind_eq_some_iff.mp hnext
    have hassigned : ∀ statement ∈ before.reverse.map fun entry => Statement.assign entry.1 entry.2,
        statement.Unambiguous :=
      List.forall_mem_map.mpr fun entry hentry => hframe entry (List.mem_reverse.mp hentry)
    obtain ⟨-, -, htable⟩ := unambiguous_of_ofStatements? hassigned hd
    have hopen : Reader.Unambiguous { reader with stack := stack } := ⟨hrest, h.statements⟩
    exact hopen.complete htable next hcomplete
  next => cases hnext

theorem beginValue (h : reader.Unambiguous) (token : Token) :
    ∀ next ∈ reader.beginValue token, next.Unambiguous := by
  cases token with
  | line text | block text => exact h.complete (.text _)
  | word text => exact h.move (.word text)
  | dot => exact h.move (.word ['.'])
  | openBracket => exact h.push (.array []) nofun .item
  | openBrace => exact h.push (.table []) nofun .memberStart
  | _ => nofun

theorem keyStep (h : reader.Unambiguous) (purpose : Purpose) (before : List String)
    (token : Token) : ∀ next ∈ reader.keyStep purpose before token, next.Unambiguous := by
  cases token with
  | blank _ => exact h.move _
  | line _ => exact h.move _
  | word text =>
    intro next hnext
    rw [Option.mem_def, Reader.keyStep] at hnext
    split at hnext
    · exact h.move _ next hnext
    · cases hnext
  | _ => nofun

theorem keyEndStep (h : reader.Unambiguous) (purpose : Purpose) (parts : List String)
    (token : Token) : ∀ next ∈ reader.keyEndStep purpose parts token, next.Unambiguous := by
  intro next hnext
  rw [Option.mem_def, Reader.keyEndStep.eq_def] at hnext
  split at hnext
  · exact h.stay next hnext
  · exact h.move _ next hnext
  · obtain ⟨path, -, hpath⟩ := Option.bind_eq_some_iff.mp hnext
    obtain rfl := Option.some.inj hpath
    exact ⟨List.forall_mem_singleton.mpr trivial, h.statements⟩
  · obtain ⟨path, -, hpath⟩ := Option.bind_eq_some_iff.mp hnext
    split at hpath
    next before stack hstack =>
      obtain rfl := Option.some.inj hpath
      obtain ⟨hframe, hrest⟩ := List.forall_mem_cons.mp (hstack ▸ h.stack)
      exact ⟨List.forall_mem_cons.mpr ⟨hframe, hrest⟩, h.statements⟩
    next => cases hpath
  · obtain ⟨path, -, hpath⟩ := Option.bind_eq_some_iff.mp hnext
    exact h.header _ (.table path) trivial next hpath
  · obtain ⟨path, -, hpath⟩ := Option.bind_eq_some_iff.mp hnext
    exact h.move _ next hpath
  · cases hnext

/-- Every step moves on, reads a key, begins a value or closes one. -/
theorem plainStep (h : reader.Unambiguous) (token : Token) :
    ∀ next ∈ reader.plainStep token, next.Unambiguous := by
  unfold Reader.plainStep
  split
  all_goals first
    | exact h.stay
    | exact h.move _
    | exact h.header _ _ trivial
    | exact h.keyStep _ _ _
    | exact h.keyEndStep _ _ _
    | exact h.beginValue _
    | exact h.close
    | exact nofun

theorem endWord (h : reader.Unambiguous) : ∀ next ∈ reader.endWord, next.Unambiguous := by
  intro next hnext
  rw [Option.mem_def, Reader.endWord] at hnext
  split at hnext
  · obtain ⟨d, hd, hcomplete⟩ := Option.bind_eq_some_iff.mp hnext
    exact h.complete (Scalar.unambiguous_of_ofWord? hd) next hcomplete
  · obtain ⟨d, hd, hcomplete⟩ := Option.bind_eq_some_iff.mp hnext
    exact h.complete (Scalar.unambiguous_of_ofWord? hd) next hcomplete
  · exact h.stay next hnext

theorem step (h : reader.Unambiguous) (token : Token) :
    ∀ next ∈ reader.step token, next.Unambiguous := by
  intro next hnext
  rw [Option.mem_def, Reader.step.eq_def] at hnext
  split at hnext
  · exact h.move _ next hnext
  · exact h.move _ next hnext
  · split at hnext
    · exact h.move _ next hnext
    · exact h.endWord next hnext
  · exact h.move _ next hnext
  · obtain ⟨ended, hended, hstep⟩ := Option.bind_eq_some_iff.mp hnext
    exact (h.endWord ended hended).plainStep _ next hstep

theorem run (h : reader.Unambiguous) (tokens : List Token) :
    ∀ last ∈ tokens.foldlM Reader.step reader, last.Unambiguous := by
  induction tokens generalizing reader with
  | nil => exact h.stay
  | cons token later ih =>
    intro last hlast
    obtain ⟨next, hnext, hrest⟩ := Option.bind_eq_some_iff.mp hlast
    exact ih (h.step token next hnext) last hrest

theorem finish (h : reader.Unambiguous) :
    ∀ statements ∈ reader.finish, ∀ statement ∈ statements, statement.Unambiguous := by
  intro statements hfinish statement hmem
  obtain ⟨ended, hended, hrest⟩ := Option.bind_eq_some_iff.mp hfinish
  split at hrest
  · obtain rfl := Option.some.inj hrest
    exact (h.endWord ended hended).statements statement (List.mem_reverse.mp hmem)
  · obtain rfl := Option.some.inj hrest
    exact (h.endWord ended hended).statements statement (List.mem_reverse.mp hmem)
  · cases hrest

end Reader.Unambiguous

/-- What is read from a document is a table, and neither in it nor in any table inside it is a name
given twice. -/
theorem unambiguous_of_parse? {s : String} {d : Datum} (h : parse? s = some d) :
    ∃ members, d = .table members ∧ d.Unambiguous := by
  obtain ⟨tokens, -, hrest⟩ := Option.bind_eq_some_iff.mp h
  obtain ⟨statements, hstatements, hd⟩ := Option.bind_eq_some_iff.mp hrest
  obtain ⟨last, hlast, hfinish⟩ := Option.bind_eq_some_iff.mp hstatements
  have hempty : Reader.Unambiguous {} := ⟨nofun, nofun⟩
  exact unambiguous_of_ofStatements? ((hempty.run tokens last hlast).finish statements hfinish) hd

/-! ## Dates and times -/

namespace Scalar

theorem isGrouped_of_ungroup? {cs ds : List Char} (h : ungroup? Char.isDigit cs = some ds) :
    ∀ c ∈ cs, isGrouped c = true := by
  fun_induction ungroup? Char.isDigit cs generalizing ds with
  | case1 => cases h
  | case2 c hdigit => simp [isGrouped, hdigit]
  | case3 => cases h
  | case4 c cs hdigit ih =>
    obtain ⟨rest, hrest, -⟩ := Option.map_eq_some_iff.mp h
    simpa [isGrouped, hdigit] using ih hrest
  | case5 => cases h
  | case6 c cs _ _ hdigit ih =>
    obtain ⟨rest, hrest, -⟩ := Option.map_eq_some_iff.mp h
    simpa [isGrouped, hdigit] using ih hrest
  | case7 => cases h

/-- Two digits or more, and then a mark that no number has behind its digits. -/
def IsMarked (cs : List Char) : Prop :=
  ∃ first second ds mark rest, cs = first :: second :: (ds ++ mark :: rest) ∧
    first.isDigit = true ∧ second.isDigit = true ∧ (∀ d ∈ ds, d.isDigit = true) ∧
    (mark = '-' ∨ mark = ':')

theorem isMarked_of_field? {width low high n : Nat} {cs rest after : List Char} {mark : Char}
    (hfield : field? (width + 2) low high cs = some (n, rest))
    (hmark : mark? mark rest = some after) (h : mark = '-' ∨ mark = ':') : IsMarked cs := by
  rw [field?] at hfield
  split at hfield
  next hbounds =>
    obtain ⟨hlength, hdigits, -⟩ := hbounds
    obtain ⟨-, rfl⟩ := Prod.mk.inj (Option.some.inj hfield)
    have hsplit := List.take_append_drop (width + 2) cs
    cases hrest : cs.drop (width + 2) with
    | nil =>
      rw [hrest] at hmark
      cases hmark
    | cons c rest =>
      rw [hrest, mark?] at hmark
      split at hmark
      next hc =>
        match hds : cs.take (width + 2), hlength with
        | first :: second :: ds, _ =>
          rw [hds] at hdigits hsplit
          simp only [List.all_cons, Bool.and_eq_true, List.all_eq_true] at hdigits
          refine ⟨first, second, ds, c, rest, ?_, hdigits.1, hdigits.2.1, hdigits.2.2, hc ▸ h⟩
          rw [← hsplit, hrest]
          rfl
      next => cases hmark
  next => cases hfield

theorem isMarked_of_date? {cs rest : List Char} (h : date? cs = some rest) : IsMarked cs := by
  obtain ⟨⟨year, behind⟩, hyear, h⟩ := Option.bind_eq_some_iff.mp h
  obtain ⟨after, hmark, -⟩ := Option.bind_eq_some_iff.mp h
  exact isMarked_of_field? hyear hmark (.inl rfl)

theorem isMarked_of_time? {cs rest : List Char} (h : time? cs = some rest) : IsMarked cs := by
  obtain ⟨⟨hour, behind⟩, hhour, h⟩ := Option.bind_eq_some_iff.mp h
  obtain ⟨after, hmark, -⟩ := Option.bind_eq_some_iff.mp h
  exact isMarked_of_field? hhour hmark (.inr rfl)

theorem isMarked_of_isDateTime {cs : List Char} (h : isDateTime cs = true) : IsMarked cs := by
  rw [isDateTime] at h
  split at h
  next hdate => exact isMarked_of_date? hdate
  next hdate => exact isMarked_of_date? hdate
  next =>
    cases htime : time? cs with
    | none =>
      rw [htime] at h
      cases h
    | some rest => exact isMarked_of_time? htime

namespace IsMarked

variable {cs : List Char}

theorem sign_eq (h : IsMarked cs) : sign cs = (false, cs) := by
  obtain ⟨first, second, ds, mark, rest, rfl, hfirst, -⟩ := h
  rw [sign.eq_def]
  split
  next heq =>
    obtain rfl := (List.cons.inj heq).1
    cases hfirst
  next heq =>
    obtain rfl := (List.cons.inj heq).1
    cases hfirst
  next => rfl

theorem whole?_eq_none (h : IsMarked cs) : whole? cs = none := by
  obtain ⟨first, second, ds, mark, rest, rfl, -, -, -, hmark⟩ := h
  have hgroup : ungroup? Char.isDigit (first :: second :: (ds ++ mark :: rest)) = none := by
    refine Option.eq_none_iff_forall_ne_some.mpr fun digits hdigits => ?_
    have hgrouped := isGrouped_of_ungroup? hdigits mark (by simp)
    rcases hmark with rfl | rfl <;> cases hgrouped
  rw [whole?, hgroup]
  rfl

theorem isInteger_eq_false (h : IsMarked cs) : isInteger cs = false := by
  have hsign := h.sign_eq
  have hwhole := h.whole?_eq_none
  obtain ⟨first, second, ds, mark, rest, rfl, -, hsecond, -⟩ := h
  rw [isInteger.eq_def]
  split
  next heq =>
    obtain ⟨rfl, -⟩ := List.cons.inj (List.cons.inj heq).2
    cases hsecond
  next heq =>
    obtain ⟨rfl, -⟩ := List.cons.inj (List.cons.inj heq).2
    cases hsecond
  next heq =>
    obtain ⟨rfl, -⟩ := List.cons.inj (List.cons.inj heq).2
    cases hsecond
  next => simp only [hsign, hwhole, Option.any_none]

theorem isFloat_eq_false (h : IsMarked cs) : isFloat cs = false := by
  have hsign := h.sign_eq
  obtain ⟨first, second, ds, mark, rest, rfl, hfirst, hsecond, hds, hmark⟩ := h
  have hgrouped : ∀ d ∈ first :: second :: ds, isGrouped d = true := by
    simp only [List.forall_mem_cons, isGrouped, hfirst, hsecond, Bool.true_or, true_and]
    exact fun d hd => by rw [hds d hd, Bool.true_or]
  have hdrop : (first :: second :: (ds ++ mark :: rest)).dropWhile isGrouped = mark :: rest := by
    refine (List.dropWhile_append_of_pos hgrouped).trans (List.dropWhile_cons_of_neg ?_)
    rcases hmark with rfl | rfl <;> decide
  have hnumeral : numeral? (first :: second :: (ds ++ mark :: rest)) = none := by
    rw [numeral?, hdrop]
    refine Option.bind_eq_none_iff.mpr fun whole _ => ?_
    rcases hmark with rfl | rfl <;> rfl
  have hname : first ≠ 'i' ∧ first ≠ 'n' := by
    constructor <;> rintro rfl <;> cases hfirst
  simp [isFloat, hsign, hnumeral, hname]

end IsMarked

theorem ofWord?_of_isDateTime {cs : List Char} (h : isDateTime cs = true) :
    ofWord? cs = some (.table []) := by
  have hmarked := isMarked_of_isDateTime h
  have hinteger := hmarked.isInteger_eq_false
  have hfloat := hmarked.isFloat_eq_false
  obtain ⟨first, second, ds, mark, rest, rfl, hfirst, -⟩ := hmarked
  have hletter : first ≠ 't' ∧ first ≠ 'f' := by
    constructor <;> rintro rfl <;> cases hfirst
  simp [ofWord?, hletter, hinteger, hfloat, h]

end Scalar

end Toml

end CallCoordination
