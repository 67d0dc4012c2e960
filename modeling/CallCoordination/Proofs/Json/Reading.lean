import CallCoordination.Json.Tree
import Mathlib.Data.List.Chain

/-!
# Reading what was written

A tree is written as its tokens, and the tokens as their texts, with nothing in between. The builder
puts any tree together again from its tokens. The scanner finds the tokens again because each of
them shows where it ends: a string by its quote, a mark by itself, and a word by what follows it,
which is never another word in what a tree is written as.
-/

namespace CallCoordination.Json

/-! ## Building -/

namespace Tree

open Builder

mutual

theorem run_tokens (closable : Bool) (stack : List Frame) (rest : List Token) : (tree : Tree) →
    run ⟨.value closable, stack⟩ (tree.tokens ++ rest) = run ⟨.after tree, stack⟩ rest
  | literal l => by cases closable <;> rfl
  | number text => by cases closable <;> rfl
  | string body => by cases closable <;> rfl
  | array items => by
    have hitems := run_tokensOfItems stack rest items
    cases closable <;> exact hitems
  | object members => by
    have hmembers := run_tokensOfMembers stack rest members
    cases closable <;> exact hmembers

theorem run_tokensOfItems (stack : List Frame) (rest : List Token) : (items : List Tree) →
    run ⟨.value true, .items [] :: stack⟩ (tokensOfItems items ++ rest) =
      run ⟨.after (.array items), stack⟩ rest
  | [] => rfl
  | item :: items => by
    rw [tokensOfItems, List.append_assoc, run_tokens true _ _ item]
    exact run_tokensOfMoreItems item [] stack rest items

theorem run_tokensOfMoreItems (last : Tree) (before : List Tree) (stack : List Frame)
    (rest : List Token) : (items : List Tree) →
    run ⟨.after last, .items before :: stack⟩ (tokensOfMoreItems items ++ rest) =
      run ⟨.after (.array (before.reverse ++ last :: items)), stack⟩ rest
  | [] => by
    rw [← List.reverse_cons]
    rfl
  | item :: items => by
    have hitem : run ⟨.after last, .items before :: stack⟩
        (tokensOfMoreItems (item :: items) ++ rest) =
        run ⟨.value false, .items (last :: before) :: stack⟩
          (item.tokens ++ (tokensOfMoreItems items ++ rest)) := by
      rw [← List.append_assoc]
      rfl
    rw [hitem, run_tokens false _ _ item, run_tokensOfMoreItems item (last :: before),
      List.reverse_cons, List.append_assoc]
    rfl

theorem run_tokensOfMembers (stack : List Frame) (rest : List Token) :
    (members : List (List Char × Tree)) →
    run ⟨.key true, .members [] :: stack⟩ (tokensOfMembers members ++ rest) =
      run ⟨.after (.object members), stack⟩ rest
  | [] => rfl
  | (key, value) :: members => by
    have hvalue : run ⟨.key true, .members [] :: stack⟩
        (tokensOfMembers ((key, value) :: members) ++ rest) =
        run ⟨.value false, .member [] key :: stack⟩
          (value.tokens ++ (tokensOfMoreMembers members ++ rest)) := by
      rw [← List.append_assoc]
      rfl
    rw [hvalue, run_tokens false _ _ value]
    exact run_tokensOfMoreMembers key value [] stack rest members

theorem run_tokensOfMoreMembers (key : List Char) (last : Tree)
    (before : List (List Char × Tree)) (stack : List Frame) (rest : List Token) :
    (members : List (List Char × Tree)) →
    run ⟨.after last, .member before key :: stack⟩ (tokensOfMoreMembers members ++ rest) =
      run ⟨.after (.object (before.reverse ++ (key, last) :: members)), stack⟩ rest
  | [] => by
    rw [← List.reverse_cons]
    rfl
  | (other, value) :: members => by
    have hvalue : run ⟨.after last, .member before key :: stack⟩
        (tokensOfMoreMembers ((other, value) :: members) ++ rest) =
        run ⟨.value false, .member ((key, last) :: before) other :: stack⟩
          (value.tokens ++ (tokensOfMoreMembers members ++ rest)) := by
      rw [← List.append_assoc]
      rfl
    rw [hvalue, run_tokens false _ _ value, run_tokensOfMoreMembers other value, List.reverse_cons,
      List.append_assoc]
    rfl

end

theorem ofTokens?_tokens (tree : Tree) : ofTokens? tree.tokens = some tree := by
  have hrun := run_tokens false [] [] tree
  rw [List.append_nil] at hrun
  exact hrun

end Tree

/-! ## Scanning -/

namespace Scanner

/-- On its way over `cs` the scanner puts out `tokens`. -/
def Emits (s : Scanner) (cs : List Char) (tokens : List Token) (t : Scanner) : Prop :=
  ∀ rest, s.run (cs ++ rest) = (t.run rest).map (tokens ++ ·)

variable {s t u : Scanner}

theorem Emits.nothing (s : Scanner) : s.Emits [] [] s := by
  intro rest
  simp

theorem Emits.step {c : Char} {tokens : List Token} (h : s.step c = some (t, tokens)) :
    s.Emits [c] tokens t := by
  intro rest
  simp only [List.cons_append, List.nil_append, run, h]
  exact Option.map_eq_bind.symm

theorem Emits.trans {cs ds : List Char} {tokens later : List Token} (h : s.Emits cs tokens t)
    (h' : t.Emits ds later u) : s.Emits (cs ++ ds) (tokens ++ later) u := by
  intro rest
  rw [List.append_assoc, h, h', Option.map_map]
  congr 1
  funext last
  exact (List.append_assoc ..).symm

theorem Emits.cons {c : Char} {cs : List Char} {tokens : List Token}
    (h : s.step c = some (t, [])) (h' : t.Emits cs tokens u) : s.Emits (c :: cs) tokens u :=
  (Emits.step h).trans h'

/-! ### Strings -/

theorem step_string {escape next : Escape} {c : Char} (hopen : ¬ (escape = .none ∧ c = '\x22'))
    (h : escapeStep escape c = some next) (before : List Char) :
    (string before escape).step c = some (string (c :: before) next, []) := by
  rw [step, if_neg hopen, h, Option.map_some]

theorem emits_digits {ds : List Char} {left : Nat} (hlength : ds.length = left + 1)
    (hdigits : ∀ d ∈ ds, (Text.Hex.value d).isSome = true) (before : List Char) :
    (string before (.digits left)).Emits ds [] (string (ds.reverse ++ before) .none) := by
  induction ds generalizing left before with
  | nil => cases hlength
  | cons d ds ih =>
    obtain ⟨hfirst, hrest⟩ := List.forall_mem_cons.mp hdigits
    rw [List.reverse_cons, List.append_assoc]
    cases left with
    | zero =>
      obtain rfl := List.length_eq_zero_iff.mp (Nat.succ.inj hlength)
      exact Emits.step (step_string (by simp) (by simp [escapeStep, hfirst]) before)
    | succ left =>
      refine Emits.cons (step_string (by simp) ?_ before)
        (ih (Nat.succ.inj hlength) hrest (d :: before))
      simp [escapeStep, hfirst]

/-- Inside a string, a written character leaves the scanner where a character may follow. -/
theorem emits_encodeChar (c : Char) (before : List Char) :
    (string before .none).Emits (Quoted.encodeChar c) []
      (string ((Quoted.encodeChar c).reverse ++ before) .none) := by
  have hbackslash : (string before .none).step '\x5c' =
      some (string ('\x5c' :: before) .backslash, []) :=
    step_string (by decide) (by rfl) before
  unfold Quoted.encodeChar
  split
  next letter h =>
    have hall : ∀ p ∈ Quoted.letters, escapeStep .backslash p.1 = some .none := by decide
    obtain ⟨p, hp, rfl⟩ := Option.map_eq_some_iff.mp h
    exact Emits.cons hbackslash
      (Emits.step (step_string (by simp) (hall p (List.mem_of_find?_eq_some hp)) _))
  next h =>
    split
    next hcontrol =>
      have hlength : (Text.Hex.fixed 4 c.toNat).length = 3 + 1 := Text.Hex.length_fixed 4 c.toNat
      have hdigits := emits_digits hlength (fun d hd => Text.Hex.isSome_value_of_mem_fixed hd)
        ('u' :: '\x5c' :: before)
      rw [List.reverse_cons, List.reverse_cons, List.append_assoc, List.append_assoc]
      exact Emits.cons hbackslash (Emits.cons (step_string (by simp) (by rfl) _) hdigits)
    next hplain =>
      have hquote : c ≠ '\x22' := by
        rintro rfl
        exact absurd h (by decide)
      refine Emits.step (step_string (fun hends => hquote hends.2) ?_ before)
      simp [escapeStep, Quoted.ne_backslash_of_letterOf h, hplain]

theorem emits_encode (cs before : List Char) :
    (string before .none).Emits (Quoted.encode cs) []
      (string ((Quoted.encode cs).reverse ++ before) .none) := by
  induction cs generalizing before with
  | nil => exact .nothing _
  | cons c cs ih =>
    rw [Quoted.encode_cons, List.reverse_append, List.append_assoc]
    exact (emits_encodeChar c before).trans (ih _)

theorem emits_string (cs : List Char) :
    between.Emits (Token.string (Quoted.encode cs)).text [.string (Quoted.encode cs)] between := by
  have hopen : between.step '\x22' = some (string [] .none, []) := by rfl
  have hclose : (string ((Quoted.encode cs).reverse ++ []) .none).step '\x22' =
      some (between, [.string (Quoted.encode cs)]) := by
    simp [step]
  exact Emits.cons hopen ((emits_encode cs []).trans (Emits.step hclose))

/-! ### Words -/

theorem emits_word {cs : List Char} (hword : cs.all Token.isWordChar = true)
    (before : List Char) : (word before).Emits cs [] (word (cs.reverse ++ before)) := by
  induction cs generalizing before with
  | nil => exact .nothing _
  | cons c cs ih =>
    obtain ⟨hfirst, hrest⟩ := Bool.and_eq_true_iff.mp hword
    rw [List.reverse_cons, List.append_assoc]
    exact Emits.cons (by rw [step, if_pos hfirst]) (ih hrest (c :: before))

theorem emits_literal (l : Literal) : between.Emits l.name [] (word l.name.reverse) := by
  cases l with
  | null => exact Emits.cons (by rfl) (emits_word (by rfl) ['n'])
  | true => exact Emits.cons (by rfl) (emits_word (by rfl) ['t'])
  | false => exact Emits.cons (by rfl) (emits_word (by rfl) ['f'])

/-- A word ends where the text ends or goes on with something that belongs to no word. -/
theorem run_word {before rest : List Char} {token : Token}
    (htoken : Token.ofWord? before.reverse = some token)
    (hends : ∀ c ∈ rest.head?, Token.isWordChar c = false) :
    (word before).run rest = (between.run rest).map (token :: ·) := by
  cases rest with
  | nil => simp [run, finish, htoken]
  | cons c rest =>
    have hother : ¬ Token.isWordChar c = true := by simp [hends c (by simp)]
    simp only [run, step, if_neg hother, htoken]
    cases start c with
    | none => rfl
    | some next => cases h : next.1.run rest <;> simp [h]

end Scanner

/-! ## Whole texts -/

namespace Token

/-- Whether only what follows shows where a token ends. -/
def isWord : Token → Bool
  | literal _ | number _ => true
  | _ => false

/-- The tokens that are written. Strings are encoded, and there are no numbers. -/
def IsWritten : Token → Prop
  | number _ => False
  | string body => ∃ cs, body = Quoted.encode cs
  | _ => True

theorem head?_text {token : Token} (h : token.isWord = false) :
    ∃ c, token.text.head? = some c ∧ isWordChar c = false := by
  cases token with
  | literal _ | number _ => cases h
  | string _ => exact ⟨'\x22', rfl, by decide⟩
  | openArray => exact ⟨'[', rfl, by decide⟩
  | closeArray => exact ⟨']', rfl, by decide⟩
  | openObject => exact ⟨'\x7b', rfl, by decide⟩
  | closeObject => exact ⟨'\x7d', rfl, by decide⟩
  | comma => exact ⟨',', rfl, by decide⟩
  | colon => exact ⟨':', rfl, by decide⟩

theorem head?_flatMap_text {tokens : List Token}
    (h : ∀ token ∈ tokens.head?, token.isWord = false) :
    ∀ c ∈ (tokens.flatMap text).head?, isWordChar c = false := by
  cases tokens with
  | nil => simp
  | cons token later =>
    obtain ⟨first, hfirst, hother⟩ := head?_text (h token rfl)
    intro c hc
    rw [List.flatMap_cons, List.head?_append, hfirst] at hc
    exact Option.some.inj hc ▸ hother

end Token

namespace Scanner

theorem emits_written {token : Token} (hwritten : token.IsWritten) (hword : token.isWord = false) :
    between.Emits token.text [token] between := by
  cases token with
  | literal _ | number _ => cases hword
  | string body =>
    obtain ⟨cs, rfl⟩ := hwritten
    exact emits_string cs
  | openArray | closeArray | openObject | closeObject | comma | colon => exact Emits.step rfl

theorem run_flatMap_text {tokens : List Token} (hwritten : ∀ token ∈ tokens, token.IsWritten)
    (hapart : tokens.IsChain fun token next => token.isWord = true → next.isWord = false) :
    between.run (tokens.flatMap Token.text) = some tokens := by
  induction tokens with
  | nil => rfl
  | cons token later ih =>
    obtain ⟨hfirst, hrest⟩ := List.forall_mem_cons.mp hwritten
    obtain ⟨hnext, hchain⟩ := List.isChain_cons.mp hapart
    have hlater := ih hrest hchain
    rw [List.flatMap_cons]
    cases hword : token.isWord with
    | false =>
      rw [emits_written hfirst hword, hlater]
      rfl
    | true =>
      cases token with
      | literal l =>
        have hends : ∀ c ∈ (later.flatMap Token.text).head?, Token.isWordChar c = false :=
          Token.head?_flatMap_text fun next hmem => hnext next hmem rfl
        have htoken : Token.ofWord? l.name.reverse.reverse = some (.literal l) := by
          cases l <;> decide
        rw [Token.text, emits_literal l, run_word htoken hends, hlater]
        rfl
      | number _ => exact absurd hfirst id
      | _ => cases hword

end Scanner

namespace Tree

/-- A value is not followed by another one at once. -/
theorem isWord_of_step_after {tree : Tree} {stack : List Frame} {token : Token} {next : Builder}
    (h : Builder.step ⟨.after tree, stack⟩ token = some next) : token.isWord = false := by
  cases token with
  | literal _ | number _ => simp [Builder.step] at h
  | _ => rfl

theorem exists_after_of_step {builder next : Builder} {token : Token}
    (h : builder.step token = some next) (hword : token.isWord = true) :
    ∃ tree stack, next = ⟨.after tree, stack⟩ := by
  obtain ⟨mode, stack⟩ := builder
  cases token with
  | literal _ | number _ =>
    cases mode with
    | value closable =>
      cases closable with
      | false | true => exact ⟨_, _, (Option.some.inj h).symm⟩
    | key closable => cases closable <;> cases h
    | colon | after _ => simp [Builder.step] at h
  | _ => cases hword

theorem isChain_of_run {builder : Builder} {tokens : List Token} {tree : Tree}
    (h : builder.run tokens = some tree) :
    tokens.IsChain fun token next => token.isWord = true → next.isWord = false := by
  induction tokens generalizing builder with
  | nil => exact .nil
  | cons token later ih =>
    obtain ⟨next, hstep, hrun⟩ := Option.bind_eq_some_iff.mp h
    refine List.isChain_cons.mpr ⟨fun other hother hword => ?_, ih hrun⟩
    obtain ⟨value, stack, rfl⟩ := exists_after_of_step hstep hword
    cases later with
    | nil => cases hother
    | cons following later =>
      obtain rfl := Option.some.inj hother
      obtain ⟨_, hfollowing, -⟩ := Option.bind_eq_some_iff.mp hrun
      exact isWord_of_step_after hfollowing

theorem parse?_render {tree : Tree} (hwritten : ∀ token ∈ tree.tokens, token.IsWritten) :
    parse? tree.render = some tree := by
  have hscan : Token.scan? tree.render.toList = some tree.tokens := by
    rw [render, String.toList_ofList]
    exact Scanner.run_flatMap_text hwritten (isChain_of_run tree.ofTokens?_tokens)
  rw [parse?, hscan, Option.bind_some, ofTokens?_tokens]

end Tree

end CallCoordination.Json
