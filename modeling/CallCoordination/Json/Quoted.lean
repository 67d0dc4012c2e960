import CallCoordination.Text.Hex

/-!
# Quoted text

What stands between the quotes of a JSON string. `encode` escapes the quote, the backslash and the
control characters and leaves everything else as it is; `decode` reads every escape of JSON, where
two escaped surrogates make one character. `decode_encode` says that what is written reads back.
-/

namespace CallCoordination.Json.Quoted

/-- Characters with an escape of one letter. The solidus needs none, so it is read only. -/
def letters : List (Char × Char) :=
  [('\x22', '\x22'), ('\x5c', '\x5c'), ('b', '\x08'), ('f', '\x0c'), ('n', '\n'), ('r', '\r'),
    ('t', '\t')]

def letterOf (c : Char) : Option Char :=
  (letters.find? (·.2 = c)).map (·.1)

def ofLetter (letter : Char) : Option Char :=
  if letter = '/' then some '/' else letters.lookup letter

/-! ## Writing -/

def encodeChar (c : Char) : List Char :=
  match letterOf c with
  | some letter => ['\x5c', letter]
  | none => if c.toNat < 32 then '\x5c' :: 'u' :: Text.Hex.fixed 4 c.toNat else [c]

def encode (cs : List Char) : List Char := cs.flatMap encodeChar

@[simp] theorem encode_nil : encode [] = [] := rfl

@[simp] theorem encode_cons (c : Char) (cs : List Char) :
    encode (c :: cs) = encodeChar c ++ encode cs := rfl

/-! ## Reading -/

/-- Either a character, or the number of an escaped unit, which may be half a character. -/
inductive Piece where
  | char (c : Char)
  | unit (n : Nat)
  deriving DecidableEq

def pieces : List Char → Option (List Piece)
  | [] => some []
  | '\x5c' :: 'u' :: d₁ :: d₂ :: d₃ :: d₄ :: rest => do
    let n ← Text.Hex.number [d₁, d₂, d₃, d₄]
    let ps ← pieces rest
    some (.unit n :: ps)
  | '\x5c' :: letter :: rest => do
    let c ← ofLetter letter
    let ps ← pieces rest
    some (.char c :: ps)
  | c :: rest => if c = '\x5c' then none else (pieces rest).map (.char c :: ·)

def isHigh (n : Nat) : Bool := 0xd800 ≤ n && n < 0xdc00

def isLow (n : Nat) : Bool := 0xdc00 ≤ n && n < 0xe000

/-- Join each high surrogate with the low one that has to follow. -/
def join : List Piece → Option (List Char)
  | [] => some []
  | .char c :: rest => (join rest).map (c :: ·)
  | .unit high :: .unit low :: rest =>
    if isHigh high then
      if isLow low then
        (join rest).map (Char.ofNat (0x10000 + (high - 0xd800) * 0x400 + (low - 0xdc00)) :: ·)
      else none
    else if isLow high then none
    else (join (.unit low :: rest)).map (Char.ofNat high :: ·)
  | .unit n :: rest =>
    if isHigh n || isLow n then none else (join rest).map (Char.ofNat n :: ·)

def decode (cs : List Char) : Option (List Char) := (pieces cs).bind join

/-! ## What is written reads back -/

def pieceOf (c : Char) : Piece :=
  if (letterOf c).isNone ∧ c.toNat < 32 then .unit c.toNat else .char c

theorem ofLetter_of_letterOf {c letter : Char} (h : letterOf c = some letter) :
    ofLetter letter = some c ∧ letter ≠ 'u' := by
  have hall : ∀ p ∈ letters, ofLetter p.1 = some p.2 ∧ p.1 ≠ 'u' := by decide
  simp only [letterOf, Option.map_eq_some_iff] at h
  obtain ⟨p, hp, rfl⟩ := h
  have hc : p.2 = c := by simpa using List.find?_some hp
  exact hc ▸ hall p (List.mem_of_find?_eq_some hp)

theorem ne_backslash_of_letterOf {c : Char} (h : letterOf c = none) : c ≠ '\x5c' := by
  rintro rfl
  exact absurd h (by decide)

theorem pieces_letter {letter : Char} (h : letter ≠ 'u') (rest : List Char) :
    pieces ('\x5c' :: letter :: rest) =
      (ofLetter letter).bind fun c => (pieces rest).bind fun ps => some (.char c :: ps) := by
  rw [pieces]
  · rfl
  · rintro d₁ d₂ d₃ d₄ rest' rfl
    exact absurd rfl h

theorem pieces_plain {c : Char} (h : c ≠ '\x5c') (rest : List Char) :
    pieces (c :: rest) = (pieces rest).map (.char c :: ·) := by
  rw [pieces]
  · simp [h]
  · rintro d₁ d₂ d₃ d₄ rest' rfl
    exact absurd rfl h
  · rintro letter rest' rfl
    exact absurd rfl h

theorem pieces_encodeChar (c : Char) (rest : List Char) :
    pieces (encodeChar c ++ rest) = (pieces rest).map (pieceOf c :: ·) := by
  unfold encodeChar
  split
  · next letter h =>
    obtain ⟨hc, hu⟩ := ofLetter_of_letterOf h
    have hp : pieceOf c = .char c := by simp [pieceOf, h]
    simp only [List.cons_append, List.nil_append, pieces_letter hu, hc, hp]
    cases pieces rest <;> rfl
  · next h =>
    split
    · next hlt =>
      have hp : pieceOf c = .unit c.toNat := by simp [pieceOf, h, hlt]
      have hlen := Text.Hex.length_fixed 4 c.toNat
      have hnum := Text.Hex.number_fixed 4 c.toNat (Nat.lt_trans hlt (by decide))
      generalize Text.Hex.fixed 4 c.toNat = ds at hlen hnum
      match ds, hlen with
      | [d₁, d₂, d₃, d₄], _ =>
        simp only [List.cons_append, List.nil_append, pieces, hnum, hp]
        cases pieces rest <;> rfl
    · next hge =>
      have hp : pieceOf c = .char c := by simp [pieceOf, hge]
      rw [hp]
      exact pieces_plain (ne_backslash_of_letterOf h) rest

theorem join_pieceOf (c : Char) (ps : List Piece) :
    join (pieceOf c :: ps) = (join ps).map (c :: ·) := by
  unfold pieceOf
  split
  · next h =>
    have hhigh : isHigh c.toNat = false := by simp [isHigh]; omega
    have hlow : isLow c.toNat = false := by simp [isLow]; omega
    have hc : Char.ofNat c.toNat = c := Char.ofNat_toNat c
    match ps with
    | [] => simp [join, hhigh, hlow, hc]
    | .char _ :: _ => simp [join, hhigh, hlow, hc]
    | .unit _ :: _ => simp [join, hhigh, hlow, hc]
  · simp [join]

theorem decode_encode (cs : List Char) : decode (encode cs) = some cs := by
  have hpieces : pieces (encode cs) = some (cs.map pieceOf) := by
    induction cs with
    | nil => rfl
    | cons c cs ih => simp [pieces_encodeChar, ih]
  have hjoin : join (cs.map pieceOf) = some cs := by
    induction cs with
    | nil => rfl
    | cons c cs ih =>
      simp only [encode_cons, pieces_encodeChar, Option.map_eq_some_iff, List.map_cons,
        List.cons.injEq] at hpieces
      obtain ⟨_, hp, _, rfl⟩ := hpieces
      simp [join_pieceOf, ih hp]
  simp [decode, hpieces, hjoin]

end CallCoordination.Json.Quoted
