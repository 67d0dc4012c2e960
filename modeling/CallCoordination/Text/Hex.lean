/-!
# Hexadecimal digits

Lower-case digits are written; both cases are read. `value_digit` says that what is written reads
back as the nibble it came from.
-/

namespace CallCoordination.Text.Hex

def digit (n : Fin 16) : Char :=
  if n.val < 10 then Char.ofNat (48 + n.val) else Char.ofNat (87 + n.val)

/-- The number that a digit of either case stands for. -/
def value (c : Char) : Option Nat :=
  if '0' ≤ c ∧ c ≤ '9' then some (c.toNat - 48)
  else if 'a' ≤ c ∧ c ≤ 'f' then some (c.toNat - 87)
  else if 'A' ≤ c ∧ c ≤ 'F' then some (c.toNat - 55)
  else none

theorem value_digit (n : Fin 16) : value (digit n) = some n.val := by
  revert n
  decide

/-- The `width` lowest digits of `n`, the highest first. -/
def fixed : (width : Nat) → (n : Nat) → List Char
  | 0, _ => []
  | width + 1, n => fixed width (n / 16) ++ [digit ⟨n % 16, Nat.mod_lt n (by decide)⟩]

@[simp] theorem length_fixed (width n : Nat) : (fixed width n).length = width := by
  induction width generalizing n with
  | zero => rfl
  | succ width ih => simp [fixed, ih]

theorem isSome_value_of_mem_fixed {width n : Nat} {c : Char} (h : c ∈ fixed width n) :
    (value c).isSome = true := by
  induction width generalizing n with
  | zero => exact absurd h List.not_mem_nil
  | succ width ih =>
    rcases List.mem_append.mp h with h | h
    · exact ih h
    · rw [List.mem_singleton.mp h, value_digit]
      rfl

/-- The number that a row of digits stands for, or nothing if one of them is no digit. -/
def number (ds : List Char) : Option Nat :=
  ds.foldl (fun acc c => acc.bind fun n => (value c).map (16 * n + ·)) (some 0)

theorem number_append_singleton (ds : List Char) (c : Char) :
    number (ds ++ [c]) = (number ds).bind fun n => (value c).map (16 * n + ·) := by
  simp [number]

theorem number_fixed (width n : Nat) (h : n < Nat.pow 16 width) :
    number (fixed width n) = some n := by
  induction width generalizing n with
  | zero =>
    have hn : n = 0 := Nat.lt_one_iff.mp h
    subst hn
    rfl
  | succ width ih =>
    have hdiv : n / 16 < Nat.pow 16 width :=
      Nat.div_lt_of_lt_mul (Nat.mul_comm _ 16 ▸ h)
    rw [fixed, number_append_singleton, ih _ hdiv, value_digit]
    simp only [Option.bind_some, Option.map_some]
    exact congrArg some (Nat.div_add_mod n 16)

end CallCoordination.Text.Hex
