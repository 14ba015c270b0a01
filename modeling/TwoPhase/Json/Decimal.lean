/-
# Decimals

A number in a JSON text that is no integer is read as a `Decimal`: a
significand below `2 ^ 64` and a power of ten. Digits are taken into the
significand from the left as long as they fit. Of those that do not fit, each
one before the point still counts as a place; those after it are dropped.

The value is worked out in doubles: the significand and the power of ten are
each rounded to the nearest double, and then their product is. Only the last
step can leave the range of doubles, and only if the power is not negative; a
power beyond `10 ^ 308` is no double itself.

Key definitions: `Decimal`, `Decimal.ofDigits`, `Decimal.isFinite`, `nearestDouble`.
Key theorems: `nearestDouble_le`, `le_nearestDouble`, `nearestDouble_eq_self`,
`Decimal.significand_ofDigits_lt`.
-/
namespace TwoPhase

/-- The natural number of at most 53 significant bits that is nearest to `n`;
of two that are equally near, the one that is an even multiple of the last
bit's value. -/
def nearestDouble (n : Nat) : Nat :=
  let unit := 1 <<< (n.log2 + 1 - 53)
  if 2 * (n % unit) < unit || (2 * (n % unit) == unit && n / unit % 2 == 0) then unit * (n / unit)
  else unit * (n / unit + 1)

/-- Rounding up adds at most half of the last bit's value. -/
theorem nearestDouble_le (n : Nat) : 2 * nearestDouble n ≤ 2 * n + 1 <<< (n.log2 + 1 - 53) := by
  unfold nearestDouble
  have hn := Nat.div_add_mod n (1 <<< (n.log2 + 1 - 53))
  generalize 1 <<< (n.log2 + 1 - 53) = unit at hn ⊢
  simp only [Nat.mul_add, Nat.mul_one]
  split
  · omega
  · rename_i h
    simp only [Bool.or_eq_true, decide_eq_true_eq, not_or] at h
    omega

/-- Rounding down takes at most half of the last bit's value away. -/
theorem le_nearestDouble (n : Nat) : 2 * n ≤ 2 * nearestDouble n + 1 <<< (n.log2 + 1 - 53) := by
  unfold nearestDouble
  have hn := Nat.div_add_mod n (1 <<< (n.log2 + 1 - 53))
  have hpos : 0 < 1 <<< (n.log2 + 1 - 53) := by
    rw [Nat.one_shiftLeft]
    exact Nat.two_pow_pos _
  have hlt := Nat.mod_lt n hpos
  generalize 1 <<< (n.log2 + 1 - 53) = unit at hn hlt ⊢
  simp only [Nat.mul_add, Nat.mul_one]
  split
  · rename_i h
    simp only [Bool.or_eq_true, Bool.and_eq_true, decide_eq_true_eq, beq_iff_eq] at h
    omega
  · omega

/-- A number of at most 53 bits is a double as it is. -/
theorem nearestDouble_eq_self {n : Nat} (h : n < 1 <<< 53) : nearestDouble n = n := by
  rw [Nat.one_shiftLeft] at h
  have hlog : n.log2 + 1 - 53 = 0 := by
    by_cases h0 : n = 0
    · subst h0
      rfl
    · have := (Nat.log2_lt h0).2 h
      omega
  unfold nearestDouble
  simp [hlog, Nat.mod_one]

/-- A product this large or larger is further from the largest double than
from infinity. -/
def doubleLimit : Nat := 1 <<< 1024 - 1 <<< 970

/-- The number `significand * 10 ^ exponent`, without its sign. -/
structure Decimal where
  significand : Nat
  exponent : Int
deriving DecidableEq, Repr, Inhabited

namespace Decimal

/-- The value of a decimal digit. -/
def digit (c : Char) : Nat := c.toNat - 48

/-- Write digits after a number as long as it stays below `2 ^ 64`; gives the
number, and how many digits did not fit. -/
def append : Nat → List Char → Nat × Nat
  | n, [] => (n, 0)
  | n, d :: ds => if 10 * n + digit d < 1 <<< 64 then append (10 * n + digit d) ds else (n, ds.length + 1)

/-- The decimal with these digits before and after its point, times a power of ten. -/
def ofDigits (whole places : List Char) (power : Int) : Decimal :=
  let (n, spare) := append 0 whole
  let (n, dropped) := append n places
  ⟨n, power + spare - ((places.length : Int) - dropped)⟩

/-- The value, worked out in doubles, is finite. -/
def isFinite (d : Decimal) : Bool :=
  d.significand == 0 || d.exponent < 0 ||
    (d.exponent ≤ 308 && nearestDouble d.significand * nearestDouble (Nat.pow 10 d.exponent.toNat) < doubleLimit)

theorem append_lt : ∀ {n : Nat} (ds : List Char), n < 1 <<< 64 → (append n ds).1 < 1 <<< 64
  | _, [], h => h
  | n, d :: ds, h => by
    unfold append
    split
    · rename_i hd
      exact append_lt ds hd
    · exact h

theorem significand_ofDigits_lt (whole places : List Char) (power : Int) :
    (ofDigits whole places power).significand < 1 <<< 64 :=
  append_lt places (append_lt whole (by decide))

end Decimal

end TwoPhase
