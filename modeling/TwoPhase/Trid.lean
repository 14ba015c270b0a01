/-
# Transaction ids

A transaction id `Trid` names one branch of a distributed transaction: a
format, the bytes of the global transaction and the bytes of the branch.
Branches of one transaction share its global id `Gtrid`. Byte strings are
ordered like words in a dictionary, ids by format, then global id, then
branch.

Key definitions: `Gtrid`, `Trid`, `Trid.lt`, `hexText`.
-/
import TwoPhase.Ids

namespace TwoPhase

abbrev Bytes := List UInt8

/-- Dictionary order of byte strings. -/
def Bytes.lt : Bytes → Bytes → Bool
  | _, [] => false
  | [], _ :: _ => true
  | a :: as, b :: bs => a < b || (a == b && Bytes.lt as bs)

namespace Bytes

theorem lt_irrefl : ∀ a : Bytes, Bytes.lt a a = false
  | [] => rfl
  | a :: as => by simp [Bytes.lt, lt_irrefl as]

theorem lt_trans : ∀ {a b c : Bytes}, Bytes.lt a b = true → Bytes.lt b c = true → Bytes.lt a c = true
  | _, _, [], _, h => by simp [Bytes.lt] at h
  | _, [], _ :: _, h, _ => by simp [Bytes.lt] at h
  | [], _ :: _, _ :: _, _, _ => rfl
  | a :: as, b :: bs, c :: cs, h₁, h₂ => by
    simp only [Bytes.lt, Bool.or_eq_true, decide_eq_true_eq, Bool.and_eq_true, beq_iff_eq] at h₁ h₂ ⊢
    rcases h₁ with h₁ | ⟨rfl, h₁⟩ <;> rcases h₂ with h₂ | ⟨rfl, h₂⟩
    · exact .inl (UInt8.lt_trans h₁ h₂)
    · exact .inl h₁
    · exact .inl h₂
    · exact .inr ⟨rfl, lt_trans h₁ h₂⟩

theorem lt_or_eq_or_lt : ∀ a b : Bytes, Bytes.lt a b = true ∨ a = b ∨ Bytes.lt b a = true
  | [], [] => .inr (.inl rfl)
  | [], _ :: _ => .inl rfl
  | _ :: _, [] => .inr (.inr rfl)
  | a :: as, b :: bs => by
    simp only [Bytes.lt, Bool.or_eq_true, decide_eq_true_eq, Bool.and_eq_true, beq_iff_eq, List.cons.injEq]
    by_cases hab : a = b
    · subst hab
      rcases lt_or_eq_or_lt as bs with h | rfl | h
      · exact .inl (.inr ⟨rfl, h⟩)
      · exact .inr (.inl ⟨rfl, rfl⟩)
      · exact .inr (.inr (.inr ⟨rfl, h⟩))
    · rcases UInt8.lt_or_lt_of_ne hab with h | h
      · exact .inl (.inl h)
      · exact .inr (.inr (.inl h))

end Bytes

/-- The lower-case hexadecimal digit of `n`, for `n` below 16. -/
def hexDigit (n : Nat) : Char :=
  if n < 10 then Char.ofNat (48 + n) else Char.ofNat (87 + n)

/-- Two lower-case hexadecimal digits per byte. -/
def hexText (bytes : Bytes) : String :=
  String.ofList (bytes.flatMap fun b => [hexDigit (b.toNat / 16), hexDigit (b.toNat % 16)])

/-- The value of a hexadecimal digit, of either case. -/
def hexValue? (c : Char) : Option Nat :=
  if '0' ≤ c ∧ c ≤ '9' then some (c.toNat - 48)
  else if 'a' ≤ c ∧ c ≤ 'f' then some (c.toNat - 87)
  else if 'A' ≤ c ∧ c ≤ 'F' then some (c.toNat - 55)
  else none

/-- The bytes written as pairs of hexadecimal digits. -/
def bytesOfHex? : List Char → Option Bytes
  | [] => some []
  | a :: b :: rest => do
    let high ← hexValue? a
    let low ← hexValue? b
    let bytes ← bytesOfHex? rest
    return UInt8.ofNat (16 * high + low) :: bytes
  | [_] => none

/-- Global transaction id, shared by every branch of a transaction. -/
structure Gtrid where
  bytes : Bytes
deriving DecidableEq, Repr, Inhabited

/-- The global id as text. -/
def Gtrid.display (g : Gtrid) : String :=
  hexText g.bytes

/-- Transaction id of one branch. -/
structure Trid where
  format : Int
  gtrid : Gtrid
  bqual : Bytes
deriving DecidableEq, Repr, Inhabited

namespace Trid

/-- Order by format, then global id, then branch. -/
def lt (a b : Trid) : Bool :=
  a.format < b.format ||
    (a.format == b.format &&
      (Bytes.lt a.gtrid.bytes b.gtrid.bytes ||
        (a.gtrid == b.gtrid && Bytes.lt a.bqual b.bqual)))

/-- The id as text. -/
def display (t : Trid) : String :=
  toString t.format ++ ":" ++ hexText t.gtrid.bytes ++ ":" ++ hexText t.bqual

/-- Format of the ids made here. -/
def ownFormat : Int := 42

/-- Number of bytes of the two parts of an id made here. -/
def ownLength : Nat := 16

/-- An id of this manager's own format, from random bytes for the global
part and for the branch. -/
def fresh (global branch : Bytes) : Trid :=
  ⟨ownFormat, ⟨global⟩, branch⟩

/-- Another branch of the same transaction. -/
def branch (t : Trid) (bqual : Bytes) : Trid :=
  { t with bqual }

end Trid

end TwoPhase
