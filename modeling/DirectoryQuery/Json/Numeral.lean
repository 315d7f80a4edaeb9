/-!
# Numbers of JSON

A number is kept as a *significand* below `2 ^ 64` and a power of ten.  The significand takes in the
leading digits of the text as long as they fit.  A digit that no longer fits counts as a power of
ten if it stands before the decimal point, and not at all if it stands behind it.

A number that is written without a fraction and without an exponent, and all of whose digits fit, is
`whole`.  Every other one stands for a number of double precision, formed in three roundings: the
significand is rounded, the power of ten is rounded, and their product or quotient is rounded again.
`isFinite` says whether that stays finite.  It is decided by the product of the rounded factors, so
close to the greatest number of double precision a longer text of nearly the same number may be
finite where a shorter one is not.
-/

set_option autoImplicit false

namespace DirectoryQuery

/-- A number `significand * 10 ^ exponent` with its sign.  It is `whole` when it was written without
a fraction and without an exponent and fits into 64 bits. -/
structure Numeral where
  negative : Bool
  significand : Nat
  exponent : Int
  whole : Bool
deriving DecidableEq, Repr

namespace Numeral

/-- The natural number as it is written. -/
def ofNat (n : Nat) : Numeral := ⟨false, n, 0, true⟩

/-- The natural number that was written, if one was; `-0` is none. -/
def nat? (n : Numeral) : Option Nat :=
  if n.whole && !n.negative then some n.significand else none

/-! ## From digits -/

/-- Appends decimal digits to a significand as long as it stays below `2 ^ 64`.  The digits left
over come second. -/
def absorb (n : Nat) : List Char → Nat × List Char
  | [] => (n, [])
  | d :: ds =>
    let m := 10 * n + (d.toNat - '0'.toNat)
    if m < UInt64.size then absorb m ds else (n, d :: ds)

/-- The number written with these digits alone. -/
def ofInteger (negative : Bool) (digits : List Char) : Numeral :=
  let (n, left) := absorb 0 digits
  ⟨negative, n, left.length, left.isEmpty⟩

/-- The number written with these digits before and behind the decimal point, and this exponent. -/
def ofDecimal (negative : Bool) (integer fraction : List Char) (exponent : Int) : Numeral :=
  let (n, left) := absorb 0 integer
  let (m, ignored) := absorb n fraction
  ⟨negative, m, exponent + left.length + ignored.length - fraction.length, false⟩

/-! ## Double precision -/

/-- The nearest number with 53 binary digits, from two equally near ones the even one. -/
def roundToDouble (n : Nat) : Nat :=
  let unit := Nat.pow 2 (n.log2 - 52)
  let below := n / unit
  let excess := 2 * (n % unit)
  unit * (if excess < unit || (excess == unit && below % 2 == 0) then below else below + 1)

/-- The least magnitude that rounds to infinity in double precision: `2 ^ 1024 - 2 ^ 970`. -/
def overflow : Nat := Nat.pow 2 1024 - Nat.pow 2 970

/-- Whether the number of double precision that is formed from it is finite. -/
def isFinite (n : Numeral) : Bool :=
  n.significand == 0 || n.exponent < 0
    || (n.exponent ≤ 308
      && roundToDouble n.significand * roundToDouble (Nat.pow 10 n.exponent.toNat) < overflow)

end Numeral
end DirectoryQuery
