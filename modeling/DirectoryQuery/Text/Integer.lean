import DirectoryQuery.Text.Blank

/-!
# Integers written in text

An integer is written as an optional single sign and one or more ASCII digits, whatever the number
of leading zeros (`signed?`).  In the value of an attribute blanks around it do not count, and
`integer?` reads it when it lies between -2^127 and 2^127 - 1, the range in which directory integers
are compared.
-/

set_option autoImplicit false

namespace DirectoryQuery
namespace Text

/-- The least integer that can be compared. -/
def leastInteger : Int := -(Nat.pow 2 127 : Nat)

/-- The greatest integer that can be compared. -/
def greatestInteger : Int := (Nat.pow 2 127 : Nat) - 1

/-- The number that a list of decimal digits writes. -/
def decimal (digits : List Char) : Nat :=
  digits.foldl (fun n d ↦ 10 * n + (d.toNat - '0'.toNat)) 0

/-- Reads one or more ASCII digits. -/
def digits? (cs : List Char) : Option Nat :=
  if !cs.isEmpty && cs.all Char.isDigit then some (decimal cs) else none

/-- Reads an optional sign and digits. -/
def signed? : List Char → Option Int
  | '-' :: cs => (digits? cs).map fun n ↦ -(n : Int)
  | '+' :: cs => (digits? cs).map fun n ↦ (n : Int)
  | cs => (digits? cs).map fun n ↦ (n : Int)

/-- The integer a value writes, when it has that form and lies in the comparable range. -/
def integer? (s : String) : Option Int :=
  (signed? (trim s.toList)).filter fun n ↦ leastInteger ≤ n && n ≤ greatestInteger

end Text
end DirectoryQuery
