/-!
# Identifiers of searches

Each search is logged under an identifier of its own: sixteen random bytes in the form of a version
4 universally unique identifier.
-/

set_option autoImplicit false

namespace DirectoryQuery
namespace SearchId

/-- Two lower-case hexadecimal digits. -/
def hexPair (b : UInt8) : List Char :=
  [Nat.digitChar (b.toNat / 16), Nat.digitChar (b.toNat % 16)]

/-- The bytes with the marks of version and variant in the seventh and in the ninth. -/
def marked (bytes : List UInt8) : List UInt8 :=
  (bytes.modify 6 fun b ↦ b % 16 + 0x40).modify 8 fun b ↦ b % 64 + 0x80

/-- Groups of so many bytes each. -/
def groups : List Nat → List UInt8 → List (List UInt8)
  | [], _ => []
  | n :: ns, bytes => bytes.take n :: groups ns (bytes.drop n)

/-- The identifier that random bytes make. -/
def ofBytes (bytes : List UInt8) : String :=
  "-".intercalate ((groups [4, 2, 2, 2, 6] (marked bytes)).map fun g ↦
    String.ofList (g.flatMap hexPair))

end SearchId
end DirectoryQuery
