import DirectoryQuery.Text.CaseTable

/-!
# Lower-casing

`lower` is the full lower-case mapping of Unicode, independent of any language.  All but two
capitals have one lower-case letter, which `lowerRuns` lists.  The capital I with a dot becomes a
plain i and a combining dot, and the capital sigma becomes a final sigma at the end of a word and a
medial one elsewhere: it ends a word when the nearest letter before it exists and no letter follows,
characters in `ignorableRuns` not being looked at.

Names of attribute types and matching rules are keyed by `lower`.  `sameIgnoringAsciiCase` is the
narrower comparison that sees only the letters A to Z.
-/

set_option autoImplicit false

namespace DirectoryQuery
namespace Text

/-- Whether one of the closed runs holds the code point. -/
def inRuns (runs : List (Nat × Nat)) (n : Nat) : Bool := runs.any fun r ↦ r.1 ≤ n && n ≤ r.2

/-- Whether a search for a neighbouring letter passes over the character. -/
def isCaseIgnorable (c : Char) : Bool := inRuns ignorableRuns c.toNat

/-- Whether the character, not being passed over, is a letter with a case. -/
def isCased (c : Char) : Bool := inRuns casedRuns c.toNat

/-- The lower-case code point of a code point that has a one-to-one mapping, itself otherwise. -/
def lowerPoint (n : Nat) : Nat :=
  match lowerRuns.find? fun r ↦ n ≤ r.last with
  | none => n
  | some r => if r.first ≤ n && (n - r.first) % r.step == 0 then r.target + (n - r.first) else n

/-- Whether the nearest character that is not passed over is a letter. -/
def seesLetter (cs : List Char) : Bool :=
  match cs.dropWhile isCaseIgnorable with
  | [] => false
  | c :: _ => isCased c

/-- Lower-case form of one character between the text before it (nearest first) and the text
after it. -/
def lowerChar (before : List Char) (c : Char) (after : List Char) : List Char :=
  if c = 'Σ' then [if seesLetter before && !seesLetter after then 'ς' else 'σ']
  else if c = 'İ' then ['i', '\u0307']
  else [Char.ofNat (lowerPoint c.toNat)]

/-- Lower-case form of a text that continues another one, given nearest character first. -/
def lowerAfter (before : List Char) : List Char → List Char
  | [] => []
  | c :: cs => lowerChar before c cs ++ lowerAfter (c :: before) cs

/-- The full lower-case form of a text. -/
def lower (s : String) : String := String.ofList (lowerAfter [] s.toList)

/-- Whether two texts differ at most in the case of the letters A to Z. -/
def sameIgnoringAsciiCase (a b : String) : Bool :=
  a.toList.map Char.toLower == b.toList.map Char.toLower

end Text
end DirectoryQuery
