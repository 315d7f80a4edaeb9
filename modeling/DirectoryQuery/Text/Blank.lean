/-!
# Blank characters and words

Directory values are compared after their white space has been put in order.  White space means
Unicode's `White_Space` property, which is wider than the ASCII blanks (it has the no-break space
and the ideographic space) and leaves out the zero-width characters and the ASCII separators
U+001C to U+001F.

A text is seen as the list of its *words*, the maximal blank-free runs.  `squeeze` writes the words
back with one plain space between neighbours, `trim` only takes the blanks off both ends, and
`withoutBlanks` takes them all away.
-/

set_option autoImplicit false

namespace DirectoryQuery
namespace Text

/-- Whether the character has Unicode's `White_Space` property. -/
def isBlank (c : Char) : Bool :=
  let n := c.toNat
  (9 ≤ n && n ≤ 13) || n == 0x20 || n == 0x85 || n == 0xA0 || n == 0x1680
    || (0x2000 ≤ n && n ≤ 0x200A) || n == 0x2028 || n == 0x2029 || n == 0x202F || n == 0x205F
    || n == 0x3000

/-- Whether the list starts with a character that belongs to a word. -/
def startsWord : List Char → Bool
  | [] => false
  | c :: _ => !isBlank c

/-- Puts a character in front of the first word, or alone when there is none. -/
def joinFirst (c : Char) : List (List Char) → List (List Char)
  | [] => [[c]]
  | w :: ws => (c :: w) :: ws

/-- The maximal blank-free runs of a text, in order. -/
def words : List Char → List (List Char)
  | [] => []
  | c :: cs =>
    if isBlank c then words cs
    else if startsWord cs then joinFirst c (words cs)
    else [c] :: words cs

/-- Writes words with one plain space between neighbours. -/
def unwords (ws : List (List Char)) : List Char := [' '].intercalate ws

/-- The text with outer white space removed and each inner run replaced by one plain space. -/
def squeeze (s : String) : String := String.ofList (unwords (words s.toList))

/-- The text without any white space. -/
def withoutBlanks (s : String) : String := String.ofList (s.toList.filter fun c ↦ !isBlank c)

/-- The characters left when the blanks at both ends are dropped. -/
def trim (cs : List Char) : List Char :=
  ((cs.dropWhile isBlank).reverse.dropWhile isBlank).reverse

/-- Whether the text has no character besides white space. -/
def isAllBlank (s : String) : Bool := s.toList.all isBlank

/-! ## Words of blank and blank-free texts -/

@[simp]
theorem words_nil : words [] = [] := rfl

theorem words_cons_blank {c : Char} (h : isBlank c = true) (cs : List Char) :
    words (c :: cs) = words cs := by
  simp [words, h]

/-- A text of blanks alone has no words. -/
theorem words_eq_nil_of_all_blank : ∀ {cs : List Char}, cs.all isBlank = true → words cs = []
  | [], _ => rfl
  | c :: cs, h => by
    rw [List.all_cons, Bool.and_eq_true] at h
    rw [words_cons_blank h.1, words_eq_nil_of_all_blank h.2]

end Text
end DirectoryQuery
