import DirectoryQuery.Json.Basic

/-!
# Writing JSON text

`render` writes a value on one line without any blanks.  In strings the quote, the backslash and the
control characters below U+0020 are escaped, with the one-letter escape where JSON has one and four
lower-case hexadecimal digits otherwise; every other character stands for itself.
-/

set_option autoImplicit false

namespace DirectoryQuery
namespace Json

/-- The decimal digits of a number. -/
def natChars (n : Nat) : List Char := Nat.toDigits 10 n

/-- A decimal integer with its sign. -/
def intChars : Int → List Char
  | .ofNat n => natChars n
  | .negSucc n => '-' :: natChars (n + 1)

/-- A number in the form in which it was written: whole, or with an exponent. -/
def numeralChars (n : Numeral) : List Char :=
  (if n.negative then ['-'] else []) ++ natChars n.significand
    ++ (if n.whole then [] else 'e' :: intChars n.exponent)

/-- A hexadecimal digit, lower case. -/
def hexChar (n : Nat) : Char := Nat.digitChar n

/-- A character as it stands within a string. -/
def escape (c : Char) : List Char :=
  if c = '"' then ['\\', '"']
  else if c = '\\' then ['\\', '\\']
  else if c = '\n' then ['\\', 'n']
  else if c = '\r' then ['\\', 'r']
  else if c = '\t' then ['\\', 't']
  else if c = '\x08' then ['\\', 'b']
  else if c = '\x0c' then ['\\', 'f']
  else if c.toNat < 0x20 then
    ['\\', 'u', '0', '0', hexChar (c.toNat / 16), hexChar (c.toNat % 16)]
  else [c]

/-- A string between its quotes. -/
def stringChars (s : String) : List Char := '"' :: s.toList.flatMap escape ++ ['"']

mutual
/-- The text of a value. -/
def chars : Json → List Char
  | null => "null".toList
  | bool true => "true".toList
  | bool false => "false".toList
  | number n => numeralChars n
  | string s => stringChars s
  | array items => '[' :: itemsChars items ++ [']']
  | object members => '\x7b' :: membersChars members ++ ['\x7d']
  | unreadable => "null".toList
/-- The text of the items of an array, with commas between them. -/
def itemsChars : List Json → List Char
  | [] => []
  | item :: items => chars item ++ moreItemsChars items
/-- The text of further items, each after a comma. -/
def moreItemsChars : List Json → List Char
  | [] => []
  | item :: items => ',' :: chars item ++ moreItemsChars items
/-- The text of the members of an object, with commas between them. -/
def membersChars : List (String × Json) → List Char
  | [] => []
  | (key, value) :: members =>
    stringChars key ++ ':' :: chars value ++ moreMembersChars members
/-- The text of further members, each after a comma. -/
def moreMembersChars : List (String × Json) → List Char
  | [] => []
  | (key, value) :: members =>
    ',' :: stringChars key ++ ':' :: chars value ++ moreMembersChars members
end

/-- The text of a value. -/
def render (j : Json) : String := String.ofList j.chars

end Json
end DirectoryQuery
