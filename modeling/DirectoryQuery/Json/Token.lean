import DirectoryQuery.Json.Basic
import DirectoryQuery.Text.Integer

/-!
# Tokens of JSON text

The first half of reading: a text is cut into punctuation, strings, and bare words (`null`, the
truth values and numbers).  The scanner reads one character at a time; `Scanner.step` says what a
character does in each mode.

A string is collected as code points and put together at its closing quote, where an escaped high
surrogate followed by an escaped low one becomes one character.  A string with any other surrogate
is a string all the same, but its text is `none`.
-/

set_option autoImplicit false

namespace DirectoryQuery
namespace Json

/-- A lexical unit of JSON text. -/
inductive Token where
  | braceOpen
  | braceClose
  | bracketOpen
  | bracketClose
  | colon
  | comma
  /-- A string, with its text if it has one. -/
  | text (s : Option String)
  /-- A bare word with the value it stands for. -/
  | word (value : Json)

namespace Token

/-- The punctuation mark a character is. -/
def punctuation? : Char → Option Token
  | '\x7b' => some braceOpen
  | '\x7d' => some braceClose
  | '[' => some bracketOpen
  | ']' => some bracketClose
  | ':' => some colon
  | ',' => some comma
  | _ => none

end Token

/-! ## Bare words -/

/-- Whether JSON allows the character between tokens. -/
def isSpace (c : Char) : Bool := c == ' ' || c == '\n' || c == '\t' || c == '\r'

/-- Whether the character can be part of a bare word. -/
def isBare (c : Char) : Bool := c.isAlphanum || c == '+' || c == '-' || c == '.'

/-- Reads the exponent part of a number, which may be missing. -/
def exponent? : List Char → Option Int
  | [] => some 0
  | e :: cs => if e = 'e' || e = 'E' then Text.signed? cs else none

/-- Reads what may follow the integer part of a number: a fraction and an exponent. -/
def afterInteger? (negative : Bool) (integer : List Char) : List Char → Option Numeral
  | [] => some (.ofInteger negative integer)
  | '.' :: cs =>
    let fraction := cs.takeWhile Char.isDigit
    if fraction.isEmpty then none
    else (exponent? (cs.dropWhile Char.isDigit)).map (.ofDecimal negative integer fraction)
  | cs => (exponent? cs).map (.ofDecimal negative integer [])

/-- Reads a number without its sign.  The integer part has no superfluous leading zero. -/
def unsigned? (negative : Bool) (cs : List Char) : Option Numeral :=
  let integer := cs.takeWhile Char.isDigit
  if integer.isEmpty || (integer.head? == some '0' && 1 < integer.length) then none
  else afterInteger? negative integer (cs.dropWhile Char.isDigit)

/-- Reads a number. -/
def numeral? : List Char → Option Numeral
  | '-' :: cs => unsigned? true cs
  | cs => unsigned? false cs

/-- The value of a bare word. -/
def word? (cs : List Char) : Option Json :=
  if cs = "null".toList then some null
  else if cs = "true".toList then some (bool true)
  else if cs = "false".toList then some (bool false)
  else (numeral? cs).map number

/-! ## Strings -/

/-- Whether the code point is the first half of a surrogate pair. -/
def isHighSurrogate (n : Nat) : Bool := 0xD800 ≤ n && n ≤ 0xDBFF

/-- Whether the code point is the second half of a surrogate pair. -/
def isLowSurrogate (n : Nat) : Bool := 0xDC00 ≤ n && n ≤ 0xDFFF

/-- Puts code points together into text, pairing surrogates; none if one is left over. -/
def textOf? : List Nat → Option (List Char)
  | [] => some []
  | [n] => if isHighSurrogate n || isLowSurrogate n then none else some [Char.ofNat n]
  | n :: m :: rest =>
    if isHighSurrogate n && isLowSurrogate m then
      (textOf? rest).map (Char.ofNat (0x10000 + (n - 0xD800) * 0x400 + (m - 0xDC00)) :: ·)
    else if isHighSurrogate n || isLowSurrogate n then none
    else (textOf? (m :: rest)).map (Char.ofNat n :: ·)

/-- The character that a one-letter escape stands for. -/
def escaped? : Char → Option Char
  | '"' => some '"'
  | '\\' => some '\\'
  | '/' => some '/'
  | 'b' => some '\x08'
  | 'f' => some '\x0c'
  | 'n' => some '\n'
  | 'r' => some '\r'
  | 't' => some '\t'
  | _ => none

/-- The value of a hexadecimal digit. -/
def hexDigit? (c : Char) : Option Nat :=
  if c.isDigit then some (c.toNat - '0'.toNat)
  else if 'a' ≤ c && c ≤ 'f' then some (c.toNat - 'a'.toNat + 10)
  else if 'A' ≤ c && c ≤ 'F' then some (c.toNat - 'A'.toNat + 10)
  else none

/-! ## The scanner -/

/-- What the scanner is in the middle of.  What has been read of the current token stands last
character first. -/
inductive Scanning where
  | between
  | bare (seen : List Char)
  | text (seen : List Nat)
  | escape (seen : List Nat)
  | hex (seen : List Nat) (count value : Nat)

/-- A scanner under way: the tokens found, last one first, and what it is in the middle of. -/
structure Scanner where
  tokens : List Token
  mode : Scanning

namespace Scanner

/-- Nothing read yet. -/
def start : Scanner := ⟨[], .between⟩

/-- Reads a character that follows the given tokens and begins something new. -/
def begin? (tokens : List Token) (c : Char) : Option Scanner :=
  if isSpace c then some ⟨tokens, .between⟩
  else if c = '"' then some ⟨tokens, .text []⟩
  else if isBare c then some ⟨tokens, .bare [c]⟩
  else (Token.punctuation? c).map fun t ↦ ⟨t :: tokens, .between⟩

/-- Reads one character. -/
def step (s : Scanner) (c : Char) : Option Scanner :=
  match s.mode with
  | .between => begin? s.tokens c
  | .bare seen =>
    if isBare c then some ⟨s.tokens, .bare (c :: seen)⟩
    else (word? seen.reverse).bind fun v ↦ begin? (.word v :: s.tokens) c
  | .text seen =>
    if c = '"' then
      some ⟨.text ((textOf? seen.reverse).map String.ofList) :: s.tokens, .between⟩
    else if c = '\\' then some ⟨s.tokens, .escape seen⟩
    else if c.toNat < 0x20 then none
    else some ⟨s.tokens, .text (c.toNat :: seen)⟩
  | .escape seen =>
    if c = 'u' then some ⟨s.tokens, .hex seen 0 0⟩
    else (escaped? c).map fun d ↦ ⟨s.tokens, .text (d.toNat :: seen)⟩
  | .hex seen count value =>
    (hexDigit? c).map fun d ↦
      if count = 3 then ⟨s.tokens, .text ((16 * value + d) :: seen)⟩
      else ⟨s.tokens, .hex seen (count + 1) (16 * value + d)⟩

/-- The tokens of a text that ends here. -/
def finish (s : Scanner) : Option (List Token) :=
  match s.mode with
  | .between => some s.tokens.reverse
  | .bare seen => (word? seen.reverse).map fun v ↦ (.word v :: s.tokens).reverse
  | _ => none

end Scanner

/-- Cuts a text into tokens. -/
def tokens? (cs : List Char) : Option (List Token) :=
  (cs.foldlM Scanner.step Scanner.start).bind Scanner.finish

end Json
end DirectoryQuery
