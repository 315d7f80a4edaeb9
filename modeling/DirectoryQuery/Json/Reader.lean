import DirectoryQuery.Json.Token

/-!
# Reading JSON text

The second half of reading: tokens are put together into a tree by a machine with a stack of
unfinished containers.  `Builder.step` says what a token does, and `read?` reads a whole text,
nothing but blanks being allowed after the value.

Containers may be nested `maxDepth` deep.  A deeper one is well-formed but unreadable.
-/

set_option autoImplicit false

namespace DirectoryQuery
namespace Json

/-- How many arrays and objects may stand within each other. -/
def maxDepth : Nat := 127

/-- A container under construction, its last part first. -/
inductive Frame where
  | array (items : List Json)
  /-- The members so far, and the key whose value comes next. -/
  | object (members : List (Option String × Json)) (key : Option String)

/-- What may come next. -/
inductive Awaiting where
  /-- A value. -/
  | value
  /-- The first item of an array, or its end. -/
  | item
  /-- The key of a member. -/
  | key
  /-- The first member of an object, or its end. -/
  | member
  /-- The colon after a key. -/
  | colon
  /-- The end of the text, of the container, or a comma: the value is complete. -/
  | after (done : Json)

/-- A tree under construction: the unfinished containers, innermost first, and what comes next. -/
structure Builder where
  frames : List Frame
  awaiting : Awaiting

namespace Builder

/-- Nothing read yet. -/
def start : Builder := ⟨[], .value⟩

/-- The object with the given members, unreadable if the text of a key is. -/
def objectOf : List (Option String × Json) → List (String × Json) → Json
  | [], members => .object members
  | (none, _) :: _, _ => .unreadable
  | (some key, value) :: rest, members => objectOf rest ((key, value) :: members)

/-- Completes a container that stood within the given ones. -/
def close (outer : List Frame) (done : Json) : Builder :=
  ⟨outer, .after (if outer.length < maxDepth then done else .unreadable)⟩

/-- Reads a token where a value may begin. -/
def beginValue (frames : List Frame) : Token → Option Builder
  | .word v => some ⟨frames, .after v⟩
  | .text (some s) => some ⟨frames, .after (.string s)⟩
  | .text none => some ⟨frames, .after .unreadable⟩
  | .bracketOpen => some ⟨.array [] :: frames, .item⟩
  | .braceOpen => some ⟨.object [] none :: frames, .member⟩
  | _ => none

/-- Reads a token after a complete value. -/
def continueAfter (done : Json) : List Frame → Token → Option Builder
  | .array items :: outer, .comma => some ⟨.array (done :: items) :: outer, .value⟩
  | .array items :: outer, .bracketClose =>
    some (close outer (.array (done :: items).reverse))
  | .object members key :: outer, .comma =>
    some ⟨.object ((key, done) :: members) none :: outer, .key⟩
  | .object members key :: outer, .braceClose =>
    some (close outer (objectOf ((key, done) :: members) []))
  | _, _ => none

/-- Reads one token. -/
def step (b : Builder) (t : Token) : Option Builder :=
  match b.awaiting, b.frames, t with
  | .item, .array [] :: outer, .bracketClose => some (close outer (.array []))
  | .member, .object [] _ :: outer, .braceClose => some (close outer (.object []))
  | .value, frames, t => beginValue frames t
  | .item, frames, t => beginValue frames t
  | .key, .object members _ :: outer, .text key => some ⟨.object members key :: outer, .colon⟩
  | .member, .object members _ :: outer, .text key => some ⟨.object members key :: outer, .colon⟩
  | .colon, frames, .colon => some ⟨frames, .value⟩
  | .after done, frames, t => continueAfter done frames t
  | _, _, _ => none

/-- The tree of a text that ends here. -/
def finish (b : Builder) : Option Json :=
  match b.frames, b.awaiting with
  | [], .after done => some done
  | _, _ => none

end Builder

/-- Reads the text of one value. -/
def read? (s : String) : Option Json := do
  let tokens ← tokens? s.toList
  (← tokens.foldlM Builder.step Builder.start).finish

/-- Reads the text of one value and resolves repeated keys. -/
def readValue? (s : String) : Option Json := (read? s).bind value?

end Json
end DirectoryQuery
