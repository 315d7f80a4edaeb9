import DirectoryQuery.Filter.Basic

/-!
# What a wildcard shape describes

The texts of the shape `head*m₁*…*mₖ*tail` start with the head and end with the tail, and between
the two the middles follow each other in order, with any text before, between and after them.  To
decide that a text is of the shape it is enough to take each middle where it occurs first: what is
left for the others is then as long as possible.

A shape can also be written as a regular expression, in which the dot stands for any character.
-/

set_option autoImplicit false

namespace DirectoryQuery
namespace Wildcard

/-- The shape with every fragment changed. -/
def mapFragments (f : String → String) (w : Wildcard) : Wildcard :=
  ⟨w.head.map f, w.middles.map f, w.tail.map f⟩

/-! ## Deciding -/

/-- What follows the first occurrence of a fragment. -/
def after? (fragment : List Char) : List Char → Option (List Char)
  | [] => if fragment.isEmpty then some [] else none
  | c :: cs =>
    match fragment.isPrefixOf? (c :: cs) with
    | some rest => some rest
    | none => after? fragment cs

/-- What follows the first occurrences of the fragments, each looked for after the one before. -/
def afterEach? (fragments : List (List Char)) (cs : List Char) : Option (List Char) :=
  fragments.foldlM (fun rest fragment ↦ after? fragment rest) cs

/-- Whether the characters start with the head, go on with the middles and end with the tail. -/
def acceptsChars (head : List Char) (middles : List (List Char)) (tail cs : List Char) : Bool :=
  match (head.isPrefixOf? cs).bind (afterEach? middles) with
  | some rest => tail.isSuffixOf rest
  | none => false

/-- Whether a text is of the shape. -/
def accepts (w : Wildcard) (s : String) : Bool :=
  acceptsChars (w.head.getD "").toList (w.middles.map String.toList) (w.tail.getD "").toList
    s.toList

/-! ## As a regular expression -/

/-- The characters that have a meaning in a regular expression. -/
def special : List Char :=
  ['\\', '.', '+', '*', '?', '(', ')', '|', '[', ']', '\x7b', '\x7d', '^', '$', '#', '&', '-', '~']

/-- A fragment as a regular expression that stands for itself. -/
def escape (fragment : String) : String :=
  String.ofList (fragment.toList.flatMap fun c ↦ if special.contains c then ['\\', c] else [c])

/-- The shape as a regular expression. -/
def regex (w : Wildcard) : String :=
  "(?s)^" ++ escape (w.head.getD "") ++ ".*"
    ++ String.join (w.middles.map fun fragment ↦ escape fragment ++ ".*")
    ++ escape (w.tail.getD "") ++ "$"

end Wildcard
end DirectoryQuery
