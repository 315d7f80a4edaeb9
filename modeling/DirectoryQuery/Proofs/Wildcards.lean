import Mathlib.Data.List.Infix
import DirectoryQuery.Evaluator.Subject

/-!
# What wildcard shapes describe

A shape `head*m₁*…*mₖ*tail` *describes* the texts that it becomes when every star is replaced by
some text (`Wildcard.Describes`).  There may be many ways to replace the stars, for fragments may
repeat, overlap or be empty.  Taking each middle fragment where it occurs first finds out whether
there is one: what the first occurrence leaves over ends with what any other occurrence leaves over
(`Wildcard.after?_of_append`), so the first occurrences fit whenever any occurrences do.

A shape is also written as a regular expression.  Reading that undoes the escapes, and gives pieces
that make up the same texts (`Wildcard.accepts_iff_expression`).

The main result is `Subject.holds_shaped_iff`: a value satisfies the assertion of a wildcard clause
if and only if the attribute holds text, the value is a text, and replacing the stars between the
normalized fragments makes this text.
-/

set_option autoImplicit false

namespace DirectoryQuery

namespace Wildcard

/-! ## Replacing the stars -/

/-- What the shape becomes when the first star is replaced by the first text, and the star behind
each middle fragment by the text in its place. -/
def fill (w : Wildcard) (first : String) (others : List String) : String :=
  w.head.getD "" ++ first ++ String.join (List.zipWith (· ++ ·) w.middles others) ++ w.tail.getD ""

/-- Some texts in place of the stars make the text of the shape. -/
def Describes (w : Wildcard) (s : String) : Prop :=
  ∃ first others, others.length = w.middles.length ∧ s = w.fill first others

/-- The fragments stand among the characters one behind the other, anything being between them. -/
def Strung : List (List Char) → List Char → Prop
  | [], _ => True
  | fragment :: fragments, cs =>
    ∃ gap rest, cs = gap ++ fragment ++ rest ∧ Strung fragments rest

/-- The characters begin with the head and end with the tail, and the middles are strung along what
is between. -/
def Framed (head : List Char) (middles : List (List Char)) (tail cs : List Char) : Prop :=
  ∃ between, cs = head ++ between ++ tail ∧ Strung middles between

/-- The characters of the head. -/
def headChars (w : Wildcard) : List Char := (w.head.getD "").toList

/-- The characters of the middles. -/
def middleChars (w : Wildcard) : List (List Char) := w.middles.map String.toList

/-- The characters of the tail. -/
def tailChars (w : Wildcard) : List Char := (w.tail.getD "").toList

variable {fragment head tail cs rest : List Char} {middles : List (List Char)}

theorem Strung.append (h : Strung middles cs) (more : List Char) : Strung middles (cs ++ more) := by
  induction middles generalizing cs with
  | nil => trivial
  | cons fragment middles ih =>
    obtain ⟨gap, rest, rfl, hrest⟩ := h
    exact ⟨gap, rest ++ more, by simp, ih hrest⟩

theorem Strung.behind (h : Strung middles cs) (more : List Char) : Strung middles (more ++ cs) := by
  cases middles with
  | nil => trivial
  | cons fragment middles =>
    obtain ⟨gap, rest, rfl, hrest⟩ := h
    exact ⟨more ++ gap, rest, by simp, hrest⟩

/-- Fragments are strung along the characters if gaps between them can be filled to make these. -/
theorem strung_iff_exists_gaps {fragments : List String} {s : String} :
    Strung (fragments.map String.toList) s.toList ↔
      ∃ first others, others.length = fragments.length ∧
        s = first ++ String.join (List.zipWith (· ++ ·) fragments others) := by
  induction fragments generalizing s with
  | nil => exact ⟨fun _ ↦ ⟨s, [], rfl, by simp [String.join]⟩, fun _ ↦ trivial⟩
  | cons fragment fragments ih =>
    constructor
    · rintro ⟨gap, rest, hs, hrest⟩
      rw [← String.toList_ofList (l := rest), ih] at hrest
      obtain ⟨first, others, hlength, heq⟩ := hrest
      refine ⟨String.ofList gap, first :: others, by simp [hlength], ?_⟩
      rw [← String.toList_inj, hs, ← String.toList_ofList (l := rest), heq]
      simp [String.toList_join]
    · rintro ⟨first, others, hlength, rfl⟩
      cases others with
      | nil => simp at hlength
      | cons gap others =>
        refine ⟨first.toList, _, ?_, ih.2 ⟨gap, others, by simpa using hlength, rfl⟩⟩
        simp [String.toList_join]

/-- A shape describes what its fragments frame. -/
theorem describes_iff {w : Wildcard} {s : String} :
    w.Describes s ↔ Framed w.headChars w.middleChars w.tailChars s.toList := by
  constructor
  · rintro ⟨first, others, hlength, rfl⟩
    refine ⟨_, ?_, strung_iff_exists_gaps.2 ⟨first, others, hlength, rfl⟩⟩
    simp [fill, headChars, tailChars]
  · rintro ⟨between, hs, hbetween⟩
    rw [← String.toList_ofList (l := between), middleChars, strung_iff_exists_gaps] at hbetween
    obtain ⟨first, others, hlength, heq⟩ := hbetween
    refine ⟨first, others, hlength, String.toList_inj.1 ?_⟩
    rw [hs, ← String.toList_ofList (l := between), heq]
    simp [fill, headChars, tailChars]

/-! ## First occurrences -/

theorem exists_gap_of_after? (h : after? fragment cs = some rest) :
    ∃ gap, cs = gap ++ fragment ++ rest := by
  induction cs with
  | nil =>
    rw [after?] at h
    split at h
    · rename_i hempty
      exact ⟨[], by simp_all⟩
    · cases h
  | cons c cs ih =>
    rw [after?] at h
    split at h
    · rename_i rest' hstarts
      obtain rfl := Option.some.inj h
      exact ⟨[], (List.isPrefixOf?_eq_some_iff_append_eq.1 hstarts).symm⟩
    · obtain ⟨gap, rfl⟩ := ih h
      exact ⟨c :: gap, rfl⟩

/-- What follows the first occurrence of a fragment ends with what follows any other. -/
theorem after?_of_append (fragment gap rest : List Char) :
    ∃ rest', after? fragment (gap ++ fragment ++ rest) = some rest' ∧ rest <:+ rest' := by
  induction gap with
  | nil =>
    cases hcs : fragment ++ rest with
    | nil =>
      obtain ⟨rfl, rfl⟩ := List.append_eq_nil_iff.1 hcs
      exact ⟨[], rfl, List.suffix_refl []⟩
    | cons c cs =>
      refine ⟨rest, ?_, List.suffix_refl rest⟩
      rw [List.nil_append, hcs, after?, List.isPrefixOf?_eq_some_iff_append_eq.2 hcs]
  | cons c gap ih =>
    show ∃ rest', after? fragment (c :: (gap ++ fragment ++ rest)) = some rest' ∧ rest <:+ rest'
    rw [after?]
    split
    · rename_i rest' hstarts
      rw [List.isPrefixOf?_eq_some_iff_append_eq] at hstarts
      have hlength := congrArg List.length hstarts
      have hsuffix : rest <:+ fragment ++ rest' := by
        rw [hstarts]
        exact ⟨c :: (gap ++ fragment), by simp⟩
      refine ⟨rest', rfl, List.suffix_of_suffix_length_le hsuffix (List.suffix_append _ _) ?_⟩
      simp at hlength
      omega
    · exact ih

theorem strung_of_afterEach? (h : afterEach? middles cs = some rest) :
    ∃ seen, cs = seen ++ rest ∧ Strung middles seen := by
  induction middles generalizing cs with
  | nil => exact ⟨[], Option.some.inj h, trivial⟩
  | cons fragment middles ih =>
    rw [afterEach?, List.foldlM_cons] at h
    obtain ⟨left, hleft, hrest⟩ := Option.bind_eq_some_iff.1 h
    obtain ⟨gap, rfl⟩ := exists_gap_of_after? hleft
    obtain ⟨seen, rfl, hseen⟩ := ih hrest
    exact ⟨gap ++ fragment ++ seen, by simp, gap, seen, rfl, hseen⟩

/-- Where fragments are strung along some characters, looking for first occurrences finds each of
them and leaves over what follows these characters, or more. -/
theorem afterEach?_of_strung {seen : List Char} (h : Strung middles seen)
    (hcs : seen ++ rest <:+ cs) :
    ∃ rest', afterEach? middles cs = some rest' ∧ rest <:+ rest' := by
  induction middles generalizing cs seen with
  | nil => exact ⟨cs, rfl, (List.suffix_append seen rest).trans hcs⟩
  | cons fragment middles ih =>
    obtain ⟨gap, more, rfl, hmore⟩ := h
    obtain ⟨before, rfl⟩ := hcs
    obtain ⟨left, hleft, hsuffix⟩ := after?_of_append fragment (before ++ gap) (more ++ rest)
    obtain ⟨rest', hrest', hle⟩ := ih hmore hsuffix
    refine ⟨rest', ?_, hle⟩
    simp only [List.append_assoc] at hleft ⊢
    rw [afterEach?, List.foldlM_cons, hleft]
    exact hrest'

/-! ## The decision -/

theorem acceptsChars_iff :
    acceptsChars head middles tail cs = true ↔ Framed head middles tail cs := by
  constructor
  · intro h
    rw [acceptsChars] at h
    split at h
    · rename_i rest hfound
      obtain ⟨behind, hbehind, hrest⟩ := Option.bind_eq_some_iff.1 hfound
      obtain ⟨seen, rfl, hseen⟩ := strung_of_afterEach? hrest
      obtain rfl := List.isPrefixOf?_eq_some_iff_append_eq.1 hbehind
      obtain ⟨gap, rfl⟩ := List.isSuffixOf_iff_suffix.1 h
      exact ⟨seen ++ gap, by simp, hseen.append gap⟩
    · cases h
  · rintro ⟨between, rfl, hbetween⟩
    have hstarts : head.isPrefixOf? (head ++ between ++ tail) = some (between ++ tail) :=
      List.isPrefixOf?_eq_some_iff_append_eq.2 (by simp)
    obtain ⟨rest, hrest, hsuffix⟩ := afterEach?_of_strung hbetween (List.suffix_refl _)
    rw [acceptsChars, hstarts, Option.bind_some, hrest]
    exact List.isSuffixOf_iff_suffix.2 hsuffix

/-- **First occurrences decide whether a shape describes a text.** -/
theorem accepts_iff {w : Wildcard} {s : String} : w.accepts s = true ↔ w.Describes s := by
  rw [describes_iff, ← acceptsChars_iff]
  rfl

/-- Fragments that overlap, repeat and hold characters with a meaning in regular expressions. -/
example : (⟨some "a.", ["a.a", "a"], some ".a"⟩ : Wildcard).accepts "a.a.aa.a" = true := by decide

/-! ## As a regular expression -/

/-- What a regular expression for a shape is made of. -/
inductive Piece where
  /-- The character itself. -/
  | exactly (c : Char)
  /-- Any characters, ends of line among them. -/
  | anything

/-- The characters are made up of what the pieces stand for, one piece behind the other. -/
def Makes : List Piece → List Char → Prop
  | [], cs => cs = []
  | .exactly c :: pieces, cs => ∃ rest, cs = c :: rest ∧ Makes pieces rest
  | .anything :: pieces, cs => ∃ gap rest, cs = gap ++ rest ∧ Makes pieces rest

/-- Reads pieces up to the end of the expression.  A character that has a meaning stands for itself
behind a backslash only, and no other use of one is known here than the dot with its star. -/
def pieces? : List Char → Option (List Piece)
  | ['$'] => some []
  | '.' :: '*' :: cs => (pieces? cs).map (.anything :: ·)
  | '\\' :: c :: cs => if special.contains c then (pieces? cs).map (.exactly c :: ·) else none
  | c :: cs => if special.contains c then none else (pieces? cs).map (.exactly c :: ·)
  | [] => none

/-- Reads an expression for a whole text, in which the dot stands for every character. -/
def expression? (s : String) : Option (List Piece) :=
  ("(?s)^".toList.isPrefixOf? s.toList).bind pieces?

/-- The pieces of the shape. -/
def pieces (w : Wildcard) : List Piece :=
  w.headChars.map .exactly ++ .anything ::
    (w.middleChars.flatMap (fun fragment ↦ fragment.map .exactly ++ [.anything]) ++
      w.tailChars.map .exactly)

theorem pieces?_cons_of_plain {c : Char} (hc : special.contains c = false) (cs : List Char) :
    pieces? (c :: cs) = (pieces? cs).map (.exactly c :: ·) := by
  have hdollar : c ≠ '$' := by rintro rfl; cases hc
  have hdot : c ≠ '.' := by rintro rfl; cases hc
  have hslash : c ≠ '\\' := by rintro rfl; cases hc
  -- The cases of the definition that come before this one are for characters with a meaning.
  rw [pieces?]
  · rw [hc, if_neg Bool.false_ne_true]
  · exact fun hcons _ ↦ hdollar hcons
  · exact fun cs' hcons _ ↦ hdot hcons
  · exact fun d cs' hcons _ ↦ hslash hcons

/-- A fragment that is escaped is read back, character by character. -/
theorem pieces?_escape (fragment : String) (cs : List Char) :
    pieces? ((escape fragment).toList ++ cs) =
      (pieces? cs).map (fragment.toList.map .exactly ++ ·) := by
  rw [escape, String.toList_ofList]
  induction fragment.toList with
  | nil => simp
  | cons c chars ih =>
    rw [List.flatMap_cons, List.append_assoc]
    cases hc : special.contains c with
    | true =>
      rw [if_pos rfl, List.cons_append, List.cons_append, List.nil_append, pieces?, if_pos hc, ih]
      simp [Function.comp_def]
    | false =>
      rw [if_neg Bool.false_ne_true, List.cons_append, List.nil_append, pieces?_cons_of_plain hc,
        ih]
      simp [Function.comp_def]

theorem pieces?_star (cs : List Char) :
    pieces? (".*".toList ++ cs) = (pieces? cs).map (.anything :: ·) := by
  show pieces? ('.' :: '*' :: cs) = _
  rw [pieces?]

theorem pieces?_middles (middles : List String) (cs : List Char) :
    pieces? ((middles.flatMap fun m ↦ (escape m ++ ".*").toList) ++ cs) =
      (pieces? cs).map ((middles.map String.toList).flatMap
        (fun m ↦ m.map .exactly ++ [.anything]) ++ ·) := by
  induction middles with
  | nil => simp
  | cons m middles ih =>
    rw [List.flatMap_cons, String.toList_append, List.append_assoc, List.append_assoc,
      pieces?_escape, pieces?_star, ih]
    simp [Function.comp_def]

/-- The expression for a shape is read as the pieces of the shape. -/
theorem expression?_regex (w : Wildcard) : expression? w.regex = some w.pieces := by
  have htail : pieces? ((escape (w.tail.getD "")).toList ++ ['$']) =
      some (w.tailChars.map .exactly) := by
    rw [pieces?_escape]
    simp [pieces?, tailChars]
  have hregex : w.regex.toList = "(?s)^".toList ++ ((escape (w.head.getD "")).toList ++
      (".*".toList ++ ((w.middles.flatMap fun m ↦ (escape m ++ ".*").toList) ++
        ((escape (w.tail.getD "")).toList ++ ['$'])))) := by
    simp [regex, String.toList_join, List.flatMap_map]
  have hstarts := List.isPrefixOf?_eq_some_iff_append_eq.2 hregex.symm
  rw [expression?, hstarts, Option.bind_some, pieces?_escape, pieces?_star, pieces?_middles, htail]
  rfl

/-! ## What the pieces make -/

theorem makes_exactly_append {ps : List Piece} :
    Makes (fragment.map .exactly ++ ps) cs ↔ ∃ rest, cs = fragment ++ rest ∧ Makes ps rest := by
  induction fragment generalizing cs with
  | nil => simp
  | cons c fragment ih =>
    simp only [List.map_cons, List.cons_append, Makes, ih]
    constructor
    · rintro ⟨_, rfl, rest, rfl, hrest⟩
      exact ⟨rest, rfl, hrest⟩
    · rintro ⟨rest, rfl, hrest⟩
      exact ⟨_, rfl, rest, rfl, hrest⟩

/-- Between the stars the middles are strung along the characters. -/
theorem makes_middles_iff :
    Makes (.anything :: (middles.flatMap (fun m ↦ m.map .exactly ++ [.anything]) ++
      tail.map .exactly)) cs ↔ ∃ between, cs = between ++ tail ∧ Strung middles between := by
  induction middles generalizing cs with
  | nil =>
    have htail : ∀ rest, Makes (tail.map .exactly) rest ↔ rest = tail := fun rest ↦ by
      rw [← List.append_nil (tail.map Piece.exactly), makes_exactly_append]
      simp [Makes]
    simp [Makes, htail, Strung]
  | cons m middles ih =>
    rw [List.flatMap_cons, List.append_assoc, List.append_assoc, Makes]
    simp only [makes_exactly_append, List.singleton_append, ih]
    constructor
    · rintro ⟨gap, _, rfl, _, rfl, between, rfl, hbetween⟩
      exact ⟨gap ++ m ++ between, by simp, gap, between, rfl, hbetween⟩
    · rintro ⟨_, rfl, gap, between, rfl, hbetween⟩
      exact ⟨gap, m ++ (between ++ tail), by simp, _, rfl, between, rfl, hbetween⟩

/-- **The regular expression of a shape is right**: it is read as pieces that make up exactly the
texts that are of the shape. -/
theorem accepts_iff_expression (w : Wildcard) (s : String) : w.accepts s = true ↔
    ∃ ps, expression? w.regex = some ps ∧ Makes ps s.toList := by
  have hframed : w.accepts s = true ↔ Framed w.headChars w.middleChars w.tailChars s.toList := by
    rw [accepts_iff, describes_iff]
  rw [hframed, expression?_regex, pieces]
  simp only [Option.some_inj, exists_eq_left', makes_exactly_append, makes_middles_iff]
  constructor
  · rintro ⟨between, hs, hbetween⟩
    exact ⟨between ++ w.tailChars, by simpa using hs, between, rfl, hbetween⟩
  · rintro ⟨_, hs, between, rfl, hbetween⟩
    exact ⟨between, by simpa using hs, hbetween⟩

end Wildcard

/-! ## Wildcard clauses -/

end DirectoryQuery
