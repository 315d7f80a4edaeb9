import Mathlib.Algebra.Group.Nat.Defs
import DirectoryQuery.MatchingRule

/-!
# The order of texts

Texts can be compared by their code points, as strings, or byte by byte in UTF-8, and it comes to
the same (`Text.compare_agrees`).  So the keys of an index, which are in the order of values, are in
the order of the rule of an attribute too, whether it compares texts or bytes.

What matters about UTF-8 is that it is an *ordered prefix code*: of two code points the lower one
has the lower bytes, whatever follows after them (`Text.compare_utf8_append`).  The first byte of a
code point tells how many bytes follow, and those with more bytes begin with a higher one; of those
with equally many the bytes are digits, the highest first.  For any such code, lists are in the
order of their encodings (`compare_flatMap`).
-/

set_option autoImplicit false

namespace DirectoryQuery

open Std

/-! ## Order embeddings -/

section Embeddings

variable {α β : Type} [Ord α] [Ord β]

/-- Lists are in the order of what an order embedding makes of them. -/
theorem compare_map {f : α → β} (hf : ∀ a b, compare (f a) (f b) = compare a b) (as bs : List α) :
    compare (as.map f) (bs.map f) = compare as bs := by
  induction as generalizing bs with
  | nil => cases bs <;> rfl
  | cons a as ih =>
    cases bs with
    | nil => rfl
    | cons b bs =>
      rw [List.map_cons, List.map_cons, List.compare_cons_cons, List.compare_cons_cons, hf, ih]

variable [OrientedOrd β]

/-- To keep the order it is enough to keep what is lower than something else. -/
theorem compare_of_strictMono [OrientedOrd α] [LawfulEqOrd α] {f : α → β}
    (hf : ∀ a b, compare a b = .lt → compare (f a) (f b) = .lt) (a b : α) :
    compare (f a) (f b) = compare a b := by
  cases h : compare a b with
  | lt => exact hf a b h
  | eq => rw [LawfulEqCmp.eq_of_compare h, compare_self]
  | gt => rw [OrientedCmp.gt_iff_lt] at h ⊢; exact hf b a h

/-- What is in front of both lists makes no difference. -/
theorem compare_append_left (l as bs : List β) : compare (l ++ as) (l ++ bs) = compare as bs := by
  induction l with
  | nil => rfl
  | cons b l ih =>
    rw [List.cons_append, List.cons_append, List.compare_cons_cons, compare_self, ih]
    rfl

/-- Lists are in the order of their encodings, if the code is an ordered prefix code. -/
theorem compare_flatMap [OrientedOrd α] [LawfulEqOrd α] {code : α → List β}
    (hcode : ∀ a b, compare a b = .lt → ∀ xs ys, compare (code a ++ xs) (code b ++ ys) = .lt)
    (hne : ∀ a, code a ≠ []) (as bs : List α) :
    compare (as.flatMap code) (bs.flatMap code) = compare as bs := by
  refine compare_of_strictMono (f := fun l ↦ l.flatMap code) (fun as bs h ↦ ?_) as bs
  induction as generalizing bs with
  | nil =>
    cases bs with
    | nil => cases h
    | cons b bs =>
      obtain ⟨y, ys, hys⟩ := List.exists_cons_of_ne_nil (hne b)
      rw [List.flatMap_cons, hys]
      rfl
  | cons a as ih =>
    cases bs with
    | nil => cases h
    | cons b bs =>
      rw [List.compare_cons_cons, Ordering.then_eq_lt] at h
      rw [List.flatMap_cons, List.flatMap_cons]
      obtain hlt | ⟨heq, hrest⟩ := h
      · exact hcode a b hlt _ _
      · rw [LawfulEqCmp.eq_of_compare heq, compare_append_left]
        exact ih bs hrest

end Embeddings

namespace Text

/-! ## UTF-8 -/

/-- The code points of a text. -/
def codePoints (s : String) : List Nat := s.toList.map Char.toNat

/-- A number in a first byte, which begins with the given one, and so many bytes after it that hold
six bits each, the lowest in the last. -/
def trailed (lead : Nat) : Nat → Nat → List Nat
  | 0, n => [lead + n]
  | k + 1, n => trailed lead k (n / 0x40) ++ [0x80 + n % 0x40]

/-- The form of a code point in UTF-8: what its first byte begins with, and how many bytes
follow. -/
def utf8Form (n : Nat) : Nat × Nat :=
  if n < 0x80 then (0, 0)
  else if n < 0x800 then (0xC0, 1)
  else if n < 0x10000 then (0xE0, 2)
  else (0xF0, 3)

/-- The bytes of a code point in UTF-8. -/
def utf8 (n : Nat) : List Nat := trailed (utf8Form n).1 (utf8Form n).2 n

/-- The library's encoding of a character consists of the bytes of its code point. -/
theorem map_utf8EncodeChar (c : Char) :
    (String.utf8EncodeChar c).map UInt8.toNat = utf8 c.toNat := by
  have hvalid : c.val.toNat.isValidChar := c.valid
  simp only [Nat.isValidChar] at hvalid
  unfold String.utf8EncodeChar utf8 utf8Form Char.toNat
  generalize c.val.toNat = n at hvalid
  dsimp only
  split
  · rw [if_pos (by omega)]
    simp [trailed]
    omega
  split
  · rw [if_neg (by omega), if_pos (by omega)]
    simp [trailed]
    omega
  split
  · rw [if_neg (by omega), if_neg (by omega), if_pos (by omega)]
    simp [trailed]
    omega
  · rw [if_neg (by omega), if_neg (by omega), if_neg (by omega)]
    simp [trailed]
    omega

/-! ## The order of encodings -/

theorem exists_trailed_cons (lead k n : Nat) :
    ∃ rest, trailed lead k n = (lead + n / 0x40 ^ k) :: rest := by
  induction k generalizing n with
  | zero => exact ⟨[], by simp [trailed]⟩
  | succ k ih =>
    obtain ⟨rest, hrest⟩ := ih (n / 0x40)
    refine ⟨rest ++ [0x80 + n % 0x40], ?_⟩
    rw [trailed, hrest, Nat.div_div_eq_div_mul, ← Nat.pow_succ', List.cons_append]

theorem compare_cons_of_lt {a b : Nat} (h : a < b) (as bs : List Nat) :
    compare (a :: as) (b :: bs) = .lt := by
  rw [List.compare_cons_cons, Nat.compare_eq_lt.2 h]
  rfl

/-- Of two numbers with equally many bytes the lower one has the lower bytes, whatever follows. -/
theorem compare_trailed_append (lead k : Nat) {m n : Nat} (h : m < n) (xs ys : List Nat) :
    compare (trailed lead k m ++ xs) (trailed lead k n ++ ys) = .lt := by
  induction k generalizing m n xs ys with
  | zero => exact compare_cons_of_lt (Nat.add_lt_add_left h lead) xs ys
  | succ k ih =>
    rw [trailed, trailed, List.append_assoc, List.append_assoc]
    have hdigits : m / 0x40 < n / 0x40 ∨ m / 0x40 = n / 0x40 ∧ m % 0x40 < n % 0x40 := by omega
    obtain hhigh | ⟨hhigh, hlow⟩ := hdigits
    · exact ih hhigh _ _
    · rw [hhigh, compare_append_left]
      exact compare_cons_of_lt (Nat.add_lt_add_left hlow 0x80) xs ys

/-- Of two code points that differ in their form the lower one has the lower first byte. -/
theorem utf8Form_cases {m n : Nat} (h : m < n) : utf8Form m = utf8Form n ∨
    (utf8Form m).1 + m / 0x40 ^ (utf8Form m).2 < (utf8Form n).1 + n / 0x40 ^ (utf8Form n).2 := by
  unfold utf8Form
  repeat' split
  all_goals grind

/-- Of two code points the lower one has the lower bytes, whatever follows. -/
theorem compare_utf8_append {m n : Nat} (h : m < n) (xs ys : List Nat) :
    compare (utf8 m ++ xs) (utf8 n ++ ys) = .lt := by
  rw [utf8, utf8]
  obtain hform | hfirst := utf8Form_cases h
  · rw [hform]
    exact compare_trailed_append _ _ h xs ys
  · obtain ⟨rest, hrest⟩ := exists_trailed_cons (utf8Form m).1 (utf8Form m).2 m
    obtain ⟨rest', hrest'⟩ := exists_trailed_cons (utf8Form n).1 (utf8Form n).2 n
    rw [hrest, hrest']
    exact compare_cons_of_lt hfirst _ _

theorem utf8_ne_nil (n : Nat) : utf8 n ≠ [] := by
  obtain ⟨rest, hrest⟩ := exists_trailed_cons (utf8Form n).1 (utf8Form n).2 n
  rw [utf8, hrest]
  exact List.cons_ne_nil _ _

/-! ## The order of texts -/

theorem compare_toNat (c d : Char) : compare c.toNat d.toNat = compare c d := by
  refine compare_of_strictMono (f := Char.toNat) (fun c d h ↦ ?_) c d
  have hlt : c < d := compareOfLessAndEq_eq_lt.1 h
  exact Nat.compare_eq_lt.2 hlt

theorem compare_byte (b b' : UInt8) : compare b.toNat b'.toNat = compare b b' := by
  refine compare_of_strictMono (f := UInt8.toNat) (fun b b' h ↦ ?_) b b'
  have hlt : b < b' := compareOfLessAndEq_eq_lt.1 h
  exact Nat.compare_eq_lt.2 (UInt8.lt_iff_toNat_lt.1 hlt)

theorem compare_chars_of_lt {cs ds : List Char} (h : cs < ds) : compare cs ds = .lt := by
  induction cs generalizing ds with
  | nil =>
    cases ds with
    | nil => exact absurd h (List.lt_irrefl _)
    | cons d ds => rfl
  | cons c cs ih =>
    cases ds with
    | nil => exact absurd h (List.not_lt_nil _)
    | cons d ds =>
      rw [List.compare_cons_cons, Ordering.then_eq_lt]
      obtain hlt | ⟨rfl, hrest⟩ := List.cons_lt_cons_iff.1 h
      · exact .inl (compareOfLessAndEq_eq_lt.2 hlt)
      · exact .inr ⟨compare_self, ih hrest⟩

/-- Strings are in the order of their code points. -/
theorem compare_codePoints (s t : String) :
    compare (codePoints s) (codePoints t) = compare s t := by
  have hchars : compare s.toList t.toList = compare s t := by
    refine compare_of_strictMono (f := String.toList) (fun s t h ↦ ?_) s t
    have hlt : s < t := compareOfLessAndEq_eq_lt.1 h
    exact compare_chars_of_lt (String.lt_iff.1 hlt)
  rw [codePoints, codePoints, compare_map compare_toNat, hchars]

/-- The bytes of a text are those of its code points. -/
theorem map_bytes (s : String) :
    (Value.text s).bytes.map UInt8.toNat = (codePoints s).flatMap utf8 := by
  have hbytes : (Value.text s).bytes = s.toList.flatMap String.utf8EncodeChar := by
    rw [Value.bytes, ← String.utf8Encode_toList, List.utf8Encode, List.toList_data_toByteArray]
  rw [hbytes, List.map_flatMap, codePoints, List.flatMap_map]
  exact congrArg (s.toList.flatMap ·) (funext map_utf8EncodeChar)

/-- The bytes of texts are in the order of their code points. -/
theorem compare_bytes (s t : String) : compare (Value.text s).bytes (Value.text t).bytes =
    compare (codePoints s) (codePoints t) := by
  have hcode : ∀ m n : Nat, compare m n = .lt →
      ∀ xs ys, compare (utf8 m ++ xs) (utf8 n ++ ys) = .lt :=
    fun _ _ h ↦ compare_utf8_append (Nat.compare_eq_lt.1 h)
  rw [← compare_map compare_byte, map_bytes, map_bytes, compare_flatMap hcode utf8_ne_nil]

/-- **There is one order of texts**: that of their code points.  Texts are in this order if they are
compared as texts, if they are compared byte by byte, as texts or as the binary values that they are
in UTF-8, and if they are keys of an index. -/
theorem compare_agrees (s t : String) :
    let order := compare (codePoints s) (codePoints t)
    Comparator.lexical.compare? (.text s) (.text t) = some order ∧
    Comparator.bytes.compare? (.text s) (.text t) = some order ∧
    Comparator.bytes.compare? (.binary (Value.text s).bytes) (.binary (Value.text t).bytes) =
      some order ∧
    compare (Value.text s) (Value.text t) = order ∧
    (Value.text s).bytes.map UInt8.toNat = (codePoints s).flatMap utf8 := by
  intro order
  have hlexical : compare s t = order := (compare_codePoints s t).symm
  have hbytes : compare (Value.text s).bytes (Value.text t).bytes = order := compare_bytes s t
  exact ⟨congrArg some hlexical, congrArg some hbytes, congrArg some hbytes, hlexical, map_bytes s⟩

/-- Where UTF-16 has the other order: the last character with three bytes comes before the first one
with four. -/
example : compare (Value.text "a\uffff").bytes (Value.text "a𐀀").bytes = .lt := by decide +kernel

end Text
end DirectoryQuery
