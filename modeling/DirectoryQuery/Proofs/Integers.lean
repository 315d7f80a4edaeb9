import Mathlib.Data.List.Induction
import Mathlib.Data.Nat.Digits.Defs
import DirectoryQuery.Proofs.Comparators

/-!
# The integers that values denote

A text denotes an integer if between blanks it has an optional sign and one or more ASCII digits,
each of which counts by the power of ten of its place (`Text.Denotes`).  This says nothing about how
a text is read.  `Text.integer?_eq_some_iff` says that reading finds the integer denoted, whatever
the number of leading zeros, if it lies between -2^127 and 2^127 - 1, and nothing otherwise; so two
values compare as integers exactly when both are texts that denote integers in that range.

Reading need not form a number out of range: digit by digit, giving up with the first number that
leaves the range, it comes to the same result (`Text.integer?_eq_checked?`).  With a minus sign the
count goes downwards, since the range has one more integer below zero than above.
-/

set_option autoImplicit false

namespace DirectoryQuery
namespace Text

variable {s : String} {lead body trail cs ds : List Char} {m n : Int}

/-! ## Denotations -/

/-- How much a digit counts in its place. -/
def digitValue (d : Char) : Nat := d.toNat - '0'.toNat

/-- One or more ASCII digits. -/
def Numeric (ds : List Char) : Prop := ds ≠ [] ∧ ∀ d ∈ ds, d.isDigit = true

/-- The number that digits denote, each by the power of ten of its place. -/
def positional (ds : List Char) : Nat := Nat.ofDigits 10 (ds.reverse.map digitValue)

/-- The integers that an optional sign with digits behind it denotes. -/
inductive Signed : List Char → Int → Prop
  | unsigned {ds : List Char} (h : Numeric ds) : Signed ds (positional ds)
  | plus {ds : List Char} (h : Numeric ds) : Signed ('+' :: ds) (positional ds)
  | minus {ds : List Char} (h : Numeric ds) : Signed ('-' :: ds) (-positional ds)

/-- The integers that a text denotes, the blanks around it not counting. -/
def Denotes (s : String) (n : Int) : Prop :=
  ∃ lead body trail, s.toList = lead ++ body ++ trail ∧ lead.all isBlank = true ∧
    trail.all isBlank = true ∧ Signed body n

/-- The integers from -2^127 to 2^127 - 1. -/
def Fits (n : Int) : Prop := -2 ^ 127 ≤ n ∧ n ≤ 2 ^ 127 - 1

/-! ## Digits -/

theorem numeric_iff : Numeric ds ↔ (!ds.isEmpty && ds.all Char.isDigit) = true := by
  simp [Numeric]

/-- What digits in front of others count: a power of ten for each of those behind them. -/
theorem foldl_digits (ds : List Char) (k : Nat) :
    ds.foldl (fun n d ↦ 10 * n + digitValue d) k = 10 ^ ds.length * k + positional ds := by
  induction ds generalizing k with
  | nil => simp [positional]
  | cons d ds ih =>
    have hplace : positional (d :: ds) = positional ds + 10 ^ ds.length * digitValue d := by
      simp [positional, Nat.ofDigits_append]
    rw [List.foldl_cons, ih, hplace, List.length_cons]
    ring

/-- Going through the digits from the first is counting each by its place. -/
theorem decimal_eq (ds : List Char) : decimal ds = positional ds := by
  simpa [decimal, digitValue] using foldl_digits ds 0

theorem digits?_eq_some_iff {k : Nat} :
    digits? ds = some k ↔ Numeric ds ∧ positional ds = k := by
  rw [digits?, numeric_iff, decimal_eq]
  split <;> simp_all

theorem signed?_minus (ds : List Char) :
    signed? ('-' :: ds) = (digits? ds).map fun k : Nat ↦ -(k : Int) := by
  rw [signed?]
  cases digits? ds <;> rfl

theorem signed?_plus (ds : List Char) :
    signed? ('+' :: ds) = (digits? ds).map fun k : Nat ↦ (k : Int) := by
  rw [signed?]
  cases digits? ds <;> rfl

theorem signed?_unsigned (hminus : cs.head? ≠ some '-') (hplus : cs.head? ≠ some '+') :
    signed? cs = (digits? cs).map fun k : Nat ↦ (k : Int) := by
  unfold signed?
  split
  · exact absurd rfl hminus
  · exact absurd rfl hplus
  · cases digits? cs <;> rfl

theorem map_digits?_eq_some_iff {f : Nat → Int} :
    (digits? ds).map f = some n ↔ Numeric ds ∧ f (positional ds) = n := by
  simp only [Option.map_eq_some_iff, digits?_eq_some_iff]
  constructor
  · rintro ⟨k, ⟨hds, rfl⟩, hn⟩
    exact ⟨hds, hn⟩
  · rintro ⟨hds, hn⟩
    exact ⟨_, ⟨hds, rfl⟩, hn⟩

/-- What is read with a sign is what the sign and the digits denote. -/
theorem signed?_eq_some_iff : signed? cs = some n ↔ Signed cs n := by
  constructor
  · intro h
    by_cases hminus : cs.head? = some '-'
    · obtain ⟨ds, rfl⟩ := List.head?_eq_some_iff.1 hminus
      rw [signed?_minus, map_digits?_eq_some_iff] at h
      obtain ⟨hds, rfl⟩ := h
      exact .minus hds
    by_cases hplus : cs.head? = some '+'
    · obtain ⟨ds, rfl⟩ := List.head?_eq_some_iff.1 hplus
      rw [signed?_plus, map_digits?_eq_some_iff] at h
      obtain ⟨hds, rfl⟩ := h
      exact .plus hds
    · rw [signed?_unsigned hminus hplus, map_digits?_eq_some_iff] at h
      obtain ⟨hds, rfl⟩ := h
      exact .unsigned hds
  · intro h
    cases h with
    | unsigned hds =>
      -- a sign is no digit, so digits do not begin with one
      have hhead : ∀ d, d.isDigit = false → cs.head? ≠ some d := fun d hd h ↦
        Bool.false_ne_true (hd ▸ hds.2 d (List.mem_of_head? h))
      rw [signed?_unsigned (hhead _ rfl) (hhead _ rfl), map_digits?_eq_some_iff]
      exact ⟨hds, rfl⟩
    | plus hds =>
      rw [signed?_plus, map_digits?_eq_some_iff]
      exact ⟨hds, rfl⟩
    | minus hds =>
      rw [signed?_minus, map_digits?_eq_some_iff]
      exact ⟨hds, rfl⟩

/-! ## Blanks at the ends -/

/-- No blank is a digit or a sign. -/
theorem isBlank_of_isDigit {c : Char} (h : c.isDigit = true) : isBlank c = false := by
  have hrange : 48 ≤ c.toNat ∧ c.toNat ≤ 57 := Char.isDigit_iff_toNat.1 h
  simp only [isBlank, Bool.or_eq_false_iff, Bool.and_eq_false_iff, beq_eq_false_iff_ne,
    decide_eq_false_iff_not]
  omega

/-- A list whose first and last characters are no blanks. -/
def Tight (cs : List Char) : Prop :=
  ∃ first last, cs.head? = some first ∧ cs.getLast? = some last ∧ isBlank first = false ∧
    isBlank last = false

theorem Signed.tight (h : Signed cs n) : Tight cs := by
  have hlast : ∀ {ds : List Char}, Numeric ds → ∃ d, ds.getLast? = some d ∧ isBlank d = false :=
    fun h ↦ ⟨_, List.getLast?_eq_some_getLast h.1,
      isBlank_of_isDigit (h.2 _ (List.getLast_mem h.1))⟩
  cases h with
  | unsigned hds =>
    obtain ⟨d, hd, hblank⟩ := hlast hds
    exact ⟨_, d, List.head?_eq_some_head hds.1, hd,
      isBlank_of_isDigit (hds.2 _ (List.head_mem hds.1)), hblank⟩
  | plus hds | minus hds =>
    obtain ⟨d, hd, hblank⟩ := hlast hds
    exact ⟨_, d, rfl, by rw [List.getLast?_cons, hd]; rfl, by decide, hblank⟩

theorem dropWhile_isBlank_of_head (h : lead.all isBlank = true) {c : Char}
    (hc : cs.head? = some c) (hblank : isBlank c = false) :
    (lead ++ cs).dropWhile isBlank = cs := by
  rw [List.dropWhile_append_of_pos (List.all_eq_true.1 h)]
  cases cs with
  | nil => cases hc
  | cons d cs =>
    obtain rfl : d = c := by simpa using hc
    rw [List.dropWhile_cons_of_neg (by simp [hblank])]

/-- Blanks at the ends are dropped, and nothing else. -/
theorem trim_append (hlead : lead.all isBlank = true) (htrail : trail.all isBlank = true)
    (hbody : Tight body) : trim (lead ++ body ++ trail) = body := by
  obtain ⟨first, last, hfirst, hlast, hblank, hblank'⟩ := hbody
  have hfront : (lead ++ body ++ trail).dropWhile isBlank = body ++ trail := by
    rw [List.append_assoc]
    exact dropWhile_isBlank_of_head hlead (by rw [List.head?_append, hfirst]; rfl) hblank
  rw [trim, hfront, List.reverse_append,
    dropWhile_isBlank_of_head (by simpa using htrail) (by rw [List.head?_reverse, hlast]) hblank',
    List.reverse_reverse]

theorem exists_trim (cs : List Char) : ∃ lead trail, cs = lead ++ trim cs ++ trail ∧
    lead.all isBlank = true ∧ trail.all isBlank = true := by
  refine ⟨cs.takeWhile isBlank, ((cs.dropWhile isBlank).reverse.takeWhile isBlank).reverse, ?_,
    List.all_takeWhile, by rw [List.all_reverse, List.all_takeWhile]⟩
  rw [trim, List.append_assoc, ← List.reverse_append, List.takeWhile_append_dropWhile,
    List.reverse_reverse, List.takeWhile_append_dropWhile]

theorem denotes_iff : Denotes s n ↔ Signed (trim s.toList) n := by
  constructor
  · rintro ⟨lead, body, trail, hs, hlead, htrail, hbody⟩
    rwa [hs, trim_append hlead htrail hbody.tight]
  · intro h
    obtain ⟨lead, trail, hs, hlead, htrail⟩ := exists_trim s.toList
    exact ⟨lead, _, trail, hs, hlead, htrail, h⟩

/-- A text denotes one integer at most. -/
theorem Denotes.unique (hm : Denotes s m) (hn : Denotes s n) : m = n := by
  rw [denotes_iff, ← signed?_eq_some_iff] at hm hn
  exact Option.some.inj (hm.symm.trans hn)

/-! ## Reading -/

/-- What is read is what is denoted, within the range. -/
theorem integer?_eq_some_iff :
    integer? s = some n ↔ Denotes s n ∧ Fits n := by
  have hleast : leastInteger = -2 ^ 127 := rfl
  have hgreatest : greatestInteger = 2 ^ 127 - 1 := rfl
  rw [integer?, Option.filter_eq_some_iff, signed?_eq_some_iff, denotes_iff, Fits,
    Bool.and_eq_true, decide_eq_true_eq, decide_eq_true_eq, hleast, hgreatest]

/-! ## Reading without numbers out of range -/

/-- The number, if it is in the range. -/
def inRange? (n : Int) : Option Int :=
  if leastInteger ≤ n ∧ n ≤ greatestInteger then some n else none

/-- The number counted from zero downwards or upwards. -/
def counted (down : Bool) (k : Nat) : Int := if down then -k else k

/-- Appends a digit to a number, counting downwards or upwards, and gives up if that leaves the
range. -/
def append? (down : Bool) (n : Int) (d : Char) : Option Int :=
  if d.isDigit then inRange? (10 * n + counted down (digitValue d)) else none

/-- Reads digits one by one, counting downwards or upwards. -/
def accumulate? (down : Bool) (ds : List Char) : Option Int := ds.foldlM (append? down) 0

/-- A number in the range has its first digits in the range. -/
theorem append?_counted (down : Bool) (k : Nat) {d : Char} (hd : d.isDigit = true) :
    ((inRange? (counted down k)).bind fun n ↦ append? down n d) =
      inRange? (counted down (10 * k + digitValue d)) := by
  have hbounds : leastInteger ≤ 0 ∧ 0 ≤ greatestInteger := by decide
  have hcounted : 10 * counted down k + counted down (digitValue d) =
      counted down (10 * k + digitValue d) := by
    cases down <;> simp only [counted] <;> grind
  have hfirst : counted down (10 * k + digitValue d) ≤ counted down k ∧ counted down k ≤ 0 ∨
      0 ≤ counted down k ∧ counted down k ≤ counted down (10 * k + digitValue d) := by
    cases down <;> simp only [counted] <;> grind
  by_cases hk : leastInteger ≤ counted down k ∧ counted down k ≤ greatestInteger
  · rw [inRange?, if_pos hk, Option.bind_some, append?, if_pos hd, hcounted]
  · rw [inRange?, if_neg hk, Option.bind_none, inRange?, if_neg (by omega)]

/-- Reading that gives up with the first number out of range finds what reading everything finds.
The induction is on the digits from the last. -/
theorem accumulate?_eq (down : Bool) (ds : List Char) : accumulate? down ds =
    if ds.all Char.isDigit then inRange? (counted down (decimal ds)) else none := by
  induction ds using List.reverseRecOn with
  | nil => cases down <;> rfl
  | append_singleton ds d ih =>
    have hdecimal : decimal (ds ++ [d]) = 10 * decimal ds + digitValue d := by
      simp [decimal, digitValue]
    have hlast : accumulate? down (ds ++ [d]) =
        (accumulate? down ds).bind fun n ↦ append? down n d := by
      rw [accumulate?, List.foldlM_append]
      exact Option.bind_congr fun n _ ↦ bind_pure _
    rw [hlast, ih, hdecimal]
    by_cases hds : ds.all Char.isDigit = true
    · by_cases hd : d.isDigit = true
      · simp [hds, hd, append?_counted]
      · simp [hd, append?]
    · simp [hds]

/-- Reads one or more digits without forming a number out of range. -/
def checkedDigits? (down : Bool) (ds : List Char) : Option Int :=
  if ds.isEmpty then none else accumulate? down ds

/-- Reads an optional sign and digits without forming a number out of range. -/
def checked? : List Char → Option Int
  | '-' :: ds => checkedDigits? true ds
  | '+' :: ds => checkedDigits? false ds
  | ds => checkedDigits? false ds

theorem checkedDigits?_eq (down : Bool) (ds : List Char) : checkedDigits? down ds =
    ((digits? ds).map (counted down)).filter
      fun n ↦ leastInteger ≤ n && n ≤ greatestInteger := by
  rw [checkedDigits?, accumulate?_eq, digits?]
  cases hempty : ds.isEmpty <;> cases hall : ds.all Char.isDigit <;>
    simp [inRange?, Option.filter]

/-- A value is read without forming a number out of range. -/
theorem integer?_eq_checked? (s : String) : integer? s = checked? (trim s.toList) := by
  unfold checked?
  split
  · rename_i ds hcs
    rw [integer?, hcs, signed?_minus, checkedDigits?_eq]
    rfl
  · rename_i ds hcs
    rw [integer?, hcs, signed?_plus, checkedDigits?_eq]
    rfl
  · rename_i hminus hplus
    have hhead : ∀ c, (∀ ds, trim s.toList ≠ c :: ds) → (trim s.toList).head? ≠ some c :=
      fun c hc h ↦ (List.head?_eq_some_iff.1 h).elim hc
    rw [integer?, signed?_unsigned (hhead _ hminus) (hhead _ hplus), checkedDigits?_eq]
    rfl

end Text

/-! ## Comparing integers -/

namespace Comparator

open Text

theorem integer_compare?_binary (bs : List UInt8) (v : Value) :
    integer.compare? (.binary bs) v = none ∧ integer.compare? v (.binary bs) = none := by
  cases v <;> exact ⟨rfl, rfl⟩

theorem integer_compare?_text_eq_some_iff {s t : String} {o : Ordering} :
    integer.compare? (.text s) (.text t) = some o ↔
      ∃ m n, integer? s = some m ∧ integer? t = some n ∧ compare m n = o := by
  rw [compare?_integer]
  exact compareBy_eq_some_iff

theorem isSome_integer_compare?_text (s t : String) :
    (integer.compare? (.text s) (.text t)).isSome =
      ((integer? s).isSome && (integer? t).isSome) := by
  rw [compare?_integer]
  exact isSome_compareBy _ _ _

/-- Texts have the order of the integers they denote if both integers are in the range, and are
incomparable otherwise; no value is comparable with a binary value. -/
theorem integer_compare?_exact :
    (∀ (s t : String) (o : Ordering), integer.compare? (.text s) (.text t) = some o ↔
      ∃ m n : Int, Denotes s m ∧ Denotes t n ∧ Fits m ∧ Fits n ∧ o = compare m n) ∧
    (∀ s t : String, integer.compare? (.text s) (.text t) = none ↔
      ¬((∃ m, Denotes s m ∧ Fits m) ∧ ∃ n, Denotes t n ∧ Fits n)) ∧
    ∀ (bs : List UInt8) (v : Value),
      integer.compare? (.binary bs) v = none ∧ integer.compare? v (.binary bs) = none := by
  refine ⟨fun s t o ↦ ?_, fun s t ↦ ?_, integer_compare?_binary⟩
  · simp only [integer_compare?_text_eq_some_iff, integer?_eq_some_iff]
    constructor
    · rintro ⟨m, n, ⟨hs, hm⟩, ⟨ht, hn⟩, rfl⟩
      exact ⟨m, n, hs, ht, hm, hn, rfl⟩
    · rintro ⟨m, n, hs, ht, hm, hn, rfl⟩
      exact ⟨m, n, ⟨hs, hm⟩, ⟨ht, hn⟩, rfl⟩
  · rw [← Option.not_isSome_iff_eq_none, isSome_integer_compare?_text, Bool.and_eq_true]
    simp only [Option.isSome_iff_exists, integer?_eq_some_iff]

example : integer.compare? (.text " +007") (.text "7\u3000") = some .eq := by decide +kernel

example : integer.compare? (.text "-170141183460469231731687303715884105728")
    (.text "170141183460469231731687303715884105727") = some .lt := by decide +kernel

end Comparator
end DirectoryQuery
