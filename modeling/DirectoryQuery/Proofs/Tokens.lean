import DirectoryQuery.Json.Printer
import DirectoryQuery.Json.Token

/-!
# Written JSON cut into tokens

The text that is written for a value is cut into the tokens one expects (`Json.tokens?_chars`): one
for each mark, string and bare word.  Marks and strings are over with their last character, but a
bare word goes on until another character ends it.  So there are two conditions on a run of
characters: `Scans` is about reading them where a token may begin, `Resumes` also about reading them
where a bare word may have to end first.

What is asked of the value is that its numbers are as they would be read (`Numeral.Legible`) and
that no part of it is unreadable.
-/

set_option autoImplicit false

namespace DirectoryQuery

/-! ## Digits -/

namespace Numeral

theorem le_ofDigitChars (ds : List Char) (n : Nat) : n ≤ Nat.ofDigitChars 10 ds n := by
  rw [Nat.ofDigitChars_eq_ofDigitChars_zero]
  have hpos : 0 < 10 ^ ds.length := Nat.pow_pos (by omega)
  exact Nat.le_add_right_of_le (Nat.le_mul_of_pos_left n hpos)

/-- Digits that fit are taken in. -/
theorem absorb_of_lt {ds : List Char} {n : Nat} (h : Nat.ofDigitChars 10 ds n < UInt64.size) :
    absorb n ds = (Nat.ofDigitChars 10 ds n, []) := by
  induction ds generalizing n with
  | nil => simp [absorb]
  | cons d ds ih =>
    rw [Nat.ofDigitChars_cons] at h ⊢
    rw [absorb, if_pos (Nat.lt_of_le_of_lt (le_ofDigitChars ds _) h), ih h]

/-- The number is as it would be read: its significand fits into 64 bits, and if it is whole it has
no power of ten. -/
structure Legible (n : Numeral) : Prop where
  fits : n.significand < UInt64.size
  unscaled : n.whole = true → n.exponent = 0

theorem legible_ofNat {n : Nat} (h : n < UInt64.size) : (ofNat n).Legible := ⟨h, fun _ ↦ rfl⟩

end Numeral

namespace Json

theorem decimal_natChars (n : Nat) : Text.decimal (natChars n) = n := by
  rw [Text.decimal, ← Nat.ofDigitChars_eq_foldl]
  exact Nat.ofDigitChars_ten_toDigits

theorem isDigit_of_mem_natChars {n : Nat} {c : Char} (h : c ∈ natChars n) : c.isDigit = true :=
  Nat.isDigit_of_mem_toDigits (by omega) (by omega) h

/-- The first digit of a number is zero only when that is the number. -/
theorem eq_zero_of_head?_natChars {n : Nat} (h : (natChars n).head? = some '0') : n = 0 := by
  induction n using Nat.strongRecOn with
  | ind n ih =>
    rw [natChars, Nat.toDigits_eq_if (by omega)] at h
    by_cases hn : n < 10
    · rw [if_pos hn] at h
      simpa using h
    · rw [if_neg hn, List.head?_append, Option.or_of_isSome (by simp)] at h
      have hzero := ih (n / 10) (by omega) h
      omega

theorem exists_natChars_cons (n : Nat) : ∃ d ds, natChars n = d :: ds ∧ d.isDigit = true := by
  obtain ⟨d, ds, hds⟩ := List.exists_cons_of_ne_nil (Nat.toDigits_ne_nil (n := n) (b := 10))
  exact ⟨d, ds, hds, isDigit_of_mem_natChars (hds ▸ List.mem_cons_self)⟩

/-! ## Numbers -/

theorem isEmpty_natChars (n : Nat) : (natChars n).isEmpty = false :=
  List.isEmpty_eq_false_iff.2 Nat.toDigits_ne_nil

theorem all_isDigit_natChars (n : Nat) : (natChars n).all Char.isDigit = true :=
  List.all_eq_true.2 fun _ ↦ isDigit_of_mem_natChars

theorem digits?_natChars (n : Nat) : Text.digits? (natChars n) = some n := by
  rw [Text.digits?, isEmpty_natChars, all_isDigit_natChars, decimal_natChars]
  rfl

/-- The integer that was written is read. -/
theorem signed?_intChars (e : Int) : Text.signed? (intChars e) = some e := by
  cases e with
  | ofNat n =>
    have hdigits := digits?_natChars n
    obtain ⟨d, ds, hds, hd⟩ := exists_natChars_cons n
    have hminus : d ≠ '-' := by rintro rfl; cases hd
    have hplus : d ≠ '+' := by rintro rfl; cases hd
    rw [hds] at hdigits
    simp [intChars, hds, Text.signed?, hminus, hplus, hdigits]
  | negSucc n =>
    rw [intChars, Text.signed?, digits?_natChars]
    rfl

/-- Digits that are written before something else are read up to there. -/
theorem unsigned?_natChars (negative : Bool) (n : Nat) {rest : List Char}
    (hrest : rest.head?.all fun c ↦ !c.isDigit) :
    unsigned? negative (natChars n ++ rest) = afterInteger? negative (natChars n) rest := by
  have hdigits : ∀ c ∈ natChars n, c.isDigit = true := fun _ ↦ isDigit_of_mem_natChars
  have htake : (natChars n ++ rest).takeWhile Char.isDigit = natChars n := by
    rw [List.takeWhile_append_of_pos hdigits]
    cases rest <;> simp_all
  have hdrop : (natChars n ++ rest).dropWhile Char.isDigit = rest := by
    rw [List.dropWhile_append_of_pos hdigits]
    cases rest <;> simp_all
  have hzero : ((natChars n).head? == some '0' && decide (1 < (natChars n).length)) = false := by
    rw [Bool.and_eq_false_iff, beq_eq_false_iff_ne]
    by_cases hhead : (natChars n).head? = some '0'
    · rw [eq_zero_of_head?_natChars hhead]
      exact .inr rfl
    · exact .inl hhead
  rw [unsigned?, htake, hdrop, isEmpty_natChars, hzero]
  rfl

/-- The number that was written is read. -/
theorem numeral?_numeralChars {n : Numeral} (h : n.Legible) :
    numeral? (numeralChars n) = some n := by
  obtain ⟨negative, significand, exponent, whole⟩ := n
  obtain ⟨hfits, hunscaled⟩ := h
  have hvalue : Nat.ofDigitChars 10 (natChars significand) 0 = significand :=
    Nat.ofDigitChars_ten_toDigits
  have habsorb : Numeral.absorb 0 (natChars significand) = (significand, []) := by
    rw [Numeral.absorb_of_lt (by rwa [hvalue]), hvalue]
  have hunsigned : unsigned? negative
      (natChars significand ++ if whole then [] else 'e' :: intChars exponent) =
        some ⟨negative, significand, exponent, whole⟩ := by
    cases whole with
    | true =>
      obtain rfl : exponent = 0 := hunscaled rfl
      rw [if_pos rfl, unsigned?_natChars _ _ rfl, afterInteger?, Numeral.ofInteger, habsorb]
      rfl
    | false =>
      rw [if_neg (by decide), unsigned?_natChars _ _ rfl]
      simp [afterInteger?, exponent?, signed?_intChars, Numeral.ofDecimal, Numeral.absorb, habsorb]
  cases negative with
  | true => simpa [numeralChars, numeral?] using hunsigned
  | false =>
    obtain ⟨d, ds, hds, hd⟩ := exists_natChars_cons significand
    have hminus : d ≠ '-' := by rintro rfl; cases hd
    rw [hds] at hunsigned
    simpa [numeralChars, numeral?, hds, hminus] using hunsigned

/-! ## Bare words -/

/-- A number does not begin with a letter. -/
theorem head?_numeralChars (n : Numeral) : (numeralChars n).head?.any Char.isAlpha = false := by
  obtain ⟨d, ds, hds, hd⟩ := exists_natChars_cons n.significand
  have halpha : d.isAlpha = false := by
    have hdigits : ∀ n < 58, 48 ≤ n → (Char.ofNat n).isAlpha = false := by decide
    obtain ⟨hfirst, hlast⟩ := Char.isDigit_iff_toNat.1 hd
    rw [← Char.ofNat_toNat d]
    exact hdigits _ (Nat.lt_succ_of_le hlast) hfirst
  cases hnegative : n.negative with
  | true => simp [numeralChars, hnegative]
  | false => simpa [numeralChars, hnegative, hds] using halpha

theorem word?_numeralChars {n : Numeral} (h : n.Legible) :
    word? (numeralChars n) = some (.number n) := by
  have hletter : ∀ cs : List Char, cs.head?.any Char.isAlpha = true → numeralChars n ≠ cs := by
    rintro _ hcs rfl
    rw [head?_numeralChars] at hcs
    cases hcs
  rw [word?, if_neg (hletter _ rfl), if_neg (hletter _ rfl), if_neg (hletter _ rfl),
    numeral?_numeralChars h]
  rfl

theorem all_isBare_natChars (n : Nat) : (natChars n).all isBare = true := by
  rw [List.all_eq_true]
  intro c hc
  simp [isBare, Char.isAlphanum, isDigit_of_mem_natChars hc]

theorem all_isBare_numeralChars (n : Numeral) : (numeralChars n).all isBare = true := by
  have hexponent : (intChars n.exponent).all isBare = true := by
    cases n.exponent with
    | ofNat m => exact all_isBare_natChars m
    | negSucc m =>
      rw [intChars, List.all_cons, all_isBare_natChars]
      rfl
  rw [numeralChars, List.all_append, List.all_append, all_isBare_natChars]
  cases n.negative <;> cases n.whole <;> simp [hexponent] <;> decide

/-! ## Strings -/

theorem hexDigit?_hexChar {n : Nat} (h : n < 16) : hexDigit? (hexChar n) = some n :=
  (by decide : ∀ n < 16, hexDigit? (hexChar n) = some n) n h

/-- Text is put together from the code points of its characters. -/
theorem textOf?_map_toNat (cs : List Char) : textOf? (cs.map Char.toNat) = some cs := by
  have hplain : ∀ c : Char, isHighSurrogate c.toNat = false ∧ isLowSurrogate c.toNat = false := by
    intro c
    have hvalid : c.toNat.isValidChar := c.valid
    simp [isHighSurrogate, isLowSurrogate, Nat.isValidChar] at hvalid ⊢
    omega
  match cs with
  | [] => rfl
  | [c] => simp [textOf?, hplain]
  | c :: d :: rest =>
    have ih := textOf?_map_toNat (d :: rest)
    rw [List.map_cons, List.map_cons, textOf?] at *
    simp [hplain, ih]

namespace Scanner

variable {ts earlier : List Token} {t : Token} {s : Scanner} {c : Char} {cs cs' : List Char}

/-! ## Reading on -/

/-- The scanner has the tokens, last one first.  The last may be a bare word that still goes on. -/
def Has (earlier : List Token) (s : Scanner) : Prop :=
  match s.mode with
  | .between => s.tokens = earlier
  | .bare seen => ∃ v, word? seen.reverse = some v ∧ .word v :: s.tokens = earlier
  | _ => False

/-- Read where a token may begin, the characters are the tokens. -/
def Scans (cs : List Char) (ts : List Token) : Prop :=
  ∀ earlier, ∃ s, cs.foldlM step ⟨earlier, .between⟩ = some s ∧ s.Has (ts.reverse ++ earlier)

/-- Read where a token may begin or a bare word may end, the characters are the tokens. -/
def Resumes (cs : List Char) (ts : List Token) : Prop :=
  ∀ s earlier, s.Has earlier →
    ∃ s', cs.foldlM step s = some s' ∧ s'.Has (ts.reverse ++ earlier)

theorem Has.finish (h : s.Has ts) : s.finish = some ts.reverse := by
  obtain ⟨tokens, mode⟩ := s
  cases mode with
  | between => exact congrArg (some ∘ List.reverse) h
  | bare seen =>
    obtain ⟨v, hv, rfl⟩ := h
    simp [Scanner.finish, hv]
  | _ => exact h.elim

/-- A character that goes on with no bare word does the same behind one as where a token may
begin. -/
theorem Has.step_eq {f : List Token → List Token} (h : s.Has earlier) (hbare : isBare c = false)
    (hbegin : ∀ tokens, begin? tokens c = some ⟨f tokens, .between⟩) :
    s.step c = some ⟨f earlier, .between⟩ := by
  obtain ⟨tokens, mode⟩ := s
  cases mode with
  | between =>
    obtain rfl : tokens = earlier := h
    exact hbegin tokens
  | bare seen =>
    obtain ⟨v, hv, rfl⟩ := h
    simp [step, hbare, hv, hbegin (.word v :: tokens)]
  | _ => exact h.elim

/-- A mark ends a bare word and is a token. -/
theorem Has.step_mark (h : s.Has earlier) (hc : Token.punctuation? c = some t) :
    s.step c = some ⟨t :: earlier, .between⟩ := by
  have hbegin : isBare c = false ∧ ∀ tokens, begin? tokens c = some ⟨t :: tokens, .between⟩ := by
    unfold Token.punctuation? at hc
    split at hc <;> cases hc <;> exact ⟨rfl, fun _ ↦ rfl⟩
  exact h.step_eq hbegin.1 hbegin.2

/-- A space ends a bare word and is no token. -/
theorem Has.step_space (h : s.Has earlier) (hc : isSpace c = true) :
    s.step c = some ⟨earlier, .between⟩ := by
  have hbare : isBare c = false := by
    simp only [isSpace, Bool.or_eq_true, beq_iff_eq] at hc
    rcases hc with ((rfl | rfl) | rfl) | rfl <;> rfl
  exact h.step_eq (f := id) hbare fun _ ↦ if_pos hc

theorem scans_nil : Scans [] [] := fun _ ↦ ⟨_, rfl, rfl⟩

theorem resumes_nil : Resumes [] [] := fun s _ h ↦ ⟨s, rfl, h⟩

variable {ts' : List Token}

theorem Scans.append (h : Scans cs ts) (h' : Resumes cs' ts') : Scans (cs ++ cs') (ts ++ ts') := by
  intro earlier
  obtain ⟨s, hs, hhas⟩ := h earlier
  obtain ⟨s', hs', hhas'⟩ := h' s _ hhas
  refine ⟨s', ?_, by simpa using hhas'⟩
  rw [List.foldlM_append, hs]
  exact hs'

/-- A mark and what is read after it. -/
theorem Scans.mark (hc : Token.punctuation? c = some t) (h : Scans cs ts) :
    Resumes (c :: cs) (t :: ts) := by
  intro s earlier hhas
  obtain ⟨s', hs', hhas'⟩ := h (t :: earlier)
  refine ⟨s', ?_, by simpa using hhas'⟩
  rw [List.foldlM_cons, hhas.step_mark hc]
  exact hs'

theorem Resumes.scans (h : Resumes cs ts) : Scans cs ts := fun earlier ↦ h _ earlier rfl

theorem resumes_space (hc : isSpace c = true) : Resumes [c] [] := by
  intro s earlier hhas
  refine ⟨⟨earlier, .between⟩, ?_, rfl⟩
  rw [List.foldlM_cons, hhas.step_space hc]
  rfl

/-- The tokens of a whole text. -/
theorem Scans.tokens? (h : Scans cs ts) : tokens? cs = some ts := by
  obtain ⟨s, hs, hhas⟩ := h []
  rw [Json.tokens?, Scanner.start, hs, Option.bind_some, hhas.finish]
  simp

/-! ## Words and strings -/

theorem step_bare {seen : List Char} (h : isBare c = true) :
    step ⟨earlier, .bare seen⟩ c = some ⟨earlier, .bare (c :: seen)⟩ := if_pos h

theorem foldlM_bare {seen : List Char} (h : cs.all isBare = true) :
    cs.foldlM step ⟨earlier, .bare seen⟩ = some ⟨earlier, .bare (cs.reverse ++ seen)⟩ := by
  induction cs generalizing seen with
  | nil => rfl
  | cons c cs ih =>
    rw [List.all_cons, Bool.and_eq_true] at h
    rw [List.foldlM_cons, step_bare h.1]
    simpa using ih h.2

theorem begin?_bare (h : isBare c = true) : begin? earlier c = some ⟨earlier, .bare [c]⟩ := by
  have hspace : isSpace c = false := by
    rw [← Bool.not_eq_true]
    intro hc
    simp only [isSpace, Bool.or_eq_true, beq_iff_eq] at hc
    rcases hc with ((rfl | rfl) | rfl) | rfl <;> cases h
  have hquote : c ≠ '"' := by
    rintro rfl
    cases h
  simp [begin?, hspace, hquote, h]

theorem scans_word {v : Json} (hbare : cs.all isBare = true) (hne : cs ≠ [])
    (hv : word? cs = some v) : Scans cs [.word v] := by
  intro earlier
  cases cs with
  | nil => exact absurd rfl hne
  | cons c cs =>
    rw [List.all_cons, Bool.and_eq_true] at hbare
    refine ⟨⟨earlier, .bare (c :: cs).reverse⟩, ?_, v, by simpa using hv, rfl⟩
    have hbegin : step ⟨earlier, .between⟩ c = some ⟨earlier, .bare [c]⟩ := begin?_bare hbare.1
    rw [List.foldlM_cons, hbegin]
    simpa using foldlM_bare hbare.2

/-- There are three ways in which characters are written within strings. -/
theorem escape_cases (c : Char) :
    (∃ d, d ≠ 'u' ∧ escaped? d = some c ∧ escape c = ['\\', d]) ∨
      c.toNat < 0x20 ∧
        escape c = ['\\', 'u', '0', '0', hexChar (c.toNat / 16), hexChar (c.toNat % 16)] ∨
      c ≠ '"' ∧ c ≠ '\\' ∧ 0x20 ≤ c.toNat ∧ escape c = [c] := by
  have hletter : ∀ d c' : Char, c = c' → d ≠ 'u' → escaped? d = some c' →
      ∃ d', d' ≠ 'u' ∧ escaped? d' = some c ∧ ['\\', d] = ['\\', d'] := by
    rintro d _ rfl hd hescaped
    exact ⟨d, hd, hescaped, rfl⟩
  unfold escape
  repeat' split
  all_goals first
    | exact .inl (hletter _ _ ‹_› (by decide) rfl)
    | exact .inr (.inl ⟨‹_›, rfl⟩)
    | exact .inr (.inr ⟨‹_›, ‹_›, by omega, rfl⟩)

/-- Within a string, what is written for a character is read as its code point. -/
theorem foldlM_escape (c : Char) (seen : List Nat) :
    (escape c).foldlM step ⟨earlier, .text seen⟩ = some ⟨earlier, .text (c.toNat :: seen)⟩ := by
  obtain ⟨d, hd, hescaped, heq⟩ | ⟨hlow, heq⟩ | ⟨hquote, hslash, hhigh, heq⟩ := escape_cases c
  · have hstep : step ⟨earlier, .escape seen⟩ d = some ⟨earlier, .text (c.toNat :: seen)⟩ := by
      simp [step, hd, hescaped]
    rw [heq]
    show [d].foldlM step ⟨earlier, .escape seen⟩ = _
    rw [List.foldlM_cons, hstep]
    rfl
  · have hdigit : ∀ n < 16, ∀ count value, step ⟨earlier, .hex seen count value⟩ (hexChar n) =
        some (if count = 3 then ⟨earlier, .text ((16 * value + n) :: seen)⟩
          else ⟨earlier, .hex seen (count + 1) (16 * value + n)⟩) := by
      intro n hn count value
      simp [step, hexDigit?_hexChar hn]
    have hvalue : 16 * (c.toNat / 16) + c.toNat % 16 = c.toNat := Nat.div_add_mod _ _
    rw [heq]
    show [hexChar (c.toNat / 16), hexChar (c.toNat % 16)].foldlM step ⟨earlier, .hex seen 2 0⟩ = _
    simp [hdigit, hvalue, show c.toNat / 16 < 16 by omega, Nat.mod_lt]
  · rw [heq]
    simp [step, hquote, hslash, Nat.not_lt.2 hhigh]

theorem foldlM_escapes (cs : List Char) (seen : List Nat) :
    (cs.flatMap escape).foldlM step ⟨earlier, .text seen⟩ =
      some ⟨earlier, .text ((cs.map Char.toNat).reverse ++ seen)⟩ := by
  induction cs generalizing seen with
  | nil => rfl
  | cons c cs ih =>
    rw [List.flatMap_cons, List.foldlM_append, foldlM_escape]
    simpa using ih (c.toNat :: seen)

theorem scans_string (s : String) : Scans (stringChars s) [.text (some s)] := by
  intro earlier
  refine ⟨⟨.text (some s) :: earlier, .between⟩, ?_, rfl⟩
  have hopen : step ⟨earlier, .between⟩ '"' = some ⟨earlier, .text []⟩ := rfl
  have hclose : step ⟨earlier, .text (s.toList.map Char.toNat).reverse⟩ '"' =
      some ⟨.text (some s) :: earlier, .between⟩ := by
    simp [step, textOf?_map_toNat]
  rw [stringChars, List.cons_append, List.foldlM_cons, hopen]
  simp [List.foldlM_append, foldlM_escapes, hclose]

end Scanner

/-! ## Values -/

mutual
/-- Every number in the value is as it would be read, and no part is unreadable. -/
def Legible : Json → Prop
  | number n => n.Legible
  | array items => LegibleEach items
  | object members => LegibleMembers members
  | unreadable => False
  | _ => True
/-- The same of every item. -/
def LegibleEach : List Json → Prop
  | [] => True
  | item :: items => Legible item ∧ LegibleEach items
/-- The same of every member. -/
def LegibleMembers : List (String × Json) → Prop
  | [] => True
  | (_, value) :: members => Legible value ∧ LegibleMembers members
end

theorem legibleEach_iff {items : List Json} : LegibleEach items ↔ ∀ j ∈ items, j.Legible := by
  induction items with
  | nil => simp [LegibleEach]
  | cons item items ih => simp [LegibleEach, ih]

theorem legibleMembers_iff {members : List (String × Json)} :
    LegibleMembers members ↔ ∀ m ∈ members, m.2.Legible := by
  induction members with
  | nil => simp [LegibleMembers]
  | cons m members ih => simp [LegibleMembers, ih]

theorem legible_list {α : Type} {write : α → Json} (h : ∀ a, (write a).Legible) (l : List α) :
    (list write l).Legible := by
  refine legibleEach_iff.2 fun j hj ↦ ?_
  obtain ⟨a, -, rfl⟩ := List.mem_map.1 hj
  exact h a

mutual
/-- The tokens of a value. -/
def tokens : Json → List Token
  | string s => [.text (some s)]
  | array items => .bracketOpen :: itemsTokens items ++ [.bracketClose]
  | object members => .braceOpen :: membersTokens members ++ [.braceClose]
  | j => [.word j]
/-- The tokens of the items of an array. -/
def itemsTokens : List Json → List Token
  | [] => []
  | item :: items => tokens item ++ moreItemsTokens items
/-- The tokens of further items. -/
def moreItemsTokens : List Json → List Token
  | [] => []
  | item :: items => .comma :: tokens item ++ moreItemsTokens items
/-- The tokens of the members of an object. -/
def membersTokens : List (String × Json) → List Token
  | [] => []
  | (key, value) :: members =>
    .text (some key) :: .colon :: tokens value ++ moreMembersTokens members
/-- The tokens of further members. -/
def moreMembersTokens : List (String × Json) → List Token
  | [] => []
  | (key, value) :: members =>
    .comma :: .text (some key) :: .colon :: tokens value ++ moreMembersTokens members
end

open Scanner in
mutual
/-- The text of a value is read as its tokens. -/
theorem scans_chars : ∀ {j : Json}, j.Legible → Scans j.chars j.tokens
  | null, _ => scans_word (by decide) (by decide) rfl
  | bool true, _ => scans_word (by decide) (by decide) rfl
  | bool false, _ => scans_word (by decide) (by decide) rfl
  | number n, h => by
    have hne : numeralChars n ≠ [] := by simp [numeralChars, natChars]
    exact scans_word (all_isBare_numeralChars n) hne (word?_numeralChars h)
  | string s, _ => scans_string s
  | array items, h => by
    refine (Scans.mark rfl ?_).scans
    exact (scans_itemsChars h).append (Scans.mark rfl scans_nil)
  | object members, h => by
    refine (Scans.mark rfl ?_).scans
    exact (scans_membersChars h).append (Scans.mark rfl scans_nil)
  | unreadable, h => h.elim
theorem scans_itemsChars : ∀ {items : List Json}, LegibleEach items →
    Scans (itemsChars items) (itemsTokens items)
  | [], _ => scans_nil
  | _ :: _, h => (scans_chars h.1).append (resumes_moreItemsChars h.2)
theorem resumes_moreItemsChars : ∀ {items : List Json}, LegibleEach items →
    Resumes (moreItemsChars items) (moreItemsTokens items)
  | [], _ => resumes_nil
  | _ :: _, h => Scans.mark rfl ((scans_chars h.1).append (resumes_moreItemsChars h.2))
theorem scans_membersChars : ∀ {members : List (String × Json)}, LegibleMembers members →
    Scans (membersChars members) (membersTokens members)
  | [], _ => scans_nil
  | (key, _) :: _, h => by
    have hmember := (scans_string key).append (Scans.mark (c := ':') rfl (scans_chars h.1))
    exact hmember.append (resumes_moreMembersChars h.2)
theorem resumes_moreMembersChars : ∀ {members : List (String × Json)}, LegibleMembers members →
    Resumes (moreMembersChars members) (moreMembersTokens members)
  | [], _ => resumes_nil
  | (key, _) :: _, h => by
    have hmember := (scans_string key).append (Scans.mark (c := ':') rfl (scans_chars h.1))
    exact Scans.mark rfl (hmember.append (resumes_moreMembersChars h.2))
end

/-- **The text of a value is cut into its tokens.** -/
theorem tokens?_chars {j : Json} (h : j.Legible) : tokens? j.chars = some j.tokens :=
  (scans_chars h).tokens?

/-- A space after the text makes no difference. -/
theorem tokens?_chars_space {j : Json} (h : j.Legible) {c : Char} (hc : isSpace c = true) :
    tokens? (j.chars ++ [c]) = some j.tokens := by
  have hscans := (scans_chars h).append (Scanner.resumes_space hc)
  rw [List.append_nil] at hscans
  exact hscans.tokens?

end Json
end DirectoryQuery
