import DirectoryQuery.Proofs.Squeezing
import DirectoryQuery.Text.Lowercase

/-!
# Lower-casing within a text

What characters become in lower case depends on the text around them only by the capital sigma, and
for that it is enough to know whether a letter is seen before the characters and whether one is seen
after them (`Text.lowered`).  So a text that is put together from parts is put into lower case part
by part, each part knowing what it sees (`Text.lowered_append`).

Blanks stay as they are, no other character becomes one, and no letter is seen across a blank.
Hence it makes no difference whether blanks are squeezed before or after (`Text.lowered_squeezed`).
-/

set_option autoImplicit false

namespace DirectoryQuery
namespace Text

variable {c : Char} {cs cs' : List Char}

/-! ## What is seen -/

/-- Whether the nearest character that is not passed over is a letter; if all are passed over, what
is seen beyond them. -/
def sees (cs : List Char) (beyond : Bool) : Bool :=
  match cs.dropWhile isCaseIgnorable with
  | [] => beyond
  | c :: _ => isCased c

theorem sees_cons (c : Char) (cs : List Char) (beyond : Bool) :
    sees (c :: cs) beyond = if isCaseIgnorable c then sees cs beyond else isCased c := by
  by_cases hc : isCaseIgnorable c = true <;> simp [sees, hc]

theorem sees_append (cs cs' : List Char) (beyond : Bool) :
    sees (cs ++ cs') beyond = sees cs (sees cs' beyond) := by
  induction cs with
  | nil => rfl
  | cons c cs ih => rw [List.cons_append, sees_cons, sees_cons, ih]

theorem sees_of_ignorable (h : cs.all isCaseIgnorable = true) (beyond : Bool) :
    sees cs beyond = beyond := by
  induction cs with
  | nil => rfl
  | cons c cs ih =>
    rw [List.all_cons, Bool.and_eq_true] at h
    rw [sees_cons, if_pos h.1, ih h.2]

/-! ## Lower-casing by what is seen -/

/-- Lower-case form of one character, which ends a word or does not. -/
def lowerWhere (c : Char) (ends : Bool) : List Char :=
  if c = 'Σ' then [if ends then 'ς' else 'σ']
  else if c = 'İ' then ['i', '\u0307']
  else [Char.ofNat (lowerPoint c.toNat)]

/-- Lower-case form of characters, by whether a letter is seen before them and after them. -/
def lowered (before : Bool) : List Char → Bool → List Char
  | [], _ => []
  | c :: cs, after =>
    lowerWhere c (before && !sees cs after) ++ lowered (sees [c] before) cs after

theorem lowerAfter_eq (before cs : List Char) :
    lowerAfter before cs = lowered (sees before false) cs false := by
  induction cs generalizing before with
  | nil => rfl
  | cons c cs ih =>
    have hseen : sees (c :: before) false = sees [c] (sees before false) := sees_append [c] _ _
    rw [lowerAfter, lowered, ih, hseen]
    rfl

theorem toList_lower (s : String) : (lower s).toList = lowered false s.toList false := by
  rw [lower, String.toList_ofList, lowerAfter_eq]
  rfl

/-- Parts are put into lower case one by one. -/
theorem lowered_append (before after : Bool) (cs cs' : List Char) :
    lowered before (cs ++ cs') after =
      lowered before cs (sees cs' after) ++ lowered (sees cs.reverse before) cs' after := by
  induction cs generalizing before with
  | nil => rfl
  | cons c cs ih =>
    rw [List.cons_append, lowered, lowered, ih, sees_append, List.reverse_cons, sees_append,
      List.append_assoc]

/-! ## Blanks -/

/-- The blanks as closed runs of code points. -/
def blankRuns : List (Nat × Nat) :=
  [(9, 13), (0x20, 0x20), (0x85, 0x85), (0xA0, 0xA0), (0x1680, 0x1680), (0x2000, 0x200A),
    (0x2028, 0x2029), (0x202F, 0x202F), (0x205F, 0x205F), (0x3000, 0x3000)]

/-- No code point is in runs of both lists. -/
def disjoint (runs runs' : List (Nat × Nat)) : Bool :=
  runs.all fun r ↦ runs'.all fun r' ↦ decide (r.2 < r'.1) || decide (r'.2 < r.1)

theorem inRuns_eq_false_of_disjoint {runs runs' : List (Nat × Nat)} {n : Nat}
    (h : disjoint runs runs' = true) (hn : inRuns runs n = true) : inRuns runs' n = false := by
  simp only [disjoint, inRuns, List.all_eq_true, List.any_eq_true, Bool.or_eq_true,
    Bool.and_eq_true, decide_eq_true_eq] at h hn
  obtain ⟨r, hr, hfirst, hlast⟩ := hn
  rw [← Bool.not_eq_true]
  intro hin
  simp only [inRuns, List.any_eq_true, Bool.and_eq_true, decide_eq_true_eq] at hin
  obtain ⟨r', hr', hfirst', hlast'⟩ := hin
  have := h r hr r' hr'
  omega

theorem isBlank_eq_inRuns (c : Char) : isBlank c = inRuns blankRuns c.toNat := by
  simp only [isBlank, inRuns, blankRuns, List.any_cons, List.any_nil, Bool.or_false]
  rw [Bool.eq_iff_iff]
  simp only [Bool.or_eq_true, Bool.and_eq_true, decide_eq_true_eq, beq_iff_eq]
  omega

/-- No letter is seen across a blank. -/
theorem sees_cons_blank (h : isBlank c = true) (cs : List Char) (beyond : Bool) :
    sees (c :: cs) beyond = false := by
  rw [isBlank_eq_inRuns] at h
  have hignorable : isCaseIgnorable c = false :=
    inRuns_eq_false_of_disjoint (by decide +kernel : disjoint blankRuns ignorableRuns = true) h
  have hcased : isCased c = false :=
    inRuns_eq_false_of_disjoint (by decide +kernel : disjoint blankRuns casedRuns = true) h
  simp [sees_cons, hignorable, hcased]

/-- The runs of capitals that have one small letter each. -/
def capitalRuns : List (Nat × Nat) := lowerRuns.map fun r ↦ (r.first, r.last)

/-- The runs of code points to which these capitals go. -/
def smallRuns : List (Nat × Nat) := lowerRuns.map fun r ↦ (r.target, r.target + (r.last - r.first))

/-- A code point either stays or is a capital of a run. -/
theorem lowerPoint_run (n : Nat) :
    lowerPoint n = n ∨ ∃ r ∈ lowerRuns, r.first ≤ n ∧ n ≤ r.last ∧ (n - r.first) % r.step = 0 ∧
      lowerPoint n = r.target + (n - r.first) := by
  unfold lowerPoint
  split
  · exact .inl rfl
  · rename_i r hfound
    have hmem := List.mem_of_find?_eq_some hfound
    have hlast := List.find?_some hfound
    split
    · rename_i hfirst
      simp only [Bool.and_eq_true, decide_eq_true_eq, beq_iff_eq] at hfirst hlast
      exact .inr ⟨r, hmem, hfirst.1, hlast, hfirst.2, rfl⟩
    · exact .inl rfl

/-- A code point either stays or is a capital and becomes a small letter. -/
theorem lowerPoint_cases (n : Nat) :
    lowerPoint n = n ∨ inRuns capitalRuns n = true ∧ inRuns smallRuns (lowerPoint n) = true := by
  obtain heq | ⟨r, hmem, hfirst, hlast, -, heq⟩ := lowerPoint_run n
  · exact .inl heq
  · refine .inr ⟨List.any_eq_true.2 ⟨_, List.mem_map_of_mem hmem, ?_⟩,
      List.any_eq_true.2 ⟨_, List.mem_map_of_mem hmem, ?_⟩⟩
    · simp [hfirst, hlast]
    · simp [heq]
      omega

/-- What a character becomes is a character. -/
theorem toNat_ofNat_lowerPoint (c : Char) :
    (Char.ofNat (lowerPoint c.toNat)).toNat = lowerPoint c.toNat := by
  obtain heq | ⟨-, hsmall⟩ := lowerPoint_cases c.toNat
  · rw [heq, Char.ofNat_toNat]
  · have hruns : ∀ r ∈ smallRuns, r.2 < 0xD800 ∨ 0xDFFF < r.1 ∧ r.2 < 0x110000 := by
      decide +kernel
    have hvalid : (lowerPoint c.toNat).isValidChar := by
      simp only [inRuns, List.any_eq_true, Bool.and_eq_true, decide_eq_true_eq] at hsmall
      obtain ⟨r, hr, hfirst, hlast⟩ := hsmall
      have := hruns r hr
      unfold Nat.isValidChar
      omega
    rw [Char.ofNat, dif_pos hvalid]
    rfl

theorem lowerPoint_blank {n : Nat} (h : inRuns blankRuns n = true) : lowerPoint n = n := by
  obtain heq | ⟨hcapital, -⟩ := lowerPoint_cases n
  · exact heq
  · have hnone := inRuns_eq_false_of_disjoint
      (by decide +kernel : disjoint blankRuns capitalRuns = true) h
    rw [hcapital] at hnone
    cases hnone

theorem inRuns_blank_lowerPoint {n : Nat} (h : inRuns blankRuns n = false) :
    inRuns blankRuns (lowerPoint n) = false := by
  obtain heq | ⟨-, hsmall⟩ := lowerPoint_cases n
  · rw [heq, h]
  · exact inRuns_eq_false_of_disjoint
      (by decide +kernel : disjoint smallRuns blankRuns = true) hsmall

/-- A blank stays as it is. -/
theorem lowerWhere_blank (h : isBlank c = true) (ends : Bool) : lowerWhere c ends = [c] := by
  have hsigma : c ≠ 'Σ' := by
    rintro rfl
    cases h
  have hdotted : c ≠ 'İ' := by
    rintro rfl
    cases h
  rw [isBlank_eq_inRuns] at h
  simp [lowerWhere, hsigma, hdotted, lowerPoint_blank h]

/-- A character of a word becomes characters of a word. -/
theorem lowerWhere_word (h : isBlank c = false) (ends : Bool) :
    ∃ d ds, lowerWhere c ends = d :: ds ∧ isBlank d = false ∧ ds.all (fun d ↦ !isBlank d) := by
  unfold lowerWhere
  split
  · cases ends <;> exact ⟨_, _, rfl, rfl, rfl⟩
  split
  · exact ⟨_, _, rfl, rfl, rfl⟩
  · refine ⟨_, _, rfl, ?_, rfl⟩
    rw [isBlank_eq_inRuns] at h ⊢
    rw [toNat_ofNat_lowerPoint, inRuns_blank_lowerPoint h]

theorem lowered_cons_blank (h : isBlank c = true) (before after : Bool) (cs : List Char) :
    lowered before (c :: cs) after = c :: lowered false cs after := by
  rw [lowered, lowerWhere_blank h, sees_cons_blank h]
  rfl

theorem lowered_of_all_blank (h : cs.all isBlank = true) (before after : Bool) :
    lowered before cs after = cs := by
  induction cs generalizing before with
  | nil => rfl
  | cons c cs ih =>
    rw [List.all_cons, Bool.and_eq_true] at h
    rw [lowered_cons_blank h.1, ih h.2]

/-- Lower-casing keeps whether a word begins, and whether there is one at all. -/
theorem startsWord_lowered (before after : Bool) (cs : List Char) :
    startsWord (lowered before cs after) = startsWord cs ∧
      (lowered before cs after).all isBlank = cs.all isBlank := by
  induction cs generalizing before with
  | nil => exact ⟨rfl, rfl⟩
  | cons c cs ih =>
    by_cases hc : isBlank c = true
    · simp [lowered_cons_blank hc, startsWord, ih]
    · obtain ⟨d, ds, hds, hd, -⟩ := lowerWhere_word (by simpa using hc) (before && !sees cs after)
      simp [lowered, hds, startsWord, hd, hc]

/-! ## Squeezing and lower-casing -/

theorem squeezed_append_word {ds : List Char} (hc : isBlank c = false)
    (hds : ds.all fun d ↦ !isBlank d) : squeezed (c :: ds ++ cs) = c :: ds ++ resumed cs := by
  induction ds generalizing c with
  | nil => exact squeezed_cons hc
  | cons d ds ih =>
    rw [List.all_cons, Bool.and_eq_true, Bool.not_eq_true'] at hds
    have hresumed : resumed (d :: ds ++ cs) = squeezed (d :: ds ++ cs) := by
      simp [resumed, startsWord, hds.1]
    rw [List.cons_append, squeezed_cons hc, hresumed, ih hds.1 hds.2]
    rfl

/-- Squeezing does not change what is seen behind a character of a word. -/
theorem sees_resumed (cs : List Char) : sees (resumed cs) false = sees cs false := by
  induction cs with
  | nil => rfl
  | cons c cs ih =>
    by_cases hc : isBlank c = true
    · rw [sees_cons_blank hc, resumed]
      split
      · rename_i hblank
        simp only [startsWord, hc, Bool.not_true, Bool.false_or] at hblank
        rw [squeezed_of_all_blank hblank]
        rfl
      · exact sees_cons_blank (by decide) _ _
    · have hresumed : resumed (c :: cs) = c :: resumed cs := by
        simp [resumed, startsWord, hc, squeezed_cons]
      rw [hresumed, sees_cons, sees_cons, ih]

/-- If lower-casing goes with squeezing where a word or nothing goes on, then also behind a word. -/
theorem lowered_resumed (before : Bool)
    (h : ∀ before, startsWord cs = true ∨ before = false →
      lowered before (squeezed cs) false = squeezed (lowered before cs false)) :
    lowered before (resumed cs) false = resumed (lowered before cs false) := by
  obtain ⟨hstarts, hall⟩ := startsWord_lowered before false cs
  rw [resumed, resumed, hstarts, hall]
  by_cases hword : startsWord cs = true
  · simp [hword, h]
  · by_cases hblank : cs.all isBlank = true
    · simp [hblank, squeezed_of_all_blank, lowered_of_all_blank, lowered]
    · rw [if_neg (by simp [hword, hblank]), if_neg (by simp [hword, hblank]),
        lowered_cons_blank (by decide), h false (.inr rfl)]
      cases cs with
      | nil => exact absurd rfl hblank
      | cons c cs =>
        have hc : isBlank c = true := by simpa [startsWord] using hword
        rw [lowered_cons_blank hc, lowered_cons_blank hc]

/-- **Blanks may be squeezed before lower-casing or after it.** -/
theorem lowered_squeezed (before : Bool) (h : startsWord cs = true ∨ before = false) :
    lowered before (squeezed cs) false = squeezed (lowered before cs false) := by
  induction cs generalizing before with
  | nil => rfl
  | cons c cs ih =>
    by_cases hc : isBlank c = true
    · rw [squeezed_cons_blank hc, lowered_cons_blank hc, squeezed_cons_blank hc]
      obtain rfl : before = false := h.resolve_left (by simp [startsWord, hc])
      exact ih false (.inr rfl)
    · replace hc : isBlank c = false := by simpa using hc
      obtain ⟨d, ds, hds, hd, hall⟩ := lowerWhere_word hc (before && !sees cs false)
      rw [squeezed_cons hc, lowered, lowered, sees_resumed, lowered_resumed _ ih, hds,
        squeezed_append_word hd hall]

end Text
end DirectoryQuery
