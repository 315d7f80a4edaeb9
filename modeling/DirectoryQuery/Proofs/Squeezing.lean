import DirectoryQuery.Proofs.Wildcards

/-!
# Normal forms of texts put together

A text that is put together from parts has a normal form in which the normal forms of the parts
occur in the same order, with something between them or nothing (`Text.Splits`).  For blanks that
are taken away nothing is between the parts.  For blanks that are squeezed it may be one space: it
depends on whether a word goes on from one part to the next (`Text.splits_squeezed`).

Whatever splits in this way preserves what a wildcard shape describes, if the fragments of the shape
are brought into the normal form as well.
-/

set_option autoImplicit false

namespace DirectoryQuery
namespace Text

variable {c : Char} {cs : List Char}

/-! ## Squeezing, character by character -/

/-- The characters with outer blanks taken away and each inner run of them replaced by one space. -/
def squeezed (cs : List Char) : List Char := unwords (words cs)

/-- What becomes of the characters behind one that belongs to a word. -/
def resumed (cs : List Char) : List Char :=
  if startsWord cs || cs.all isBlank then squeezed cs else ' ' :: squeezed cs

theorem toList_squeeze (s : String) : (squeeze s).toList = squeezed s.toList :=
  String.toList_ofList

theorem unwords_cons (w : List Char) (ws : List (List Char)) :
    unwords (w :: ws) = w ++ if ws.isEmpty then [] else ' ' :: unwords ws := by
  cases ws <;> simp [unwords, List.intercalate]

theorem words_of_startsWord (h : startsWord cs = true) : ∃ w ws, words cs = w :: ws := by
  cases cs with
  | nil => cases h
  | cons c cs =>
    have hc : isBlank c = false := by simpa [startsWord] using h
    rw [words, if_neg (by simp [hc])]
    split
    · cases words cs <;> exact ⟨_, _, rfl⟩
    · exact ⟨_, _, rfl⟩

theorem isEmpty_words (cs : List Char) : (words cs).isEmpty = cs.all isBlank := by
  induction cs with
  | nil => rfl
  | cons c cs ih =>
    by_cases hc : isBlank c = true
    · rw [words_cons_blank hc, ih, List.all_cons, hc, Bool.true_and]
    · have hstarts : startsWord (c :: cs) = true := by simpa [startsWord] using hc
      obtain ⟨w, ws, hws⟩ := words_of_startsWord hstarts
      simp [hws, hc]

theorem squeezed_of_all_blank (h : cs.all isBlank = true) : squeezed cs = [] := by
  rw [squeezed, words_eq_nil_of_all_blank h]
  rfl

theorem squeezed_cons_blank (h : isBlank c = true) : squeezed (c :: cs) = squeezed cs := by
  rw [squeezed, words_cons_blank h, squeezed]

theorem squeezed_cons (h : isBlank c = false) : squeezed (c :: cs) = c :: resumed cs := by
  rw [squeezed, words, if_neg (by simp [h]), resumed, squeezed]
  by_cases hstarts : startsWord cs = true
  · obtain ⟨w, ws, hws⟩ := words_of_startsWord hstarts
    simp [hstarts, hws, joinFirst, unwords_cons]
  · by_cases hblank : cs.all isBlank = true
    · simp [hstarts, hblank, words_eq_nil_of_all_blank, unwords, List.intercalate]
    · rw [if_neg hstarts, if_neg (by simp [hstarts, hblank]), unwords_cons, isEmpty_words,
        if_neg hblank]
      rfl

/-! ## Parts -/

/-- Of what is put together, the parts become parts again, in this order. -/
def Splits (f : List Char → List Char) : Prop :=
  ∀ cs cs', ∃ gap, f (cs ++ cs') = f cs ++ gap ++ f cs'

theorem Splits.nil {f : List Char → List Char} (h : Splits f) : f [] = [] := by
  obtain ⟨gap, hgap⟩ := h [] []
  have hlength := congrArg List.length hgap
  rw [List.append_nil, List.length_append, List.length_append] at hlength
  exact List.eq_nil_of_length_eq_zero (by omega)

theorem splits_id : Splits id := fun _ _ ↦ ⟨[], by simp⟩

theorem splits_filter (p : Char → Bool) : Splits (List.filter p) := fun _ _ ↦ ⟨[], by simp⟩

theorem exists_resumed (cs : List Char) : ∃ gap, resumed cs = gap ++ squeezed cs := by
  rw [resumed]
  split
  · exact ⟨[], rfl⟩
  · exact ⟨[' '], rfl⟩

/-- If squeezing splits the characters, then so it does where they go on behind a word. -/
theorem resumed_append {cs' : List Char}
    (h : ∃ gap, squeezed (cs ++ cs') = squeezed cs ++ gap ++ squeezed cs') :
    ∃ gap, resumed (cs ++ cs') = resumed cs ++ gap ++ squeezed cs' := by
  obtain ⟨gap, hgap⟩ := h
  by_cases hblank : cs.all isBlank = true
  · have hnil : resumed cs = [] := by simp [resumed, hblank, squeezed_of_all_blank]
    obtain ⟨more, hmore⟩ := exists_resumed (cs ++ cs')
    exact ⟨more ++ gap, by simp [hmore, hgap, hnil, squeezed_of_all_blank hblank]⟩
  · have hstarts : startsWord (cs ++ cs') = startsWord cs := by
      cases cs with
      | nil => exact absurd rfl hblank
      | cons c cs => rfl
    have hall : (cs ++ cs').all isBlank = false := by simp [hblank]
    by_cases hword : startsWord cs = true
    · exact ⟨gap, by simp [resumed, hstarts, hword, hgap]⟩
    · exact ⟨gap, by simp [resumed, hstarts, hword, hblank, hall, hgap]⟩

theorem splits_squeezed : Splits squeezed := by
  intro cs cs'
  induction cs with
  | nil => exact ⟨[], rfl⟩
  | cons c cs ih =>
    by_cases hc : isBlank c = true
    · rw [List.cons_append, squeezed_cons_blank hc, squeezed_cons_blank hc]
      exact ih
    · replace hc : isBlank c = false := by simpa using hc
      obtain ⟨gap, hgap⟩ := resumed_append ih
      exact ⟨gap, by rw [List.cons_append, squeezed_cons hc, squeezed_cons hc, hgap]; rfl⟩

/-! ## What squeezing leaves -/

/-- No character of a word is lost, and none is added. -/
theorem filter_squeezed (cs : List Char) :
    (squeezed cs).filter (fun c ↦ !isBlank c) = cs.filter fun c ↦ !isBlank c := by
  induction cs with
  | nil => rfl
  | cons c cs ih =>
    by_cases hc : isBlank c = true
    · simp [squeezed_cons_blank hc, hc, ih]
    · replace hc : isBlank c = false := by simpa using hc
      have hresumed : (resumed cs).filter (fun c ↦ !isBlank c) = cs.filter fun c ↦ !isBlank c := by
        rw [resumed]
        split
        · exact ih
        · rw [List.filter_cons_of_neg (by decide), ih]
      simp [squeezed_cons hc, hc, hresumed]

/-- A character of words is there as often as before. -/
theorem count_squeezed (h : isBlank c = false) (cs : List Char) :
    (squeezed cs).count c = cs.count c := by
  have hfilter : ∀ l : List Char, (l.filter fun c ↦ !isBlank c).count c = l.count c := fun l ↦
    List.count_filter (by simp [h])
  rw [← hfilter, filter_squeezed, hfilter]

end Text

/-! ## Wildcard shapes -/

namespace Wildcard

open Text

variable {head tail cs : List Char} {middles : List (List Char)} {f : List Char → List Char}

theorem Strung.map (hf : Splits f) (h : Strung middles cs) : Strung (middles.map f) (f cs) := by
  induction middles generalizing cs with
  | nil => trivial
  | cons fragment middles ih =>
    obtain ⟨gap, rest, rfl, hrest⟩ := h
    obtain ⟨before, hbefore⟩ := hf (gap ++ fragment) rest
    obtain ⟨between, hbetween⟩ := hf gap fragment
    exact ⟨f gap ++ between, before ++ f rest, by rw [hbefore, hbetween]; simp, (ih hrest).behind _⟩

/-- What splits keeps the frame. -/
theorem Framed.map (hf : Splits f) (h : Framed head middles tail cs) :
    Framed (f head) (middles.map f) (f tail) (f cs) := by
  obtain ⟨between, rfl, hbetween⟩ := h
  obtain ⟨last, hlast⟩ := hf (head ++ between) tail
  obtain ⟨first, hfirst⟩ := hf head between
  refine ⟨first ++ f between ++ last, by rw [hlast, hfirst]; simp, ?_⟩
  exact ((hbetween.map hf).behind first).append last

/-- What a shape of normalized fragments describes, by the characters of the fragments. -/
theorem mapFragments_describes_iff {w : Wildcard} {normalize : String → String} {t : String}
    (hempty : normalize "" = "") : (w.mapFragments normalize).Describes t ↔
      Framed (normalize (String.ofList w.headChars)).toList
        (w.middleChars.map fun m ↦ (normalize (String.ofList m)).toList)
        (normalize (String.ofList w.tailChars)).toList t.toList := by
  have hends : ∀ s : Option String, (s.map normalize).getD "" = normalize (s.getD "") := fun s ↦ by
    cases s <;> simp [hempty]
  rw [describes_iff]
  simp [headChars, middleChars, tailChars, mapFragments, hends, Function.comp_def]

end Wildcard
end DirectoryQuery
