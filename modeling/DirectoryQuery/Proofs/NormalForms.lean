import Mathlib.Data.List.Chain
import DirectoryQuery.MatchingRule
import DirectoryQuery.Proofs.Names

/-!
# Normal forms of values

Normalizing a value that is normalized already changes nothing.  Where a normalizer does two things
one after the other, squeezing blanks and putting letters into lower case, that is not because each
of them is done once and for all: lower-casing might undo the squeezing.  It does not, since the two
may change places (`Text.lower_squeeze`).

Squeezing is canonical.  What words a text consists of is said without taking it apart
(`Text.Consists`), and every text consists of one list of words only.  A squeezed text is tidy
(`Text.Tidy`), and two texts have one squeezed form exactly if they consist of the same words
(`Normalizer.canonical`).
-/

set_option autoImplicit false

namespace DirectoryQuery
namespace Text

variable {cs lead w rest : List Char} {ws : List (List Char)} {s s' : String}

/-! ## The words of a text -/

/-- There are characters, and none of them is a blank. -/
def IsWord (w : List Char) : Prop := w ≠ [] ∧ ∀ c ∈ w, isBlank c = false

/-- The characters are these words in this order, with blanks around them and between any two. -/
inductive Consists : List Char → List (List Char) → Prop
  /-- Blanks alone have no words. -/
  | blanks {cs : List Char} (hblank : ∀ c ∈ cs, isBlank c = true) : Consists cs []
  /-- A word that ends where a blank comes or nothing. -/
  | word {lead w rest : List Char} {ws : List (List Char)} (hlead : ∀ c ∈ lead, isBlank c = true)
      (hw : IsWord w) (hends : startsWord rest = false) (hrest : Consists rest ws) :
      Consists (lead ++ w ++ rest) (w :: ws)

theorem words_append_of_blank (h : ∀ c ∈ lead, isBlank c = true) (cs : List Char) :
    words (lead ++ cs) = words cs := by
  induction lead with
  | nil => rfl
  | cons c lead ih =>
    rw [List.forall_mem_cons] at h
    rw [List.cons_append, words_cons_blank h.1, ih h.2]

theorem words_append_of_isWord (hw : IsWord w) (hends : startsWord rest = false) :
    words (w ++ rest) = w :: words rest := by
  obtain ⟨hne, hw⟩ := hw
  induction w with
  | nil => exact absurd rfl hne
  | cons c w ih =>
    rw [List.forall_mem_cons] at hw
    rw [List.cons_append, words, if_neg (by simp [hw.1])]
    cases w with
    | nil => rw [List.nil_append, if_neg (by simp [hends])]
    | cons d w =>
      have hstarts : startsWord (d :: w ++ rest) = true := by simp [startsWord, hw.2]
      rw [if_pos hstarts, ih (List.cons_ne_nil d w) hw.2, joinFirst]

theorem Consists.words_eq (h : Consists cs ws) : words cs = ws := by
  induction h with
  | blanks hblank => exact words_eq_nil_of_all_blank (List.all_eq_true.2 hblank)
  | word hlead hw hends _ ih =>
    rw [List.append_assoc, words_append_of_blank hlead, words_append_of_isWord hw hends, ih]

theorem Consists.isWord (h : Consists cs ws) : ∀ w ∈ ws, IsWord w := by
  induction h with
  | blanks => exact fun _ hw ↦ nomatch hw
  | word _ hw _ _ ih => exact List.forall_mem_cons.2 ⟨hw, ih⟩

theorem Consists.cons_blank {c : Char} (hc : isBlank c = true) (h : Consists cs ws) :
    Consists (c :: cs) ws := by
  cases h with
  | blanks hblank => exact .blanks (List.forall_mem_cons.2 ⟨hc, hblank⟩)
  | word hlead hw hends hrest =>
    exact .word (List.forall_mem_cons.2 ⟨hc, hlead⟩) hw hends hrest

/-- A character that belongs to a word goes in front of the first word if that begins at once. -/
theorem Consists.cons_join {c : Char} (hc : isBlank c = false) (hstarts : startsWord cs = true)
    (h : Consists cs ws) : Consists (c :: cs) (joinFirst c ws) := by
  cases h with
  | blanks hblank =>
    cases cs with
    | nil => cases hstarts
    | cons d cs => simp [startsWord, hblank d] at hstarts
  | @word lead w rest ws hlead hw hends hrest =>
    cases lead with
    | nil =>
      have hword : IsWord (c :: w) := ⟨List.cons_ne_nil c w, List.forall_mem_cons.2 ⟨hc, hw.2⟩⟩
      exact Consists.word hlead hword hends hrest
    | cons d lead => simp [startsWord, hlead d] at hstarts

/-- Every text consists of the words that are found in it. -/
theorem consists_words (cs : List Char) : Consists cs (words cs) := by
  induction cs with
  | nil => exact .blanks fun _ hc ↦ nomatch hc
  | cons c cs ih =>
    by_cases hc : isBlank c = true
    · rw [words_cons_blank hc]
      exact ih.cons_blank hc
    · replace hc : isBlank c = false := by simpa using hc
      rw [words, if_neg (by simp [hc])]
      split
      · rename_i hstarts
        exact ih.cons_join hc hstarts
      · rename_i hstarts
        have hlead : ∀ d ∈ ([] : List Char), isBlank d = true := fun _ hd ↦ nomatch hd
        have hword : IsWord [c] := ⟨List.cons_ne_nil c [], by simpa using hc⟩
        exact Consists.word hlead hword (by simpa using hstarts) ih

theorem consists_iff : Consists cs ws ↔ words cs = ws :=
  ⟨Consists.words_eq, fun h ↦ h ▸ consists_words cs⟩

/-! ## Words written with single spaces -/

/-- What follows a word does not go on with it. -/
theorem startsWord_separated (ws : List (List Char)) :
    startsWord (if ws.isEmpty then [] else ' ' :: unwords ws) = false := by
  split <;> rfl

theorem words_unwords (h : ∀ w ∈ ws, IsWord w) : words (unwords ws) = ws := by
  induction ws with
  | nil => rfl
  | cons w ws ih =>
    rw [List.forall_mem_cons] at h
    rw [unwords_cons, words_append_of_isWord h.1 (startsWord_separated ws)]
    cases ws with
    | nil => rfl
    | cons w' ws =>
      rw [List.isEmpty_cons, if_neg Bool.false_ne_true, words_cons_blank (by decide), ih h.2]

theorem words_squeezed (cs : List Char) : words (squeezed cs) = words cs :=
  words_unwords (consists_words cs).isWord

theorem squeezed_squeezed (cs : List Char) : squeezed (squeezed cs) = squeezed cs := by
  rw [squeezed, words_squeezed, squeezed]

theorem squeezed_inj {cs' : List Char} : squeezed cs = squeezed cs' ↔ words cs = words cs' := by
  refine ⟨fun h ↦ ?_, fun h ↦ by rw [squeezed, squeezed, h]⟩
  rw [← words_squeezed cs, h, words_squeezed]

/-! ## Tidy texts -/

/-- No blank is first, last or next to another, and the plain space is the only one. -/
structure Tidy (cs : List Char) : Prop where
  head : ∀ c ∈ cs.head?, isBlank c = false
  last : ∀ c ∈ cs.getLast?, isBlank c = false
  single : cs.IsChain fun c d ↦ ¬(isBlank c = true ∧ isBlank d = true)
  plain : ∀ c ∈ cs, isBlank c = true → c = ' '

theorem IsWord.tidy (h : IsWord w) : Tidy w where
  head c hc := h.2 c (List.mem_of_mem_head? hc)
  last c hc := h.2 c (List.mem_of_mem_getLast? hc)
  single := by
    refine List.Pairwise.isChain (List.pairwise_of_forall_mem_list fun c hc d _ hblank ↦ ?_)
    simp [h.2 c hc] at hblank
  plain c hc hblank := by simp [h.2 c hc] at hblank

/-- A word and a tidy text may be put together with a space between them. -/
theorem Tidy.behind (hcs : Tidy cs) (hne : cs ≠ []) (hw : IsWord w) : Tidy (w ++ ' ' :: cs) where
  head c hc := by
    rw [List.head?_append_of_ne_nil _ hw.1] at hc
    exact hw.tidy.head c hc
  last c hc := by
    rw [List.getLast?_append_of_ne_nil _ (List.cons_ne_nil _ _),
      List.getLast?_cons_of_ne_nil hne] at hc
    exact hcs.last c hc
  single := by
    refine List.isChain_append.2 ⟨hw.tidy.single, List.isChain_cons.2 ⟨?_, hcs.single⟩, ?_⟩
    · exact fun c hc hblank ↦ by simp [hcs.head c hc] at hblank
    · exact fun c hc d _ hblank ↦ by simp [hw.tidy.last c hc] at hblank
  plain c hc hblank := by
    rw [List.mem_append, List.mem_cons] at hc
    obtain hc | rfl | hc := hc
    · exact hw.tidy.plain c hc hblank
    · rfl
    · exact hcs.plain c hc hblank

theorem unwords_ne_nil (hw : IsWord w) (ws : List (List Char)) : unwords (w :: ws) ≠ [] := by
  rw [unwords_cons]
  exact List.append_ne_nil_of_left_ne_nil hw.1 _

theorem tidy_unwords (h : ∀ w ∈ ws, IsWord w) : Tidy (unwords ws) := by
  induction ws with
  | nil => constructor <;> simp [unwords, List.intercalate]
  | cons w ws ih =>
    rw [List.forall_mem_cons] at h
    rw [unwords_cons]
    cases ws with
    | nil => simpa using h.1.tidy
    | cons w' ws => exact (ih h.2).behind (unwords_ne_nil (h.2 w' List.mem_cons_self) ws) h.1

theorem tidy_squeeze (s : String) : Tidy (squeeze s).toList := by
  rw [toList_squeeze]
  exact tidy_unwords (consists_words s.toList).isWord

/-! ## Squeezed texts -/

theorem squeeze_squeeze (s : String) : squeeze (squeeze s) = squeeze s := by
  rw [← String.toList_inj, toList_squeeze, toList_squeeze, squeezed_squeezed]

/-- Blanks may be squeezed before lower-casing a text or after it. -/
theorem lower_squeeze (s : String) : lower (squeeze s) = squeeze (lower s) := by
  rw [← String.toList_inj, toList_lower, toList_squeeze, toList_squeeze, toList_lower]
  exact lowered_squeezed false (.inr rfl)

theorem withoutBlanks_withoutBlanks (s : String) :
    withoutBlanks (withoutBlanks s) = withoutBlanks s := by
  simp [withoutBlanks]

end Text

namespace Normalizer

open Text

theorem applyText_applyText (n : Normalizer) (s : String) :
    n.applyText (n.applyText s) = n.applyText s := by
  cases n with
  | identity => rfl
  | squeezed => exact squeeze_squeeze s
  | squeezedLower =>
    calc lower (squeeze (lower (squeeze s)))
      _ = lower (lower (squeeze (squeeze s))) := by rw [← lower_squeeze]
      _ = lower (squeeze s) := by rw [lower_lower, squeeze_squeeze]
  | unspaced => exact withoutBlanks_withoutBlanks s

theorem apply_apply (n : Normalizer) (v : Value) : n.apply (n.apply v) = n.apply v := by
  cases v with
  | text s => exact congrArg Value.text (n.applyText_applyText s)
  | binary bs => rfl

theorem apply_squeezed_inj {s s' : String} :
    squeezed.apply (.text s) = squeezed.apply (.text s') ↔ words s.toList = words s'.toList := by
  rw [← squeezed_inj, ← toList_squeeze, ← toList_squeeze, String.toList_inj]
  exact ⟨Value.text.inj, congrArg Value.text⟩

/-- **Normal forms are final, and squeezing is canonical.**  To normalize a value twice is to
normalize it once.  What either trimming normalizer makes of a text has no blank at an end and no
two in a row, and no blank but the plain space.  A text consists of one list of words, and two texts
have the same squeezed form exactly if they consist of the same words. -/
theorem canonical :
    (∀ (n : Normalizer) (v : Value), n.apply (n.apply v) = n.apply v) ∧
      (∀ s, Tidy (squeezed.applyText s).toList ∧ Tidy (squeezedLower.applyText s).toList) ∧
      (∀ s : String, ∃! ws, Consists s.toList ws) ∧
      ∀ s s' : String, squeezed.apply (.text s) = squeezed.apply (.text s') ↔
        ∃ ws, Consists s.toList ws ∧ Consists s'.toList ws := by
  refine ⟨apply_apply, fun s ↦ ⟨tidy_squeeze s, ?_⟩, fun s ↦ ?_, fun s s' ↦ ?_⟩
  · rw [applyText, lower_squeeze]
    exact tidy_squeeze (lower s)
  · exact ⟨words s.toList, consists_words s.toList, fun ws hws ↦ hws.words_eq.symm⟩
  · rw [apply_squeezed_inj]
    simp only [consists_iff]
    exact ⟨fun h ↦ ⟨_, h, rfl⟩, fun ⟨_, h, h'⟩ ↦ h.trans h'.symm⟩

/-- A capital sigma at the end of a word is still at its end when the text is squeezed. -/
example : squeezedLower.applyText "  ΟΔΟΣ\u00A0 ΑΣ\u3000" = "οδος ας" := by decide +kernel

end Normalizer
end DirectoryQuery
