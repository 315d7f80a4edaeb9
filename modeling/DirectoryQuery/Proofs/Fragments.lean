import Mathlib.Algebra.GroupWithZero.Nat
import Mathlib.Data.List.TakeWhile
import DirectoryQuery.MatchingRule
import DirectoryQuery.Proofs.Casing

/-!
# Fragments in normal form

The fragments of a wildcard shape are normalized one by one, a value as a whole.  A value that the
raw shape describes should stay described.  It does so if normalization splits texts, which is true
of each normalizer but the one that puts into lower case.

Lower-casing a fragment on its own takes what the stars stand for to be no letters.  A capital sigma
at the end of a fragment then ends a word, and it does not in a value that goes on with a letter
(`Text.endsLoosely`); a capital sigma at the beginning does not end a word, and it may in a value
that has a letter before it (`Text.opensLoosely`).  These fragments are the only ones that are lost:
`Normalizer.keeps_described_iff`.  That they are lost is seen by counting sigmas: a value whose
stars stand for one letter and one space has too few of them for the fragments.
-/

set_option autoImplicit false

namespace DirectoryQuery
namespace Text

variable {c d : Char} {cs before after : List Char}

/-! ## Loose ends -/

/-- Whether the last character that is not passed over is a capital sigma behind a letter. -/
def endsLoosely (cs : List Char) : Bool :=
  match cs.reverse.dropWhile isCaseIgnorable with
  | c :: before => c == 'Σ' && sees before false
  | [] => false

/-- Whether the first character that is not passed over is a capital sigma with no letter behind
it. -/
def opensLoosely (cs : List Char) : Bool :=
  match cs.dropWhile isCaseIgnorable with
  | c :: after => c == 'Σ' && !sees after false
  | [] => false

theorem lowerWhere_of_ne (h : c ≠ 'Σ') (ends ends' : Bool) :
    lowerWhere c ends = lowerWhere c ends' := by
  simp [lowerWhere, h]

theorem sees_mono (h : sees cs false = true) (beyond : Bool) : sees cs beyond = true := by
  rw [sees] at h ⊢
  split at h <;> simp_all

/-- Characters that are passed over hold no sigma. -/
theorem lowered_of_ignorable (h : cs.all isCaseIgnorable = true) (p q p' q' : Bool) :
    lowered p cs q = lowered p' cs q' := by
  induction cs generalizing p p' with
  | nil => rfl
  | cons c cs ih =>
    rw [List.all_cons, Bool.and_eq_true] at h
    have hsigma : c ≠ 'Σ' := by
      rintro rfl
      exact absurd h.1 (by decide +kernel)
    rw [lowered, lowered, lowerWhere_of_ne hsigma _ (p' && !sees cs q'), ih h.2]

/-- What is not passed over at the beginning. -/
theorem exists_of_dropWhile (h : cs.dropWhile isCaseIgnorable = c :: after) :
    ∃ before, cs = before ++ c :: after ∧ before.all isCaseIgnorable = true ∧
      isCaseIgnorable c = false := by
  refine ⟨cs.takeWhile isCaseIgnorable, ?_, List.all_takeWhile, ?_⟩
  · rw [← h, List.takeWhile_append_dropWhile]
  · have := List.head?_dropWhile_not isCaseIgnorable cs
    simpa [h] using this

/-- Lower-casing around the last character that is not passed over. -/
theorem lowered_last (hc : isCaseIgnorable c = false) (hafter : after.all isCaseIgnorable = true)
    (p q : Bool) : lowered p (before ++ c :: after) q =
      lowered p before (isCased c) ++ lowerWhere c (sees before.reverse p && !q) ++
        lowered false after false := by
  rw [lowered_append, lowered, sees_cons, sees_of_ignorable hafter,
    lowered_of_ignorable hafter _ q false false]
  simp [hc]

/-- Lower-casing around the first character that is not passed over. -/
theorem lowered_first (hc : isCaseIgnorable c = false) (hbefore : before.all isCaseIgnorable = true)
    (p q : Bool) : lowered p (before ++ c :: after) q =
      lowered false before false ++ lowerWhere c (p && !sees after q) ++
        lowered (isCased c) after q := by
  have hreverse : before.reverse.all isCaseIgnorable = true := by simpa using hbefore
  rw [lowered_append, lowered, sees_of_ignorable hreverse, sees_cons c [], if_neg (by simp [hc]),
    lowered_of_ignorable hbefore _ _ false false, List.append_assoc]

/-- A letter behind characters turns their last sigma into a medial one if it is loose; otherwise it
changes nothing. -/
theorem lowered_before_letter (cs : List Char) :
    endsLoosely cs = false ∧ lowered false cs true = lowered false cs false ∨
      endsLoosely cs = true ∧ ∃ front back, lowered false cs false = front ++ 'ς' :: back ∧
        lowered false cs true = front ++ 'σ' :: back := by
  unfold endsLoosely
  split
  · rename_i c before hdrop
    obtain ⟨after, hcs, hafter, hc⟩ := exists_of_dropWhile hdrop
    obtain rfl : cs = before.reverse ++ c :: after.reverse := by
      rw [← List.reverse_reverse cs, hcs]
      simp
    rw [lowered_last hc (by simpa using hafter), lowered_last hc (by simpa using hafter),
      List.reverse_reverse]
    by_cases hsigma : c = 'Σ'
    · subst hsigma
      cases sees before false
      · exact .inl ⟨rfl, rfl⟩
      · exact .inr ⟨rfl, _, _, List.append_assoc _ _ _, List.append_assoc _ _ _⟩
    · exact .inl ⟨by simp [hsigma], by rw [lowerWhere_of_ne hsigma]⟩
  · rename_i hdrop
    have hall : cs.all isCaseIgnorable = true := by
      simpa [List.dropWhile_eq_nil_iff] using hdrop
    exact .inl ⟨rfl, lowered_of_ignorable hall _ _ _ _⟩

/-- A letter before characters turns their first sigma into a final one if it is loose; otherwise it
changes nothing. -/
theorem lowered_behind_letter (cs : List Char) :
    opensLoosely cs = false ∧ (∀ q, lowered true cs q = lowered false cs q) ∨
      opensLoosely cs = true ∧ ∃ front back, lowered false cs false = front ++ 'σ' :: back ∧
        lowered true cs false = front ++ 'ς' :: back := by
  unfold opensLoosely
  split
  · rename_i c after hdrop
    obtain ⟨before, rfl, hbefore, hc⟩ := exists_of_dropWhile hdrop
    simp only [lowered_first hc hbefore]
    by_cases hsigma : c = 'Σ'
    · subst hsigma
      cases hafter : sees after false
      · exact .inr ⟨rfl, _, _, List.append_assoc _ _ _, List.append_assoc _ _ _⟩
      · exact .inl ⟨rfl, fun q ↦ by rw [sees_mono hafter]; rfl⟩
    · exact .inl ⟨by simp [hsigma], fun q ↦ by rw [lowerWhere_of_ne hsigma]⟩
  · rename_i hdrop
    have hall : cs.all isCaseIgnorable = true := by
      simpa [List.dropWhile_eq_nil_iff] using hdrop
    exact .inl ⟨rfl, fun q ↦ lowered_of_ignorable hall _ _ _ _⟩

/-- Nothing behind characters that do not end loosely changes them. -/
theorem lowered_of_not_endsLoosely (h : endsLoosely cs = false) (q : Bool) :
    lowered false cs q = lowered false cs false := by
  cases q with
  | false => rfl
  | true => simpa [h] using lowered_before_letter cs

/-- Nothing before characters that do not open loosely changes them. -/
theorem lowered_of_not_opensLoosely (h : opensLoosely cs = false) (p q : Bool) :
    lowered p cs q = lowered false cs q := by
  cases p with
  | false => rfl
  | true =>
    have hkeeps : ∀ q, lowered true cs q = lowered false cs q := by
      simpa [h] using lowered_behind_letter cs
    exact hkeeps q

/-- A letter behind characters that end loosely takes one final sigma away. -/
theorem count_lowered_before_letter (cs : List Char) :
    (lowered false cs true).count 'ς' + (endsLoosely cs).toNat =
      (lowered false cs false).count 'ς' := by
  obtain ⟨hloose, heq⟩ | ⟨hloose, front, back, hfalse, htrue⟩ := lowered_before_letter cs
  · simp [hloose, heq]
  · simp [hloose, hfalse, htrue]
    omega

/-- A letter before characters that open loosely takes one medial sigma away. -/
theorem count_lowered_behind_letter (cs : List Char) :
    (lowered true cs false).count 'σ' + (opensLoosely cs).toNat =
      (lowered false cs false).count 'σ' := by
  obtain ⟨hloose, heq⟩ | ⟨hloose, front, back, hfalse, htrue⟩ := lowered_behind_letter cs
  · simp [hloose, heq]
  · simp [hloose, hfalse, htrue]
    omega

/-- Characters squeezed and in lower case. -/
def folded (cs : List Char) : List Char := squeezed (lowered false cs false)

theorem toList_fold (s : String) : (lower (squeeze s)).toList = folded s.toList := by
  rw [toList_lower, toList_squeeze, lowered_squeezed false (.inr rfl), folded]

end Text

namespace Wildcard

open Text

variable {head tail cs gap : List Char} {middles : List (List Char)} {c d : Char}

/-! ## Settled fragments -/

/-- What the stars stand for cannot change the lower-case form of any fragment. -/
def SettledChars (head : List Char) (middles : List (List Char)) (tail : List Char) : Prop :=
  endsLoosely head = false ∧
    (∀ m ∈ middles, opensLoosely m = false ∧ endsLoosely m = false) ∧ opensLoosely tail = false

instance : Decidable (SettledChars head middles tail) :=
  inferInstanceAs (Decidable (_ ∧ _ ∧ _))

theorem Strung.lowered (hsettled : ∀ m ∈ middles, opensLoosely m = false ∧ endsLoosely m = false)
    (h : Strung middles cs) (p q : Bool) :
    Strung (middles.map (Text.lowered false · false)) (Text.lowered p cs q) := by
  induction middles generalizing p cs with
  | nil => trivial
  | cons m middles ih =>
    obtain ⟨gap, rest, rfl, hrest⟩ := h
    rw [List.forall_mem_cons] at hsettled
    obtain ⟨⟨hopens, hends⟩, hmiddles⟩ := hsettled
    rw [lowered_append, lowered_append, lowered_of_not_opensLoosely hopens,
      lowered_of_not_endsLoosely hends]
    exact ⟨_, _, rfl, ih hmiddles hrest _⟩

theorem Framed.lowered (hsettled : SettledChars head middles tail)
    (h : Framed head middles tail cs) :
    Framed (Text.lowered false head false) (middles.map (Text.lowered false · false))
      (Text.lowered false tail false) (Text.lowered false cs false) := by
  obtain ⟨hhead, hmiddles, htail⟩ := hsettled
  obtain ⟨between, rfl, hbetween⟩ := h
  rw [lowered_append, lowered_append, lowered_of_not_endsLoosely hhead (sees _ _),
    lowered_of_not_opensLoosely htail (sees _ _)]
  exact ⟨_, rfl, hbetween.lowered hmiddles _ _⟩

/-! ## Counting -/

theorem Strung.count_le (h : Strung middles cs) (d : Char) :
    (middles.map (List.count d)).sum ≤ cs.count d := by
  induction middles generalizing cs with
  | nil => simp
  | cons m middles ih =>
    obtain ⟨gap, rest, rfl, hrest⟩ := h
    have hle := ih hrest
    simp only [List.map_cons, List.sum_cons, List.count_append]
    omega

/-- What is framed by fragments has each character as often as these have it together. -/
theorem Framed.count_le (h : Framed head middles tail cs) (d : Char) :
    head.count d + (middles.map (List.count d)).sum + tail.count d ≤ cs.count d := by
  obtain ⟨between, rfl, hbetween⟩ := h
  have hle := hbetween.count_le d
  simp only [List.count_append]
  omega

/-- The middles with the gap in place of the star behind each of them. -/
def spaced (gap : List Char) (middles : List (List Char)) : List Char := middles.flatMap (· ++ gap)

theorem framed_spaced (head : List Char) (middles : List (List Char)) (tail gap : List Char) :
    Framed head middles tail (head ++ gap ++ spaced gap middles ++ tail) := by
  refine ⟨gap ++ spaced gap middles, by simp, Strung.behind ?_ gap⟩
  induction middles with
  | nil => trivial
  | cons m middles ih =>
    exact ⟨[], gap ++ spaced gap middles, by simp [spaced], ih.behind gap⟩

/-- In place of the stars, the gap takes one `d` away from each fragment that is loose: `before` and
`after` are whether it lets a letter be seen before the fragments and after them. -/
structure Loosens (gap : List Char) (before after : Bool) (loose : List Char → Bool) (d : Char) :
    Prop where
  lowered_eq : ∀ p cs, Text.lowered p (gap ++ cs) false = gap ++ Text.lowered before cs false
  sees_eq : ∀ cs, sees (gap ++ cs) false = after
  count_eq : ∀ m, (Text.lowered before m after).count d + (loose m).toNat =
    (Text.lowered false m false).count d
  count_gap : gap.count d = 0
  not_blank : isBlank d = false

variable {before after : Bool} {loose : List Char → Bool}

theorem loosens_endsLoosely : Loosens ['α', ' '] false true endsLoosely 'ς' where
  lowered_eq p cs := by
    have halpha : ∀ ends, lowerWhere 'α' ends = ['α'] := by decide +kernel
    show Text.lowered p ('α' :: ' ' :: cs) false = _
    rw [Text.lowered, halpha, lowered_cons_blank (by decide)]
    rfl
  sees_eq cs := by
    rw [List.cons_append, sees_cons, if_neg (by decide +kernel)]
    decide +kernel
  count_eq := count_lowered_before_letter
  count_gap := by decide
  not_blank := by decide

theorem loosens_opensLoosely : Loosens [' ', 'α'] true false opensLoosely 'σ' where
  lowered_eq p cs := by
    have halpha : ∀ ends, lowerWhere 'α' ends = ['α'] := by decide +kernel
    have hsees : sees ['α'] false = true := by decide +kernel
    show Text.lowered p (' ' :: 'α' :: cs) false = _
    rw [lowered_cons_blank (by decide), Text.lowered, halpha, hsees]
    rfl
  sees_eq cs := sees_cons_blank (by decide) _ _
  count_eq := count_lowered_behind_letter
  count_gap := by decide
  not_blank := by decide

namespace Loosens

theorem lowered_append (h : Loosens gap before after loose d) (p : Bool) (m cs : List Char) :
    Text.lowered p (m ++ gap ++ cs) false =
      Text.lowered p m after ++ gap ++ Text.lowered before cs false := by
  rw [List.append_assoc, Text.lowered_append, h.sees_eq, h.lowered_eq, List.append_assoc]

theorem count_spaced (h : Loosens gap before after loose d) (middles : List (List Char))
    (tail : List Char) :
    (Text.lowered before (spaced gap middles ++ tail) false).count d + middles.countP loose =
      (middles.map fun m ↦ (Text.lowered false m false).count d).sum +
        (Text.lowered before tail false).count d := by
  induction middles with
  | nil => simp [spaced]
  | cons m middles ih =>
    have hm := h.count_eq m
    have hgap := h.count_gap
    rw [spaced, List.flatMap_cons, ← spaced, List.append_assoc, h.lowered_append, List.countP_cons]
    cases hloose : loose m <;> simp [hloose] at hm ⊢ <;> omega

/-- If the normal forms of the fragments frame that of the text with gaps in place of the stars,
then each loose middle is made up for by a `d` that the head or the tail has only beside a gap. -/
theorem count_le (h : Loosens gap before after loose d)
    (hframed : Framed (folded head) (middles.map folded) (folded tail)
      (folded (head ++ gap ++ spaced gap middles ++ tail))) :
    (Text.lowered false head false).count d + middles.countP loose +
        (Text.lowered false tail false).count d ≤
      (Text.lowered false head after).count d + (Text.lowered before tail false).count d := by
  have hfolded : ∀ l, (folded l).count d = (Text.lowered false l false).count d := fun l ↦
    count_squeezed h.not_blank _
  have hle := hframed.count_le d
  have hspaced := h.count_spaced middles tail
  have hgap := h.count_gap
  rw [hfolded, hfolded, hfolded, List.append_assoc, h.lowered_append] at hle
  simp [Function.comp_def, hfolded] at hle
  omega

end Loosens

/-- **Of settled fragments, and of no others, the normal forms frame the normal form of everything
that the fragments frame.** -/
theorem forall_framed_folded_iff (head : List Char) (middles : List (List Char))
    (tail : List Char) :
    (∀ cs, Framed head middles tail cs →
        Framed (folded head) (middles.map folded) (folded tail) (folded cs)) ↔
      SettledChars head middles tail := by
  constructor
  · intro h
    have hends := loosens_endsLoosely.count_le (h _ (framed_spaced head middles tail _))
    have hopens := loosens_opensLoosely.count_le (h _ (framed_spaced head middles tail _))
    have hhead := count_lowered_before_letter head
    have htail := count_lowered_behind_letter tail
    have hnone : ∀ loose : List Char → Bool, middles.countP loose = 0 →
        ∀ m ∈ middles, loose m = false := by
      intro loose hzero m hm
      simpa using List.countP_eq_zero.1 hzero m hm
    have hzero : ∀ b : Bool, b.toNat = 0 → b = false := by decide
    refine ⟨hzero _ (by omega), fun m hm ↦ ⟨?_, ?_⟩, hzero _ (by omega)⟩
    · exact hnone opensLoosely (by omega) m hm
    · exact hnone endsLoosely (by omega) m hm
  · intro hsettled cs hcs
    have hframed := (hcs.lowered hsettled).map splits_squeezed
    rw [List.map_map] at hframed
    exact hframed

/-- The fragments of the shape are settled. -/
def Settled (w : Wildcard) : Prop := SettledChars w.headChars w.middleChars w.tailChars

instance (w : Wildcard) : Decidable w.Settled := inferInstanceAs (Decidable (SettledChars _ _ _))

end Wildcard

namespace Normalizer

open Wildcard

/-- A normalizer that splits texts keeps what a shape describes. -/
theorem keeps_described_of_splits (n : Normalizer) {f : List Char → List Char}
    (hf : Text.Splits f) (htoList : ∀ s, (n.applyText s).toList = f s.toList)
    (w : Wildcard) (s : String) (h : w.Describes s) :
    (w.mapFragments n.applyText).accepts (n.applyText s) = true := by
  have hempty : n.applyText "" = "" := by
    rw [← String.toList_inj, htoList]
    exact hf.nil
  rw [accepts_iff, mapFragments_describes_iff hempty]
  simpa only [htoList, String.toList_ofList] using (describes_iff.1 h).map hf

/-- What a shape accepts when blanks are squeezed and letters are put into lower case. -/
theorem accepts_squeezedLower_iff (w : Wildcard) (s : String) :
    (w.mapFragments squeezedLower.applyText).accepts (squeezedLower.applyText s) = true ↔
      Framed (Text.folded w.headChars) (w.middleChars.map Text.folded) (Text.folded w.tailChars)
        (Text.folded s.toList) := by
  have htoList : ∀ s, (squeezedLower.applyText s).toList = Text.folded s.toList := Text.toList_fold
  have hempty : squeezedLower.applyText "" = "" := rfl
  rw [accepts_iff, mapFragments_describes_iff hempty]
  simp only [htoList, String.toList_ofList]

/-- **A shape with fragments normalized one by one describes the normal form of every text that the
raw shape describes, unless letters are put into lower case and a fragment is not settled.** -/
theorem keeps_described_iff (n : Normalizer) (w : Wildcard) :
    (∀ s, w.Describes s → (w.mapFragments n.applyText).accepts (n.applyText s) = true) ↔
      (n = .squeezedLower → w.Settled) := by
  cases n with
  | identity => simpa using keeps_described_of_splits identity Text.splits_id (fun _ ↦ rfl) w
  | squeezed =>
    simpa using keeps_described_of_splits squeezed Text.splits_squeezed Text.toList_squeeze w
  | unspaced =>
    have htoList : ∀ s, (unspaced.applyText s).toList =
        s.toList.filter fun c ↦ !Text.isBlank c := fun _ ↦ String.toList_ofList
    simpa using keeps_described_of_splits unspaced (Text.splits_filter _) htoList w
  | squeezedLower =>
    simp only [accepts_squeezedLower_iff, describes_iff, forall_const]
    rw [Settled, ← forall_framed_folded_iff]
    exact ⟨fun h cs ↦ by simpa using h (String.ofList cs), fun h s ↦ h s.toList⟩

/-- `ΑΣ*` describes `ΑΣΑ`, but its normal form `ας*` does not describe `ασα`. -/
theorem loses_sigma :
    ¬ ∀ (n : Normalizer) (w : Wildcard) (s : String), w.Describes s →
      (w.mapFragments n.applyText).accepts (n.applyText s) = true := by
  intro h
  have haccepts := h .squeezedLower ⟨some "ΑΣ", [], none⟩ "ΑΣΑ" ⟨"Α", [], rfl, rfl⟩
  revert haccepts
  decide +kernel

/-- Sigmas that are medial or final whatever the stars stand for. -/
example : (⟨some "ΣΑ", ["αΣ α", "ΣΑ"], some "ΑΣ"⟩ : Wildcard).Settled := by decide +kernel

end Normalizer
end DirectoryQuery
