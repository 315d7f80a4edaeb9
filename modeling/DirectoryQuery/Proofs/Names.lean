import Mathlib.Data.List.Forall2
import DirectoryQuery.Proofs.Casing
import DirectoryQuery.Proofs.Registrations

/-!
# Two ways to compare names

A schema finds a type by the lower-case form of a name, whatever letters the name is written in.  A
type asked for its names looks only past the case of A to Z, which is the narrower way.
Lower-casing does not see that difference either, not even where it looks for the letters around a
sigma (`Text.lower_eq_of_same`).  So a type that has a name is found under that name.

A type that is found under a name need not have it.  The two ways agree on texts in which
lower-casing changes nothing but A to Z (`Text.Plain`).  Texts of ASCII characters are such texts,
and so are lower-case forms, since lower-casing has nothing left to do in them
(`Text.plain_lower`).
-/

set_option autoImplicit false

namespace DirectoryQuery
namespace Text

variable {c d : Char} {s s' : String}

/-! ## The letters A to Z -/

/-- The first is one of the letters A to Z and the second is its small letter. -/
def IsCapitalOf (c d : Char) : Prop := 'A' ≤ c ∧ c ≤ 'Z' ∧ d.toNat = c.toNat + 32

/-- The characters are the same but for the case of a letter from A to Z. -/
def SameLetter (c d : Char) : Prop := c = d ∨ IsCapitalOf c d ∨ IsCapitalOf d c

theorem toNat_toLower (c : Char) :
    c.toLower.toNat = if 65 ≤ c.toNat ∧ c.toNat ≤ 90 then c.toNat + 32 else c.toNat := by
  by_cases h : c.val ≥ 'A'.val ∧ c.val ≤ 'Z'.val
  · have hletter : 65 ≤ c.toNat ∧ c.toNat ≤ 90 := h
    have hlower : c.toLower.toNat = (c.val + ('a'.val - 'A'.val)).toNat :=
      congrArg Char.toNat (dif_pos h)
    have hsum : (c.val + ('a'.val - 'A'.val)).toNat = (c.toNat + 32) % 2 ^ 32 := UInt32.toNat_add ..
    rw [if_pos hletter, hlower, hsum, Nat.mod_eq_of_lt (by omega)]
  · exact (congrArg Char.toNat (dif_neg h)).trans (if_neg h).symm

theorem toLower_of_le (h : 128 ≤ c.toNat) : c.toLower = c := by
  rw [← Char.toNat_inj, toNat_toLower, if_neg (by omega)]

theorem toLower_toLower (c : Char) : c.toLower.toLower = c.toLower := by
  rw [← Char.toNat_inj, toNat_toLower c.toLower, if_neg]
  rw [toNat_toLower]
  split <;> omega

theorem isCapitalOf_iff : IsCapitalOf c d ↔ 65 ≤ c.toNat ∧ c.toNat ≤ 90 ∧ d.toNat = c.toNat + 32 :=
  Iff.rfl

theorem toLower_eq_iff : c.toLower = d.toLower ↔ SameLetter c d := by
  simp only [SameLetter, isCapitalOf_iff, ← Char.toNat_inj, toNat_toLower]
  split <;> split <;> omega

theorem same_iff :
    sameIgnoringAsciiCase s s' = true ↔ List.Forall₂ SameLetter s.toList s'.toList := by
  rw [sameIgnoringAsciiCase, beq_iff_eq, ← List.forall₂_eq_eq_eq, List.forall₂_map_left_iff,
    List.forall₂_map_right_iff]
  simp only [toLower_eq_iff]

/-! ## Lower-casing does not see them -/

theorem lowerWhere_ascii (hc : c.toNat < 128) (ends : Bool) : lowerWhere c ends = [c.toLower] := by
  have hcodes : ∀ n < 128, ∀ ends, lowerWhere (Char.ofNat n) ends = [(Char.ofNat n).toLower] := by
    decide +kernel
  simpa only [Char.ofNat_toNat] using hcodes c.toNat hc ends

/-- The letters A to Z and their small letters, as closed runs of code points. -/
def letterRuns : List (Nat × Nat) := [(65, 90), (97, 122)]

theorem isCased_of_letter (h : inRuns letterRuns c.toNat = true) :
    isCaseIgnorable c = false ∧ isCased c = true := by
  refine ⟨inRuns_eq_false_of_disjoint
    (by decide +kernel : disjoint letterRuns ignorableRuns = true) h, ?_⟩
  obtain ⟨r, hr, hin⟩ := List.any_eq_true.1 h
  have hcased : ∀ r ∈ letterRuns, r ∈ casedRuns := by decide +kernel
  exact List.any_eq_true.2 ⟨r, hcased r hr, hin⟩

/-- Lower-casing treats a letter from A to Z as it treats the small letter. -/
theorem lowerWhere_toLower (c : Char) :
    isCaseIgnorable c.toLower = isCaseIgnorable c ∧ isCased c.toLower = isCased c ∧
      ∀ ends, lowerWhere c.toLower ends = lowerWhere c ends := by
  have hpoint := toNat_toLower c
  split at hpoint
  · rename_i hletter
    have hcapital : inRuns letterRuns c.toNat = true := by simp [inRuns, letterRuns, hletter]
    have hsmall : inRuns letterRuns c.toLower.toNat = true := by
      simp [inRuns, letterRuns, hpoint, hletter]
    refine ⟨?_, ?_, fun ends ↦ ?_⟩
    · rw [(isCased_of_letter hcapital).1, (isCased_of_letter hsmall).1]
    · rw [(isCased_of_letter hcapital).2, (isCased_of_letter hsmall).2]
    · rw [lowerWhere_ascii (by omega), lowerWhere_ascii (by omega), toLower_toLower]
  · rw [Char.toNat_inj.1 hpoint]
    exact ⟨rfl, rfl, fun _ ↦ rfl⟩

theorem sees_map_toLower (cs : List Char) (beyond : Bool) :
    sees (cs.map Char.toLower) beyond = sees cs beyond := by
  induction cs with
  | nil => rfl
  | cons c cs ih =>
    obtain ⟨hignorable, hcased, -⟩ := lowerWhere_toLower c
    rw [List.map_cons, sees_cons, sees_cons, hignorable, hcased, ih]

theorem lowered_map_toLower (before after : Bool) (cs : List Char) :
    lowered before (cs.map Char.toLower) after = lowered before cs after := by
  induction cs generalizing before with
  | nil => rfl
  | cons c cs ih =>
    obtain ⟨-, -, hwhere⟩ := lowerWhere_toLower c
    have hseen : sees [c.toLower] before = sees [c] before := sees_map_toLower [c] before
    rw [List.map_cons, lowered, lowered, ih, sees_map_toLower, hwhere, hseen]

/-- Texts that differ only in the case of A to Z have one lower-case form. -/
theorem lower_eq_of_same (h : sameIgnoringAsciiCase s s' = true) : lower s = lower s' := by
  rw [sameIgnoringAsciiCase, beq_iff_eq] at h
  rw [← String.toList_inj, toList_lower, toList_lower, ← lowered_map_toLower, h,
    lowered_map_toLower]

/-! ## Texts with no other capitals -/

/-- Lower-casing changes nothing but the letters A to Z. -/
def Plain (s : String) : Prop := (lower s).toList = s.toList.map Char.toLower

/-- There are ASCII characters only. -/
def Ascii (s : String) : Prop := ∀ c ∈ s.toList, c.toNat < 128

instance : DecidablePred Ascii := fun s ↦
  decidable_of_iff (s.toList.all (·.toNat < 128) = true) (by simp [Ascii])

/-- Among plain texts the two ways to compare agree. -/
theorem Plain.same_iff (h : Plain s) (h' : Plain s') :
    sameIgnoringAsciiCase s s' = true ↔ lower s = lower s' := by
  rw [sameIgnoringAsciiCase, beq_iff_eq, ← String.toList_inj, h, h']

/-- Of texts that differ only in the case of A to Z, both are plain or neither is. -/
theorem Plain.of_same (h : Plain s') (hsame : sameIgnoringAsciiCase s s' = true) : Plain s := by
  rw [Plain, lower_eq_of_same hsame, h]
  exact (beq_iff_eq.1 hsame).symm

theorem lowered_eq_map_toLower {cs : List Char}
    (h : ∀ c ∈ cs, ∀ ends, lowerWhere c ends = [c.toLower]) (before after : Bool) :
    lowered before cs after = cs.map Char.toLower := by
  induction cs generalizing before with
  | nil => rfl
  | cons c cs ih =>
    rw [List.forall_mem_cons] at h
    rw [lowered, h.1, ih h.2]
    rfl

theorem plain_of_forall (h : ∀ c ∈ s.toList, ∀ ends, lowerWhere c ends = [c.toLower]) :
    Plain s := by
  rw [Plain, toList_lower, lowered_eq_map_toLower h]

theorem Ascii.plain (h : Ascii s) : Plain s :=
  plain_of_forall fun c hc ↦ lowerWhere_ascii (h c hc)

/-! ## Lower-case forms -/

/-- The small letters of the first run are not among the capitals of the second: the runs lie apart,
or the ones take turns with the others. -/
def apart (r r' : CaseRun) : Bool :=
  Nat.blt (r.target + (r.last - r.first)) r'.first || Nat.blt r'.last r.target ||
    r'.step == 2 && (r.step == 2 || r.first == r.last) && (r.target + r'.first) % 2 == 1

theorem not_capital_of_apart {r r' : CaseRun} {n : Nat} (h : apart r r' = true)
    (hfirst : r.first ≤ n) (hlast : n ≤ r.last) (hstep : (n - r.first) % r.step = 0)
    (hfirst' : r'.first ≤ r.target + (n - r.first)) (hlast' : r.target + (n - r.first) ≤ r'.last) :
    (r.target + (n - r.first) - r'.first) % r'.step ≠ 0 := by
  simp only [apart, Bool.or_eq_true, Bool.and_eq_true, Nat.blt_eq, beq_iff_eq] at h
  obtain (hbelow | habove) | ⟨⟨htwo', htwo | hone⟩, hodd⟩ := h
  · omega
  · omega
  · rw [htwo] at hstep
    rw [htwo']
    omega
  · rw [htwo']
    omega

/-- A small letter stays as it is. -/
theorem lowerPoint_lowerPoint (n : Nat) : lowerPoint (lowerPoint n) = lowerPoint n := by
  obtain heq | ⟨r, hr, hfirst, hlast, hstep, heq⟩ := lowerPoint_run n
  · rw [heq, heq]
  obtain heq' | ⟨r', hr', hfirst', hlast', hstep', -⟩ := lowerPoint_run (lowerPoint n)
  · exact heq'
  · rw [heq] at hfirst' hlast' hstep'
    -- There are many letters but few runs, so the check goes over pairs of runs.
    have hapart : lowerRuns.all (fun r ↦ lowerRuns.all (apart r)) = true := by decide +kernel
    have hruns := List.all_eq_true.1 (List.all_eq_true.1 hapart r hr) r' hr'
    exact absurd hstep' (not_capital_of_apart hruns hfirst hlast hstep hfirst' hlast')

/-- A character that is no small letter comes from itself only. -/
theorem lowerPoint_ne (hd : inRuns smallRuns d.toNat = false) (hne : c ≠ d) :
    lowerPoint c.toNat ≠ d.toNat := by
  intro h
  obtain heq | ⟨-, hsmall⟩ := lowerPoint_cases c.toNat
  · exact hne (Char.toNat_inj.1 (heq.symm.trans h))
  · rw [h, hd] at hsmall
    cases hsmall

/-- What a character becomes stays as it is. -/
theorem lowerWhere_of_mem_lowerWhere {ends : Bool} (h : d ∈ lowerWhere c ends) (ends' : Bool) :
    lowerWhere d ends' = [d] := by
  unfold lowerWhere at h
  split at h
  · -- one of the two small sigmas
    cases ends <;> obtain rfl := List.mem_singleton.1 h <;> cases ends' <;> decide +kernel
  rename_i hsigma
  split at h
  · -- the plain i or the combining dot
    obtain rfl | h := List.mem_cons.1 h
    · cases ends' <;> decide +kernel
    · obtain rfl := List.mem_singleton.1 h
      cases ends' <;> decide +kernel
  rename_i hdotted
  -- the one small letter, which is neither of the two special capitals
  obtain rfl := List.mem_singleton.1 h
  have hpoint := toNat_ofNat_lowerPoint c
  have hsigma' : Char.ofNat (lowerPoint c.toNat) ≠ 'Σ' := fun heq ↦
    lowerPoint_ne (by decide +kernel) hsigma (hpoint.symm.trans (congrArg Char.toNat heq))
  have hdotted' : Char.ofNat (lowerPoint c.toNat) ≠ 'İ' := fun heq ↦
    lowerPoint_ne (by decide +kernel) hdotted (hpoint.symm.trans (congrArg Char.toNat heq))
  rw [lowerWhere, if_neg hsigma', if_neg hdotted', hpoint, lowerPoint_lowerPoint]

theorem lowerWhere_of_mem_lowered {before after : Bool} {cs : List Char}
    (h : d ∈ lowered before cs after) (ends : Bool) : lowerWhere d ends = [d] := by
  induction cs generalizing before with
  | nil => exact nomatch h
  | cons c cs ih =>
    rw [lowered, List.mem_append] at h
    exact h.elim (lowerWhere_of_mem_lowerWhere · ends) ih

/-- A character that lower-casing leaves alone is none of the letters A to Z. -/
theorem toLower_of_lowerWhere (h : ∀ ends, lowerWhere d ends = [d]) : d.toLower = d := by
  obtain hd | hd := lt_or_ge d.toNat 128
  · exact List.head_eq_of_cons_eq ((lowerWhere_ascii hd true).symm.trans (h true))
  · exact toLower_of_le hd

theorem small_of_mem_lower (h : d ∈ (lower s).toList) :
    d.toLower = d ∧ ∀ ends, lowerWhere d ends = [d] := by
  rw [toList_lower] at h
  have hsmall := lowerWhere_of_mem_lowered h
  exact ⟨toLower_of_lowerWhere hsmall, hsmall⟩

theorem plain_lower (s : String) : Plain (lower s) := by
  refine plain_of_forall fun d hd ends ↦ ?_
  obtain ⟨hlower, hsmall⟩ := small_of_mem_lower hd
  rw [hlower, hsmall]

/-- Lower-casing leaves a lower-case form as it is. -/
theorem lower_lower (s : String) : lower (lower s) = lower s := by
  rw [← String.toList_inj, plain_lower,
    List.map_congr_left fun d hd ↦ (small_of_mem_lower hd).1, List.map_id']

end Text

/-! ## Names of types -/

namespace AttributeType

variable {t : AttributeType} {name : String}

theorem hasName_iff_same : t.hasName name = true ↔
    ∃ spelling ∈ t.oid :: t.names, Text.sameIgnoringAsciiCase spelling name = true := by
  simp [hasName]

/-- A type has the names that are spelled like one of its own, but for the case of A to Z. -/
theorem hasName_iff : t.hasName name = true ↔ ∃ spelling ∈ t.oid :: t.names,
    List.Forall₂ Text.SameLetter spelling.toList name.toList := by
  simp only [hasName_iff_same, Text.same_iff]

theorem carries_of_hasName (h : t.hasName name = true) : t.Carries name := by
  obtain ⟨spelling, hspelling, hsame⟩ := hasName_iff_same.1 h
  exact ⟨spelling, hspelling, Text.lower_eq_of_same hsame⟩

theorem carries_lower : t.Carries (Text.lower name) ↔ t.Carries name := by
  simp only [Carries, Text.lower_lower]

/-- A type has a plain name exactly if it carries the name in a plain spelling. -/
theorem hasName_iff_of_plain (hname : Text.Plain name) : t.hasName name = true ↔
    ∃ spelling ∈ t.oid :: t.names, Text.lower spelling = Text.lower name ∧
      Text.Plain spelling := by
  rw [hasName_iff_same]
  refine exists_congr fun spelling ↦ and_congr_right fun _ ↦ ⟨fun hsame ↦ ?_, fun h ↦ ?_⟩
  · exact ⟨Text.lower_eq_of_same hsame, hname.of_same hsame⟩
  · exact (h.2.same_iff hname).2 h.1

theorem hasName_iff_of_ascii (ht : ∀ spelling ∈ t.oid :: t.names, Text.Ascii spelling)
    (hname : Text.Ascii name) : t.hasName name = true ↔ t.Carries name := by
  rw [hasName_iff_of_plain hname.plain]
  refine exists_congr fun spelling ↦ and_congr_right fun hspelling ↦ ?_
  exact and_iff_left (ht spelling hspelling).plain

end AttributeType

namespace Registry

variable {r : Registry}

/-- **Which of the names that lead to a type the type has.**  Every name that a registered type has
leads to it.  Of the names that lead to a type, it has those that are spelled like one of its own
but for the case of A to Z.  In lower case the name leads to the type as well, and then the type has
it exactly if it has a plain spelling with that lower-case form.  As long as there are ASCII
characters only, a type has all the names that lead to it. -/
theorem hasName_resolves (hr : r.Reachable) :
    (∀ t ∈ r.typeList, ∀ name, t.hasName name = true → r.resolve name = .ok t) ∧
      (∀ t name, r.resolve name = .ok t →
        (t.hasName name = true ↔ ∃ spelling ∈ t.oid :: t.names,
          List.Forall₂ Text.SameLetter spelling.toList name.toList) ∧
        r.resolve (Text.lower name) = .ok t ∧
        (t.hasName (Text.lower name) = true ↔ ∃ spelling ∈ t.oid :: t.names,
          Text.lower spelling = Text.lower name ∧ Text.Plain spelling)) ∧
      ∀ t ∈ r.typeList, (∀ spelling ∈ t.oid :: t.names, Text.Ascii spelling) →
        ∀ name, Text.Ascii name → (r.resolve name = .ok t ↔ t.hasName name = true) := by
  refine ⟨fun t ht name hname ↦ ?_, fun t name hresolve ↦ ?_, fun t ht hascii name hname ↦ ?_⟩
  · exact hr.sound.resolve_iff.2 ⟨ht, AttributeType.carries_of_hasName hname⟩
  · obtain ⟨ht, hcarries⟩ := hr.sound.resolve_iff.1 hresolve
    refine ⟨AttributeType.hasName_iff, ?_, ?_⟩
    · exact hr.sound.resolve_iff.2 ⟨ht, AttributeType.carries_lower.2 hcarries⟩
    · rw [AttributeType.hasName_iff_of_plain (Text.plain_lower name), Text.lower_lower]
  · rw [hr.sound.resolve_iff, AttributeType.hasName_iff_of_ascii hascii hname]
    exact and_iff_right ht

/-- It would not do to look at the spellings of the type only: the Kelvin sign becomes a plain k. -/
example : Text.lower "wee\u212A" = Text.lower "week" ∧
    Text.sameIgnoringAsciiCase "week" "wee\u212A" = false := by
  decide +kernel

/-- Summers, by a name in which lower-casing changes more than A to Z, and by one in which it does
not. -/
def summer : AttributeType := ⟨"3.7", ["Été", "Summer"], none, none, none, none, none, none⟩

/-- A schema of names and summers. -/
def seasons : Registry := after [.type .fullName, .type summer]

/-- Summers are found under either of their names in capitals of A to Z, and under the first one in
lower case.  Names are spelled in ASCII characters. -/
theorem hasName_resolves_seasons :
    seasons.Reachable ∧ summer.hasName "SUMMER" = true ∧ seasons.resolve "SUMMER" = .ok summer ∧
      summer.hasName "ÉTé" = true ∧ seasons.resolve (Text.lower "ÉTé") = .ok summer ∧
      seasons.resolve "Name" = .ok .fullName := by
  have hr : seasons.Reachable := reachable_after _
  have hsummer : summer ∈ seasons.typeList := by decide +kernel
  have hname : AttributeType.fullName ∈ seasons.typeList := by decide +kernel
  have hcapitals : summer.hasName "SUMMER" = true := by decide +kernel
  have haccents : summer.hasName "ÉTé" = true := by decide +kernel
  obtain ⟨hfound, hnames, hascii⟩ := hasName_resolves hr
  refine ⟨hr, hcapitals, hfound summer hsummer _ hcapitals, haccents, ?_, ?_⟩
  · exact (hnames summer "ÉTé" (hfound summer hsummer _ haccents)).2.1
  · have hspelled : ∀ spelling ∈ AttributeType.fullName.oid :: AttributeType.fullName.names,
        Text.Ascii spelling := by decide +kernel
    exact (hascii .fullName hname hspelled "Name" (by decide +kernel)).2 (by decide +kernel)

/-- **A type need not have a name that leads to it.**  Summers are found under their name in small
letters, but do not have that name. -/
theorem resolve_without_name :
    seasons.Reachable ∧ seasons.resolve "été" = .ok summer ∧ summer.hasName "été" = false := by
  have hr : seasons.Reachable := reachable_after _
  refine ⟨hr, hr.sound.resolve_iff.2 ⟨by decide +kernel, "Été", ?_, ?_⟩, ?_⟩ <;> decide +kernel

end Registry
end DirectoryQuery
