import DirectoryQuery.Proofs.Leaves

/-!
# What is listed, judged by the leaves

A leaf may find entries that it does not accept when it judges the candidates of others, and the
other way round.  How far what an operand lists is what the verdicts of its filter are true of
therefore depends on the leaves.

If each leaf accepts what it finds (`Test.Sound`), nothing is listed twice and only what the filter
holds of (`Store.Lists.sound`).  If each leaf finds all that it accepts (`Test.Thorough`), nothing
is missing (`Store.Lists.thorough`).  Both are properties that filtering and merging keep, and so
what the leaves have of them the filter has (`Store.Composes.lists`).
-/

set_option autoImplicit false

namespace DirectoryQuery

variable {s : Store} {config : SearchConfig} {d : Direction} {i : EntryId}

/-- What the leaf finds it also accepts. -/
def Test.Sound (s : Store) (config : SearchConfig) (t : Test) : Prop :=
  ∀ i ∈ t.found s config, t.verdict s config i = true

/-- The leaf finds every entry that it accepts. -/
def Test.Thorough (s : Store) (config : SearchConfig) (t : Test) : Prop :=
  ∀ i ∈ s.ids, t.verdict s config i = true → i ∈ t.found s config

namespace Store

/-- The verdict of a filter on an entry. -/
def accepts (s : Store) (config : SearchConfig) (e : Evaluator) (i : EntryId) : Bool :=
  e.holds fun t ↦ t.verdict s config i

theorem found_subset_ids (h : s.Consistent) (t : Test) : t.found s config ⊆ s.ids := by
  intro i hi
  unfold Test.found at hi
  split at hi
  · rename_i x key hx _
    obtain ⟨p, hp, rfl, -⟩ := ValueIndex.mem_idsOf.1 hi
    exact h.mem_ids_of_posting (index?_of_sourceIndex? hx) (ValueIndex.mem_toList.2 hp)
  · rename_i x hx _
    split at hi
    · rename_i hreverse
      obtain ⟨p, hp, rfl, -⟩ := (ValueIndex.mem_least hreverse).1 hi
      exact h.mem_ids_of_posting (index?_of_sourceIndex? hx) (ValueIndex.mem_toList.2 hp)
    · exact (List.mem_filter.1 hi).1
  · exact (List.mem_filter.1 hi).1

theorem ListsEach.length_eq : ∀ {parts : List Evaluator} {ls : List (List EntryId)},
    s.ListsEach config d parts ls → ls.length = parts.length
  | [], _, h => by
    rw [ListsEach] at h
    rw [h]
    rfl
  | _ :: _, _, h => by
    rw [ListsEach] at h
    obtain ⟨l, rest, rfl, -, hrest⟩ := h
    rw [List.length_cons, List.length_cons, hrest.length_eq]

theorem ListsEach.exists_part {parts : List Evaluator} {ls : List (List EntryId)}
    (h : s.ListsEach config d parts ls) {j : Nat} {l : List EntryId} (hl : ls[j]? = some l) :
    ∃ part, parts[j]? = some part := by
  obtain ⟨hj, -⟩ := List.getElem?_eq_some_iff.1 hl
  rw [h.length_eq] at hj
  exact ⟨_, List.getElem?_eq_getElem hj⟩

/-- What a disjunction depends on belongs to a part and what the part lists. -/
theorem mem_legs {parts : List Evaluator} {ls : List (List EntryId)} {leg : Leg} :
    leg ∈ d.arrange (List.zipWith (s.legOf config) parts ls) ↔
      ∃ (j : Nat) (part : Evaluator) (l : List EntryId),
        parts[j]? = some part ∧ ls[j]? = some l ∧ s.legOf config part l = leg := by
  rw [(d.arrange_perm _).mem_iff, List.mem_iff_getElem?]
  simp only [List.getElem?_zipWith_eq_some]

theorem accepts_all_one (part : Evaluator) (i : EntryId) :
    s.accepts config (.all [part]) i = s.accepts config part i :=
  Formula.holds_all_one _ _

theorem accepts_any_one (part : Evaluator) (i : EntryId) :
    s.accepts config (.any [part]) i = s.accepts config part i :=
  Formula.holds_any_one _ _

theorem accepts_any_iff {parts : List Evaluator} :
    s.accepts config (.any parts) i = true ↔
      ∃ part ∈ parts, s.accepts config part i = true := by
  rw [accepts, Formula.holds, Formula.anyHolds_eq_any, List.any_eq_true]
  rfl

/-! ## From leaves to filters -/

/-- What good leaves find has the property, and each way to put together what parts list keeps
it. -/
structure Composes (s : Store) (config : SearchConfig) (d : Direction) (good : Test → Prop)
    (P : Evaluator → List EntryId → Prop) : Prop where
  congr {e e' : Evaluator} {l : List EntryId} :
    P e l → (∀ i, s.accepts config e' i = s.accepts config e i) → P e' l
  everything : P (.all []) (d.arrange s.ids)
  nothing : P (.any []) []
  filter {parts : List Evaluator} {j : Nat} {part : Evaluator} {l : List EntryId} :
    parts[j]? = some part → P part l → P (.all parts) (l.filter fun i ↦
      Formula.allHold (fun t ↦ t.verdict s config i) (parts.eraseIdx j))
  merge {parts : List Evaluator} {ls : List (List EntryId)} : ls.length = parts.length →
    (∀ {j : Nat} {part : Evaluator} {l : List EntryId}, parts[j]? = some part →
      ls[j]? = some l → P part l) →
    P (.any parts) (merge [] (d.arrange (List.zipWith (s.legOf config) parts ls)))
  negation (part : Evaluator) :
    P (.not part) (d.arrange (s.ids.filter fun i ↦ !s.accepts config part i))
  leaf {t : Test} : good t → P (.leaf t) (d.arrange (t.found s config))

section Composes

variable {good : Test → Prop} {P : Evaluator → List EntryId → Prop}

mutual
/-- What is listed for a filter with good leaves has the property. -/
theorem Composes.lists (hP : Composes s config d good P) : ∀ {e : Evaluator} {l : List EntryId},
    (∀ t ∈ e.leaves, good t) → s.Lists config d e l → P e l
  | .all [], _, _, hl => by
    rw [Lists] at hl
    subst hl
    exact hP.everything
  | .all [part], l, hleaves, hl => by
    rw [Lists] at hl
    rw [Formula.leaves, Formula.leavesOf_one] at hleaves
    exact hP.congr (hP.lists hleaves hl) (accepts_all_one part)
  | .all (first :: second :: rest), _, hleaves, hl => by
    rw [Lists] at hl
    obtain ⟨ls, j, driven, hls, hj, rfl⟩ := hl
    obtain ⟨part, hpart⟩ := hls.exists_part hj
    exact hP.filter hpart (hP.listsEach hleaves hls hpart hj)
  | .any [], _, _, hl => by
    rw [Lists] at hl
    subst hl
    exact hP.nothing
  | .any [part], l, hleaves, hl => by
    rw [Lists] at hl
    rw [Formula.leaves, Formula.leavesOf_one] at hleaves
    exact hP.congr (hP.lists hleaves hl) (accepts_any_one part)
  | .any (first :: second :: rest), _, hleaves, hl => by
    rw [Lists] at hl
    obtain ⟨ls, hls, rfl⟩ := hl
    exact hP.merge hls.length_eq (hP.listsEach hleaves hls)
  | .not part, _, _, hl => by
    rw [Lists] at hl
    subst hl
    exact hP.negation part
  | .leaf t, _, hleaves, hl => by
    rw [Lists] at hl
    subst hl
    exact hP.leaf (hleaves t List.mem_cons_self)
theorem Composes.listsEach (hP : Composes s config d good P) :
    ∀ {parts : List Evaluator} {ls : List (List EntryId)},
      (∀ t ∈ Formula.leavesOf parts, good t) → s.ListsEach config d parts ls →
        ∀ {j : Nat} {part : Evaluator} {l : List EntryId}, parts[j]? = some part →
          ls[j]? = some l → P part l
  | [], _, _, _, _, _, _, hpart, _ => absurd hpart (by simp)
  | first :: rest, _, hleaves, hls, j, part, l, hpart, hl => by
    rw [ListsEach] at hls
    obtain ⟨l', ls', rfl, hfirst, hrest⟩ := hls
    rw [Formula.leavesOf, List.forall_mem_append] at hleaves
    cases j with
    | zero =>
      obtain rfl := Option.some.inj hpart
      obtain rfl := Option.some.inj hl
      exact hP.lists hleaves.1 hfirst
    | succ j => exact hP.listsEach hleaves.2 hrest hpart hl
end

end Composes

/-! ## Nothing but what the filter holds of -/

/-- Nothing is listed twice, and only entries of which the filter holds. -/
structure Fair (s : Store) (config : SearchConfig) (e : Evaluator) (l : List EntryId) : Prop where
  nodup : l.Nodup
  stored (i : EntryId) : i ∈ l → i ∈ s.ids
  accepted (i : EntryId) : i ∈ l → s.accepts config e i = true

/-- What is arranged from stored entries of which the filter holds. -/
theorem fair_arrange {e : Evaluator} {l : List EntryId} (hnodup : l.Nodup)
    (hl : ∀ i ∈ l, i ∈ s.ids ∧ s.accepts config e i = true) : Fair s config e (d.arrange l) := by
  have hperm := d.arrange_perm l
  refine ⟨hperm.nodup_iff.2 hnodup, fun i hi ↦ ?_, fun i hi ↦ ?_⟩
  · exact (hl i (hperm.subset hi)).1
  · exact (hl i (hperm.subset hi)).2

theorem Fair.congr {e e' : Evaluator} {l : List EntryId} (h : Fair s config e l)
    (he : ∀ i, s.accepts config e' i = s.accepts config e i) : Fair s config e' l :=
  ⟨h.nodup, h.stored, fun i hi ↦ (he i).trans (h.accepted i hi)⟩

/-- Of what one part lists, what the other parts hold of. -/
theorem Fair.filter {parts : List Evaluator} {j : Nat} {part : Evaluator} {l : List EntryId}
    (hpart : parts[j]? = some part) (h : Fair s config part l) :
    Fair s config (.all parts) (l.filter fun i ↦
      Formula.allHold (fun t ↦ t.verdict s config i) (parts.eraseIdx j)) := by
  refine ⟨h.nodup.filter _, fun i hi ↦ ?_, fun i hi ↦ ?_⟩
  · exact h.stored i (List.mem_filter.1 hi).1
  · obtain ⟨hl, hothers⟩ := List.mem_filter.1 hi
    exact (Formula.allHold_iff_eraseIdx hpart).2 ⟨h.accepted i hl, hothers⟩

/-- What the parts list, merged. -/
theorem Fair.merge {parts : List Evaluator} {ls : List (List EntryId)}
    (h : ∀ {j : Nat} {part : Evaluator} {l : List EntryId}, parts[j]? = some part →
      ls[j]? = some l → Fair s config part l) :
    Fair s config (.any parts)
      (merge [] (d.arrange (List.zipWith (s.legOf config) parts ls))) := by
  have hmem : ∀ i ∈ DirectoryQuery.merge [] (d.arrange (List.zipWith (s.legOf config) parts ls)),
      ∃ part ∈ parts, i ∈ s.ids ∧ s.accepts config part i = true := by
    intro i hi
    obtain ⟨_, hleg, hi, -⟩ := exists_of_mem_merge hi
    obtain ⟨j, part, l, hpart, hl, rfl⟩ := mem_legs.1 hleg
    have hfair := h hpart hl
    exact ⟨part, List.mem_of_getElem? hpart, hfair.stored i hi, hfair.accepted i hi⟩
  refine ⟨(nodup_merge ?_ ?_).1, fun i hi ↦ ?_, fun i hi ↦ ?_⟩
  · intro _ hleg
    obtain ⟨j, part, l, hpart, hl, rfl⟩ := mem_legs.1 hleg
    exact (h hpart hl).nodup
  · intro _ hleg
    obtain ⟨j, part, l, hpart, hl, rfl⟩ := mem_legs.1 hleg
    exact (h hpart hl).accepted
  · obtain ⟨part, -, hstored, -⟩ := hmem i hi
    exact hstored
  · obtain ⟨part, hpart, -, haccepted⟩ := hmem i hi
    exact accepts_any_iff.2 ⟨part, hpart, haccepted⟩

theorem composes_fair (h : s.Consistent) :
    Composes s config d (Test.Sound s config) (Fair s config) where
  congr := Fair.congr
  everything := fair_arrange (nodup_ids h) fun _ hi ↦ ⟨hi, rfl⟩
  nothing := ⟨List.nodup_nil, fun _ hi ↦ absurd hi List.not_mem_nil,
    fun _ hi ↦ absurd hi List.not_mem_nil⟩
  filter := Fair.filter
  merge _ := Fair.merge
  negation _ := fair_arrange ((nodup_ids h).filter _) fun _ hi ↦ List.mem_filter.1 hi
  leaf {t} ht := fair_arrange (t.nodup_found h config) fun i hi ↦ ⟨found_subset_ids h t hi, ht i hi⟩

/-- **If the leaves accept what they find, nothing is listed twice, and only entries of which the
filter holds.** -/
theorem Lists.sound (h : s.Consistent) {e : Evaluator} {l : List EntryId}
    (hleaves : ∀ t ∈ e.leaves, t.Sound s config) (hl : s.Lists config d e l) : Fair s config e l :=
  (composes_fair h).lists hleaves hl

/-! ## All that the filter holds of -/

/-- Every stored entry is listed of which the filter holds. -/
def Full (s : Store) (config : SearchConfig) (e : Evaluator) (l : List EntryId) : Prop :=
  ∀ i ∈ s.ids, s.accepts config e i = true → i ∈ l

theorem Full.congr {e e' : Evaluator} {l : List EntryId} (h : Full s config e l)
    (he : ∀ i, s.accepts config e' i = s.accepts config e i) : Full s config e' l :=
  fun i hi haccepted ↦ h i hi ((he i).symm.trans haccepted)

/-- Of what one part lists, what the other parts hold of. -/
theorem Full.filter {parts : List Evaluator} {j : Nat} {part : Evaluator} {l : List EntryId}
    (hpart : parts[j]? = some part) (h : Full s config part l) :
    Full s config (.all parts) (l.filter fun i ↦
      Formula.allHold (fun t ↦ t.verdict s config i) (parts.eraseIdx j)) := by
  intro i hi haccepted
  obtain ⟨hverdict, hothers⟩ := (Formula.allHold_iff_eraseIdx hpart).1 haccepted
  exact List.mem_filter.2 ⟨h i hi hverdict, hothers⟩

/-- What the parts list, merged. -/
theorem Full.merge {parts : List Evaluator} {ls : List (List EntryId)}
    (hlen : ls.length = parts.length)
    (h : ∀ {j : Nat} {part : Evaluator} {l : List EntryId}, parts[j]? = some part →
      ls[j]? = some l → Full s config part l) :
    Full s config (.any parts)
      (merge [] (d.arrange (List.zipWith (s.legOf config) parts ls))) := by
  intro i hi haccepted
  obtain ⟨part, hmem, haccepted⟩ := accepts_any_iff.1 haccepted
  obtain ⟨j, hj, hget⟩ := List.mem_iff_getElem.1 hmem
  have hpart := List.getElem?_eq_some_iff.2 ⟨hj, hget⟩
  obtain ⟨l, hl⟩ : ∃ l, ls[j]? = some l := ⟨_, List.getElem?_eq_getElem (hlen.symm ▸ hj)⟩
  have hleg : s.legOf config part l ∈ d.arrange (List.zipWith (s.legOf config) parts ls) :=
    mem_legs.2 ⟨j, part, l, hpart, hl, rfl⟩
  have hcomes : i ∈ [] ∨ i ∈ DirectoryQuery.merge [] _ :=
    mem_or_mem_merge hleg (h hpart hl i hi haccepted) rfl
  exact hcomes.resolve_left List.not_mem_nil

theorem composes_full : Composes s config d (Test.Thorough s config) (Full s config) where
  congr := Full.congr
  everything := fun _ hi _ ↦ (d.arrange_perm _).mem_iff.2 hi
  nothing := fun _ _ haccepted ↦ nomatch haccepted
  filter := Full.filter
  merge := Full.merge
  negation _ _ hi haccepted := (d.arrange_perm _).mem_iff.2 (List.mem_filter.2 ⟨hi, haccepted⟩)
  leaf ht i hi haccepted := (d.arrange_perm _).mem_iff.2 (ht i hi haccepted)

/-- **If the leaves find what they accept, every entry is listed of which the filter holds.** -/
theorem Lists.thorough {e : Evaluator} {l : List EntryId}
    (hleaves : ∀ t ∈ e.leaves, t.Thorough s config) (hl : s.Lists config d e l) :
    Full s config e l :=
  composes_full.lists hleaves hl

end Store

end DirectoryQuery
