import Mathlib.Data.List.Nodup
import DirectoryQuery.Proofs.Plans
import DirectoryQuery.Proofs.Results

/-!
# Own keys and values

A leaf is put to an entry in one of two ways.  Where an index serves, what counts are the keys under
which the index records the entry: its own values of the attribute, normalized by the equality rule
(`Test.HasKey`).  Anywhere else the entry itself is tested, with the values of descendants too, and
normalized by the rule of the leaf (`Test.acceptsEntry`).

Candidates and verdicts of a leaf each come in one of these ways, by different settings.  When both
ways agree about every entry, no setting makes a difference; otherwise the two may come apart in one
search.
-/

set_option autoImplicit false

namespace DirectoryQuery

open Std

variable {s : Store} {r : Registry} {config : SearchConfig} {t : Test} {i : EntryId} {e : Entry}

/-! ## Postings of one entry -/

namespace ValueIndex

variable {x : ValueIndex} {p : Posting} {key : Value} {a : Assertion}

theorem nodup_toList (x : ValueIndex) : x.toList.Nodup := by
  refine x.forwardHalf.nodup_toList.map fun _ _ heq ↦ ?_
  exact Prod.ext (congrArg Posting.key heq) (congrArg Posting.id heq)

theorem mem_idsOf : i ∈ x.idsOf key ↔ ∃ p ∈ x, p.id = i ∧ p.key = key := by
  rw [idsOf, ExtTreeSet.mem_toList]
  constructor
  · exact fun h ↦ ⟨⟨key, i⟩, h, rfl, rfl⟩
  · rintro ⟨p, hp, rfl, rfl⟩
    exact hp

theorem nodup_idsOf (x : ValueIndex) (key : Value) : (x.idsOf key).Nodup :=
  Groups.nodup_members _

/-- The reverse half has the keys of an entry. -/
theorem mem_postingsAt (hx : x.hasReverse = true) : p ∈ x.postingsAt i ↔ p ∈ x ∧ p.id = i := by
  obtain ⟨half, hhalf⟩ := Option.isSome_iff_exists.1 hx
  have hhas : half.Has i p.key ↔ x.forwardHalf.Has p.key i := x.inverse half hhalf p.key i
  rw [postingsAt, hhalf, List.mem_map]
  constructor
  · rintro ⟨key, hkey, rfl⟩
    exact ⟨hhas.1 (ExtTreeSet.mem_toList.1 hkey), rfl⟩
  · rintro ⟨hp, rfl⟩
    exact ⟨p.key, ExtTreeSet.mem_toList.2 (hhas.2 hp), rfl⟩

/-- The least key of an entry that satisfies the assertion, if there is one. -/
def leastKey? (x : ValueIndex) (a : Assertion) (i : EntryId) : Option Value :=
  ((x.postingsAt i).map Posting.key).find? a.holds

theorem isLeast_iff (hx : x.hasReverse = true) (hp : p ∈ x) :
    x.isLeast a p = true ↔ x.leastKey? a p.id = some p.key := by
  have hmem : p.key ∈ (x.postingsAt p.id).map Posting.key :=
    List.mem_map_of_mem ((mem_postingsAt hx).2 ⟨hp, rfl⟩)
  rw [isLeast, Bool.and_eq_true, leastKey?]
  cases hfind : ((x.postingsAt p.id).map Posting.key).find? a.holds with
  | none =>
    have hnone := List.find?_eq_none.1 hfind p.key hmem
    exact ⟨fun h ↦ absurd h.1 hnone, fun h ↦ absurd h.symm (Option.some_ne_none p.key)⟩
  | some key =>
    rw [Option.all_some, beq_iff_eq, Option.some_inj]
    refine ⟨fun h ↦ h.2, fun h ↦ ⟨?_, h⟩⟩
    rw [← h]
    exact List.find?_some hfind

/-- An entry with keys that satisfy the assertion is found under one of them. -/
theorem mem_least (hx : x.hasReverse = true) : i ∈ (x.toList.filter (x.isLeast a)).map Posting.id ↔
    ∃ p ∈ x, p.id = i ∧ a.holds p.key = true := by
  rw [List.mem_map]
  constructor
  · rintro ⟨p, hp, rfl⟩
    obtain ⟨hmem, hleast⟩ := List.mem_filter.1 hp
    rw [isLeast, Bool.and_eq_true] at hleast
    exact ⟨p, mem_toList.1 hmem, rfl, hleast.1⟩
  · rintro ⟨p, hmem, rfl, hholds⟩
    cases hfind : x.leastKey? a p.id with
    | none =>
      have hkey : p.key ∈ (x.postingsAt p.id).map Posting.key :=
        List.mem_map_of_mem ((mem_postingsAt hx).2 ⟨hmem, rfl⟩)
      exact absurd hholds (List.find?_eq_none.1 hfind p.key hkey)
    | some key =>
      obtain ⟨q, hq, rfl⟩ := List.mem_map.1 (List.mem_of_find?_eq_some hfind)
      obtain ⟨hqmem, hid⟩ := (mem_postingsAt hx).1 hq
      rw [← hid] at hfind
      exact ⟨q, List.mem_filter.2 ⟨mem_toList.2 hqmem, (isLeast_iff hx hqmem).2 hfind⟩, hid⟩

/-- No entry is found under two keys. -/
theorem nodup_least (hx : x.hasReverse = true) (a : Assertion) :
    ((x.toList.filter (x.isLeast a)).map Posting.id).Nodup := by
  refine List.Nodup.map_on ?_ (x.nodup_toList.filter _)
  intro p hp q hq hid
  obtain ⟨hpmem, hp⟩ := List.mem_filter.1 hp
  obtain ⟨hqmem, hq⟩ := List.mem_filter.1 hq
  have hpkey := (isLeast_iff hx (mem_toList.1 hpmem)).1 hp
  have hqkey := (isLeast_iff hx (mem_toList.1 hqmem)).1 hq
  rw [hid, hqkey, Option.some_inj] at hpkey
  exact posting_eq_iff.2 ⟨hid.symm, hpkey⟩

end ValueIndex

/-! ## Leaves -/

theorem Clause.toTest_eq_ok {c : Clause} (h : c.toTest r = .ok t) :
    t.clause = c ∧ Subject.resolve r c.name c.condition.slots = .ok t.subject ∧
      t.assertion = t.subject.assertion c.condition := by
  obtain ⟨subject, hsubject, ht⟩ := bind_eq_ok.1 h
  obtain rfl := Except.ok.inj ht
  exact ⟨rfl, hsubject, rfl⟩

/-- The type of a leaf is one that the schema finds by name. -/
theorem Clause.resolve_type {c : Clause} (h : c.toTest r = .ok t) :
    r.resolve c.name = .ok t.subject.type :=
  (Subject.resolve_eq_ok (Clause.toTest_eq_ok h).2.1).1

namespace Test

/-- One of the entry's own values of the attribute satisfies the assertion when it is normalized by
the equality rule, as the keys of an index on the attribute are. -/
def HasKey (r : Registry) (t : Test) (e : Entry) : Prop :=
  ∃ normalizer, r.keyNormalizer t.subject.type = .ok normalizer ∧
    ∃ v ∈ e.get t.subject.type, t.assertion.holds (normalizer.apply v) = true

theorem acceptsEntry_iff : t.acceptsEntry e = true ↔
    ∃ u ∈ t.subject.type :: t.subject.descendants, ∃ v ∈ e.get u,
      t.assertion.holds (t.subject.normalizer.apply v) = true := by
  rw [acceptsEntry, firstValue?, List.isSome_find?, Subject.values, List.any_map, List.any_flatMap,
    List.any_eq_true]
  simp only [List.any_eq_true, Function.comp_apply]

/-- Where an index is asked for one key, the values that satisfy the assertion are that key. -/
theorem holds_iff_of_lookupKey {key : Value} (h : t.lookupKey = some key) (v : Value) :
    t.assertion.holds v = true ↔ v = key := by
  unfold lookupKey at h
  split at h
  · unfold Assertion.lookupKey at h
    split at h
    · rename_i text hassertion
      obtain rfl := Option.some.inj h
      rw [hassertion, Assertion.holds, beq_iff_eq]
      cases v with
      | binary bs => exact ⟨nofun, nofun⟩
      | text a =>
        rw [Comparator.compare?, Option.some_inj, Std.compare_eq_iff_eq, Value.text.injEq]
    · exact nomatch h
  · exact nomatch h

end Test

namespace Store

/-- The postings of an index on a type are the own values of the entries, normalized by the equality
rule of the type. -/
theorem Built.mem_postings (hs : s.Built r) (hr : r.Reachable) {name : String} {u : AttributeType}
    (hu : r.resolve name = .ok u) {x : ValueIndex} (hx : s.index? u = some x) :
    x.hasReverse = true ∧ ∃ normalizer, r.keyNormalizer u = .ok normalizer ∧
      ∀ p, p ∈ x ↔
        ∃ e, s.entries[p.id]? = some e ∧ ∃ v ∈ e.get u, normalizer.apply v = p.key := by
  obtain ⟨x, hindex, rfl⟩ := Option.map_eq_some_iff.1 hx
  obtain ⟨⟨name', hname'⟩, hnormalizer, hreverse⟩ := hs.schematic hindex
  obtain rfl : x.type = u := hr.type_unique hname' hu (hs.consistent.oid_eq _ x hindex)
  refine ⟨hreverse, x.normalizer, hnormalizer, fun p ↦ ?_⟩
  rw [hs.consistent.records _ x hindex p]
  simp only [IndexedAttribute.keysOf, List.mem_map]

/-- One of the keys of an entry satisfies the assertion. -/
theorem Built.exists_posting_iff (hs : s.Built r) (hr : r.Reachable) {c : Clause}
    (ht : c.toTest r = .ok t) {x : ValueIndex} (hx : s.index? t.subject.type = some x) :
    (∃ p ∈ x, p.id = i ∧ t.assertion.holds p.key = true) ↔
      ∃ e, s.entries[i]? = some e ∧ t.HasKey r e := by
  obtain ⟨-, normalizer, hnormalizer, hpostings⟩ :=
    hs.mem_postings hr (Clause.resolve_type ht) hx
  constructor
  · rintro ⟨p, hp, rfl, hholds⟩
    obtain ⟨e, he, v, hv, hkey⟩ := (hpostings p).1 hp
    exact ⟨e, he, normalizer, hnormalizer, v, hv, by rwa [hkey]⟩
  · rintro ⟨e, he, normalizer', hnormalizer', v, hv, hholds⟩
    obtain rfl := Except.ok.inj (hnormalizer.symm.trans hnormalizer')
    exact ⟨⟨normalizer.apply v, i⟩, (hpostings _).2 ⟨e, he, v, hv, rfl⟩, rfl, hholds⟩

theorem nodup_ids (h : s.Consistent) : s.ids.Nodup := nodup_map_values h.id_eq

end Store

namespace Test

/-! ### What is found -/

theorem nodup_found (h : s.Consistent) (config : SearchConfig) (t : Test) :
    (t.found s config).Nodup := by
  unfold found
  split
  · exact ValueIndex.nodup_idsOf _ _
  · split
    · rename_i hreverse
      exact ValueIndex.nodup_least hreverse _
    · exact (Store.nodup_ids h).filter _
  · exact (Store.nodup_ids h).filter _

variable {c : Clause}

/-- Where candidates come from an index, a leaf finds the entries with a key that satisfies it. -/
theorem mem_found_of_index (hs : s.Built r) (hr : r.Reachable) (ht : c.toTest r = .ok t)
    {x : ValueIndex} (hx : s.sourceIndex? config t.subject.type = some x) :
    i ∈ t.found s config ↔ ∃ e, s.entries[i]? = some e ∧ t.HasKey r e := by
  have hindex := Store.index?_of_sourceIndex? hx
  rw [← hs.exists_posting_iff hr ht hindex, found, hx]
  cases hkey : t.lookupKey with
  | some key =>
    simp only [ValueIndex.mem_idsOf, holds_iff_of_lookupKey hkey]
  | none =>
    obtain ⟨hreverse, -⟩ := hs.mem_postings hr (Clause.resolve_type ht) hindex
    simp only [if_pos hreverse]
    exact ValueIndex.mem_least hreverse

/-- Without an index to take candidates from, a leaf finds the entries of which its verdict is
true. -/
theorem mem_found_of_entries (h : s.Consistent)
    (hx : s.sourceIndex? config t.subject.type = none) :
    i ∈ t.found s config ↔ (∃ e, s.entries[i]? = some e) ∧ t.verdict s config i = true := by
  rw [found, hx, List.mem_filter, h.mem_ids]

/-! ### Verdicts -/

theorem verdict_of_index (hs : s.Built r) (hr : r.Reachable) (ht : c.toTest r = .ok t)
    {x : ValueIndex} (hx : s.index? t.subject.type = some x) (huse : config.useReverseIndex = true)
    (he : s.entries[i]? = some e) : t.verdict s config i = true ↔ t.HasKey r e := by
  obtain ⟨hreverse, -⟩ := hs.mem_postings hr (Clause.resolve_type ht) hx
  have hindex : s.reverseIndex? config t.subject.type = some x := by
    rw [Store.reverseIndex?, if_pos huse, hx, Option.filter_some_pos hreverse]
  have hposting := hs.exists_posting_iff hr ht hx (i := i)
  rw [verdict, hindex, List.any_eq_true]
  simp only [ValueIndex.mem_postingsAt hreverse, and_assoc]
  rw [hposting]
  constructor
  · rintro ⟨e', he', hkey⟩
    obtain rfl := Option.some.inj (he.symm.trans he')
    exact hkey
  · exact fun hkey ↦ ⟨e, he, hkey⟩

theorem verdict_of_entry
    (hx : s.index? t.subject.type = none ∨ config.useReverseIndex = false)
    (he : s.entries[i]? = some e) : t.verdict s config i = t.acceptsEntry e := by
  have hindex : s.reverseIndex? config t.subject.type = none := by
    unfold Store.reverseIndex?
    rcases hx with hx | huse
    · rw [hx, Option.filter_none, ite_self]
    · rw [huse]
      rfl
  rw [verdict, hindex, he, Option.any_some]

end Test
end DirectoryQuery
