import Std.Data.DTreeMap.Internal.WF.Lemmas
import DirectoryQuery.Proofs.Schemas
import DirectoryQuery.Store.Basic

/-!
# Stores that changes lead to

A store is changed entry by entry, and with every change of an entry its indexes change.  Through
all changes the postings of an index are the normalized values of the entries there are, under the
index's own attribute type (`Store.Consistent`).

Indexes may also be kept by the name of an attribute type in a schema.  `Store.Built` describes the
stores that have only such indexes; their keys are normalized by the equality rule of the type, and
all of them can be read in reverse (`Store.Built.schematic`).
-/

set_option autoImplicit false

namespace DirectoryQuery

open Std

/-- The values of a map are the second components of its associations. -/
theorem values_eq_map_toList {κ ν : Type} {cmp : κ → κ → Ordering} [TransCmp cmp]
    (m : ExtTreeMap κ ν cmp) : m.values = m.toList.map Prod.snd := by
  obtain ⟨⟨q⟩⟩ := m
  induction q using Quotient.ind with
  | _ m =>
    show m.inner.values = (DTreeMap.Internal.Impl.Const.toList m.inner).map Prod.snd
    rw [DTreeMap.Internal.Impl.values_eq_map_snd,
      DTreeMap.Internal.Impl.Const.toList_eq_toListModel_map, List.map_map]
    rfl

/-- A fold keeps what is seen of its result, if every step keeps it. -/
theorem foldl_keeps {α β γ : Type} (view : β → γ) {step : β → α → β}
    (h : ∀ b a, view (step b a) = view b) (l : List α) (b : β) :
    view (l.foldl step b) = view b := by
  induction l generalizing b with
  | nil => rfl
  | cons a l ih => rw [List.foldl_cons, ih, h]

/-! ## Maps whose values tell their keys -/

section OwnKeys

variable {κ ν : Type} [Ord κ] [TransOrd κ] {m : ExtTreeMap κ ν} {f : ν → κ}

/-- If every value of a map tells its own key, no two values tell the same. -/
theorem nodup_map_values [LawfulEqOrd κ] (h : ∀ key v, m[key]? = some v → f v = key) :
    (m.values.map f).Nodup := by
  have hkeys : m.values.map f = m.toList.map Prod.fst := by
    rw [values_eq_map_toList, List.map_map]
    refine List.map_congr_left ?_
    rintro ⟨key, v⟩ hv
    exact h key v (ExtTreeMap.mem_toList_iff_getElem?_eq_some.1 hv)
  have hdistinct : m.toList.Pairwise fun a b ↦ ¬compare a.1 b.1 = .eq :=
    ExtTreeMap.distinct_keys_toList
  rw [hkeys]
  refine (List.pairwise_map.2 (hdistinct.imp ?_) : (m.toList.map Prod.fst).Pairwise (· ≠ ·))
  exact fun hne heq ↦ hne (by rw [heq]; exact compare_self)

/-- If every value of a map tells its own key, then so it is with one value more. -/
theorem ownKey_insert [LawfulEqOrd κ] (h : ∀ key v, m[key]? = some v → f v = key) {first : κ}
    {new : ν} (hnew : f new = first) :
    ∀ key v, (m.insert first new)[key]? = some v → f v = key := by
  intro key v hv
  rw [ExtTreeMap.getElem?_insert] at hv
  split at hv
  · rename_i hcompare
    rw [← Option.some.inj hv, hnew]
    exact compare_eq_iff_eq.1 hcompare
  · exact h key v hv

theorem ownKey_erase (h : ∀ key v, m[key]? = some v → f v = key) (last : κ) :
    ∀ key v, (m.erase last)[key]? = some v → f v = key := by
  intro key v hv
  rw [ExtTreeMap.getElem?_erase] at hv
  split at hv
  · exact nomatch hv
  · exact h key v hv

end OwnKeys

/-! ## Postings of one index -/

namespace ValueIndex

variable {x : ValueIndex} {key : Value} {keys : List Value} {id : EntryId} {p : Posting}

theorem posting_eq_iff : (⟨key, id⟩ : Posting) = p ↔ p.id = id ∧ p.key = key := by
  constructor
  · rintro rfl
    exact ⟨rfl, rfl⟩
  · rintro ⟨rfl, rfl⟩
    rfl

theorem mem_iff : p ∈ x ↔ x.forwardHalf.Has p.key p.id := Iff.rfl

theorem not_mem_empty (indexed : String) (hasReverse : Bool) : p ∉ empty indexed hasReverse :=
  Groups.not_has_empty

theorem mem_insert : p ∈ x.insert key id ↔ p ∈ x ∨ p.id = id ∧ p.key = key := by
  rw [mem_iff, mem_iff, and_comm]
  exact Groups.has_insert

theorem mem_erase : p ∈ x.erase key id ↔ p ∈ x ∧ ¬(p.id = id ∧ p.key = key) := by
  rw [mem_iff, mem_iff, and_comm (a := p.id = id)]
  exact Groups.has_erase

@[simp]
theorem hasReverse_empty (indexed : String) (hasReverse : Bool) :
    (empty indexed hasReverse).hasReverse = hasReverse := by
  cases hasReverse with
  | false => rfl
  | true => rfl

@[simp]
theorem hasReverse_insert : (x.insert key id).hasReverse = x.hasReverse := Option.isSome_map

@[simp]
theorem hasReverse_erase : (x.erase key id).hasReverse = x.hasReverse := Option.isSome_map

@[simp]
theorem indexed_insert : (x.insert key id).indexed = x.indexed := rfl

@[simp]
theorem indexed_erase : (x.erase key id).indexed = x.indexed := rfl

theorem mem_toList : p ∈ x.toList ↔ p ∈ x := by
  rw [toList, List.mem_map]
  constructor
  · rintro ⟨⟨key, id⟩, hpair, rfl⟩
    exact Groups.mem_toList.1 hpair
  · exact fun hp ↦ ⟨(p.key, p.id), Groups.mem_toList.2 hp, rfl⟩

/-- The postings of a key are among all postings. -/
theorem postingsOf_subset (x : ValueIndex) (key : Value) : x.postingsOf key ⊆ x.toList := by
  intro p hp
  obtain ⟨id, hid, rfl⟩ := List.mem_map.1 hp
  exact mem_toList.2 (ExtTreeSet.mem_toList.1 hid)

theorem map_id_postingsOf (x : ValueIndex) (key : Value) :
    (x.postingsOf key).map Posting.id = x.idsOf key := by
  rw [postingsOf, List.map_map]
  exact List.map_id _

theorem mem_foldl_insert :
    p ∈ keys.foldl (fun index key ↦ index.insert key id) x ↔
      p ∈ x ∨ p.id = id ∧ p.key ∈ keys := by
  induction keys generalizing x with
  | nil => simp
  | cons key keys ih =>
    rw [List.foldl_cons, ih, mem_insert, or_assoc, ← and_or_left, List.mem_cons]

theorem mem_foldl_erase :
    p ∈ keys.foldl (fun index key ↦ index.erase key id) x ↔
      p ∈ x ∧ ¬(p.id = id ∧ p.key ∈ keys) := by
  induction keys generalizing x with
  | nil => simp
  | cons key keys ih =>
    rw [List.foldl_cons, ih, mem_erase, and_assoc, ← not_or, ← and_or_left, List.mem_cons]

end ValueIndex

namespace IndexedAttribute

variable {x : IndexedAttribute} {e : Entry} {p : Posting}

/-- The postings are the keys of the entries that a table holds. -/
def Records (x : IndexedAttribute) (entries : ExtTreeMap EntryId Entry) : Prop :=
  ∀ p, p ∈ x.index ↔ ∃ e, entries[p.id]? = some e ∧ p.key ∈ x.keysOf e

theorem mem_insert :
    p ∈ (x.insert e).index ↔ p ∈ x.index ∨ p.id = e.id ∧ p.key ∈ x.keysOf e :=
  ValueIndex.mem_foldl_insert

theorem mem_erase :
    p ∈ (x.erase e).index ↔
      p ∈ x.index ∧ ¬(p.id = e.id ∧ p.key ∈ x.keysOf e) :=
  ValueIndex.mem_foldl_erase

theorem hasReverse_insert (x : IndexedAttribute) (e : Entry) :
    (x.insert e).index.hasReverse = x.index.hasReverse :=
  foldl_keeps ValueIndex.hasReverse (fun _ _ ↦ ValueIndex.hasReverse_insert) _ _

theorem hasReverse_erase (x : IndexedAttribute) (e : Entry) :
    (x.erase e).index.hasReverse = x.index.hasReverse :=
  foldl_keeps ValueIndex.hasReverse (fun _ _ ↦ ValueIndex.hasReverse_erase) _ _

theorem indexed_insert (x : IndexedAttribute) (e : Entry) :
    (x.insert e).index.indexed = x.index.indexed :=
  foldl_keeps ValueIndex.indexed (fun _ _ ↦ ValueIndex.indexed_insert) _ _

theorem indexed_erase (x : IndexedAttribute) (e : Entry) :
    (x.erase e).index.indexed = x.index.indexed :=
  foldl_keeps ValueIndex.indexed (fun _ _ ↦ ValueIndex.indexed_erase) _ _

/-- Forgetting an entry that goes. -/
theorem Records.erase {entries : ExtTreeMap EntryId Entry} (h : x.Records entries)
    (he : entries[e.id]? = some e) : (x.erase e).Records (entries.erase e.id) := by
  intro p
  rw [mem_erase, h p, ExtTreeMap.getElem?_erase]
  by_cases hid : e.id = p.id
  · rw [if_pos (Std.compare_eq_iff_eq.2 hid), ← hid, he]
    constructor
    · rintro ⟨⟨e', he', hkey⟩, hnot⟩
      obtain rfl := Option.some.inj he'
      exact absurd ⟨rfl, hkey⟩ hnot
    · rintro ⟨e', he', -⟩
      exact nomatch he'
  · rw [if_neg (mt Std.compare_eq_iff_eq.1 hid)]
    exact and_iff_left fun hnot ↦ hid hnot.1.symm

/-- Recording an entry that comes. -/
theorem Records.insert {entries : ExtTreeMap EntryId Entry} (h : x.Records entries)
    (he : entries[e.id]? = none) : (x.insert e).Records (entries.insert e.id e) := by
  intro p
  rw [mem_insert, h p, ExtTreeMap.getElem?_insert]
  by_cases hid : e.id = p.id
  · rw [if_pos (Std.compare_eq_iff_eq.2 hid), ← hid, he]
    constructor
    · rintro (⟨e', he', -⟩ | ⟨-, hkey⟩)
      · exact nomatch he'
      · exact ⟨e, rfl, hkey⟩
    · rintro ⟨e', he', hkey⟩
      obtain rfl := Option.some.inj he'
      exact .inr ⟨rfl, hkey⟩
  · rw [if_neg (mt Std.compare_eq_iff_eq.1 hid)]
    exact or_iff_left fun hnew ↦ hid hnew.1.symm

theorem Records.congr {entries entries' : ExtTreeMap EntryId Entry} (h : x.Records entries)
    (hsame : ∀ id : EntryId, entries[id]? = entries'[id]?) : x.Records entries' := by
  intro p
  rw [h p, hsame]

/-- Recording entries one by one leaves everything but the postings as it is. -/
theorem foldl_insert_spec (x : IndexedAttribute) (l : List Entry) :
    (l.foldl insert x).type = x.type ∧ (l.foldl insert x).normalizer = x.normalizer ∧
      (l.foldl insert x).index.hasReverse = x.index.hasReverse ∧
      ∀ p, p ∈ (l.foldl insert x).index ↔
        p ∈ x.index ∨ ∃ e ∈ l, p.id = e.id ∧ p.key ∈ x.keysOf e := by
  induction l generalizing x with
  | nil => exact ⟨rfl, rfl, rfl, fun p ↦ by simp⟩
  | cons e l ih =>
    obtain ⟨htype, hnormalizer, hreverse, hpostings⟩ := ih (x.insert e)
    refine ⟨htype, hnormalizer, hreverse.trans (x.hasReverse_insert e), fun p ↦ ?_⟩
    rw [List.foldl_cons, hpostings p, mem_insert, or_assoc]
    simp only [List.mem_cons, or_and_right, exists_or, exists_eq_left]
    rfl

end IndexedAttribute

/-! ## Stores -/

namespace Store

variable {s : Store} {e : Entry} {id : EntryId} {oid : String} {x : IndexedAttribute}

theorem mem_toList : e ∈ s.toList ↔ ∃ id : EntryId, s.entries[id]? = some e := by
  rw [toList, values_eq_map_toList, List.mem_map]
  constructor
  · rintro ⟨⟨id, e'⟩, hmem, rfl⟩
    exact ⟨id, ExtTreeMap.mem_toList_iff_getElem?_eq_some.1 hmem⟩
  · rintro ⟨id, hget⟩
    exact ⟨(id, e), ExtTreeMap.mem_toList_iff_getElem?_eq_some.2 hget, rfl⟩

theorem indexes_mapIndexes (s : Store) (f : IndexedAttribute → IndexedAttribute) (oid : String) :
    (s.mapIndexes f).indexes[oid]? = s.indexes[oid]?.map f :=
  ExtTreeMap.getElem?_map

/-- Entries and indexes go together: entries are kept under their identifiers, indexes under those
of their attribute types, and the postings of an index are the keys of the entries. -/
structure Consistent (s : Store) : Prop where
  id_eq (id : EntryId) (e : Entry) : s.entries[id]? = some e → e.id = id
  oid_eq (oid : String) (x : IndexedAttribute) : s.indexes[oid]? = some x → x.type.oid = oid
  records (oid : String) (x : IndexedAttribute) : s.indexes[oid]? = some x → x.Records s.entries

theorem consistent_empty : Consistent .empty :=
  ⟨fun id e h ↦ by simp [empty] at h, fun oid x h ↦ by simp [empty] at h,
    fun oid x h ↦ by simp [empty] at h⟩

/-- The indexes change along with the entries. -/
theorem Consistent.mapIndexes (h : s.Consistent) {f : IndexedAttribute → IndexedAttribute}
    {entries : ExtTreeMap EntryId Entry}
    (hid : ∀ (id : EntryId) (e : Entry), entries[id]? = some e → e.id = id)
    (htype : ∀ x, (f x).type = x.type)
    (hrecords : ∀ x : IndexedAttribute, x.Records s.entries → (f x).Records entries) :
    Consistent { s.mapIndexes f with entries := entries } := by
  have hchanged : ∀ (oid : String) (x' : IndexedAttribute),
      (s.mapIndexes f).indexes[oid]? = some x' → ∃ x, s.indexes[oid]? = some x ∧ f x = x' := by
    intro oid x' hx'
    rwa [indexes_mapIndexes, Option.map_eq_some_iff] at hx'
  refine ⟨hid, fun oid x' hx' ↦ ?_, fun oid x' hx' ↦ ?_⟩
  · obtain ⟨x, hx, rfl⟩ := hchanged oid x' hx'
    rw [htype]
    exact h.oid_eq oid x hx
  · obtain ⟨x, hx, rfl⟩ := hchanged oid x' hx'
    exact hrecords x (h.records oid x hx)

/-- The store with one entry less, the indexes having forgotten it. -/
theorem Consistent.erased (h : s.Consistent) (he : s.entries[id]? = some e) :
    Consistent { s.mapIndexes fun x ↦ x.erase e with entries := s.entries.erase id } := by
  obtain rfl := h.id_eq id e he
  exact h.mapIndexes (ownKey_erase h.id_eq e.id) (fun _ ↦ rfl) fun _ hx ↦ hx.erase he

/-- The store with one entry more, the indexes having recorded it. -/
theorem Consistent.inserted (h : s.Consistent) (he : s.entries[e.id]? = none) :
    Consistent { s.mapIndexes fun x ↦ x.insert e with entries := s.entries.insert e.id e } :=
  h.mapIndexes (ownKey_insert h.id_eq rfl) (fun _ ↦ rfl) fun _ hx ↦ hx.insert he

/-- The same entries, looked up one by one. -/
theorem Consistent.congr {s' : Store} (h : s.Consistent) (hindexes : s'.indexes = s.indexes)
    (hentries : ∀ id : EntryId, s.entries[id]? = s'.entries[id]?) : Consistent s' := by
  refine ⟨fun id e he ↦ h.id_eq id e ((hentries id).trans he), ?_, ?_⟩
  · rw [hindexes]
    exact h.oid_eq
  · rw [hindexes]
    exact fun oid x hx ↦ (h.records oid x hx).congr hentries

theorem Consistent.add (h : s.Consistent) (e : Entry) : Consistent (s.add e) := by
  cases hprevious : s.entries[e.id]? with
  | none =>
    have hadd : s.add e =
        { s.mapIndexes fun x ↦ x.insert e with entries := s.entries.insert e.id e } := by
      rw [Store.add, hprevious]
    rw [hadd]
    exact h.inserted hprevious
  | some previous =>
    have hadd : s.add e = { (s.mapIndexes fun x ↦ x.erase previous).mapIndexes
        fun x ↦ x.insert e with entries := s.entries.insert e.id e } := by
      rw [Store.add, hprevious]
    have herased := h.erased hprevious
    have hgone : (s.entries.erase e.id)[e.id]? = none := ExtTreeMap.getElem?_erase_self
    refine (herased.inserted (e := e) hgone).congr (by rw [hadd]; rfl) fun id ↦ ?_
    rw [hadd]
    show ((s.entries.erase e.id).insert e.id e)[id]? = (s.entries.insert e.id e)[id]?
    rw [ExtTreeMap.getElem?_insert, ExtTreeMap.getElem?_insert, ExtTreeMap.getElem?_erase]
    split
    · rfl
    · rfl

theorem Consistent.erase (h : s.Consistent) (id : EntryId) : Consistent (s.erase id) := by
  cases he : s.entries[id]? with
  | none =>
    rw [Store.erase, he]
    exact h
  | some e =>
    rw [Store.erase, he]
    exact h.erased he

/-- The index that is kept on a type records the entries there are. -/
theorem keepIndex_spec (h : s.Consistent) (t : AttributeType) (normalizer : Normalizer)
    (hasReverse : Bool) :
    ∃ x : IndexedAttribute, x.type = t ∧ x.normalizer = normalizer ∧
      x.index.hasReverse = hasReverse ∧ x.Records s.entries ∧
      s.keepIndex t normalizer hasReverse = { s with indexes := s.indexes.insert t.oid x } := by
  obtain ⟨htype, hnormalizer, hreverse, hpostings⟩ :=
    IndexedAttribute.foldl_insert_spec ⟨t, normalizer, .empty t.name hasReverse⟩ s.toList
  refine ⟨_, htype, hnormalizer, hreverse.trans (ValueIndex.hasReverse_empty _ _), fun p ↦ ?_, rfl⟩
  have hkeys : ∀ e, IndexedAttribute.keysOf
      (s.toList.foldl IndexedAttribute.insert ⟨t, normalizer, .empty t.name hasReverse⟩) e =
        IndexedAttribute.keysOf ⟨t, normalizer, .empty t.name hasReverse⟩ e := by
    intro e
    simp only [IndexedAttribute.keysOf, htype, hnormalizer]
  rw [hpostings p, or_iff_right (ValueIndex.not_mem_empty _ _)]
  constructor
  · rintro ⟨e, hmem, hid, hkey⟩
    obtain ⟨id, he⟩ := mem_toList.1 hmem
    obtain rfl := h.id_eq id e he
    exact ⟨e, by rw [hid, he], by rwa [hkeys]⟩
  · rintro ⟨e, he, hkey⟩
    exact ⟨e, mem_toList.2 ⟨_, he⟩, (h.id_eq _ e he).symm, by rwa [hkeys] at hkey⟩

theorem Consistent.keepIndex (h : s.Consistent) (t : AttributeType) (normalizer : Normalizer)
    (hasReverse : Bool) : Consistent (s.keepIndex t normalizer hasReverse) := by
  obtain ⟨x, htype, -, -, hrecords, hkeep⟩ := keepIndex_spec h t normalizer hasReverse
  rw [hkeep]
  refine ⟨h.id_eq, ownKey_insert h.oid_eq (congrArg AttributeType.oid htype), fun oid x' hx' ↦ ?_⟩
  rw [ExtTreeMap.getElem?_insert] at hx'
  split at hx'
  · exact Option.some.inj hx' ▸ hrecords
  · exact h.records oid x' hx'

end Store

/-! ## Indexes kept by the name of a type -/

/-- The normalizer of the keys of an index on an attribute type: that of the equality rule. -/
def Registry.keyNormalizer (r : Registry) (t : AttributeType) : Except SchemaError Normalizer :=
  (r.ruleFor t .equality).map fun
    | some rule => rule.normalizer
    | none => .identity

namespace Store

/-- The stores that changes lead to when every index is kept by the name of an attribute type. -/
inductive Built (r : Registry) : Store → Prop
  | empty : Built r .empty
  | add {s : Store} (h : Built r s) (e : Entry) : Built r (s.add e)
  | erase {s : Store} (h : Built r s) (id : EntryId) : Built r (s.erase id)
  | keepIndexOn {s s' : Store} (h : Built r s) (name : String)
      (hs : s.keepIndexOn r name = .ok s') : Built r s'

variable {r : Registry} {s s' : Store} {oid name : String} {x : IndexedAttribute}

theorem keepIndexOn_eq_ok (h : s.keepIndexOn r name = .ok s') :
    ∃ t normalizer, r.resolve name = .ok t ∧ r.keyNormalizer t = .ok normalizer ∧
      s' = s.keepIndex t normalizer true := by
  obtain ⟨t, ht, hrest⟩ := bind_eq_ok.1 h
  obtain ⟨rule, hrule, hs⟩ := bind_eq_ok.1 hrest
  refine ⟨t, _, ht, ?_, (Except.ok.inj hs).symm⟩
  rw [Registry.keyNormalizer, hrule]
  rfl

/-- An index can be kept by the name of a type whose equality rule the schema finds. -/
theorem keepIndexOn_of_resolve {t : AttributeType} {normalizer : Normalizer}
    (ht : r.resolve name = .ok t) (hnormalizer : r.keyNormalizer t = .ok normalizer) :
    s.keepIndexOn r name = .ok (s.keepIndex t normalizer true) := by
  rw [Registry.keyNormalizer] at hnormalizer
  cases hrule : r.ruleFor t .equality with
  | error e => exact nomatch hrule ▸ hnormalizer
  | ok rule =>
    rw [hrule] at hnormalizer
    obtain rfl := Except.ok.inj hnormalizer
    exact bind_eq_ok.2 ⟨t, ht, bind_eq_ok.2 ⟨rule, hrule, rfl⟩⟩

theorem keepIndexOn_name (s : Store) : s.keepIndexOn .names "name" =
    .ok (s.keepIndex .fullName .squeezedLower true) :=
  keepIndexOn_of_resolve (toOption_eq_some.1 (by decide +kernel))
    (toOption_eq_some.1 (by decide +kernel))

theorem keepIndexOn_cn (s : Store) : s.keepIndexOn .names "cn" =
    .ok (s.keepIndex .commonName .squeezedLower true) :=
  keepIndexOn_of_resolve (toOption_eq_some.1 (by decide +kernel))
    (toOption_eq_some.1 (by decide +kernel))

theorem Built.consistent (h : Built r s) : s.Consistent := by
  induction h with
  | empty => exact consistent_empty
  | add _ e ih => exact ih.add e
  | erase _ id ih => exact ih.erase id
  | keepIndexOn _ name hs ih =>
    obtain ⟨t, normalizer, -, -, rfl⟩ := keepIndexOn_eq_ok hs
    exact ih.keepIndex t normalizer true

/-- An index is on a type that the schema finds, has the keys of its equality rule, and can be read
in reverse. -/
def Schematic (r : Registry) (x : IndexedAttribute) : Prop :=
  (∃ name, r.resolve name = .ok x.type) ∧ r.keyNormalizer x.type = .ok x.normalizer ∧
    x.index.hasReverse = true

theorem Schematic.insert (h : Schematic r x) (e : Entry) : Schematic r (x.insert e) :=
  ⟨h.1, h.2.1, (x.hasReverse_insert e).trans h.2.2⟩

theorem Schematic.erase (h : Schematic r x) (e : Entry) : Schematic r (x.erase e) :=
  ⟨h.1, h.2.1, (x.hasReverse_erase e).trans h.2.2⟩

theorem Built.schematic (h : Built r s) (hx : s.indexes[oid]? = some x) : Schematic r x := by
  induction h generalizing x with
  | empty => simp [Store.empty] at hx
  | @add s _ e ih =>
    rw [Store.add] at hx
    change (Store.mapIndexes _ _).indexes[oid]? = some x at hx
    rw [indexes_mapIndexes, Option.map_eq_some_iff] at hx
    obtain ⟨x₁, hx₁, rfl⟩ := hx
    refine Schematic.insert ?_ e
    cases hprevious : s.entries[e.id]? with
    | none =>
      rw [hprevious] at hx₁
      exact ih hx₁
    | some previous =>
      rw [hprevious, indexes_mapIndexes, Option.map_eq_some_iff] at hx₁
      obtain ⟨x₀, hx₀, rfl⟩ := hx₁
      exact (ih hx₀).erase previous
  | @erase s _ id ih =>
    cases he : s.entries[id]? with
    | none =>
      rw [Store.erase, he] at hx
      exact ih hx
    | some e =>
      rw [Store.erase, he] at hx
      change (s.mapIndexes _).indexes[oid]? = some x at hx
      rw [indexes_mapIndexes, Option.map_eq_some_iff] at hx
      obtain ⟨x₀, hx₀, rfl⟩ := hx
      exact (ih hx₀).erase e
  | @keepIndexOn s _ hbuilt name hs ih =>
    obtain ⟨t, normalizer, ht, hnormalizer, rfl⟩ := keepIndexOn_eq_ok hs
    obtain ⟨x', htype, hnormalizer', hreverse, -, hkeep⟩ :=
      keepIndex_spec hbuilt.consistent t normalizer true
    rw [hkeep, ExtTreeMap.getElem?_insert] at hx
    split at hx
    · obtain rfl := Option.some.inj hx
      refine ⟨⟨name, ?_⟩, ?_, hreverse⟩
      · rw [htype]
        exact ht
      · rw [htype, hnormalizer']
        exact hnormalizer
    · exact ih hx

end Store
end DirectoryQuery
