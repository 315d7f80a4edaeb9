import Mathlib.Data.Set.Card
import DirectoryQuery.Proofs.Estimates
import DirectoryQuery.Proofs.LeastKeys

/-!
# What an index can be asked

An index is a relation between keys and identifiers, which it keeps twice: by the keys, and, if it
can be read in reverse, by the identifiers.  It can be asked for everything, for what is under one
key, for what one entry is recorded under, and for numbers.

`ValueIndex.Presents` says that every answer is the answer of one and the same relation.  An index
presents its own postings (`ValueIndex.presents`), because its halves are the inverse of each other
and have no empty sets.  After changes it presents what was inserted and not taken away again
(`ValueIndex.presents_foldl_change`).
-/

set_option autoImplicit false

namespace DirectoryQuery

open Std

/-! ## Ascending lists -/

/-- The list has what the predicate holds of, in the order of the relation. -/
structure Enumerates {α : Type} (R : α → α → Prop) (holds : α → Prop) (l : List α) : Prop where
  mem_iff (a : α) : a ∈ l ↔ holds a
  ordered : l.Pairwise R

theorem Enumerates.encard_eq {α : Type} {R : α → α → Prop} {holds : α → Prop} {l : List α}
    (h : Enumerates R holds l) (hirrefl : ∀ a, ¬R a a) : {a | holds a}.encard = l.length := by
  classical
  have hnodup : l.Nodup := h.ordered.imp fun {a b} hab ↦ by
    rintro rfl
    exact hirrefl a hab
  have hset : {a | holds a} = (l.toFinset : Set α) := by
    ext a
    rw [Set.mem_ofPred_eq, ← h.mem_iff, Finset.mem_coe, List.mem_toFinset]
  rw [hset, Set.encard_coe_eq_coe_finsetCard, List.toFinset_card_of_nodup hnodup]

theorem Value.not_lt_self (v : Value) : ¬compare v v = .lt := by
  rw [compare_self]
  exact Ordering.noConfusion

theorem Posting.not_before_self (p : Posting) : ¬p.Before p := by
  rintro (hkey | ⟨-, hid⟩)
  · exact p.key.not_lt_self hkey
  · exact UInt64.lt_irrefl p.id hid

/-- No key of groups is left without members. -/
theorem Groups.mem_sets_iff {κ ν : Type} [Ord κ] [TransOrd κ] [Ord ν] [TransOrd ν]
    [LawfulEqOrd ν] {g : Groups κ ν} {key : κ} : key ∈ g.sets ↔ ∃ member, g.Has key member := by
  rw [ExtTreeMap.mem_iff_isSome_getElem?, Option.isSome_iff_exists]
  constructor
  · exact fun ⟨_, hset⟩ ↦ exists_has hset
  · exact fun ⟨_, hmember⟩ ↦ ⟨_, getElem?_of_has hmember⟩

/-! ## Readings -/

/-- The store has the reading, and a cursor that takes its candidates from it lists these. -/
def Reads (source : Except StoreError Reel) (l : List Candidate) : Prop :=
  ∃ reel, source = .ok reel ∧ ∀ ctx, Cursor.Lists ctx (.reel reel) l

theorem reads_ofList (l : List Candidate) : Reads (.ok (.ofList l)) l :=
  ⟨_, rfl, fun ctx ↦ Cursor.lists_ofList ctx l⟩

namespace ValueIndex

variable {x : ValueIndex} {p : Posting} {key : Value} {i : EntryId}

/-! ## Lists of postings -/

theorem enumerates_toList (x : ValueIndex) : Enumerates Posting.Before (· ∈ x) x.toList :=
  ⟨fun _ ↦ mem_toList, x.ordered_toList⟩

theorem enumerates_idsOf (x : ValueIndex) (key : Value) :
    Enumerates (· < ·) (fun i ↦ (⟨key, i⟩ : Posting) ∈ x) (x.idsOf key) := by
  refine ⟨fun _ ↦ ExtTreeSet.mem_toList, ?_⟩
  have hids : (x.idsOf key).Pairwise fun i j ↦ compare i j = .lt := ExtTreeSet.ordered_toList
  exact hids.imp compareOfLessAndEq_eq_lt.1

/-- The identifiers of one key in order are its postings in order. -/
theorem enumerates_postingsOf (x : ValueIndex) (key : Value) :
    Enumerates Posting.Before (fun p ↦ p ∈ x ∧ p.key = key) (x.postingsOf key) := by
  have hids := x.enumerates_idsOf key
  constructor
  · intro p
    rw [postingsOf, List.mem_map]
    constructor
    · rintro ⟨i, hi, rfl⟩
      exact ⟨(hids.mem_iff i).1 hi, rfl⟩
    · rintro ⟨hp, rfl⟩
      exact ⟨p.id, (hids.mem_iff p.id).2 hp, rfl⟩
  · exact List.pairwise_map.2 (hids.ordered.imp fun hlt ↦ .inr ⟨rfl, hlt⟩)

theorem enumerates_keysAt (hx : x.hasReverse = true) (i : EntryId) :
    Enumerates (fun v w ↦ compare v w = .lt) (fun key ↦ (⟨key, i⟩ : Posting) ∈ x)
      ((x.postingsAt i).map Posting.key) := by
  refine ⟨fun key ↦ ?_, x.ordered_postingsAt i⟩
  rw [List.mem_map]
  constructor
  · rintro ⟨p, hp, rfl⟩
    obtain ⟨hmem, rfl⟩ := (mem_postingsAt hx).1 hp
    exact hmem
  · exact fun hp ↦ ⟨⟨key, i⟩, (mem_postingsAt hx).2 ⟨hp, rfl⟩, rfl⟩

theorem enumerates_keys (x : ValueIndex) :
    Enumerates (fun v w ↦ compare v w = .lt) (fun key ↦ ∃ i, (⟨key, i⟩ : Posting) ∈ x)
      x.forwardHalf.sets.keys :=
  ⟨fun _ ↦ ExtTreeMap.mem_keys.trans Groups.mem_sets_iff, ExtTreeMap.ordered_keys⟩

/-- What the reverse half has for an entry is told by the keys. -/
theorem postingsAt_eq_map (x : ValueIndex) (i : EntryId) :
    (x.postingsAt i).map Posting.candidate =
      ((x.postingsAt i).map Posting.key).map fun key ↦ .keyed key i := by
  unfold postingsAt
  cases x.reverseHalf? with
  | none => rfl
  | some half => simp [Posting.candidate, Function.comp_def]

/-! ## The relation of an index -/

/-- The answers of the index are those of the relation between keys and identifiers that the
postings are. -/
structure Presents (x : ValueIndex) (indexed : String) (reversible : Bool)
    (records : Posting → Prop) : Prop where
  /-- Everything is read by key, and under one key by identifier. -/
  forward : ∃ l, Enumerates Posting.Before records l ∧
    Reads x.index.forward (l.map Posting.candidate)
  /-- What is under a key is read by identifier. -/
  forwardOn (key : Value) : ∃ ids, Enumerates (· < ·) (fun i ↦ records ⟨key, i⟩) ids ∧
    x.idsOf key = ids ∧ Reads (x.index.forwardOn key) (ids.map (Candidate.keyed key))
  /-- What an entry is recorded under is read by key. -/
  reverse (i : EntryId) : reversible = true →
    ∃ keys, Enumerates (fun v w ↦ compare v w = .lt) (fun key ↦ records ⟨key, i⟩) keys ∧
      Reads (x.index.reverse i) (keys.map fun key ↦ .keyed key i)
  /-- An index with one half only refuses. -/
  reverse_eq_error (i : EntryId) : reversible = false →
    x.index.reverse i = .error (.indexUnavailable indexed "index has no reverse half")
  count : {p | records p}.encard = x.index.count
  countOf (key : Value) : {i | records ⟨key, i⟩}.encard = x.index.countOf key
  keyCount : {key | ∃ i, records ⟨key, i⟩}.encard = x.keyCount
  /-- Under no key an empty set is left. -/
  mem_forward (key : Value) : key ∈ x.forwardHalf.sets ↔ ∃ i, records ⟨key, i⟩
  /-- For no identifier an empty set is left. -/
  mem_reverse (half : Groups EntryId Value) : x.reverseHalf? = some half →
    ∀ i, i ∈ half.sets ↔ ∃ key, records ⟨key, i⟩

/-- **An index is one relation, seen from both sides.** -/
theorem presents (x : ValueIndex) : x.Presents x.indexed x.hasReverse (· ∈ x) where
  forward := ⟨x.toList, x.enumerates_toList, reads_ofList _⟩
  forwardOn key := by
    refine ⟨_, x.enumerates_idsOf key, rfl, ?_⟩
    have hforwardOn : x.forwardOn key = (x.idsOf key).map (Candidate.keyed key) :=
      List.map_map
    rw [← hforwardOn]
    exact reads_ofList _
  reverse i hx := by
    refine ⟨_, enumerates_keysAt hx i, ?_⟩
    have hreverse : x.reverse i = .ok ((x.postingsAt i).map Posting.candidate) := if_pos hx
    rw [← postingsAt_eq_map]
    show Reads ((x.reverse i).map Reel.ofList) _
    rw [hreverse]
    exact reads_ofList _
  reverse_eq_error i hx := by
    show (x.reverse i).map Reel.ofList = _
    rw [ValueIndex.reverse, hx]
    rfl
  count := by
    rw [x.enumerates_toList.encard_eq Posting.not_before_self, index, ← length_forward,
      ValueIndex.forward, List.length_map]
  countOf key := by
    rw [(x.enumerates_idsOf key).encard_eq UInt64.lt_irrefl, idsOf, ExtTreeSet.length_toList]
    rfl
  keyCount := by
    rw [x.enumerates_keys.encard_eq Value.not_lt_self, ExtTreeMap.length_keys]
    rfl
  mem_forward key := Groups.mem_sets_iff
  mem_reverse half hhalf i :=
    Groups.mem_sets_iff.trans (exists_congr fun key ↦ x.inverse half hhalf key i)

/-! ## After changes -/

@[simp]
theorem indexed_change (x : ValueIndex) (c : Change) : (x.change c).indexed = x.indexed := by
  cases c <;> rfl

theorem indexed_foldl_change (x : ValueIndex) (changes : List Change) :
    (changes.foldl change x).indexed = x.indexed :=
  foldl_keeps indexed indexed_change changes x

/-- The posting was inserted, and after that neither erased nor cleared away. -/
def Remains (changes : List Change) (p : Posting) : Prop :=
  ∃ earlier later, changes = earlier ++ .insert p.key p.id :: later ∧
    .erase p.key p.id ∉ later ∧ .clear ∉ later

theorem remains_concat {changes : List Change} {c : Change} :
    Remains (changes ++ [c]) p ↔ c = .insert p.key p.id ∨
      Remains changes p ∧ c ≠ .erase p.key p.id ∧ c ≠ .clear := by
  constructor
  · rintro ⟨earlier, later, heq, herase, hclear⟩
    obtain rfl | ⟨later, last, rfl⟩ := later.eq_nil_or_concat
    · exact .inl (List.singleton_inj.1 (List.append_inj' heq rfl).2)
    · rw [List.concat_eq_append, ← List.cons_append, ← List.append_assoc] at heq
      obtain ⟨rfl, hlast⟩ := List.append_inj' heq rfl
      obtain rfl := List.singleton_inj.1 hlast
      rw [List.concat_eq_append, List.mem_append, List.mem_singleton, not_or] at herase hclear
      exact .inr ⟨⟨earlier, later, rfl, herase.1, hclear.1⟩, Ne.symm herase.2, Ne.symm hclear.2⟩
  · rintro (rfl | ⟨⟨earlier, later, rfl, herase, hclear⟩, hc, hc'⟩)
    · exact ⟨changes, [], rfl, List.not_mem_nil, List.not_mem_nil⟩
    · refine ⟨earlier, later ++ [c], List.append_assoc _ _ _, ?_, ?_⟩
      · rw [List.mem_append, List.mem_singleton, not_or]
        exact ⟨herase, Ne.symm hc⟩
      · rw [List.mem_append, List.mem_singleton, not_or]
        exact ⟨hclear, Ne.symm hc'⟩

/-- What is recorded is what remains. -/
theorem recorded_iff_remains {changes : List Change} :
    Recorded changes p ↔ Remains changes p := by
  induction changes using List.reverseRecOn with
  | nil =>
    refine iff_of_false id ?_
    rintro ⟨earlier, later, heq, -⟩
    exact List.append_ne_nil_of_right_ne_nil earlier (List.cons_ne_nil _ later) heq.symm
  | append_singleton changes c ih =>
    have heq (key : Value) (id : EntryId) : key = p.key ∧ id = p.id ↔ p = ⟨key, id⟩ := by
      rw [eq_comm (a := p), posting_eq_iff, and_comm, eq_comm (a := key), eq_comm (a := id)]
    rw [remains_concat, ← ih, Recorded, List.foldl_append]
    cases c with
    | insert key id =>
      rw [Change.insert.injEq, heq, and_iff_left ⟨Change.noConfusion, Change.noConfusion⟩, or_comm]
      rfl
    | erase key id =>
      rw [ne_eq, Change.erase.injEq, heq, or_iff_right Change.noConfusion]
      exact and_congr_right' (and_iff_left Change.noConfusion).symm
    | clear => exact iff_of_false id fun h ↦ h.elim Change.noConfusion fun h ↦ h.2.2 rfl

/-- **Whatever changes are made to an index, it presents the postings that remain.**  The changes
may come in any order, insert what is there and erase what is not, and the index may have a reverse
half or not. -/
theorem presents_foldl_change (indexed : String) (hasReverse : Bool) (changes : List Change) :
    (changes.foldl change (empty indexed hasReverse)).Presents indexed hasReverse
      (Remains changes) := by
  have hrecords : (· ∈ changes.foldl change (empty indexed hasReverse)) = Remains changes := by
    funext p
    rw [← propext recorded_iff_remains]
    exact propext (mem_foldl_change fun p ↦ iff_of_false (not_mem_empty _ _) id)
  have hpresents := (changes.foldl change (empty indexed hasReverse)).presents
  rwa [hrecords, indexed_foldl_change, hasReverse_foldl_change, hasReverse_empty] at hpresents

end ValueIndex
end DirectoryQuery
