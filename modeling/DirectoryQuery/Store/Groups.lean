import Std.Data.ExtTreeMap
import Std.Data.ExtTreeSet

/-!
# Groups

A finite relation kept by its left side: under every key stands the ordered set of its members, the
keys are in order as well, and no key is left without members.

`Groups.Has` is the relation itself.  Groups that have the same members under the same keys are
equal, however they came about (`Groups.ext_has`).
-/

set_option autoImplicit false

namespace DirectoryQuery

open Std

/-- Ordered sets of members under ordered keys, none of them empty. -/
structure Groups (κ ν : Type) [Ord κ] [TransOrd κ] [Ord ν] where
  sets : ExtTreeMap κ (ExtTreeSet ν)
  occupied (key : κ) (set : ExtTreeSet ν) : sets[key]? = some set → set.isEmpty = false

namespace Groups

variable {κ ν : Type} [Ord κ] [TransOrd κ] [Ord ν]

/-- No keys. -/
def empty : Groups κ ν := ⟨∅, fun key set h ↦ by simp at h⟩

/-- The members of a key. -/
def members (g : Groups κ ν) (key : κ) : ExtTreeSet ν := g.sets[key]?.getD ∅

/-- Changing the members of one key. -/
def alter (g : Groups κ ν) (key : κ) (f : Option (ExtTreeSet ν) → Option (ExtTreeSet ν))
    (h : ∀ set set', f set = some set' → set'.isEmpty = false) : Groups κ ν where
  sets := g.sets.alter key f
  occupied key' set' hset := by
    rw [ExtTreeMap.getElem?_alter] at hset
    split at hset
    · exact h _ _ hset
    · exact g.occupied key' set' hset

theorem members_alter {g : Groups κ ν} {key key' : κ}
    (f : Option (ExtTreeSet ν compare) → Option (ExtTreeSet ν compare))
    (h : ∀ set set', f set = some set' → set'.isEmpty = false) :
    (g.alter key f h).members key' =
      if compare key key' = .eq then (f g.sets[key]?).getD ∅ else g.members key' := by
  rw [members, alter, ExtTreeMap.getElem?_alter]
  split
  · rfl
  · rfl

variable [TransOrd ν]

/-- The relation between keys and members. -/
def Has (g : Groups κ ν) (key : κ) (member : ν) : Prop := member ∈ g.members key

/-- The set with one more member. -/
def extended (set : Option (ExtTreeSet ν)) (member : ν) : Option (ExtTreeSet ν) :=
  some ((set.getD ∅).insert member)

/-- What is left of the set without a member, if anything is. -/
def reduced (set : Option (ExtTreeSet ν)) (member : ν) : Option (ExtTreeSet ν) :=
  set.bind fun set ↦ if (set.erase member).isEmpty then none else some (set.erase member)

theorem isEmpty_of_extended {set : Option (ExtTreeSet ν)} {member : ν} {set' : ExtTreeSet ν}
    (h : extended set member = some set') : set'.isEmpty = false := by
  obtain rfl := Option.some.inj h
  rw [ExtTreeSet.isEmpty_eq_false_iff]
  exact ExtTreeSet.insert_ne_empty

theorem isEmpty_of_reduced {set : Option (ExtTreeSet ν)} {member : ν} {set' : ExtTreeSet ν}
    (h : reduced set member = some set') : set'.isEmpty = false := by
  obtain ⟨set, -, hset⟩ := Option.bind_eq_some_iff.1 h
  split at hset
  · exact nomatch hset
  · rename_i hne
    rw [← Option.some.inj hset]
    exact Bool.eq_false_iff.2 hne

/-- Puts a member under a key. -/
def insert (g : Groups κ ν) (key : κ) (member : ν) : Groups κ ν :=
  g.alter key (extended · member) fun _ _ ↦ isEmpty_of_extended

/-- Takes a member away from a key, and the key too when nothing else is under it. -/
def erase (g : Groups κ ν) (key : κ) (member : ν) : Groups κ ν :=
  g.alter key (reduced · member) fun _ _ ↦ isEmpty_of_reduced

/-- The pairs of the relation, by key and then by member. -/
def toList (g : Groups κ ν) : List (κ × ν) :=
  g.sets.toList.flatMap fun (key, set) ↦ set.toList.map fun member ↦ (key, member)

/-- The number of pairs. -/
def size (g : Groups κ ν) : Nat := g.sets.foldl (fun n _ set ↦ n + set.size) 0

/-- The number of keys. -/
def keyCount (g : Groups κ ν) : Nat := g.sets.size

/-! ## The relation -/

variable {g g' : Groups κ ν} {key key' : κ} {member member' : ν}

@[simp]
theorem not_has_empty : ¬(empty : Groups κ ν).Has key member := by
  simp [Has, members, empty]

/-- The members of one have the keys of the other, and the other way round. -/
def IsInverse (g : Groups κ ν) (g' : Groups ν κ) : Prop :=
  ∀ key member, g'.Has member key ↔ g.Has key member

theorem isInverse_empty : (empty : Groups κ ν).IsInverse empty :=
  fun _ _ ↦ iff_of_false not_has_empty not_has_empty

theorem getElem?_of_has (h : g.Has key member) :
    g.sets[key]? = some (g.members key) := by
  rw [Has, members] at h
  rw [members]
  cases hset : g.sets[key]? with
  | none => rw [hset] at h; simp at h
  | some set => rfl

variable [LawfulEqOrd ν]

theorem exists_has {set : ExtTreeSet ν} (h : g.sets[key]? = some set) :
    ∃ member, g.Has key member := by
  have hne : set.toList ≠ [] := by
    intro hnil
    have hempty := g.occupied key set h
    rw [← ExtTreeSet.isEmpty_toList, hnil] at hempty
    exact nomatch hempty
  obtain ⟨member, hmember⟩ := List.exists_mem_of_ne_nil _ hne
  refine ⟨member, ?_⟩
  rw [Has, members, h]
  exact ExtTreeSet.mem_toList.1 hmember

theorem nodup_members (set : ExtTreeSet ν) : set.toList.Nodup := by
  have hdistinct : set.toList.Pairwise fun a b ↦ ¬compare a b = .eq := ExtTreeSet.distinct_toList
  refine hdistinct.imp ?_
  rintro a _ hne rfl
  exact hne compare_self

theorem mem_getD_reduced {set : Option (ExtTreeSet ν)} :
    member' ∈ (reduced set member).getD ∅ ↔ member' ∈ set.getD ∅ ∧ member' ≠ member := by
  cases set with
  | none => simp [reduced]
  | some set =>
    have hmem : member' ∈ set.erase member ↔ member' ∈ set ∧ member' ≠ member := by
      rw [ExtTreeSet.mem_erase, ne_eq, Std.compare_eq_iff_eq, eq_comm, and_comm]
    rw [Option.getD_some, ← hmem, reduced, Option.bind_some]
    split
    · rename_i hempty
      rw [Option.getD_none, ExtTreeSet.isEmpty_iff.1 hempty]
    · rw [Option.getD_some]

variable [LawfulEqOrd κ]

theorem has_insert :
    (g.insert key member).Has key' member' ↔
      g.Has key' member' ∨ key' = key ∧ member' = member := by
  rw [Has, insert, members_alter]
  split
  · rename_i hkey
    obtain rfl := Std.compare_eq_iff_eq.1 hkey
    rw [extended, Option.getD_some, ExtTreeSet.mem_insert, Std.compare_eq_iff_eq, or_comm,
      eq_comm (a := member)]
    exact or_congr_right (and_iff_right rfl).symm
  · rename_i hkey
    exact (or_iff_left fun h ↦ hkey (Std.compare_eq_iff_eq.2 h.1.symm)).symm

theorem has_erase :
    (g.erase key member).Has key' member' ↔
      g.Has key' member' ∧ ¬(key' = key ∧ member' = member) := by
  rw [Has, erase, members_alter]
  split
  · rename_i hkey
    obtain rfl := Std.compare_eq_iff_eq.1 hkey
    rw [mem_getD_reduced]
    exact and_congr_right' (not_congr (and_iff_right rfl).symm)
  · rename_i hkey
    exact (and_iff_left fun h ↦ hkey (Std.compare_eq_iff_eq.2 h.1.symm)).symm

/-- Groups are determined by their relation. -/
theorem ext_has (h : ∀ key member, g.Has key member ↔ g'.Has key member) : g = g' := by
  have hmembers : ∀ key, g.members key = g'.members key := fun key ↦ ExtTreeSet.ext_mem (h key)
  suffices hsets : g.sets = g'.sets by
    cases g
    cases g'
    congr
  refine ExtTreeMap.ext_getElem? fun key ↦ ?_
  cases hset : g.sets[key]? with
  | some set =>
    obtain ⟨member, hmember⟩ := exists_has hset
    rw [← hset, getElem?_of_has hmember, getElem?_of_has ((h key member).1 hmember), hmembers]
  | none =>
    cases hset' : g'.sets[key]? with
    | none => rfl
    | some set' =>
      obtain ⟨member, hmember⟩ := exists_has hset'
      exact nomatch hset.symm.trans (getElem?_of_has ((h key member).2 hmember))

/-! ## The list of pairs -/

theorem mem_toList : (key, member) ∈ g.toList ↔ g.Has key member := by
  rw [toList, List.mem_flatMap]
  constructor
  · rintro ⟨⟨key', set⟩, hset, hmem⟩
    obtain ⟨member', hmember, heq⟩ := List.mem_map.1 hmem
    obtain ⟨rfl, rfl⟩ := Prod.mk.inj heq
    rw [Has, members, ExtTreeMap.mem_toList_iff_getElem?_eq_some.1 hset]
    exact ExtTreeSet.mem_toList.1 hmember
  · intro h
    exact ⟨(key, g.members key), ExtTreeMap.mem_toList_iff_getElem?_eq_some.2 (getElem?_of_has h),
      List.mem_map.2 ⟨member, ExtTreeSet.mem_toList.2 h, rfl⟩⟩

theorem nodup_toList (g : Groups κ ν) : g.toList.Nodup := by
  have hdistinct : g.sets.toList.Pairwise fun a b ↦ ¬compare a.1 b.1 = .eq :=
    ExtTreeMap.distinct_keys_toList
  refine List.pairwise_flatMap.2 ⟨fun ⟨key, set⟩ _ ↦ ?_, hdistinct.imp ?_⟩
  · refine List.pairwise_map.2 ((nodup_members set).imp ?_)
    exact fun hne heq ↦ hne (Prod.mk.inj heq).2
  · rintro ⟨key, set⟩ ⟨key', set'⟩ hne _ hpair _ hpair' rfl
    obtain ⟨_, -, rfl⟩ := List.mem_map.1 hpair
    obtain ⟨_, -, heq⟩ := List.mem_map.1 hpair'
    exact hne (by rw [← (Prod.mk.inj heq).1]; exact compare_self)

/-! ## Inverses -/

theorem IsInverse.insert {g' : Groups ν κ} (h : g.IsInverse g') (key : κ) (member : ν) :
    (g.insert key member).IsInverse (g'.insert member key) := by
  intro key' member'
  rw [has_insert, has_insert, h key' member', and_comm (a := key' = key)]

theorem IsInverse.erase {g' : Groups ν κ} (h : g.IsInverse g') (key : κ) (member : ν) :
    (g.erase key member).IsInverse (g'.erase member key) := by
  intro key' member'
  rw [has_erase, has_erase, h key' member', and_comm (a := key' = key)]

end Groups
end DirectoryQuery
