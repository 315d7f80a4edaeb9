import DirectoryQuery.Candidate
import DirectoryQuery.Store.Error
import DirectoryQuery.Store.Groups

/-!
# Value indexes

An index records which entries hold which normalized values of one attribute.  Its *forward* half
has, under every key, the identifiers of the entries that hold it; its *reverse* half has, under
every identifier, the keys of that entry.  An index may be declared without the reverse half.

Every change is made in both halves on its own, and keeps them the inverse of each other.
-/

set_option autoImplicit false

namespace DirectoryQuery

open Std

/-- The fact that an entry holds a normalized value. -/
structure Posting where
  key : Value
  id : EntryId
deriving DecidableEq

/-- The candidate that a posting yields. -/
def Posting.candidate (p : Posting) : Candidate := .keyed p.key p.id

/-- The index of one attribute. -/
structure ValueIndex where
  /-- The name of the attribute it was declared on. -/
  indexed : String
  /-- Identifiers by key. -/
  forwardHalf : Groups Value EntryId
  /-- Keys by identifier, if the index can be read in reverse. -/
  reverseHalf? : Option (Groups EntryId Value)
  inverse (half : Groups EntryId Value) : reverseHalf? = some half → forwardHalf.IsInverse half

namespace ValueIndex

/-- The index without postings. -/
def empty (indexed : String) (hasReverse : Bool) : ValueIndex where
  indexed := indexed
  forwardHalf := .empty
  reverseHalf? := if hasReverse then some .empty else none
  inverse half h := by
    split at h
    · exact Option.some.inj h ▸ Groups.isInverse_empty
    · exact nomatch h

/-- Whether it can be read in reverse. -/
def hasReverse (x : ValueIndex) : Bool := x.reverseHalf?.isSome

/-- Records that an entry holds a value. -/
def insert (x : ValueIndex) (key : Value) (id : EntryId) : ValueIndex where
  indexed := x.indexed
  forwardHalf := x.forwardHalf.insert key id
  reverseHalf? := x.reverseHalf?.map fun half ↦ half.insert id key
  inverse half h := by
    obtain ⟨half, hhalf, rfl⟩ := Option.map_eq_some_iff.1 h
    exact (x.inverse half hhalf).insert key id

/-- Forgets that an entry holds a value. -/
def erase (x : ValueIndex) (key : Value) (id : EntryId) : ValueIndex where
  indexed := x.indexed
  forwardHalf := x.forwardHalf.erase key id
  reverseHalf? := x.reverseHalf?.map fun half ↦ half.erase id key
  inverse half h := by
    obtain ⟨half, hhalf, rfl⟩ := Option.map_eq_some_iff.1 h
    exact (x.inverse half hhalf).erase key id

/-- Forgets everything. -/
def clear (x : ValueIndex) : ValueIndex := empty x.indexed x.hasReverse

instance : Membership Posting ValueIndex := ⟨fun x p ↦ x.forwardHalf.Has p.key p.id⟩

/-- The postings by key and then by identifier. -/
def toList (x : ValueIndex) : List Posting := x.forwardHalf.toList.map fun (key, id) ↦ ⟨key, id⟩

/-- The identifiers recorded under a key, ascending. -/
def idsOf (x : ValueIndex) (key : Value) : List EntryId := (x.forwardHalf.members key).toList

/-- The postings of one key, by identifier. -/
def postingsOf (x : ValueIndex) (key : Value) : List Posting := (x.idsOf key).map fun id ↦ ⟨key, id⟩

/-- The postings of one entry, by key, as the reverse half has them. -/
def postingsAt (x : ValueIndex) (id : EntryId) : List Posting :=
  match x.reverseHalf? with
  | some half => (half.members id).toList.map fun key ↦ ⟨key, id⟩
  | none => []

/-- The number of postings. -/
def count (x : ValueIndex) : Nat := x.forwardHalf.size

/-- The number of identifiers recorded under a key. -/
def countOf (x : ValueIndex) (key : Value) : Nat := (x.forwardHalf.members key).size

/-- The number of distinct keys. -/
def keyCount (x : ValueIndex) : Nat := x.forwardHalf.keyCount

/-- The candidates of the forward half. -/
def forward (x : ValueIndex) : List Candidate := x.toList.map Posting.candidate

/-- The candidates recorded under one key. -/
def forwardOn (x : ValueIndex) (key : Value) : List Candidate :=
  (x.postingsOf key).map Posting.candidate

/-- The candidates of the reverse half for one entry. -/
def reverse (x : ValueIndex) (id : EntryId) : Except StoreError (List Candidate) :=
  if x.hasReverse then .ok ((x.postingsAt id).map Posting.candidate)
  else .error (.indexUnavailable x.indexed "index has no reverse half")

end ValueIndex
end DirectoryQuery
