import DirectoryQuery.Schema.Hierarchy
import DirectoryQuery.Store.ValueIndex

/-!
# The store

A store holds entries by identifier and keeps indexes on some attribute types.  An index has the
normalized values of its attribute's own keys, never those of descendants, and it follows every
change of the entries: what an entry held is forgotten when it goes or is replaced.

There is at most one index for an attribute type, the one declared last.
-/

set_option autoImplicit false

namespace DirectoryQuery

open Std

/-- An attribute type with the index kept on it and the normalizer of its keys. -/
structure IndexedAttribute where
  type : AttributeType
  normalizer : Normalizer
  index : ValueIndex

namespace IndexedAttribute

/-- The keys under which an entry is recorded. -/
def keysOf (x : IndexedAttribute) (e : Entry) : List Value :=
  (e.get x.type).map x.normalizer.apply

/-- Records an entry. -/
def insert (x : IndexedAttribute) (e : Entry) : IndexedAttribute :=
  { x with index := (x.keysOf e).foldl (fun index key ↦ index.insert key e.id) x.index }

/-- Forgets an entry. -/
def erase (x : IndexedAttribute) (e : Entry) : IndexedAttribute :=
  { x with index := (x.keysOf e).foldl (fun index key ↦ index.erase key e.id) x.index }

end IndexedAttribute

/-- Entries by identifier and indexes by the identifier of the attribute type. -/
structure Store where
  entries : ExtTreeMap EntryId Entry
  indexes : ExtTreeMap String IndexedAttribute

namespace Store

/-- The store without entries and indexes. -/
def empty : Store := ⟨∅, ∅⟩

/-- Changes every index. -/
def mapIndexes (s : Store) (f : IndexedAttribute → IndexedAttribute) : Store :=
  { s with indexes := s.indexes.map fun _ x ↦ f x }

/-- Adds an entry, in place of the one with its identifier if there is one. -/
def add (s : Store) (e : Entry) : Store :=
  let cleared := match s.entries[e.id]? with
    | some previous => s.mapIndexes fun x ↦ x.erase previous
    | none => s
  { cleared.mapIndexes fun x ↦ x.insert e with entries := s.entries.insert e.id e }

/-- The store that holds the given entries, added in order. -/
def ofEntries (entries : List Entry) : Store := entries.foldl add empty

/-- Removes an entry. -/
def erase (s : Store) (id : EntryId) : Store :=
  match s.entries[id]? with
  | some e => { s.mapIndexes fun x ↦ x.erase e with entries := s.entries.erase id }
  | none => s

/-- The entries in ascending order of their identifiers. -/
def toList (s : Store) : List Entry := s.entries.values

/-- The number of entries. -/
def size (s : Store) : Nat := s.entries.size

/-- Keeps an index on an attribute type, over the entries there are and those to come. -/
def keepIndex (s : Store) (t : AttributeType) (normalizer : Normalizer) (hasReverse : Bool) :
    Store :=
  let start : IndexedAttribute := ⟨t, normalizer, .empty t.name hasReverse⟩
  { s with indexes := s.indexes.insert t.oid (s.toList.foldl IndexedAttribute.insert start) }

/-- Keeps an index on an attribute type of the schema, keyed by its equality rule. -/
def keepIndexOn (s : Store) (r : Registry) (name : String) : Except SchemaError Store := do
  let t ← r.resolve name
  let rule ← r.ruleFor t .equality
  let normalizer := match rule with
    | some rule => rule.normalizer
    | none => .identity
  return s.keepIndex t normalizer true

/-- The index kept on an attribute type. -/
def index? (s : Store) (t : AttributeType) : Option ValueIndex :=
  s.indexes[t.oid]?.map IndexedAttribute.index

/-- The entry of an identifier. -/
def lookup (s : Store) (id : EntryId) : Except StoreError Entry :=
  match s.entries[id]? with
  | some e => .ok e
  | none => .error (.notFound id)

/-- Reads a list of entries in JSON. -/
def entries? (j : Json) : Option (List Entry) := j.list? Entry.ofJson?

end Store
end DirectoryQuery
