import DirectoryQuery.Config
import DirectoryQuery.Cursor.Monitor
import DirectoryQuery.Store.Basic

/-!
# What a search sees of a store

A search asks a store for entries by identifier, for all entries, and for indexes.  `Directory` and
`Index` are that view: they do not say how the entries are kept, and every question may fail.
`Store.directory` is the view of a store that never fails except where an entry is missing.
-/

set_option autoImplicit false

namespace DirectoryQuery

/-- An index as a search sees it. -/
structure Index where
  /-- The name of the attribute it was declared on. -/
  indexed : String
  /-- Whether it can be read in reverse. -/
  hasReverse : Bool
  /-- All postings, by key and then by identifier. -/
  forward : Except StoreError Reel
  /-- The postings of one key, by identifier. -/
  forwardOn : Value → Except StoreError Reel
  /-- The postings of one entry, by key. -/
  reverse : EntryId → Except StoreError Reel
  /-- The number of postings. -/
  count : Nat
  /-- The number of postings of one key. -/
  countOf : Value → Nat

/-- A store as a search sees it. -/
structure Directory where
  /-- The entry of an identifier. -/
  lookup : EntryId → Except StoreError Entry
  /-- The index on an attribute type. -/
  index? : AttributeType → Option Index
  /-- All entries in ascending order of their identifiers, at hand in the candidates. -/
  everyEntry : Except StoreError Reel
  /-- The number of entries. -/
  size : Nat

/-- The view of an index. -/
def ValueIndex.index (x : ValueIndex) : Index where
  indexed := x.indexed
  hasReverse := x.hasReverse
  forward := .ok (.ofList x.forward)
  forwardOn key := .ok (.ofList (x.forwardOn key))
  reverse id := (x.reverse id).map .ofList
  count := x.count
  countOf := x.countOf

/-- The view of a store. -/
def Store.directory (s : Store) : Directory where
  lookup := s.lookup
  index? t := (s.index? t).map ValueIndex.index
  everyEntry := .ok (.ofList (s.toList.map Candidate.resolved))
  size := s.size

/-- What every part of a search refers to. -/
structure Context where
  directory : Directory
  schema : Registry
  config : SearchConfig

namespace Context

/-- The index by which values of an attribute type may be tested. -/
def reverseIndex? (ctx : Context) (t : AttributeType) : Option Index :=
  if ctx.config.useReverseIndex then (ctx.directory.index? t).filter Index.hasReverse else none

/-- The index from which candidates for a clause on an attribute type may come. -/
def sourceIndex? (ctx : Context) (t : AttributeType) : Option Index :=
  if ctx.config.preferIndexCursors then ctx.directory.index? t else none

end Context
end DirectoryQuery
