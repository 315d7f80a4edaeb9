import DirectoryQuery.Entry

/-!
# Store failures

What can go wrong when entries or indexes are read, and how each failure reads.
-/

set_option autoImplicit false

namespace DirectoryQuery

/-- Why a store or an index could not answer. -/
inductive StoreError where
  /-- The store has no entry of that identifier. -/
  | notFound (id : EntryId)
  /-- The index on that attribute cannot be asked so. -/
  | indexUnavailable (indexed reason : String)
  /-- The store itself failed. -/
  | backend (reason : String)
deriving DecidableEq, Repr

namespace StoreError

/-- The text of a failure. -/
def message : StoreError → String
  | notFound id => "Entry not found: " ++ toString id.toNat
  | indexUnavailable indexed reason => "Index on " ++ indexed ++ " unavailable: " ++ reason
  | backend reason => "Store backend failure: " ++ reason

/-- Whether a single entry is missing. -/
def isNotFound : StoreError → Bool
  | notFound _ => true
  | _ => false

end StoreError
end DirectoryQuery
