import DirectoryQuery.Entry

/-!
# Candidates

What a search moves about is not whole entries but candidates: the identifier of an entry, the value
under which the candidate was found or accepted, and the entry itself once something has looked it
up.
-/

set_option autoImplicit false

namespace DirectoryQuery

/-- An entry that may belong to the answer. -/
structure Candidate where
  id : EntryId
  /-- The index key it was found under, or the normalized value that was accepted last. -/
  value : Option Value
  /-- The entry, once it has been looked up. -/
  record : Option Entry

namespace Candidate

/-- The candidate of which only the identifier is known. -/
def bare (id : EntryId) : Candidate := ⟨id, none, none⟩

/-- The candidate found under an index key. -/
def keyed (key : Value) (id : EntryId) : Candidate := ⟨id, some key, none⟩

/-- The candidate whose entry is at hand. -/
def resolved (e : Entry) : Candidate := ⟨e.id, none, some e⟩

end Candidate
end DirectoryQuery
