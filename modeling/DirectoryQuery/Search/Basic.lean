import DirectoryQuery.Search.Plan

/-!
# Searches

A search makes the cursor of a filter, collects all identifiers in one direction and closes the
cursor.  When the traversal fails, the cursor is closed with that failure and the failure is the
outcome, whatever closing it comes to.  Begin and end are logged under the identifier of the search.
-/

set_option autoImplicit false

namespace DirectoryQuery
namespace Context

/-- The identifiers of the entries that satisfy the filter, in the order of a traversal. -/
def search (ctx : Context) (searchId : String) (f : Filter) (d : Direction) :
    Attempt (List EntryId) := do
  note .searchStart [("search_id", searchId), ("filter", f.display)]
  let operand ← ctx.plan f
  let (outcome, cursor) ← (Cursor.collect ctx d).perform operand.cursor
  match outcome with
  | .error e =>
    let _ ← (Cursor.release (some e)).perform cursor
    throw e
  | .ok ids =>
    let (closing, _) ← (Cursor.release none).perform cursor
    closing
    note .searchComplete [("search_id", searchId), ("filter", f.display),
      ("matches", toString ids.length)]
    return ids

end Context
end DirectoryQuery
