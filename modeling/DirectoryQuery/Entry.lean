import Std.Data.ExtTreeMap
import DirectoryQuery.Schema.AttributeType

/-!
# Entries

An entry is a record of the directory: an identifier and, under each attribute key, a list of
values.  Keys are kept in lower case.  An attribute type finds its values under any of its names and
under its object identifier; the values of its descendants are theirs alone.
-/

set_option autoImplicit false

namespace DirectoryQuery

open Std

/-- The identifier of an entry. -/
abbrev EntryId := UInt64

/-- Reads the identifier of an entry, a whole number below `2 ^ 64`. -/
def entryId? (j : Json) : Option EntryId := (j.natBelow? UInt64.size).map UInt64.ofNat

/-- The keys under which an entry may hold the values of a type: its names, then its identifier,
each once and in lower case. -/
def AttributeType.valueKeys (t : AttributeType) : List String :=
  ((t.names ++ [t.oid]).map Text.lower).eraseDups

/-- A record: an identifier and lists of values under lower-case keys. -/
structure Entry where
  id : EntryId
  attributes : ExtTreeMap String (List Value)

namespace Entry

/-- The entry without attributes. -/
def empty (id : EntryId) : Entry := ⟨id, ∅⟩

/-- The entry with further values at the end of what it holds under the name. -/
def extend (e : Entry) (name : String) (values : List Value) : Entry :=
  { e with attributes :=
      e.attributes.alter (Text.lower name) fun held ↦ some (held.getD [] ++ values) }

/-- The entry with one more value under the name. -/
def add (e : Entry) (name : String) (value : Value) : Entry := e.extend name [value]

/-- The entry with values added one by one; without any values it stays as it is. -/
def addEach (e : Entry) (name : String) (values : List Value) : Entry :=
  values.foldl (fun e value ↦ e.add name value) e

/-- The values held under exactly this name, if the entry has the key. -/
def named? (e : Entry) (name : String) : Option (List Value) := e.attributes[Text.lower name]?

/-- The values of an attribute type, in the order of its keys. -/
def get (e : Entry) (t : AttributeType) : List Value :=
  t.valueKeys.flatMap fun key ↦ e.attributes[key]?.getD []

/-! ## JSON -/

/-- The entry in JSON, its keys in ascending order. -/
def toJson (e : Entry) : Json :=
  .object [("id", .ofNat e.id.toNat),
    ("attributes", .object (e.attributes.toList.map fun (key, values) ↦
      (key, .list Value.toJson values)))]

/-- Reads one member of a table of attributes. -/
def attribute? (member : String × Json) : Option (String × List Value) :=
  (member.2.list? Value.ofJson?).map fun values ↦ (member.1, values)

/-- The entry that holds the given attributes.  Of two members with the same name the later one
counts; names that agree in lower case are merged in ascending order of the names. -/
def ofMembers (id : EntryId) (members : List (String × List Value)) : Entry :=
  (ExtTreeMap.ofList members).toList.foldl (fun e (name, values) ↦ e.extend name values) (empty id)

/-- Reads the attributes of an entry. -/
def members? : Json → Option (List (String × List Value))
  | .object members => members.mapM attribute?
  | _ => none

/-- Reads an entry; the attributes may be missing. -/
def ofJson? (j : Json) : Option Entry := do
  match ← j.record? ["id", "attributes"] with
  | [id, attributes] =>
    some (ofMembers (← Json.required? entryId? id) (← Json.optional? [] members? attributes))
  | _ => none

end Entry
end DirectoryQuery
