import DirectoryQuery.Entry
import DirectoryQuery.Proofs.Encodings
import DirectoryQuery.Proofs.Names

/-!
# Entries survive their JSON form

An entry is written with the keys it has, while reading puts every key into lower case and merges
those that become one.  What was written is read as it was only if there is nothing left to do: each
key is its own lower-case form, and then keys that differ are not merged.

Entries cannot be made in any other way.  Whatever is put into an entry goes under a key in lower
case, and a lower-case form is its own lower-case form, also for letters whose form depends on what
stands around them (`Text.lower_lower`).  So being reached, having such keys only, and surviving the
trip are one and the same (`Entry.reached_iff_lowered`, `Entry.reached_iff_survives`).
-/

set_option autoImplicit false

namespace DirectoryQuery

open Std

/-- A map is the map of its own associations. -/
theorem ofList_toList {α : Type} (m : ExtTreeMap String α) : ExtTreeMap.ofList m.toList = m := by
  refine ExtTreeMap.ext_getElem? fun key ↦ ?_
  cases hkey : m[key]? with
  | none =>
    refine ExtTreeMap.getElem?_ofList_of_contains_eq_false ?_
    simpa [ExtTreeMap.map_fst_toList_eq_keys] using hkey
  | some v =>
    exact ExtTreeMap.getElem?_ofList_of_mem compare_self ExtTreeMap.distinct_keys_toList
      (ExtTreeMap.mem_toList_iff_getElem?_eq_some.2 hkey)

namespace Entry

variable {e : Entry} {key name : String} {values : List Value}

/-! ## Keys -/

/-- Every key is its own lower-case form. -/
def Lowered (e : Entry) : Prop := ∀ key ∈ e.attributes, Text.lower key = key

theorem mem_extend : key ∈ (e.extend name values).attributes ↔
    key = Text.lower name ∨ key ∈ e.attributes := by
  simp only [extend, ExtTreeMap.mem_alter, Std.compare_eq_iff_eq]
  split
  · rename_i hkey
    simp [hkey]
  · rename_i hkey
    simp [Ne.symm hkey]

theorem lowered_empty (id : EntryId) : (empty id).Lowered := fun _ hkey ↦
  absurd hkey ExtTreeMap.not_mem_empty

theorem Lowered.extend (h : e.Lowered) (name : String) (values : List Value) :
    (e.extend name values).Lowered := by
  intro key hkey
  obtain rfl | hkey := mem_extend.1 hkey
  · exact Text.lower_lower name
  · exact h key hkey

theorem Lowered.addEach (h : e.Lowered) (name : String) (values : List Value) :
    (e.addEach name values).Lowered := by
  unfold Entry.addEach
  induction values generalizing e with
  | nil => exact h
  | cons v values ih => exact ih (h.extend name [v])

/-- The entry with the values of all members, one member after the other. -/
def extendEach (e : Entry) (members : List (String × List Value)) : Entry :=
  members.foldl (fun e m ↦ e.extend m.1 m.2) e

theorem ofMembers_eq (id : EntryId) (members : List (String × List Value)) :
    ofMembers id members = (empty id).extendEach (ExtTreeMap.ofList members).toList := rfl

theorem Lowered.extendEach (h : e.Lowered) (members : List (String × List Value)) :
    (e.extendEach members).Lowered := by
  unfold Entry.extendEach
  induction members generalizing e with
  | nil => exact h
  | cons m members ih => exact ih (h.extend m.1 m.2)

/-! ## Reading the associations of an entry -/

/-- Under a new key in lower case the values are put as they are. -/
theorem extend_of_not_mem (hlower : Text.lower name = name) (hnew : name ∉ e.attributes) :
    e.extend name values = { e with attributes := e.attributes.insert name values } := by
  rw [extend, hlower]
  congr 1
  refine ExtTreeMap.ext_getElem? fun key ↦ ?_
  rw [ExtTreeMap.getElem?_alter, ExtTreeMap.getElem?_insert, ExtTreeMap.getElem?_eq_none hnew]
  rfl

/-- Nothing is merged where the keys are new, differ and are in lower case. -/
theorem extendEach_of_distinct {members : List (String × List Value)}
    (hlower : ∀ m ∈ members, Text.lower m.1 = m.1) (hnew : ∀ m ∈ members, m.1 ∉ e.attributes)
    (hdistinct : members.Pairwise fun m m' ↦ ¬compare m.1 m'.1 = .eq) :
    e.extendEach members = { e with attributes := e.attributes.insertMany members } := by
  unfold extendEach
  induction members generalizing e with
  | nil => rw [ExtTreeMap.insertMany_nil]; rfl
  | cons m members ih =>
    rw [List.forall_mem_cons] at hlower hnew
    obtain ⟨hfirst, hdistinct⟩ := List.pairwise_cons.1 hdistinct
    rw [List.foldl_cons, extend_of_not_mem hlower.1 hnew.1, ih hlower.2 _ hdistinct,
      ExtTreeMap.insertMany_cons]
    intro m' hm' hmem
    rw [ExtTreeMap.mem_insert] at hmem
    exact hmem.elim (hfirst m' hm') (hnew.2 m' hm')

theorem ofMembers_toList (h : e.Lowered) : ofMembers e.id e.attributes.toList = e := by
  have hlower : ∀ m ∈ e.attributes.toList, Text.lower m.1 = m.1 := by
    intro m hm
    have hvalues := ExtTreeMap.mem_toList_iff_getElem?_eq_some.1 hm
    exact h m.1 (ExtTreeMap.mem_iff_isSome_getElem?.2 (Option.isSome_of_eq_some hvalues))
  rw [ofMembers_eq, ofList_toList, extendEach_of_distinct hlower
    (fun _ _ ↦ ExtTreeMap.not_mem_empty) ExtTreeMap.distinct_keys_toList, empty,
    ← ExtTreeMap.ofList_eq_insertMany_empty, ofList_toList]

theorem attribute?_toJson (m : String × List Value) :
    attribute? (m.1, .list Value.toJson m.2) = some m := by
  rw [attribute?, Json.list?_list Value.ofJson?_toJson]
  rfl

theorem members?_toJson (members : List (String × List Value)) :
    members? (.object (members.map fun m ↦ (m.1, .list Value.toJson m.2))) = some members := by
  rw [members?]
  induction members with
  | nil => rfl
  | cons m members ih => simp [attribute?_toJson, ih]

theorem entryId?_ofNat (id : EntryId) : entryId? (.ofNat id.toNat) = some id := by
  have hlt : id.toNat < UInt64.size := id.toNat_lt
  simp [entryId?, Json.ofNat, Json.natBelow?, Numeral.nat?, Numeral.ofNat, Option.filter, hlt]

/-- What was written is read with all its keys put into lower case once more. -/
theorem ofJson?_toJson (e : Entry) :
    ofJson? e.toJson = some (ofMembers e.id e.attributes.toList) := by
  have hrecord : e.toJson.record? ["id", "attributes"] = some [some (.ofNat e.id.toNat),
      some (.object (e.attributes.toList.map fun m ↦ (m.1, .list Value.toJson m.2)))] := rfl
  simp [ofJson?, hrecord, Json.required?, Json.optional?, entryId?_ofNat, members?_toJson]

/-! ## The text of an entry -/

theorem legible_toJson (e : Entry) : e.toJson.Legible := by
  refine ⟨Numeral.legible_ofNat e.id.toNat_lt, Json.legibleMembers_iff.2 fun m hm ↦ ?_, trivial⟩
  obtain ⟨m, -, rfl⟩ := List.mem_map.1 hm
  exact Json.legible_list Value.legible_toJson m.2

/-- The object, the table of attributes in it, a list of values in that, and a binary value. -/
theorem depth_toJson_le (e : Entry) : e.toJson.depth ≤ 4 := by
  have hvalue : ∀ v : Value, v.toJson.depth ≤ 1 := fun v ↦ by
    cases v with
    | text s => exact Nat.zero_le 1
    | binary bs => exact Json.depth_list_le (fun _ ↦ Nat.le_refl 0) bs
  have hattributes : Json.depthMembers
      (e.attributes.toList.map fun m ↦ (m.1, .list Value.toJson m.2)) ≤ 2 := by
    refine Json.depthMembers_le_iff.2 fun m hm ↦ ?_
    obtain ⟨m, -, rfl⟩ := List.mem_map.1 hm
    exact Json.depth_list_le hvalue m.2
  simp [toJson, Json.depth, Json.depthMembers, Json.ofNat]
  omega

theorem read?_toJson (e : Entry) : Json.read? e.toJson.render = some e.toJson :=
  Json.read?_render_of_depth_le e.legible_toJson (e.depth_toJson_le.trans (by decide))

/-! ## Entries that are reached -/

/-- The entries that can be made: by beginning without attributes, by adding a value or several
under a name, and by reading. -/
inductive Reached : Entry → Prop
  | empty (id : EntryId) : Reached (empty id)
  | add {e : Entry} (he : Reached e) (name : String) (v : Value) : Reached (e.add name v)
  | addEach {e : Entry} (he : Reached e) (name : String) (values : List Value) :
      Reached (e.addEach name values)
  | read {j : Json} {e : Entry} (h : ofJson? j = some e) : Reached e

theorem lowered_of_ofJson? {j : Json} (h : ofJson? j = some e) : e.Lowered := by
  simp only [ofJson?, Option.bind_eq_bind, Option.bind_eq_some_iff] at h
  obtain ⟨fields, -, h⟩ := h
  split at h
  · simp only [Option.bind_eq_some_iff, Option.some_inj] at h
    obtain ⟨id, -, members, -, rfl⟩ := h
    exact (lowered_empty id).extendEach _
  · cases h

theorem Reached.lowered (h : e.Reached) : e.Lowered := by
  induction h with
  | empty id => exact lowered_empty id
  | add _ name v ih => exact ih.extend name [v]
  | addEach _ name values ih => exact ih.addEach name values
  | read h => exact lowered_of_ofJson? h

theorem Lowered.ofJson?_toJson (h : e.Lowered) : ofJson? e.toJson = some e := by
  rw [Entry.ofJson?_toJson, ofMembers_toList h]

theorem reached_iff_lowered : e.Reached ↔ e.Lowered :=
  ⟨Reached.lowered, fun h ↦ .read h.ofJson?_toJson⟩

/-- **An entry survives its JSON form exactly if it can be reached.**  Reading the value that was
written, or its text, gives the same entry: the identifier, every key, also one without values, and
under each key the values in their order. -/
theorem reached_iff_survives (e : Entry) :
    (e.Reached ↔ ofJson? e.toJson = some e) ∧
      (e.Reached ↔ (Json.read? e.toJson.render).bind ofJson? = some e) := by
  have hvalue : e.Reached ↔ ofJson? e.toJson = some e :=
    ⟨fun h ↦ h.lowered.ofJson?_toJson, fun h ↦ .read h⟩
  refine ⟨hvalue, ?_⟩
  rw [read?_toJson, Option.bind_some]
  exact hvalue

/-- Keys that become one are merged when they are read, in the order of their spellings, and a key
without values stays. -/
example : (ofJson? (.object [("attributes", .object [("cn", .array [.string "D"]),
      ("Mail", .array []), ("CN", .array [.string "Dana"])]), ("id", .ofNat 4)])).map
    (fun e ↦ e.attributes.toList) = some [("cn", [.text "Dana", .text "D"]), ("mail", [])] := by
  decide +kernel

end Entry
end DirectoryQuery
