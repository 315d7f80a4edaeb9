import Mathlib.Data.List.Induction
import DirectoryQuery.Proofs.Stores

/-!
# What a history leaves behind

A store comes about by changes: entries are added and removed, indexes are declared, with or without
a reverse half, by an attribute type or by the name of one in a schema.  Whatever the changes were
and in whatever order they came, little of them is left.

* `survivor?`: of an identifier, the entry that was added last and not removed since.
* `lastDeclaration?`: of an attribute type, how its index was declared last.

Everything else follows from these two (`Store.Exact`): an index has the keys of the entries that
are left, in both of its halves, and a store that is filled with the same entries and indexed
afterwards is the same store (`Store.exact_run`).
-/

set_option autoImplicit false

namespace DirectoryQuery

open Std

/-! ## Changes -/

/-- How an index is declared. -/
structure Declaration where
  type : AttributeType
  normalizer : Normalizer
  hasReverse : Bool

/-- What an index shows of its declaration: that, and the name of the attribute type. -/
def Declaration.heading (d : Declaration) : Declaration × String := (d, d.type.name)

namespace IndexedAttribute

/-- How the index was declared. -/
def declaration (x : IndexedAttribute) : Declaration := ⟨x.type, x.normalizer, x.index.hasReverse⟩

/-- What the index shows of its declaration. -/
def heading (x : IndexedAttribute) : Declaration × String := (x.declaration, x.index.indexed)

end IndexedAttribute

/-- One change of a store. -/
inductive Change where
  | add (e : Entry)
  | erase (id : EntryId)
  | keepIndex (d : Declaration)
  /-- An index on a type of a schema, keyed by its equality rule. -/
  | keepIndexOn (r : Registry) (name : String)

namespace Change

/-- What becomes of the entry of an identifier, if the change concerns it. -/
def entry? (id : EntryId) : Change → Option (Option Entry)
  | add e => if e.id = id then some (some e) else none
  | erase id' => if id' = id then some none else none
  | keepIndex _ => none
  | keepIndexOn _ _ => none

/-- The index that the change declares.  A name that the schema does not find declares none. -/
def declared? : Change → Option Declaration
  | add _ => none
  | erase _ => none
  | keepIndex d => some d
  | keepIndexOn r name =>
    (r.resolve name >>= fun t ↦ (r.keyNormalizer t).map fun normalizer ↦
      ⟨t, normalizer, true⟩).toOption

/-- The index that the change declares on the attribute type of an object identifier. -/
def declaration? (oid : String) (c : Change) : Option Declaration :=
  c.declared?.filter fun d ↦ d.type.oid == oid

end Change

/-- The entry of an identifier that was added last and not removed since. -/
def survivor? (changes : List Change) (id : EntryId) : Option Entry :=
  (changes.filterMap (Change.entry? id)).getLast?.join

/-- How the index on an attribute type was declared last. -/
def lastDeclaration? (changes : List Change) (oid : String) : Option Declaration :=
  (changes.filterMap (Change.declaration? oid)).getLast?

namespace Store

/-- What the index on an attribute type shows of its declaration. -/
def heading? (s : Store) (oid : String) : Option (Declaration × String) :=
  s.indexes[oid]?.map IndexedAttribute.heading

/-- How the indexes there are were declared. -/
def declarations (s : Store) : List Declaration :=
  s.indexes.values.map IndexedAttribute.declaration

/-- Declares an index. -/
def declare (s : Store) (d : Declaration) : Store := s.keepIndex d.type d.normalizer d.hasReverse

/-- Makes a change; one that fails leaves the store as it is. -/
def change (s : Store) : Change → Store
  | .add e => s.add e
  | .erase id => s.erase id
  | .keepIndex d => s.declare d
  | .keepIndexOn r name => (s.keepIndexOn r name).toOption.getD s

/-- The store after changes. -/
def run (changes : List Change) : Store := changes.foldl change empty

/-- The store that is filled with entries and indexed afterwards. -/
def rebuilt (entries : List Entry) (declarations : List Declaration) : Store :=
  declarations.foldl declare (ofEntries entries)

end Store

/-! ## Stores that agree -/

/-- An index is determined by its postings and by whether it can be read in reverse. -/
theorem ValueIndex.ext_mem {x x' : ValueIndex} (hindexed : x.indexed = x'.indexed)
    (hreverse : x.hasReverse = x'.hasReverse) (hmem : ∀ p, p ∈ x ↔ p ∈ x') : x = x' := by
  have hforward : x.forwardHalf = x'.forwardHalf :=
    Groups.ext_has fun key id ↦ hmem ⟨key, id⟩
  have hhalf : x.reverseHalf? = x'.reverseHalf? := by
    cases hx : x.reverseHalf? with
    | none =>
      rw [hasReverse, hasReverse, hx] at hreverse
      exact (Option.isSome_eq_false_iff.1 hreverse.symm |> Option.isNone_iff_eq_none.1).symm
    | some half =>
      rw [hasReverse, hasReverse, hx] at hreverse
      obtain ⟨half', hx'⟩ := Option.isSome_iff_exists.1 hreverse.symm
      rw [hx', Option.some_inj]
      refine Groups.ext_has fun id key ↦ ?_
      rw [x.inverse half hx key id, x'.inverse half' hx' key id, hforward]
  cases x
  cases x'
  congr

namespace IndexedAttribute

variable {x x' : IndexedAttribute}

/-- Under the same heading, the keys of the same entries make the same index. -/
theorem eq_of_records {entries : ExtTreeMap EntryId Entry} (hheading : x.heading = x'.heading)
    (h : x.Records entries) (h' : x'.Records entries) : x = x' := by
  obtain ⟨hdeclaration, hindexed⟩ := Prod.mk.inj hheading
  obtain ⟨htype, hnormalizer, hreverse⟩ := Declaration.mk.inj hdeclaration
  have hkeys : ∀ e, x.keysOf e = x'.keysOf e := fun e ↦ by
    rw [keysOf, keysOf, htype, hnormalizer]
  have hindex : x.index = x'.index := by
    refine ValueIndex.ext_mem hindexed hreverse fun p ↦ ?_
    rw [h p, h' p]
    simp only [hkeys]
  cases x
  cases x'
  congr

theorem heading_insert (x : IndexedAttribute) (e : Entry) : (x.insert e).heading = x.heading := by
  rw [heading, declaration, hasReverse_insert, indexed_insert]
  rfl

theorem heading_erase (x : IndexedAttribute) (e : Entry) : (x.erase e).heading = x.heading := by
  rw [heading, declaration, hasReverse_erase, indexed_erase]
  rfl

theorem heading_foldl_insert (x : IndexedAttribute) (l : List Entry) :
    (l.foldl insert x).heading = x.heading := foldl_keeps heading heading_insert l x

end IndexedAttribute

/-- Consistent stores with the same entries and headings are the same. -/
theorem Store.Consistent.eq_of_headings {s s' : Store} (h : s.Consistent) (h' : s'.Consistent)
    (hentries : ∀ id : EntryId, s.entries[id]? = s'.entries[id]?)
    (hheadings : ∀ oid, s.heading? oid = s'.heading? oid) : s = s' := by
  have hsame : s.entries = s'.entries := ExtTreeMap.ext_getElem? hentries
  have hindexes : s.indexes = s'.indexes := by
    refine ExtTreeMap.ext_getElem? fun oid ↦ ?_
    have hheading := hheadings oid
    rw [heading?, heading?] at hheading
    cases hx : s.indexes[oid]? with
    | none =>
      rw [hx] at hheading
      exact (Option.map_eq_none_iff.1 hheading.symm).symm
    | some x =>
      rw [hx] at hheading
      obtain ⟨x', hx', hsame'⟩ := Option.map_eq_some_iff.1 hheading.symm
      rw [hx', Option.some_inj]
      exact IndexedAttribute.eq_of_records hsame'.symm (h.records oid x hx)
        (hsame ▸ h'.records oid x' hx')
  cases s
  cases s'
  congr

/-! ## One change -/

theorem toOption_keepIndexOn (s : Store) (r : Registry) (name : String) :
    (s.keepIndexOn r name).toOption = (Change.keepIndexOn r name).declared?.map s.declare := by
  cases hs : s.keepIndexOn r name with
  | ok s' =>
    obtain ⟨t, normalizer, ht, hnormalizer, rfl⟩ := Store.keepIndexOn_eq_ok hs
    simp only [Change.declared?, ht, bind, Except.bind, hnormalizer]
    rfl
  | error e =>
    cases hd : (Change.keepIndexOn r name).declared? with
    | none => rfl
    | some d =>
      obtain ⟨t, ht, hrest⟩ := bind_eq_ok.1 (toOption_eq_some.1 hd)
      cases hnormalizer : r.keyNormalizer t with
      | error e => exact nomatch hnormalizer ▸ hrest
      | ok normalizer => exact nomatch hs.symm.trans (Store.keepIndexOn_of_resolve ht hnormalizer)

namespace Store

variable {s s' : Store} {changes : List Change} {c : Change} {id : EntryId} {oid : String}

/-- A change is an entry added, an entry removed, an index declared, or nothing. -/
theorem change_cases (s : Store) (c : Change) :
    (∃ e, c = .add e ∧ s.change c = s.add e) ∨ (∃ id, c = .erase id ∧ s.change c = s.erase id) ∨
      (∀ id, c.entry? id = none) ∧
        ((∃ d, c.declared? = some d ∧ s.change c = s.declare d) ∨
          c.declared? = none ∧ s.change c = s) := by
  cases c with
  | add e => exact .inl ⟨e, rfl, rfl⟩
  | erase id => exact .inr (.inl ⟨id, rfl, rfl⟩)
  | keepIndex d => exact .inr (.inr ⟨fun _ ↦ rfl, .inl ⟨d, rfl, rfl⟩⟩)
  | keepIndexOn r name =>
    refine .inr (.inr ⟨fun _ ↦ rfl, ?_⟩)
    rw [change, toOption_keepIndexOn]
    cases (Change.keepIndexOn r name).declared? with
    | none => exact .inr ⟨rfl, rfl⟩
    | some d => exact .inl ⟨d, rfl, rfl⟩

theorem Consistent.changed (h : s.Consistent) (c : Change) : Consistent (s.change c) := by
  obtain ⟨e, -, hs⟩ | ⟨id, -, hs⟩ | ⟨-, ⟨d, -, hs⟩ | ⟨-, hs⟩⟩ := s.change_cases c
  · exact hs ▸ h.add e
  · exact hs ▸ h.erase id
  · exact hs ▸ h.keepIndex d.type d.normalizer d.hasReverse
  · rwa [hs]

theorem entries_add (s : Store) (e : Entry) (id : EntryId) :
    (s.add e).entries[id]? = if e.id = id then some e else s.entries[id]? := by
  show (s.entries.insert e.id e)[id]? = _
  simp [ExtTreeMap.getElem?_insert]

theorem entries_erase (s : Store) (id id' : EntryId) :
    (s.erase id).entries[id']? = if id = id' then none else s.entries[id']? := by
  cases he : s.entries[id]? with
  | none =>
    simp only [Store.erase, he]
    split
    · rename_i hid
      rw [← hid, he]
    · rfl
  | some e => simp [Store.erase, he, ExtTreeMap.getElem?_erase]

theorem entries_change (s : Store) (c : Change) (id : EntryId) :
    (s.change c).entries[id]? = (c.entry? id).getD s.entries[id]? := by
  obtain ⟨e, rfl, hs⟩ | ⟨id', rfl, hs⟩ | ⟨hc, ⟨d, -, hs⟩ | ⟨-, hs⟩⟩ := s.change_cases c
  · rw [hs, entries_add, Change.entry?]
    split <;> rfl
  · rw [hs, entries_erase, Change.entry?]
    split <;> rfl
  · rw [hs, hc]
    rfl
  · rw [hs, hc]
    rfl

theorem heading?_mapIndexes (s : Store) {f : IndexedAttribute → IndexedAttribute}
    (hf : ∀ x, (f x).heading = x.heading) (oid : String) :
    (s.mapIndexes f).heading? oid = s.heading? oid := by
  rw [heading?, indexes_mapIndexes, Option.map_map, heading?]
  exact congrArg (fun g ↦ s.indexes[oid]?.map g) (funext hf)

theorem heading?_add (s : Store) (e : Entry) (oid : String) :
    (s.add e).heading? oid = s.heading? oid := by
  have hinsert := fun s : Store ↦ s.heading?_mapIndexes (fun x ↦ x.heading_insert e) oid
  cases hprevious : s.entries[e.id]? with
  | none =>
    rw [Store.add, hprevious]
    exact hinsert s
  | some previous =>
    rw [Store.add, hprevious]
    exact (hinsert _).trans (s.heading?_mapIndexes (fun x ↦ x.heading_erase previous) oid)

theorem heading?_erase (s : Store) (id : EntryId) (oid : String) :
    (s.erase id).heading? oid = s.heading? oid := by
  cases he : s.entries[id]? with
  | none => simp only [Store.erase, he]
  | some e =>
    rw [Store.erase, he]
    exact s.heading?_mapIndexes (fun x ↦ x.heading_erase e) oid

theorem heading?_declare (s : Store) (d : Declaration) (oid : String) :
    (s.declare d).heading? oid = if d.type.oid = oid then some d.heading else s.heading? oid := by
  have hheading : (s.toList.foldl IndexedAttribute.insert
      ⟨d.type, d.normalizer, .empty d.type.name d.hasReverse⟩).heading = d.heading := by
    rw [IndexedAttribute.heading_foldl_insert, IndexedAttribute.heading,
      IndexedAttribute.declaration, ValueIndex.hasReverse_empty]
    rfl
  show (s.indexes.insert _ _)[oid]?.map _ = _
  rw [ExtTreeMap.getElem?_insert]
  simp only [Std.compare_eq_iff_eq]
  split
  · rw [Option.map_some, hheading]
  · rfl

theorem heading?_change (s : Store) (c : Change) (oid : String) :
    (s.change c).heading? oid =
      ((c.declaration? oid).map Declaration.heading).or (s.heading? oid) := by
  obtain ⟨e, rfl, hs⟩ | ⟨id, rfl, hs⟩ | ⟨-, ⟨d, hd, hs⟩ | ⟨hd, hs⟩⟩ := s.change_cases c
  · rw [hs, heading?_add]
    rfl
  · rw [hs, heading?_erase]
    rfl
  · rw [hs, heading?_declare, Change.declaration?, hd, Option.filter_some]
    by_cases hoid : d.type.oid = oid <;> simp [hoid]
  · rw [hs, Change.declaration?, hd]
    rfl

/-! ## Histories -/

theorem run_concat (changes : List Change) (c : Change) :
    run (changes ++ [c]) = (run changes).change c := by
  simp [run]

theorem survivor?_concat (changes : List Change) (c : Change) (id : EntryId) :
    survivor? (changes ++ [c]) id = (c.entry? id).getD (survivor? changes id) := by
  rw [survivor?, List.filterMap_append, List.getLast?_append]
  cases hc : c.entry? id <;> simp [hc, survivor?]

theorem lastDeclaration?_concat (changes : List Change) (c : Change) (oid : String) :
    lastDeclaration? (changes ++ [c]) oid =
      (c.declaration? oid).or (lastDeclaration? changes oid) := by
  rw [lastDeclaration?, List.filterMap_append, List.getLast?_append]
  cases hc : c.declaration? oid <;> simp [hc, lastDeclaration?]

theorem consistent_run (changes : List Change) : Consistent (run changes) := by
  induction changes using List.reverseRecOn with
  | nil => exact consistent_empty
  | append_singleton changes c ih =>
    rw [run_concat]
    exact ih.changed c

/-- The entries that a history leaves are the last ones. -/
theorem entries_run (changes : List Change) (id : EntryId) :
    (run changes).entries[id]? = survivor? changes id := by
  induction changes using List.reverseRecOn with
  | nil => simp [run, survivor?, empty]
  | append_singleton changes c ih => rw [run_concat, entries_change, ih, survivor?_concat]

/-- The indexes that a history leaves are declared as they were last. -/
theorem heading?_run (changes : List Change) (oid : String) :
    (run changes).heading? oid = (lastDeclaration? changes oid).map Declaration.heading := by
  induction changes using List.reverseRecOn with
  | nil => simp [run, lastDeclaration?, heading?, empty]
  | append_singleton changes c ih =>
    rw [run_concat, heading?_change, ih, lastDeclaration?_concat]
    cases c.declaration? oid <;> rfl

theorem declaration?_run (changes : List Change) (oid : String) :
    (run changes).indexes[oid]?.map IndexedAttribute.declaration =
      lastDeclaration? changes oid := by
  have hheading := congrArg (Option.map Prod.fst) (heading?_run changes oid)
  rwa [heading?, Option.map_map, Option.map_map, show Prod.fst ∘ Declaration.heading = id from rfl,
    Option.map_id_fun] at hheading

theorem oid_of_lastDeclaration? {d : Declaration} (h : lastDeclaration? changes oid = some d) :
    d.type.oid = oid := by
  obtain ⟨c, -, hc⟩ := List.mem_filterMap.1 (List.mem_of_getLast? h)
  exact eq_of_beq (Option.filter_eq_some_iff.1 hc).2

/-- Histories that leave the same entries and declarations leave the same store. -/
theorem run_congr {changes changes' : List Change}
    (hentries : ∀ id, survivor? changes id = survivor? changes' id)
    (hdeclarations : ∀ oid, lastDeclaration? changes oid = lastDeclaration? changes' oid) :
    run changes = run changes' := by
  refine (consistent_run changes).eq_of_headings (consistent_run changes') ?_ ?_
  · exact fun id ↦ by rw [entries_run, entries_run, hentries]
  · exact fun oid ↦ by rw [heading?_run, heading?_run, hdeclarations]

/-! ## Filling a store anew -/

/-- Of a list whose members are those of an option, the last is the option. -/
theorem getLast?_eq_of_mem_iff {α : Type} {l : List α} {o : Option α}
    (h : ∀ a, a ∈ l ↔ o = some a) : l.getLast? = o := by
  cases o with
  | none => simpa using List.eq_nil_iff_forall_not_mem.2 fun a ha ↦ nomatch (h a).1 ha
  | some a =>
    have hne : l ≠ [] := List.ne_nil_of_mem ((h a).2 rfl)
    rw [List.getLast?_eq_some_getLast hne, (h _).1 (List.getLast_mem hne)]

theorem Consistent.mem_toList_iff (h : s.Consistent) {e : Entry} :
    e ∈ s.toList ↔ s.entries[e.id]? = some e := by
  rw [mem_toList]
  constructor
  · rintro ⟨id, hid⟩
    rwa [h.id_eq id e hid]
  · exact fun he ↦ ⟨e.id, he⟩

theorem Consistent.mem_declarations (h : s.Consistent) {d : Declaration} :
    d ∈ s.declarations ↔ s.indexes[d.type.oid]?.map IndexedAttribute.declaration = some d := by
  rw [declarations, values_eq_map_toList, List.map_map, List.mem_map, Option.map_eq_some_iff]
  constructor
  · rintro ⟨⟨oid, x⟩, hx, rfl⟩
    have hget := ExtTreeMap.mem_toList_iff_getElem?_eq_some.1 hx
    obtain rfl := h.oid_eq oid x hget
    exact ⟨x, hget, rfl⟩
  · rintro ⟨x, hget, hd⟩
    exact ⟨(d.type.oid, x), ExtTreeMap.mem_toList_iff_getElem?_eq_some.2 hget, hd⟩

/-- The additions and declarations that fill a store. -/
def filling (entries : List Entry) (declarations : List Declaration) : List Change :=
  entries.map .add ++ declarations.map .keepIndex

theorem mem_entries_filling {entries : List Entry} {declarations : List Declaration}
    {held : Option Entry} :
    held ∈ (filling entries declarations).filterMap (Change.entry? id) ↔
      ∃ e ∈ entries, e.id = id ∧ some e = held := by
  simp [filling, List.filterMap_append, Change.entry?]

theorem mem_declarations_filling {entries : List Entry} {declarations : List Declaration}
    {d : Declaration} :
    d ∈ (filling entries declarations).filterMap (Change.declaration? oid) ↔
      d ∈ declarations ∧ d.type.oid = oid := by
  simp [filling, List.filterMap_append, Change.declaration?, Change.declared?, Option.filter]

theorem rebuilt_eq_run (entries : List Entry) (declarations : List Declaration) :
    rebuilt entries declarations = run (filling entries declarations) := by
  rw [run, filling, List.foldl_append, List.foldl_map, List.foldl_map]
  rfl

/-- Filling a store with the entries of another and declaring its indexes, in any order, makes the
same store. -/
theorem rebuilt_eq (changes : List Change) {entries : List Entry} {declarations : List Declaration}
    (hentries : entries.Perm (run changes).toList)
    (hdeclarations : declarations.Perm (run changes).declarations) :
    rebuilt entries declarations = run changes := by
  have hs := consistent_run changes
  rw [rebuilt_eq_run]
  refine run_congr (fun id ↦ ?_) fun oid ↦ ?_
  · have hlast : ((filling entries declarations).filterMap (Change.entry? id)).getLast? =
        (survivor? changes id).map some := by
      refine getLast?_eq_of_mem_iff fun held ↦ ?_
      rw [mem_entries_filling, ← entries_run, Option.map_eq_some_iff]
      refine exists_congr fun e ↦ ?_
      rw [hentries.mem_iff, hs.mem_toList_iff, ← and_assoc]
      refine and_congr_left fun _ ↦ ⟨?_, fun he ↦ ?_⟩
      · rintro ⟨he, rfl⟩
        exact he
      · obtain rfl := hs.id_eq id e he
        exact ⟨he, rfl⟩
    rw [survivor?, hlast]
    cases survivor? changes id <;> rfl
  · refine getLast?_eq_of_mem_iff fun d ↦ ?_
    rw [mem_declarations_filling, hdeclarations.mem_iff, hs.mem_declarations, declaration?_run]
    constructor
    · rintro ⟨hd, rfl⟩
      exact hd
    · intro hd
      obtain rfl := oid_of_lastDeclaration? hd
      exact ⟨hd, rfl⟩

/-- The store is what the last entries and the last declarations of a history make it. -/
structure Exact (s : Store) (changes : List Change) : Prop where
  /-- An identifier finds the entry that was added last and not removed since. -/
  lookup_eq (id : EntryId) : s.lookup id =
    match survivor? changes id with
    | some e => .ok e
    | none => .error (.notFound id)
  /-- All entries are those that are found, -/
  mem_toList_iff (e : Entry) : e ∈ s.toList ↔ survivor? changes e.id = some e
  /-- in ascending order, -/
  ascending : s.toList.Pairwise fun e e' ↦ e.id < e'.id
  /-- as many as are counted. -/
  size_eq : s.size = s.toList.length
  /-- The indexes are those that were declared last. -/
  heading_eq (oid : String) :
    s.heading? oid = (lastDeclaration? changes oid).map Declaration.heading
  /-- The forward half of an index has the normalized values of the entries. -/
  forward (oid : String) (x : IndexedAttribute) : s.indexes[oid]? = some x → ∀ key id,
    x.index.forwardHalf.Has key id ↔ ∃ e, survivor? changes id = some e ∧
      ∃ v ∈ e.get x.type, x.normalizer.apply v = key
  /-- The reverse half, if there is one, is its inverse. -/
  reverse (oid : String) (x : IndexedAttribute) : s.indexes[oid]? = some x → ∀ half,
    x.index.reverseHalf? = some half → ∀ id key,
      half.Has id key ↔ x.index.forwardHalf.Has key id

theorem Consistent.ascending (h : s.Consistent) :
    s.toList.Pairwise fun e e' ↦ e.id < e'.id := by
  have hordered : s.entries.toList.Pairwise fun a b ↦ compare a.1 b.1 = .lt :=
    ExtTreeMap.ordered_keys_toList
  rw [toList, values_eq_map_toList, List.pairwise_map]
  refine hordered.imp_of_mem ?_
  rintro ⟨id, e⟩ ⟨id', e'⟩ he he' hlt
  obtain rfl := h.id_eq id e (ExtTreeMap.mem_toList_iff_getElem?_eq_some.1 he)
  obtain rfl := h.id_eq id' e' (ExtTreeMap.mem_toList_iff_getElem?_eq_some.1 he')
  exact Std.compare_eq_lt.1 hlt

/-- **After any history a store is exact.**  It has the entries that were added last and not removed
since, and each of its indexes, declared as it was last, has the keys of these entries; so it is the
store that is filled with these entries, in any order, and indexed afterwards. -/
theorem exact_run (changes : List Change) :
    (run changes).Exact changes ∧
      ∀ (entries : List Entry) (declarations : List Declaration),
        entries.Perm (run changes).toList → declarations.Perm (run changes).declarations →
          rebuilt entries declarations = run changes := by
  have hs := consistent_run changes
  refine ⟨?_, fun entries declarations ↦ rebuilt_eq changes⟩
  refine ⟨fun id ↦ ?_, fun e ↦ ?_, hs.ascending, ?_, heading?_run changes, ?_, ?_⟩
  · cases hsurvivor : survivor? changes id <;> simp [lookup, entries_run, hsurvivor]
  · rw [hs.mem_toList_iff, entries_run]
  · rw [size, toList, values_eq_map_toList, List.length_map, ExtTreeMap.length_toList]
  · intro oid x hx key id
    rw [← ValueIndex.mem_iff (p := ⟨key, id⟩), hs.records oid x hx]
    simp only [entries_run, IndexedAttribute.keysOf, List.mem_map]
  · intro oid x hx half hhalf id key
    exact x.index.inverse half hhalf key id

/-- An entry is replaced and another removed while there is an index on their names. -/
def nameChanges : List Change :=
  [.add ((Entry.empty 1).add "cn" (.text "Bob")), .keepIndexOn .names "cn",
    .add ((Entry.empty 2).add "cn" (.text "BOB")), .add ((Entry.empty 1).add "cn" (.text "Eve")),
    .erase 2]

theorem exact_run_nameChanges :
    (run nameChanges).lookup 2 = .error (.notFound 2) ∧
      rebuilt (run nameChanges).toList.reverse (run nameChanges).declarations.reverse =
        run nameChanges :=
  ⟨(exact_run nameChanges).1.lookup_eq 2,
    (exact_run nameChanges).2 _ _ (List.reverse_perm _) (List.reverse_perm _)⟩

end Store
end DirectoryQuery
