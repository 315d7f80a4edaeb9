import DirectoryQuery.Proofs.Closing
import DirectoryQuery.Proofs.Leaves

/-!
# Indexes and the values of descendants

An index has the own values of its attribute, but a leaf that looks at entries also counts the
values of descendants.  So keeping an index on an attribute may change what a search for a leaf on
the attribute comes to.

`Store.results_keepIndexOn_iff` says exactly when it does not: when there was an index already, when
the settings forbid to use indexes at all, or when of each entry that is stored the own keys decide
as its values do.  The last fails for an entry whose only values are those of a descendant
(`Store.results_keepIndexOn_common_name`).
-/

set_option autoImplicit false

namespace DirectoryQuery

open Std

variable {s : Store} {r : Registry} {config : SearchConfig} {t : Test} {c : Clause} {i : EntryId}

/-- Neither candidates nor verdicts may come from an index. -/
def SearchConfig.Scans (config : SearchConfig) : Prop :=
  config.useReverseIndex = false ∧ config.preferIndexCursors = false

namespace Test

/-- Where an index serves in one way or another, a leaf finds the entries with a key that satisfies
it. -/
theorem mem_found_iff_hasKey (hs : s.Built r) (hr : r.Reachable) (ht : c.toTest r = .ok t)
    {x : ValueIndex} (hx : s.index? t.subject.type = some x) (huse : ¬config.Scans) :
    i ∈ t.found s config ↔ ∃ e, s.entries[i]? = some e ∧ t.HasKey r e := by
  cases hprefer : config.preferIndexCursors with
  | true =>
    have hsource : s.sourceIndex? config t.subject.type = some x := by
      rw [Store.sourceIndex?, if_pos hprefer, hx]
    exact mem_found_of_index hs hr ht hsource
  | false =>
    have hreverse : config.useReverseIndex = true := by
      simpa [SearchConfig.Scans, hprefer] using huse
    have hsource : s.sourceIndex? config t.subject.type = none := by
      simp [Store.sourceIndex?, hprefer]
    rw [mem_found_of_entries hs.consistent hsource]
    constructor
    · intro h
      obtain ⟨⟨e, he⟩, hverdict⟩ := h
      exact ⟨e, he, (verdict_of_index hs hr ht hx hreverse he).1 hverdict⟩
    · intro h
      obtain ⟨e, he, hkey⟩ := h
      exact ⟨⟨e, he⟩, (verdict_of_index hs hr ht hx hreverse he).2 hkey⟩

/-- Where no index serves, a leaf finds the entries that pass it. -/
theorem mem_found_iff_scanned (h : s.Consistent)
    (hx : s.index? t.subject.type = none ∨ config.Scans) :
    i ∈ t.found s config ↔ ∃ e, s.entries[i]? = some e ∧ t.acceptsEntry e = true := by
  have hsource : s.sourceIndex? config t.subject.type = none := by
    rcases hx with hx | hscans
    · simp [Store.sourceIndex?, hx]
    · simp [Store.sourceIndex?, hscans.2]
  have hverdict : ∀ e, s.entries[i]? = some e → t.verdict s config i = t.acceptsEntry e :=
    fun e he ↦ verdict_of_entry (hx.imp_right fun hscans ↦ hscans.1) he
  rw [mem_found_of_entries h hsource]
  constructor
  · intro h
    obtain ⟨⟨e, he⟩, haccepts⟩ := h
    exact ⟨e, he, (hverdict e he).symm.trans haccepts⟩
  · intro h
    obtain ⟨e, he, haccepts⟩ := h
    exact ⟨⟨e, he⟩, (hverdict e he).trans haccepts⟩

end Test

namespace Store

/-- The entries stay when an index is kept, and there is an index on the type afterwards. -/
theorem keepIndexOn_spec (hs : s.Built r) {name : String} {s' : Store} {u : AttributeType}
    (hs' : s.keepIndexOn r name = .ok s') (hu : r.resolve name = .ok u) :
    s'.entries = s.entries ∧ ∃ x, s'.index? u = some x := by
  obtain ⟨u', normalizer, hu', -, rfl⟩ := keepIndexOn_eq_ok hs'
  obtain rfl := Except.ok.inj (hu'.symm.trans hu)
  obtain ⟨x, -, -, -, -, hkeep⟩ := keepIndex_spec hs.consistent u' normalizer true
  rw [hkeep]
  refine ⟨rfl, x.index, ?_⟩
  rw [index?, ExtTreeMap.getElem?_insert_self]
  rfl

/-- Every search for the filter, whatever went before it, comes to the entries given for its
direction. -/
def Returns (s : Store) (r : Registry) (config : SearchConfig) (f : Filter)
    (ids : Direction → List EntryId) : Prop :=
  ∀ d searchId trace,
    Attempt.outcome ((s.context r config).search searchId f d) trace = .ok (ids d)

/-- A search for a leaf comes to what the leaf finds. -/
theorem returns_leaf (h : s.Consistent) (config : SearchConfig) (ht : c.toTest r = .ok t) :
    s.Returns r config (.leaf c) fun d ↦ d.arrange (t.found s config) := by
  intro d searchId trace
  have he : Filter.toEvaluator r (.leaf c) = .ok (.leaf t) := bind_eq_ok.2 ⟨t, ht, rfl⟩
  obtain ⟨ids, hids, hlists⟩ := search_eq_ok h config searchId d he trace
  rw [Lists] at hlists
  rw [hids, hlists]

/-- **When an index may be kept without changing results.**  A search for a leaf comes to the same
entries before and after an index is kept on the attribute of the leaf exactly if there was one
already, or indexes are not used, or the own keys of each entry decide about it as its values do. -/
theorem results_keepIndexOn_iff (hr : r.Reachable) (hs : s.Built r) {name : String} {s' : Store}
    (hs' : s.keepIndexOn r name = .ok s') (config : SearchConfig) (ht : c.toTest r = .ok t)
    (hname : r.resolve name = .ok t.subject.type) :
    ∃ before after : Direction → List EntryId,
      s.Returns r config (.leaf c) before ∧ s'.Returns r config (.leaf c) after ∧
      ((∀ d i, i ∈ after d ↔ i ∈ before d) ↔
        (s.index? t.subject.type).isSome ∨ config.Scans ∨
          ∀ (i : EntryId) (e : Entry), s.entries[i]? = some e →
            (t.HasKey r e ↔ t.acceptsEntry e = true)) := by
  have hbuilt : s'.Built r := hs.keepIndexOn name hs'
  obtain ⟨hentries, x', hx'⟩ := keepIndexOn_spec hs hs' hname
  refine ⟨fun d ↦ d.arrange (t.found s config), fun d ↦ d.arrange (t.found s' config),
    returns_leaf hs.consistent config ht, returns_leaf hbuilt.consistent config ht, ?_⟩
  have hmem : (∀ (d : Direction) i, i ∈ d.arrange (t.found s' config) ↔
      i ∈ d.arrange (t.found s config)) ↔ ∀ i, i ∈ t.found s' config ↔ i ∈ t.found s config := by
    refine ⟨fun h ↦ h .forward, fun h d i ↦ ?_⟩
    rw [(d.arrange_perm _).mem_iff, (d.arrange_perm _).mem_iff, h]
  rw [hmem]
  by_cases hscans : config.Scans
  · refine ⟨fun _ ↦ .inr (.inl hscans), fun _ i ↦ ?_⟩
    rw [Test.mem_found_iff_scanned hbuilt.consistent (.inr hscans),
      Test.mem_found_iff_scanned hs.consistent (.inr hscans), hentries]
  · have hafter : ∀ i, i ∈ t.found s' config ↔ ∃ e, s.entries[i]? = some e ∧ t.HasKey r e := by
      intro i
      rw [Test.mem_found_iff_hasKey hbuilt hr ht hx' hscans, hentries]
    cases hx : s.index? t.subject.type with
    | some x =>
      refine ⟨fun _ ↦ .inl rfl, fun _ i ↦ ?_⟩
      rw [hafter, Test.mem_found_iff_hasKey hs hr ht hx hscans]
    | none =>
      have hbefore : ∀ i, i ∈ t.found s config ↔
          ∃ e, s.entries[i]? = some e ∧ t.acceptsEntry e = true :=
        fun i ↦ Test.mem_found_iff_scanned hs.consistent (.inl hx)
      constructor
      · intro h
        refine .inr (.inr fun i e he ↦ ?_)
        have hsame := h i
        rw [hafter, hbefore, he] at hsame
        simpa using hsame
      · intro h i
        have hkeys : ∀ (i : EntryId) (e : Entry), s.entries[i]? = some e →
            (t.HasKey r e ↔ t.acceptsEntry e = true) := by
          simpa [hscans] using h
        rw [hafter, hbefore]
        exact exists_congr fun e ↦ and_congr_right (hkeys i e)

/-- One person, who only has a common name. -/
def person : Store := empty.add ((Entry.empty 1).add "cn" (.text "Alice"))

/-- What an index on names means for the person and a leaf that asks for there being a name. -/
theorem results_keepIndexOn_iff_person :
    ∃ (s' : Store) (t : Test), person.keepIndexOn .names "name" = .ok s' ∧
      Clause.toTest .names ⟨"name", .present⟩ = .ok t ∧
      ∃ before after : Direction → List EntryId,
        person.Returns .names .standard (.leaf ⟨"name", .present⟩) before ∧
        s'.Returns .names .standard (.leaf ⟨"name", .present⟩) after ∧
        ((∀ d i, i ∈ after d ↔ i ∈ before d) ↔
          (person.index? t.subject.type).isSome ∨ SearchConfig.standard.Scans ∨
            ∀ (i : EntryId) (e : Entry), person.entries[i]? = some e →
              (t.HasKey .names e ↔ t.acceptsEntry e = true)) := by
  let test : Test := ⟨⟨"name", .present⟩, ⟨.fullName, [.commonName], ⟨"1.1", "text", true⟩, none⟩,
    .present⟩
  have htest : Clause.toTest .names ⟨"name", .present⟩ = .ok test :=
    toOption_eq_some.1 (by decide +kernel)
  have htype : Registry.names.resolve "name" = .ok test.subject.type :=
    toOption_eq_some.1 (by decide +kernel)
  have hbuilt : person.Built .names := .add .empty _
  exact ⟨_, test, keepIndexOn_name person, htest, results_keepIndexOn_iff Registry.reachable_names
    hbuilt (keepIndexOn_name person) .standard htest htype⟩

/-- **An index on names hides a person who only has a common name**, though common names are
names. -/
theorem results_keepIndexOn_common_name :
    let search (s : Store) : Attempt (List EntryId) :=
      (s.context .names .standard).search "" (.leaf ⟨"name", .present⟩) .forward
    Registry.names.descendants .fullName = [.commonName] ∧
      ∃ s', person.keepIndexOn .names "name" = .ok s' ∧
        Attempt.outcome (search person) (.start .warn false) = .ok [1] ∧
        Attempt.outcome (search s') (.start .warn false) = .ok [] := by
  refine ⟨by decide +kernel, _, keepIndexOn_name person, ?_, ?_⟩
  · exact toOption_eq_some.1 (by decide +kernel)
  · exact toOption_eq_some.1 (by decide +kernel)

end Store
end DirectoryQuery
