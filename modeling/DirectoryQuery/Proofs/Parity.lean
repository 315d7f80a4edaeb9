import DirectoryQuery.Proofs.Closing
import DirectoryQuery.Proofs.Fairness

/-!
# Searches and the test of entries

What a search comes to depends on settings, indexes and estimates, since these decide where the
candidates come from and how they are judged.  None of that makes a difference if the indexes on the
attributes of the filter have for keys just the values that the leaves are tested on
(`Store.Mirrors`).  Then every leaf finds and accepts the entries that pass it when it is put to
each entry by itself, and so a search comes to the entries that its filter accepts in this way
(`Store.search_iff_acceptsEntry`).
-/

set_option autoImplicit false

namespace DirectoryQuery

variable {s : Store} {r : Registry} {config : SearchConfig} {i : EntryId}

/-! ## Indexes that have what leaves are tested on -/

/-- If there is an index on the attribute of the leaf, the attribute has no descendants, and unless
the leaf only asks for there being a value its rule normalizes values as the equality rule does. -/
def Store.Mirrors (s : Store) (r : Registry) (t : Test) : Prop :=
  (s.index? t.subject.type).isSome → t.subject.descendants = [] ∧
    (t.clause.condition = .present ∨ r.keyNormalizer t.subject.type = .ok t.subject.normalizer)

namespace Test

variable {t : Test} {c : Clause} {e : Entry}

/-- The own keys of an entry decide about it as its values do. -/
theorem hasKey_iff_acceptsEntry (hs : s.Built r) (hr : r.Reachable) (ht : c.toTest r = .ok t)
    (hmirrors : s.Mirrors r t) {x : ValueIndex} (hx : s.index? t.subject.type = some x) :
    t.HasKey r e ↔ t.acceptsEntry e = true := by
  obtain ⟨-, normalizer, hnormalizer, -⟩ := hs.mem_postings hr (Clause.resolve_type ht) hx
  obtain ⟨hdescendants, hrule⟩ := hmirrors (by rw [hx]; rfl)
  obtain ⟨hclause, -, hassertion⟩ := Clause.toTest_eq_ok ht
  have hholds : ∀ v, t.assertion.holds (normalizer.apply v) =
      t.assertion.holds (t.subject.normalizer.apply v) := by
    intro v
    rcases hrule with hpresent | hsame
    · rw [hclause] at hpresent
      rw [hassertion, hpresent]
      rfl
    · rw [Except.ok.inj (hnormalizer.symm.trans hsame)]
  rw [acceptsEntry_iff, hdescendants]
  constructor
  · rintro ⟨normalizer', hnormalizer', v, hv, hkey⟩
    obtain rfl := Except.ok.inj (hnormalizer.symm.trans hnormalizer')
    exact ⟨_, List.mem_cons_self, v, hv, (hholds v).symm.trans hkey⟩
  · rintro ⟨u, hu, v, hv, hvalue⟩
    obtain rfl := List.mem_singleton.1 hu
    exact ⟨normalizer, hnormalizer, v, hv, (hholds v).trans hvalue⟩

/-- Verdicts are found by testing the entry, or come to the same. -/
theorem verdict_eq_acceptsEntry (hs : s.Built r) (hr : r.Reachable) (ht : c.toTest r = .ok t)
    (hmirrors : s.Mirrors r t) (he : s.entries[i]? = some e) :
    t.verdict s config i = t.acceptsEntry e := by
  cases hx : s.index? t.subject.type with
  | none => exact verdict_of_entry (.inl hx) he
  | some x =>
    cases huse : config.useReverseIndex with
    | false => exact verdict_of_entry (.inr huse) he
    | true =>
      have hkey := verdict_of_index hs hr ht hx huse he
      exact Bool.eq_iff_iff.2 (hkey.trans (hasKey_iff_acceptsEntry hs hr ht hmirrors hx))

/-- A leaf finds the entries that it accepts when it is put to each by itself. -/
theorem mem_found_iff_acceptsEntry (hs : s.Built r) (hr : r.Reachable) (ht : c.toTest r = .ok t)
    (hmirrors : s.Mirrors r t) :
    i ∈ t.found s config ↔ ∃ e, s.entries[i]? = some e ∧ t.acceptsEntry e = true := by
  cases hx : s.sourceIndex? config t.subject.type with
  | none =>
    rw [mem_found_of_entries hs.consistent hx]
    constructor
    · rintro ⟨⟨e, he⟩, hverdict⟩
      exact ⟨e, he, (verdict_eq_acceptsEntry hs hr ht hmirrors he).symm.trans hverdict⟩
    · rintro ⟨e, he, haccepts⟩
      exact ⟨⟨e, he⟩, (verdict_eq_acceptsEntry hs hr ht hmirrors he).trans haccepts⟩
  | some x =>
    rw [mem_found_of_index hs hr ht hx]
    refine exists_congr fun e ↦ and_congr_right fun _ ↦ ?_
    exact hasKey_iff_acceptsEntry hs hr ht hmirrors (Store.index?_of_sourceIndex? hx)

end Test

namespace Store

/-- The verdict of a filter is found by putting the filter to the entry. -/
theorem accepts_eq_acceptsEntry {e : Evaluator} {entry : Entry}
    (hleaves : ∀ t ∈ e.leaves, t.verdict s config i = t.acceptsEntry entry) :
    s.accepts config e i = e.acceptsEntry entry :=
  Formula.holds_congr e hleaves

/-- **A search comes to the entries that its filter accepts when it is put to each by itself, each
once, and does not fail**, if all leaves of the filter make sense to the schema and the indexes on
their attributes have what the leaves are tested on. -/
theorem search_iff_acceptsEntry (hr : r.Reachable) (hs : s.Built r) (config : SearchConfig)
    (f : Filter) (d : Direction)
    (hleaves : ∀ c ∈ f.leaves, ∃ t, c.toTest r = .ok t ∧ s.Mirrors r t) :
    ∃ e : Evaluator, (∀ trace, Attempt.outcome (f.resolve r) trace = .ok e) ∧
      ∀ searchId trace, ∃ ids,
        Attempt.outcome ((s.context r config).search searchId f d) trace = .ok ids ∧ ids.Nodup ∧
        ∀ i, i ∈ ids ↔ ∃ entry, s.entries[i]? = some entry ∧ e.acceptsEntry entry = true := by
  obtain ⟨e, he⟩ := Filter.exists_toEvaluator fun c hc ↦ (hleaves c hc).imp fun _ ht ↦ ht.1
  have htests : ∀ t ∈ e.leaves, ∃ c : Clause, c.toTest r = .ok t ∧ s.Mirrors r t := by
    intro t ht
    obtain ⟨c, hc, hct⟩ := Filter.mem_leaves_toEvaluator he ht
    obtain ⟨t', ht', hmirrors⟩ := hleaves c hc
    obtain rfl := Except.ok.inj (hct.symm.trans ht')
    exact ⟨c, hct, hmirrors⟩
  have hverdict : ∀ t ∈ e.leaves, ∀ i entry, s.entries[i]? = some entry →
      t.verdict s config i = t.acceptsEntry entry := by
    intro t ht i entry hentry
    obtain ⟨c, hct, hmirrors⟩ := htests t ht
    exact t.verdict_eq_acceptsEntry hs hr hct hmirrors hentry
  have hsound : ∀ t ∈ e.leaves, t.Sound s config := by
    intro t ht i hi
    obtain ⟨c, hct, hmirrors⟩ := htests t ht
    obtain ⟨entry, hentry, haccepts⟩ := (t.mem_found_iff_acceptsEntry hs hr hct hmirrors).1 hi
    exact (hverdict t ht i entry hentry).trans haccepts
  have hthorough : ∀ t ∈ e.leaves, t.Thorough s config := by
    intro t ht i hi hi'
    obtain ⟨c, hct, hmirrors⟩ := htests t ht
    obtain ⟨entry, hentry⟩ := hs.consistent.mem_ids.1 hi
    refine (t.mem_found_iff_acceptsEntry hs hr hct hmirrors).2 ⟨entry, hentry, ?_⟩
    exact (hverdict t ht i entry hentry).symm.trans hi'
  refine ⟨e, fun trace ↦ ?_, fun searchId trace ↦ ?_⟩
  · exact ((Filter.resolve_follows r f).outcome_eq trace).trans he
  · obtain ⟨ids, hids, hlists⟩ := search_eq_ok hs.consistent config searchId d he trace
    have hfair := hlists.sound hs.consistent hsound
    refine ⟨ids, hids, hfair.nodup, fun i ↦ ⟨fun hi ↦ ?_, ?_⟩⟩
    · obtain ⟨entry, hentry⟩ := hs.consistent.mem_ids.1 (hfair.stored i hi)
      have haccepts := accepts_eq_acceptsEntry fun t ht ↦ hverdict t ht i entry hentry
      exact ⟨entry, hentry, haccepts.symm.trans (hfair.accepted i hi)⟩
    · rintro ⟨entry, hentry, haccepts⟩
      refine hlists.thorough hthorough i (hs.consistent.mem_ids.2 ⟨entry, hentry⟩) ?_
      exact (accepts_eq_acceptsEntry fun t ht ↦ hverdict t ht i entry hentry).trans haccepts

/-- Two people with common names, and an index on common names. -/
def people : Store :=
  ((empty.add ((Entry.empty 1).add "cn" (.text "Bob"))).add
    ((Entry.empty 2).add "cn" (.text "Carol  Ann"))).keepIndex .commonName .squeezedLower true

theorem built_people : people.Built .names :=
  .keepIndexOn (.add (.add .empty _) _) "cn" (keepIndexOn_cn _)

/-- Searches for the people who have a common name other than `bob` or a name from `b` on. -/
theorem search_iff_acceptsEntry_people :
    let f : Filter := .any [
      .all [.leaf ⟨"cn", .present⟩, .not (.leaf ⟨"cn", .equalTo (.text "bob")⟩)],
      .leaf ⟨"name", .atLeast (.text "b")⟩]
    ∃ e : Evaluator, (∀ trace, Attempt.outcome (f.resolve .names) trace = .ok e) ∧
      ∀ searchId trace, ∃ ids,
        Attempt.outcome ((people.context .names .standard).search searchId f .backward) trace =
          .ok ids ∧ ids.Nodup ∧
        ∀ i, i ∈ ids ↔ ∃ entry, people.entries[i]? = some entry ∧ e.acceptsEntry entry = true := by
  intro f
  let commonName (rule : Option MatchingRule) : Subject :=
    ⟨.commonName, [], ⟨"1.1", "text", true⟩, rule⟩
  let caseIgnore : MatchingRule := ⟨"2.1", "caseIgnoreMatch", .squeezedLower, .lexical⟩
  have hpresent : Clause.toTest .names ⟨"cn", .present⟩ =
      .ok ⟨⟨"cn", .present⟩, commonName none, .present⟩ :=
    toOption_eq_some.1 (by decide +kernel)
  have hequal : Clause.toTest .names ⟨"cn", .equalTo (.text "bob")⟩ =
      .ok ⟨⟨"cn", .equalTo (.text "bob")⟩, commonName (some caseIgnore),
        .equals (.text "bob") .lexical⟩ :=
    toOption_eq_some.1 (by decide +kernel)
  have hatLeast : Clause.toTest .names ⟨"name", .atLeast (.text "b")⟩ =
      .ok ⟨⟨"name", .atLeast (.text "b")⟩, ⟨.fullName, [.commonName], ⟨"1.1", "text", true⟩,
        some ⟨"2.2", "codePointOrderingMatch", .identity, .lexical⟩⟩,
        .atLeast (.text "b") .lexical⟩ :=
    toOption_eq_some.1 (by decide +kernel)
  have hnormalizer : Registry.names.keyNormalizer .commonName = .ok .squeezedLower :=
    toOption_eq_some.1 (by decide +kernel)
  have hname : (people.index? .fullName).isSome = false := by decide +kernel
  have hleaves : ∀ c ∈ f.leaves, ∃ t, c.toTest .names = .ok t ∧ people.Mirrors .names t := by
    intro c hc
    have hcases : c = ⟨"cn", .present⟩ ∨ c = ⟨"cn", .equalTo (.text "bob")⟩ ∨
        c = ⟨"name", .atLeast (.text "b")⟩ := by
      simpa [f, Formula.leaves, Formula.leavesOf] using hc
    rcases hcases with rfl | rfl | rfl
    · exact ⟨_, hpresent, fun _ ↦ ⟨rfl, .inl rfl⟩⟩
    · exact ⟨_, hequal, fun _ ↦ ⟨rfl, .inr hnormalizer⟩⟩
    · exact ⟨_, hatLeast, fun hindexed ↦ absurd hindexed (by simp [hname])⟩
  exact search_iff_acceptsEntry Registry.reachable_names built_people .standard f .backward hleaves

end Store
end DirectoryQuery
