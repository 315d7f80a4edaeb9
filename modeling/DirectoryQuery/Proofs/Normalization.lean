import DirectoryQuery.Proofs.Repetition
import DirectoryQuery.Proofs.Subtypes

/-!
# Indexes and the rule of a leaf

The keys of an index are normalized by the equality rule of the attribute.  A leaf that asks for an
order, a shape or a likeness brings its bound, key or shape into the form of its own rule, and tests
either the values in that form or the keys of the index, whichever the settings say.  If the two
rules normalize values differently these are different tests, even where no descendants are
involved.

`Store.results_fullScan_iff` says exactly when that shows: of one store, if some entry has a value
that satisfies the assertion in one of the two forms and none that does in the other; of all stores,
if there is any value that satisfies it in one form only.  Under a lexical order any two normalizers
are told apart by some bound and some value, so there different rules always make a difference
(`Store.exists_bound_of_ne`).
-/

set_option autoImplicit false

namespace DirectoryQuery

open Std

variable {s : Store} {r : Registry} {config : SearchConfig} {t : Test} {c : Clause}
  {normalizer : Normalizer} {e : Entry}

/-- One of the own values of the entry satisfies the assertion of the leaf, brought into this
form. -/
def Test.HoldsIn (t : Test) (normalizer : Normalizer) (e : Entry) : Prop :=
  ∃ v ∈ e.get t.subject.type, t.assertion.holds (normalizer.apply v) = true

theorem Test.hasKey_iff_holdsIn (hnormalizer : r.keyNormalizer t.subject.type = .ok normalizer) :
    t.HasKey r e ↔ t.HoldsIn normalizer e := by
  constructor
  · rintro ⟨normalizer', hnormalizer', hholds⟩
    obtain rfl := Except.ok.inj (hnormalizer.symm.trans hnormalizer')
    exact hholds
  · exact fun hholds ↦ ⟨normalizer, hnormalizer, hholds⟩

theorem Test.acceptsEntry_iff_holdsIn (hdescendants : t.subject.descendants = []) :
    t.acceptsEntry e = true ↔ t.HoldsIn t.subject.normalizer e := by
  rw [acceptsEntry_iff, hdescendants]
  simp only [List.mem_singleton, exists_eq_left]
  rfl

/-- What an entry with a single value has for its type. -/
theorem Entry.mem_get_add_name (id : EntryId) (u : AttributeType) (v w : Value) :
    w ∈ ((Entry.empty id).add u.name v).get u ↔ w = v := by
  have hkey : Text.lower u.name ∈ u.valueKeys := by
    rw [AttributeType.valueKeys, List.mem_eraseDups, AttributeType.name]
    cases u.names <;> simp
  have hheld : ∀ key, ((Entry.empty id).add u.name v).attributes[key]? =
      if Text.lower u.name = key then some [v] else none := by
    intro key
    simp [add, extend, empty, ExtTreeMap.getElem?_alter]
  rw [get, List.mem_flatMap]
  simp only [hheld]
  constructor
  · rintro ⟨key, -, hw⟩
    split at hw
    · simpa using hw
    · exact nomatch hw
  · rintro rfl
    exact ⟨_, hkey, by simp⟩

namespace Normalizer

/-- All normalizers. -/
def all : List Normalizer := [identity, squeezed, squeezedLower, unspaced]

theorem mem_all (n : Normalizer) : n ∈ all := by cases n <;> simp [all]

/-- Under the order of code points, and for any two normalizers, there is a text that is not below a
bound in one of their forms and is below it in the other. -/
theorem exists_told_apart {n m : Normalizer} (h : n ≠ m) : ∃ bound s : String,
    (Assertion.atLeast (m.apply (.text bound)) .lexical).holds (n.apply (.text s)) ≠
      (Assertion.atLeast (m.apply (.text bound)) .lexical).holds (m.apply (.text s)) := by
  -- The forms of one text are four, and one of these bounds stands between any two of them.
  have hbounds : ∀ n ∈ all, ∀ m ∈ all, n ≠ m → ∃ bound ∈ [" A b", "A b", "Ab", "B", "a b"],
      (Assertion.atLeast (m.apply (.text bound)) .lexical).holds (n.apply (.text " A b")) ≠
        (Assertion.atLeast (m.apply (.text bound)) .lexical).holds (m.apply (.text " A b")) := by
    decide +kernel
  obtain ⟨bound, -, hbound⟩ := hbounds n n.mem_all m m.mem_all h
  exact ⟨bound, " A b", hbound⟩

end Normalizer

namespace Store

/-- What searches come to is determined. -/
theorem Returns.unique {f : Filter} {ids ids' : Direction → List EntryId}
    (h : s.Returns r config f ids) (h' : s.Returns r config f ids') : ids = ids' := by
  funext d
  have hsearch := (h d "" (.start .warn false)).symm.trans (h' d "" (.start .warn false))
  exact Except.ok.inj hsearch

/-- Of one store: searches by index come to what full scans come to exactly if indexes are not
used or the forms of the own values of each entry agree. -/
theorem fullScan_iff_of_index (hr : r.Reachable) (hs : s.Built r) (ht : c.toTest r = .ok t)
    (hdescendants : t.subject.descendants = [])
    (hnormalizer : r.keyNormalizer t.subject.type = .ok normalizer)
    (hindex : (s.index? t.subject.type).isSome) (config : SearchConfig) :
    ∃ ids scanned : Direction → List EntryId,
      s.Returns r config (.leaf c) ids ∧ s.Returns r .fullScan (.leaf c) scanned ∧
      ((∀ d i, i ∈ ids d ↔ i ∈ scanned d) ↔ config.Scans ∨
        ∀ (i : EntryId) (e : Entry), s.entries[i]? = some e →
          (t.HoldsIn normalizer e ↔ t.HoldsIn t.subject.normalizer e)) := by
  obtain ⟨x, hx⟩ := Option.isSome_iff_exists.1 hindex
  have hscans : SearchConfig.fullScan.Scans := ⟨rfl, rfl⟩
  have hscanned : ∀ i, i ∈ t.found s .fullScan ↔
      ∃ e, s.entries[i]? = some e ∧ t.HoldsIn t.subject.normalizer e := by
    intro i
    rw [Test.mem_found_iff_scanned hs.consistent (.inr hscans)]
    simp only [Test.acceptsEntry_iff_holdsIn hdescendants]
  refine ⟨fun d ↦ d.arrange (t.found s config), fun d ↦ d.arrange (t.found s .fullScan),
    returns_leaf hs.consistent config ht, returns_leaf hs.consistent .fullScan ht, ?_⟩
  simp only [(Direction.arrange_perm _ _).mem_iff]
  by_cases huse : config.Scans
  · refine ⟨fun _ ↦ .inl huse, fun _ _ i ↦ ?_⟩
    rw [Test.mem_found_iff_scanned hs.consistent (.inr huse),
      Test.mem_found_iff_scanned hs.consistent (.inr hscans)]
  · have hfound : ∀ i, i ∈ t.found s config ↔
        ∃ e, s.entries[i]? = some e ∧ t.HoldsIn normalizer e := by
      intro i
      rw [Test.mem_found_iff_hasKey hs hr ht hx huse]
      simp only [Test.hasKey_iff_holdsIn hnormalizer]
    simp only [hfound, hscanned, huse, false_or]
    constructor
    · intro h i e he
      have hsame := h .forward i
      rw [he] at hsame
      simpa using hsame
    · intro h _ i
      exact exists_congr fun e ↦ and_congr_right (h i e)

/-- An entry with a single value, and an index on its type. -/
theorem exists_built_single (ht : c.toTest r = .ok t)
    (hnormalizer : r.keyNormalizer t.subject.type = .ok normalizer) (v : Value) :
    ∃ s : Store, s.Built r ∧ (s.index? t.subject.type).isSome ∧
      ∃ e, s.entries[(0 : EntryId)]? = some e ∧ ∀ w, w ∈ e.get t.subject.type ↔ w = v := by
  let e := (Entry.empty 0).add t.subject.type.name v
  have hempty : Built r (empty.add e) := .add .empty e
  have hkeep := keepIndexOn_of_resolve (s := empty.add e) (Clause.resolve_type ht) hnormalizer
  obtain ⟨hentries, x, hx⟩ := keepIndexOn_spec hempty hkeep (Clause.resolve_type ht)
  refine ⟨_, .keepIndexOn hempty c.name hkeep, by rw [hx]; rfl, e, ?_,
    Entry.mem_get_add_name 0 t.subject.type v⟩
  rw [hentries]
  exact ExtTreeMap.getElem?_insert_self

/-- Of all stores: searches by index come to what full scans come to exactly if the forms of every
value agree. -/
theorem fullScan_forall_iff (hr : r.Reachable) (ht : c.toTest r = .ok t)
    (hdescendants : t.subject.descendants = [])
    (hnormalizer : r.keyNormalizer t.subject.type = .ok normalizer) :
    (∀ s : Store, s.Built r → (s.index? t.subject.type).isSome → ∀ config ids scanned,
      s.Returns r config (.leaf c) ids → s.Returns r .fullScan (.leaf c) scanned →
        ∀ d i, i ∈ ids d ↔ i ∈ scanned d) ↔
      ∀ v, t.assertion.holds (normalizer.apply v) =
        t.assertion.holds (t.subject.normalizer.apply v) := by
  have hstore := fun (s : Store) (hs : s.Built r) ↦
    fullScan_iff_of_index hr hs ht hdescendants hnormalizer
  refine ⟨fun h v ↦ ?_, fun h s hs hindex config ids scanned hids hscanned ↦ ?_⟩
  · obtain ⟨s, hs, hindex, e, he, hvalues⟩ := exists_built_single ht hnormalizer v
    obtain ⟨ids, scanned, hids, hscanned, hsame⟩ := hstore s hs hindex .standard
    have hforms := hsame.1 (h s hs hindex .standard ids scanned hids hscanned)
    have hentry := hforms.resolve_left (by simp [SearchConfig.Scans, SearchConfig.standard]) 0 e he
    simp only [Test.HoldsIn, hvalues, exists_eq_left] at hentry
    exact Bool.eq_iff_iff.2 hentry
  · obtain ⟨ids', scanned', hids', hscanned', hsame⟩ := hstore s hs hindex config
    obtain rfl := hids.unique hids'
    obtain rfl := hscanned.unique hscanned'
    refine hsame.2 (.inr fun i e _ ↦ ?_)
    simp only [Test.HoldsIn, h]

/-- **When indexes agree with scans though rules normalize differently.**  A search for a leaf on
an indexed attribute without descendants comes to the entries that a full scan finds exactly if
indexes are not used, or each entry has an own value that satisfies the assertion in the form of the
keys if it has one that does in the form of the leaf, and the other way round.  For all stores and
settings this is so exactly if the assertion holds of both forms of any value or of neither. -/
theorem results_fullScan_iff (hr : r.Reachable) (ht : c.toTest r = .ok t)
    (hdescendants : t.subject.descendants = [])
    (hnormalizer : r.keyNormalizer t.subject.type = .ok normalizer) :
    (∀ s : Store, s.Built r → (s.index? t.subject.type).isSome → ∀ config,
      ∃ ids scanned : Direction → List EntryId,
        s.Returns r config (.leaf c) ids ∧ s.Returns r .fullScan (.leaf c) scanned ∧
        ((∀ d i, i ∈ ids d ↔ i ∈ scanned d) ↔ config.Scans ∨
          ∀ (i : EntryId) (e : Entry), s.entries[i]? = some e →
            (t.HoldsIn normalizer e ↔ t.HoldsIn t.subject.normalizer e))) ∧
    ((∀ s : Store, s.Built r → (s.index? t.subject.type).isSome → ∀ config ids scanned,
        s.Returns r config (.leaf c) ids → s.Returns r .fullScan (.leaf c) scanned →
          ∀ d i, i ∈ ids d ↔ i ∈ scanned d) ↔
      ∀ v, t.assertion.holds (normalizer.apply v) =
        t.assertion.holds (t.subject.normalizer.apply v)) :=
  ⟨fun _ hs ↦ fullScan_iff_of_index hr hs ht hdescendants hnormalizer,
    fullScan_forall_iff hr ht hdescendants hnormalizer⟩

/-- What the leaf `(cn>=b)` means for stores with an index on common names. -/
theorem results_fullScan_iff_listed :
    ∃ t : Test, Clause.toTest .names ⟨"cn", .atLeast (.text "b")⟩ = .ok t ∧
      listed.Built .names ∧ (listed.index? t.subject.type).isSome ∧
      ∃ ids scanned : Direction → List EntryId,
        listed.Returns .names .standard (.leaf ⟨"cn", .atLeast (.text "b")⟩) ids ∧
        listed.Returns .names .fullScan (.leaf ⟨"cn", .atLeast (.text "b")⟩) scanned ∧
        ((∀ d i, i ∈ ids d ↔ i ∈ scanned d) ↔ SearchConfig.standard.Scans ∨
          ∀ (i : EntryId) (e : Entry), listed.entries[i]? = some e →
            (t.HoldsIn .squeezedLower e ↔ t.HoldsIn t.subject.normalizer e)) := by
  let test : Test := ⟨⟨"cn", .atLeast (.text "b")⟩, ⟨.commonName, [], ⟨"1.1", "text", true⟩,
    some ⟨"2.2", "codePointOrderingMatch", .identity, .lexical⟩⟩, .atLeast (.text "b") .lexical⟩
  have htest : Clause.toTest .names ⟨"cn", .atLeast (.text "b")⟩ = .ok test :=
    toOption_eq_some.1 (by decide +kernel)
  have hnormalizer : Registry.names.keyNormalizer .commonName = .ok .squeezedLower :=
    toOption_eq_some.1 (by decide +kernel)
  have hindex : (listed.index? .commonName).isSome := by decide +kernel
  exact ⟨test, htest, built_listed, hindex, (results_fullScan_iff Registry.reachable_names htest rfl
    hnormalizer).1 listed built_listed hindex .standard⟩

/-- **An index on common names finds `Bob` from `b` on**, where a scan does not. -/
theorem search_finds_other_case :
    let search (s : Store) (config : SearchConfig) : Attempt (List EntryId) :=
      (s.context .names config).search "" (.leaf ⟨"cn", .atLeast (.text "b")⟩) .forward
    Registry.names.descendants .commonName = [] ∧
      Registry.names.keyNormalizer .commonName = .ok .squeezedLower ∧
      (∃ t : Test, Clause.toTest .names ⟨"cn", .atLeast (.text "b")⟩ = .ok t ∧
        t.subject.normalizer = .identity) ∧
      listed.Built .names ∧
      Attempt.outcome (search listed .standard) (.start .warn false) = .ok [1] ∧
      Attempt.outcome (search listed .fullScan) (.start .warn false) = .ok [] := by
  let test : Test := ⟨⟨"cn", .atLeast (.text "b")⟩, ⟨.commonName, [], ⟨"1.1", "text", true⟩,
    some ⟨"2.2", "codePointOrderingMatch", .identity, .lexical⟩⟩, .atLeast (.text "b") .lexical⟩
  refine ⟨by decide +kernel, ?_, ⟨test, ?_, rfl⟩, built_listed, ?_, ?_⟩
  · exact toOption_eq_some.1 (by decide +kernel)
  · exact toOption_eq_some.1 (by decide +kernel)
  · exact toOption_eq_some.1 (by decide +kernel)
  · exact toOption_eq_some.1 (by decide +kernel)

/-- **Different normalizers under a lexical order always make a difference**: for some bound there
is a store whose index does not agree with a scan. -/
theorem exists_bound_of_ne (hr : r.Reachable) {name : String} {u : AttributeType}
    (hu : r.resolve name = .ok u) (hdescendants : r.descendants u = []) {valueSyntax : ValueSyntax}
    (hvalueSyntax : r.syntaxOf u = .ok valueSyntax) {rule : MatchingRule}
    (hrule : r.firstRule u [.ordering, .equality] = .ok (some rule))
    (hlexical : rule.comparator = .lexical) (hnormalizer : r.keyNormalizer u = .ok normalizer)
    (hne : normalizer ≠ rule.normalizer) :
    ∃ (bound : String) (s : Store) (config : SearchConfig) (ids scanned : Direction → List EntryId),
      s.Built r ∧ (s.index? u).isSome ∧
      s.Returns r config (.leaf ⟨name, .atLeast (.text bound)⟩) ids ∧
      s.Returns r .fullScan (.leaf ⟨name, .atLeast (.text bound)⟩) scanned ∧
      ¬∀ d i, i ∈ ids d ↔ i ∈ scanned d := by
  obtain ⟨bound, text, htold⟩ := Normalizer.exists_told_apart hne
  let subject : Subject := ⟨u, r.descendants u, valueSyntax, some rule⟩
  let c : Clause := ⟨name, .atLeast (.text bound)⟩
  have htest : c.toTest r = .ok ⟨c, subject, subject.assertion c.condition⟩ := by
    refine bind_eq_ok.2 ⟨subject, ?_, rfl⟩
    refine bind_eq_ok.2 ⟨u, mapError_eq_ok.2 hu, ?_⟩
    refine bind_eq_ok.2 ⟨valueSyntax, mapError_eq_ok.2 hvalueSyntax, ?_⟩
    exact bind_eq_ok.2 ⟨some rule, mapError_eq_ok.2 hrule, rfl⟩
  by_contra hsame
  have hforms := (fullScan_forall_iff hr htest hdescendants hnormalizer).1 ?_ (.text text)
  · refine htold ?_
    simpa [c, subject, Subject.assertion, Subject.normalizer, Subject.comparator, hlexical]
      using hforms
  · intro s hs hindex config ids scanned hids hscanned
    by_contra hdiffer
    exact hsame ⟨bound, s, config, ids, scanned, hs, hindex, hids, hscanned, hdiffer⟩

end Store
end DirectoryQuery
