import DirectoryQuery.Proofs.Parallels
import DirectoryQuery.Proofs.Parity
import DirectoryQuery.Proofs.Subtypes

/-!
# Look-ups that a search does without

A search looks at entries and reads indexes in reverse only where it has to.  When no index may be
used, every candidate comes with its entry from the scan, and no evaluator has to look it up.  When
indexes may be read in reverse and there is one for every leaf, no evaluator looks at an entry.

`Store.search_spares` says so of all searches over a store: what is not looked up is not counted,
and the search stays the same whatever such a look-up would come to, even if all of them were to
fail.
-/

set_option autoImplicit false

namespace DirectoryQuery

variable {whats : List Tally}

/-! ## Searches without look-ups -/

namespace Context

/-- The context in which the look-up of an entry comes to something else. -/
def withLookup (ctx : Context) (lookup : EntryId → Except StoreError Entry) : Context :=
  { ctx with directory := { ctx.directory with lookup } }

/-- The context that has other indexes. -/
def withIndexes (ctx : Context) (index? : AttributeType → Option Index) : Context :=
  { ctx with directory := { ctx.directory with index? } }

variable {ctx : Context} (h : ctx.config.Scans) (t : AttributeType)

include h

theorem sourceIndex?_of_scans : ctx.sourceIndex? t = none := by
  rw [sourceIndex?, h.2]
  rfl

theorem reverseIndex?_of_scans : ctx.reverseIndex? t = none := by
  rw [reverseIndex?, h.1]
  rfl

end Context

namespace Comparison

/-- Look-ups and indexes make no difference, and nothing is looked up.  Every candidate that comes
up has its entry. -/
def scanning (ctx : Context) (lookup : EntryId → Except StoreError Entry)
    (index? : AttributeType → Option Index) : Comparison where
  first := ctx
  second := (ctx.withLookup lookup).withIndexes index?
  spared := [.recordLookup, .reverseLookup]
  lookups := by decide
  Known c := c.record.isSome = true

/-- Look-ups of entries make no difference, and no entry is looked up. -/
def reading (ctx : Context) (lookup : EntryId → Except StoreError Entry) : Comparison where
  first := ctx
  second := ctx.withLookup lookup
  spared := [.recordLookup]
  lookups := by decide
  Known _ := True

end Comparison

/-- The entry of a candidate that has it is not looked up. -/
theorem Test.entryOf_matches (t : Test) (directory directory' : Directory) :
    Act.Matches whats (t.entryOf directory) (t.entryOf directory')
      (fun c ↦ c.record.isSome = true) fun _ ↦ True := by
  refine Act.matches_bind Act.matches_get fun c hc ↦ ?_
  cases hrecord : c.record with
  | some e => exact Act.matches_pure trivial
  | none => simp [hrecord] at hc

/-- To test a candidate that has its entry no entry has to be looked up. -/
theorem Test.evaluateByEntry_matches (t : Test) (directory directory' : Directory) :
    Act.Matches whats (t.evaluateByEntry directory) (t.evaluateByEntry directory')
      (fun c ↦ c.record.isSome = true) fun _ ↦ True := by
  refine Act.matches_bind (t.entryOf_matches directory directory') fun e _ ↦ ?_
  cases t.firstValue? e with
  | none => exact Act.matches_pure trivial
  | some v =>
    cases t.assertion.isPresent with
    | true => exact Act.matches_pure trivial
    | false =>
      exact Act.matches_bind (Act.matches_modify fun _ hc ↦ hc) fun _ _ ↦ Act.matches_pure trivial

/-- What comes of a reading in reverse is the same in both contexts, but the reading is counted. -/
theorem Index.lookup_matches (x : Index) (wanted : Value → Bool) {I : Candidate → Prop}
    {f : Option Value → Bool} (h : Tally.reverseLookup ∉ whats) :
    Act.Matches whats (do
      tally .reverseLookup
      let found ← Act.attempt (x.firstKey? (← get).id wanted)
      return f found : Act Candidate Bool) (do
      tally .reverseLookup
      let found ← Act.attempt (x.firstKey? (← get).id wanted)
      return f found) I fun _ ↦ True :=
  Act.matches_bind (Act.matches_effect (Effect.matches_tally h)) fun _ _ ↦
    Act.matches_bind Act.matches_get fun c _ ↦
      Act.matches_bind (Act.matches_attempt (x.firstKey?_matches c.id wanted)) fun _ _ ↦
        Act.matches_pure trivial

namespace Comparison

variable {m : Comparison}

theorem accepts_keyed : m.Accepts .keyed :=
  Act.matches_bind Act.matches_get fun _ _ ↦ Act.matches_pure trivial

theorem accepts_indexed (x : Index) (a : Assertion) (h : Tally.reverseLookup ∉ m.spared) :
    m.Accepts (.indexed x a) := by
  refine Act.matches_bind Act.matches_get fun c _ ↦ ?_
  cases c.value.filter a.holds with
  | none => exact Act.matches_pure trivial
  | some key => exact x.lookup_matches _ h

/-- Where candidates come from indexes, reverse readings are not spared and nothing has to be known
of the candidates. -/
theorem Settles.of_evaluate {t : Test}
    (hevery : ∀ r, m.first.directory.everyEntry = .ok r → r.Carries m.Known)
    (hsource : ∀ x, m.first.sourceIndex? t.subject.type = some x →
      Tally.reverseLookup ∉ m.spared ∧ ∀ c, m.Known c)
    (h : Act.Matches m.spared (t.evaluate m.first) (t.evaluate m.second) m.Known fun _ ↦ True) :
    m.Settles t := by
  refine ⟨h, fun o ho ↦ ?_⟩
  cases ho with
  | keyed hx => exact suits_over accepts_keyed fun c _ ↦ (hsource _ hx).2 c
  | indexed hx =>
    exact suits_over (accepts_indexed _ _ (hsource _ hx).1) fun c _ ↦ (hsource _ hx).2 c
  | scanned _ hreel => exact suits_over h (hevery _ hreel)

end Comparison

namespace Store

variable {s : Store} {r : Registry} {config : SearchConfig}

/-- Every candidate that is scanned comes with its entry. -/
theorem carries_everyEntry {reel : Reel} (h : s.directory.everyEntry = .ok reel) :
    reel.Carries fun c ↦ c.record.isSome = true := by
  obtain rfl := Except.ok.inj h
  exact List.forall_mem_map.2 fun _ _ ↦ rfl

/-- Without indexes nothing is looked up. -/
theorem search_scanning (s : Store) (r : Registry) (hconfig : config.Scans) (searchId : String)
    (f : Filter) (d : Direction) (lookup : EntryId → Except StoreError Entry)
    (index? : AttributeType → Option Index) :
    let m := Comparison.scanning (s.context r config) lookup index?
    Attempt.Matches m.spared (m.first.search searchId f d) (m.second.search searchId f d)
      fun _ ↦ True := by
  intro m
  have hfirst : m.first.config.Scans := hconfig
  have hsecond : m.second.config.Scans := hconfig
  refine m.search_matches ⟨rfl, rfl, rfl, fun t ↦ ?_⟩ (fun _ ↦ carries_everyEntry)
    (fun c _ t _ ↦ .of_evaluate (fun _ ↦ carries_everyEntry) (fun x hx ↦ ?_) ?_) searchId d
  · rw [Context.sourceIndex?_of_scans hfirst, Context.sourceIndex?_of_scans hsecond]
  · exact nomatch (Context.sourceIndex?_of_scans hfirst _).symm.trans hx
  · -- A test never takes an entry away, so it is enough that each candidate begins with its own.
    refine Act.matches_bind (m.matches_tally rfl) fun _ _ ↦ ?_
    rw [Context.reverseIndex?_of_scans hfirst, Context.reverseIndex?_of_scans hsecond]
    exact t.evaluateByEntry_matches _ _

/-- Where every leaf can be tested by an index, no entry is looked up. -/
theorem search_reading (s : Store) (r : Registry) (hconfig : config.useReverseIndex = true)
    (searchId : String) {f : Filter}
    (hleaves : ∀ c ∈ f.leaves, ∀ t, r.resolve c.name = .ok t →
      (s.index? t).any ValueIndex.hasReverse = true)
    (d : Direction) (lookup : EntryId → Except StoreError Entry) :
    let m := Comparison.reading (s.context r config) lookup
    Attempt.Matches m.spared (m.first.search searchId f d) (m.second.search searchId f d)
      fun _ ↦ True := by
  intro m
  have hcounted : Tally.reverseLookup ∉ m.spared := List.not_mem_cons_of_ne_of_not_mem nofun nofun
  refine m.search_matches ⟨rfl, rfl, rfl, fun _ ↦ rfl⟩ (fun _ _ _ _ ↦ trivial)
    (fun c hc t ht ↦ .of_evaluate (fun _ _ _ _ ↦ trivial)
      (fun _ _ ↦ ⟨hcounted, fun _ ↦ trivial⟩) ?_) searchId d
  obtain ⟨x, hx, hreverse⟩ := (Option.any_eq_true _ _).1
    (hleaves c hc _ (Clause.resolve_type ht))
  have hindex : (s.context r config).reverseIndex? t.subject.type = some x.index := by
    rw [reverseIndex?_context, reverseIndex?, if_pos hconfig, hx, Option.filter_some_pos hreverse]
    rfl
  have hfirst : m.first.reverseIndex? t.subject.type = some x.index := hindex
  have hsecond : m.second.reverseIndex? t.subject.type = some x.index := hindex
  refine Act.matches_bind (m.matches_tally rfl) fun _ _ ↦ ?_
  rw [hfirst, hsecond]
  exact x.index.lookup_matches _ hcounted

/-- **Look-ups are made only where they are needed.**  When no index may be used, a search looks up
no entry and reads no index in reverse, and it is the same search whatever such look-ups would come
to.  When indexes may be read in reverse and there is one on the attribute of every leaf, a search
looks up no entry, and it is the same search even if all such look-ups were to fail.  The same
search has the same answer or failure, and logs, counts and releases the same. -/
theorem search_spares (s : Store) (r : Registry) (config : SearchConfig) (searchId : String)
    (f : Filter) (d : Direction) :
    let ctx := s.context r config
    let search (ctx : Context) := ctx.search searchId f d
    (config.Scans →
      Effect.Leaves (search ctx).run
        (fun _ p ↦ Tally.recordLookup ∉ p.counts ∧ Tally.reverseLookup ∉ p.counts) ∧
      ∀ lookup index?, search ((ctx.withLookup lookup).withIndexes index?) = search ctx) ∧
    (config.useReverseIndex = true →
      (∀ c ∈ f.leaves, ∀ t, r.resolve c.name = .ok t →
        (s.index? t).any ValueIndex.hasReverse = true) →
      Effect.Leaves (search ctx).run (fun _ p ↦ Tally.recordLookup ∉ p.counts) ∧
      ∀ lookup, search (ctx.withLookup lookup) = search ctx) := by
  intro ctx search
  refine ⟨fun hscans ↦ ?_, fun hreverse hleaves ↦ ?_⟩
  · have hsame := search_scanning s r hscans searchId f d
    refine ⟨Effect.Leaves.mono (hsame ctx.directory.lookup ctx.directory.index?).2 fun _ p hp ↦ ?_,
      fun lookup index? ↦ (hsame lookup index?).1.symm⟩
    exact ⟨hp.2 _ List.mem_cons_self, hp.2 _ (List.mem_cons_of_mem _ List.mem_cons_self)⟩
  · have hsame := search_reading s r hreverse searchId hleaves d
    refine ⟨Effect.Leaves.mono (hsame ctx.directory.lookup).2 fun _ p hp ↦ ?_,
      fun lookup ↦ (hsame lookup).1.symm⟩
    exact hp.2 _ List.mem_cons_self

/-- Who has a common name other than `bob`, among two people and with an index on common names.  By
scans and by the index alike no entry is looked up, and it does not matter that none could be. -/
theorem search_spares_people :
    let search (ctx : Context) := ctx.search "people" (.all [.leaf ⟨"cn", .present⟩,
      .not (.leaf ⟨"cn", .equalTo (.text "bob")⟩)]) .backward
    let failing : EntryId → Except StoreError Entry := fun id ↦ .error (.notFound id)
    let scanning := people.context .names .fullScan
    let reading := people.context .names .standard
    (Effect.Leaves (search scanning).run
        (fun _ p ↦ Tally.recordLookup ∉ p.counts ∧ Tally.reverseLookup ∉ p.counts) ∧
      search ((scanning.withLookup failing).withIndexes fun _ ↦ none) = search scanning) ∧
    Effect.Leaves (search reading).run (fun _ p ↦ Tally.recordLookup ∉ p.counts) ∧
      search (reading.withLookup failing) = search reading := by
  intro search failing scanning reading
  let f : Filter := .all [.leaf ⟨"cn", .present⟩, .not (.leaf ⟨"cn", .equalTo (.text "bob")⟩)]
  have hnames : ∀ c ∈ f.leaves, c.name = "cn" := by simp [f, Formula.leaves, Formula.leavesOf]
  have hresolve : Registry.names.resolve "cn" = .ok .commonName :=
    toOption_eq_some.1 (by decide +kernel)
  have hindex : (people.index? .commonName).any ValueIndex.hasReverse = true := by decide +kernel
  have hleaves : ∀ c ∈ f.leaves, ∀ t, Registry.names.resolve c.name = .ok t →
      (people.index? t).any ValueIndex.hasReverse = true := by
    intro c hc t ht
    rw [hnames c hc, hresolve] at ht
    obtain rfl := Except.ok.inj ht
    exact hindex
  have hscanning := (search_spares people .names .fullScan "people" f .backward).1 ⟨rfl, rfl⟩
  have hreading := (search_spares people .names .standard "people" f .backward).2 rfl hleaves
  exact ⟨⟨hscanning.1, hscanning.2 failing fun _ ↦ none⟩, hreading.1, hreading.2 failing⟩

end Store
end DirectoryQuery
