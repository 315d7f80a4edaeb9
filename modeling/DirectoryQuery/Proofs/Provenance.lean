import DirectoryQuery.Proofs.Parallels
import DirectoryQuery.Proofs.Parity
import DirectoryQuery.Proofs.Sessions

/-!
# Where the values of candidates come from

On its way through a cursor a candidate is given an entry and a value, and given another value
whenever a leaf accepts it, be it a leaf below a negation or one that is only asked in order to skip
the candidate later on.  A source may hand out more than its sieve lets through: every key of an
index, say, where only those that satisfy an assertion pass.  So what is known of candidates changes
from a cursor to the one around it.

`Cursor.Vouches` follows this through a cursor, and no call takes it away, whatever it comes to
(`Cursor.vouches_call`).  For moves it is shown by comparing a context with itself.  What a cursor
planned over a store vouches for is that its candidates are honest (`Store.Honest`): the entry is
the store's, and the value satisfies a leaf of the filter and is a value of that entry, normalized
(`Test.Origin`).
-/

set_option autoImplicit false

namespace DirectoryQuery

variable {σ α : Type} {whats : List Tally}

/-- What is done alike with itself keeps the property. -/
theorem Act.Matches.keeps {x y : Act σ α} {I : σ → Prop} {Q : α → Prop}
    (h : Act.Matches whats x y I Q) : x.Keeps I :=
  fun s hs ↦ Effect.Ensures.mono (Effect.Matches.ensures (h s hs)) fun _ hr ↦ meets_const.2 hr.1

/-- A context compared with itself. -/
def Comparison.alone (ctx : Context) (K : Candidate → Prop) : Comparison :=
  ⟨ctx, ctx, [], nofun, K⟩

/-! ## Cursors that vouch for their candidates -/

namespace Reel

variable {K : Candidate → Prop}

/-- To close a reel only takes candidates away. -/
theorem Carries.release {r : Reel} (h : r.Carries K) (cause : Option SearchError) :
    Effect.Ensures ((Reel.release cause).perform r) fun x ↦ x.2.Carries K := by
  have hlisting : Effect.Ensures ((onListing (Listing.release cause)).perform r)
      fun x ↦ x.2.Carries K := by
    have hwithin : (onListing (Listing.release cause)).Ensures r (fun _ r' ↦ r'.Carries K)
        fun _ r' ↦ r'.Carries K := by
      refine ensures_onListing (Act.ensures_bind (Act.ensures_get ?_))
      cases r.listing.standing.position.isClosed with
      | true => exact Act.ensures_pure h
      | false =>
        refine Act.ensures_bind (Act.ensures_set (Act.ensures_effect fun _ ↦ ?_))
        exact fun _ hc ↦ absurd hc List.not_mem_nil
    exact Effect.Ensures.mono hwithin fun _ hr ↦ meets_const.1 hr
  rw [Reel.release, Act.perform_of]
  cases r.monitor with
  | none => exact hlisting
  | some m =>
    exact Effect.ensures_bind fun _ ↦ Effect.ensures_bind
      (Effect.Ensures.mono hlisting fun _ hr ↦ Effect.ensures_pure hr)

end Reel

theorem Standing.on_close {K : Candidate → Prop} (s : Standing Candidate)
    (cause : Option SearchError) : (s.close cause).On K := by
  intro c hc
  have hclosed := s.isClosed_close cause
  rw [hc] at hclosed
  exact nomatch hclosed

namespace Cursor

/-- The candidates of the cursor have the property, and go on to have it.  Those of the source of a
sieve have another one, from which the sieve makes it when they pass. -/
inductive Vouches (ctx : Context) : (Candidate → Prop) → Cursor → Prop
  | reel {K : Candidate → Prop} {r : Reel} (h : r.Carries K) : Vouches ctx K (reel r)
  | monitored {K : Candidate → Prop} {inner : Cursor} (m : Monitor) (h : Vouches ctx K inner) :
      Vouches ctx K (monitored m inner)
  | sieve {J K : Candidate → Prop} {s : Sieve Cursor}
      (hpass : (Comparison.alone ctx J).Admits K s.acceptance) (hsource : Vouches ctx J s.source)
      (hstanding : s.standing.On K) : Vouches ctx K (sieve s)
  | relay {K : Candidate → Prop} {r : Relay Cursor} (hsources : ∀ c ∈ r.sources, Vouches ctx K c)
      (hlanes : ∀ lane ∈ r.lanes, (Comparison.alone ctx K).Judges lane.evaluator)
      (hstanding : r.standing.On K) : Vouches ctx K (relay r)

variable {ctx : Context} {K : Candidate → Prop} {c : Cursor}

theorem Vouches.known (h : Vouches ctx K c) {x : Candidate} (hx : c.current = .ok x) : K x := by
  induction h with
  | reel h => exact h.current hx
  | monitored _ _ ih => exact ih hx
  | sieve _ _ hstanding => exact hstanding.element hx
  | relay _ _ hstanding => exact hstanding.element hx

/-- **Moves take nothing away from what a cursor vouches for**, whatever fails on the way. -/
theorem walker_vouches (ctx : Context) (n : Nat) (K : Candidate → Prop) :
    (walker ctx n).Matches (.alone ctx K) (walker ctx n) (Vouches ctx K) := by
  -- The source of a sieve vouches for something else, so `K` is not fixed.
  induction n generalizing K with
  | zero =>
    exact ⟨fun _ ↦ Act.matches_pure trivial, fun _ ↦ Act.matches_pure trivial, rfl, rfl,
      fun _ hx ↦ nomatch hx⟩
  | succ n ih =>
    refine ⟨fun d c hc ↦ ?_, fun d c hc ↦ ?_, rfl, rfl, fun hc hx ↦ hc.known hx⟩
    · cases hc with
      | reel h => exact matches_made (Reel.matches_rewind d) h fun _ ↦ .reel
      | monitored m h => exact matches_made ((ih K).rewind d) h fun _ ↦ .monitored m
      | @sieve J _ s hpass hsource hstanding =>
        exact matches_made (Sieve.matches_rewind (ih J) d) ⟨hpass, hsource, hstanding⟩
          fun _ hs ↦ .sieve hs.acceptance hs.source hs.standing
      | relay hsources hlanes hstanding =>
        exact matches_made (Relay.matches_rewind (ih K) d) ⟨hsources, hlanes, hstanding⟩
          fun _ hr ↦ .relay hr.sources hr.lanes hr.standing
    · cases hc with
      | reel h => exact matches_made (Reel.matches_advance d) h fun _ ↦ .reel
      | monitored m h =>
        rw [advance_monitored]
        cases m.refusal? with
        | none => exact matches_made ((ih K).advance d) h fun _ ↦ .monitored m.counted
        | some e => exact Effect.matches_pure ⟨.monitored m.counted h, trivial⟩
      | @sieve J _ s hpass hsource hstanding =>
        exact matches_made (Sieve.matches_advance (ih J) (fun _ hx ↦ hx) d)
          ⟨hpass, hsource, hstanding⟩ fun _ hs ↦ .sieve hs.acceptance hs.source hs.standing
      | relay hsources hlanes hstanding =>
        exact matches_made (Relay.matches_advance (ih K) d) ⟨hsources, hlanes, hstanding⟩
          fun _ hr ↦ .relay hr.sources hr.lanes hr.standing

/-- What every cursor within is left with, if each of them is. -/
theorem ensures_releaseTrees {cause : Option SearchError} {P : Cursor → Prop} {cs : List Cursor}
    (h : ∀ c ∈ cs, Effect.Ensures (releaseTree cause c) fun r ↦ P r.2) :
    Effect.Ensures (releaseTrees cause cs) fun r ↦ ∀ c ∈ r.2, P c := by
  induction cs with
  | nil => exact Effect.ensures_pure fun _ hc ↦ absurd hc List.not_mem_nil
  | cons c cs ih =>
    obtain ⟨hc, hcs⟩ := List.forall_mem_cons.1 h
    rw [releaseTrees]
    refine Effect.ensures_bind (Effect.Ensures.mono hc fun r hr ↦ Effect.ensures_bind fun _ ↦ ?_)
    refine Effect.ensures_bind (Effect.Ensures.mono (ih hcs) fun rs hrs ↦ Effect.ensures_pure ?_)
    exact List.forall_mem_cons.2 ⟨hr, hrs⟩

/-- Closing a cursor takes nothing away either. -/
theorem Vouches.release (h : Vouches ctx K c) (cause : Option SearchError) :
    Effect.Ensures (releaseTree cause c) fun r ↦ Vouches ctx K r.2 := by
  induction h with
  | reel h =>
    rw [releaseTree]
    exact Effect.ensures_bind (Effect.Ensures.mono (h.release cause) fun _ hr ↦
      Effect.ensures_pure (.reel hr))
  | monitored m _ ih =>
    rw [releaseTree]
    exact Effect.ensures_bind fun _ ↦ Effect.ensures_bind
      (Effect.Ensures.mono ih fun _ hr ↦ Effect.ensures_pure (.monitored m hr))
  | @sieve J K s hpass hsource hstanding ih =>
    obtain ⟨x, source, idle, standing⟩ := s
    rw [releaseTree]
    split
    · exact Effect.ensures_pure (.sieve hpass hsource hstanding)
    · refine Effect.ensures_bind fun _ ↦ Effect.ensures_bind (Effect.Ensures.mono ih fun r hr ↦ ?_)
      have hclosed (idle' : List Cursor) :
          Vouches ctx K (Cursor.sieve ⟨x, r.2, idle', standing.close cause⟩) :=
        .sieve hpass hr (standing.on_close cause)
      cases x.readsIndex with
      | true => exact Effect.ensures_bind fun _ ↦ Effect.ensures_pure (hclosed _)
      | false =>
        exact Effect.ensures_bind fun _ ↦ Effect.ensures_bind fun _ ↦
          Effect.ensures_pure (hclosed _)
  | @relay K r hsources hlanes hstanding ih =>
    obtain ⟨sources, lanes, active, standing⟩ := r
    rw [releaseTree]
    split
    · exact Effect.ensures_pure (.relay hsources hlanes hstanding)
    · refine Effect.ensures_bind fun _ ↦ Effect.ensures_bind
        (Effect.Ensures.mono (ensures_releaseTrees ih) fun r hr ↦ Effect.ensures_pure ?_)
      exact .relay hr hlanes (standing.on_close cause)

/-- **No call takes anything away from what a cursor vouches for**, whatever it comes to. -/
theorem vouches_call (K : Candidate → Prop) (call : Call) :
    (call.perform ctx).Keeps (Vouches ctx K) := by
  have hmoves (n : Nat) : (walker ctx n).Keeps (Vouches ctx K) :=
    ⟨fun d ↦ ((walker_vouches ctx n K).rewind d).keeps,
      fun d ↦ ((walker_vouches ctx n K).advance d).keeps⟩
  have hrewind (d : Direction) : (Cursor.rewind ctx d).Keeps (Vouches ctx K) :=
    .bind .get fun c ↦ (hmoves c.height).rewind d
  have hadvance (d : Direction) : (Cursor.advance ctx d).Keeps (Vouches ctx K) :=
    .bind .get fun c ↦ (hmoves c.height).advance d
  cases call with
  | rewind d => exact .bind (hrewind d) fun _ ↦ .pure _
  | begin d => exact .bind (.bind (hrewind d) fun _ ↦ hadvance d) fun _ ↦ .pure _
  | advance d => exact .bind (hadvance d) fun _ ↦ .pure _
  | get => exact .bind .get fun c ↦ .bind (.except _) fun _ ↦ .pure _
  | release cause =>
    refine .bind (fun c hc ↦ Act.ensures_of ?_) fun _ ↦ .pure _
    exact Effect.Ensures.mono (hc.release cause) fun _ hc' ↦ meets_const.2 hc'

theorem vouches_over {J : Candidate → Prop} {x : Acceptance} {r : Reel}
    (hx : (Comparison.alone ctx J).Admits K x) (hr : r.Carries J) :
    Vouches ctx K (Cursor.sieve (.fresh x (.reel r) [])) :=
  .sieve hx (.reel hr) fun _ hc ↦ nomatch hc

end Cursor

/-! ## Honest candidates -/

/-- Where a value comes from that a test of an entry comes upon. -/
inductive Test.Origin (s : Store) (t : Test) (e : Entry) (v : Value) : Prop
  /-- The entry holds it under the attribute or one below, and the test has normalized it. -/
  | rule {u : AttributeType} {w : Value} (hu : u ∈ t.subject.type :: t.subject.descendants)
      (hw : w ∈ e.get u) (hv : t.subject.normalizer.apply w = v)
  /-- The entry holds it under the attribute, and the index on the attribute has normalized it. -/
  | index {x : IndexedAttribute} {w : Value} (hx : s.indexes[t.subject.type.oid]? = some x)
      (hw : w ∈ e.get t.subject.type) (hv : x.normalizer.apply w = v)

/-- The test is a leaf of the filter, made ready for use with the schema. -/
def Test.IsLeafOf (t : Test) (r : Registry) (f : Filter) : Prop :=
  ∃ c ∈ f.leaves, c.toTest r = .ok t

/-- The value satisfies the assertion of a leaf of the filter, and comes from the entry. -/
def Filter.Explains (s : Store) (r : Registry) (f : Filter) (e : Entry) (v : Value) : Prop :=
  ∃ t : Test, t.IsLeafOf r f ∧ t.assertion.holds v = true ∧ t.Origin s e v

/-- An entry that is attached to the candidate is the one that the store has under its identifier,
and its value is related to that entry. -/
structure Store.Honest (s : Store) (V : Entry → Value → Prop) (c : Candidate) : Prop where
  record (e : Entry) : c.record = some e → s.entries[c.id]? = some e
  value (v : Value) : c.value = some v → ∃ e, s.entries[c.id]? = some e ∧ V e v

variable {s : Store} {r : Registry} {config : SearchConfig} {V : Entry → Value → Prop} {t : Test}

namespace Store

theorem honest_resolved (h : s.Consistent) {e : Entry} (he : e ∈ s.toList) :
    s.Honest V (.resolved e) := by
  obtain ⟨i, hi⟩ := mem_toList.1 he
  obtain rfl := h.id_eq i e hi
  exact ⟨fun e' he' ↦ Option.some.inj he' ▸ hi, nofun⟩

theorem honest_posting {x : IndexedAttribute} (hx : x.Records s.entries) {p : Posting}
    (hp : p ∈ x.index) (hV : ∀ e, p.key ∈ x.keysOf e → V e p.key) : s.Honest V p.candidate := by
  obtain ⟨e, he, hkey⟩ := (hx p).1 hp
  exact ⟨nofun, fun v hv ↦ Option.some.inj hv ▸ ⟨e, he, hV e hkey⟩⟩

theorem entries_of_lookup {i : EntryId} {e : Entry} (h : s.lookup i = .ok e) :
    s.entries[i]? = some e := by
  unfold lookup at h
  split at h
  · exact Except.ok.inj h ▸ (by assumption)
  · exact nomatch h

end Store

/-! ### Tests -/

theorem Act.matches_of_forall {ι : Type} {x y : Act σ α} {I : σ → Prop} {Q : α → Prop} (f : σ → ι)
    (h : ∀ i, Act.Matches whats x y (fun s ↦ f s = i ∧ I s) Q) : Act.Matches whats x y I Q :=
  fun s hs ↦ Effect.Matches.mono (h (f s) s ⟨rfl, hs⟩) fun _ hr ↦ ⟨hr.1.2, hr.2⟩

namespace Test

theorem entryOf_honest (t : Test) (i : EntryId) :
    Act.Matches [] (t.entryOf s.directory) (t.entryOf s.directory)
      (fun c ↦ c.id = i ∧ s.Honest V c) fun e ↦ s.entries[i]? = some e := by
  refine Act.matches_bind Act.matches_get ?_
  rintro c ⟨rfl, hc⟩
  cases hrecord : c.record with
  | some e => exact Act.matches_pure (hc.record e hrecord)
  | none =>
    refine Act.matches_bind (Act.matches_tally List.not_mem_nil) fun _ _ ↦ ?_
    cases hlookup : s.directory.lookup c.id with
    | error e => exact Act.matches_throw _
    | ok e =>
      have he := Store.entries_of_lookup hlookup
      refine Act.matches_bind (Act.matches_set ⟨rfl, ?_, hc.value⟩) fun _ _ ↦ Act.matches_pure he
      exact fun e' he' ↦ Option.some.inj he' ▸ he

/-- A test leaves a candidate honest, if the values that the test accepts are explained. -/
theorem evaluate_honest
    (hV : ∀ e v, t.assertion.holds v = true → v ∈ t.subject.values e → V e v) :
    Act.Matches [] (t.evaluate (s.context r config)) (t.evaluate (s.context r config))
      (s.Honest V) fun _ ↦ True := by
  refine Act.matches_bind (Act.matches_tally List.not_mem_nil) fun _ _ ↦ ?_
  cases (s.context r config).reverseIndex? t.subject.type with
  | some x =>
    refine Act.matches_bind (Act.matches_tally List.not_mem_nil) fun _ _ ↦ ?_
    refine Act.matches_bind Act.matches_get fun c _ ↦ ?_
    exact Act.matches_bind (Act.matches_attempt (x.firstKey?_matches _ _)) fun _ _ ↦
      Act.matches_pure trivial
  | none =>
    refine Act.matches_of_forall Candidate.id fun i ↦ ?_
    refine Act.matches_bind (t.entryOf_honest i) fun e he ↦ ?_
    cases hfirst : t.firstValue? e with
    | none => exact Act.matches_pure trivial
    | some v =>
      cases t.assertion.isPresent with
      | true => exact Act.matches_pure trivial
      | false =>
        refine Act.matches_bind (Act.matches_modify ?_) fun _ _ ↦ Act.matches_pure trivial
        rintro c ⟨rfl, hc⟩
        refine ⟨rfl, hc.record, fun v' hv' ↦ ?_⟩
        obtain rfl := Option.some.inj hv'
        exact ⟨e, he, hV e v (List.find?_some hfirst) (List.mem_of_find?_eq_some hfirst)⟩

theorem Origin.of_mem_values {e : Entry} {v : Value} (h : v ∈ t.subject.values e) :
    t.Origin s e v := by
  obtain ⟨w, hw, hv⟩ := List.mem_map.1 h
  obtain ⟨u, hu, hw⟩ := List.mem_flatMap.1 hw
  exact .rule hu hw hv

theorem Origin.of_mem_keysOf {x : IndexedAttribute}
    (hx : s.indexes[t.subject.type.oid]? = some x) (htype : x.type = t.subject.type) {e : Entry}
    {v : Value} (h : v ∈ x.keysOf e) : t.Origin s e v := by
  obtain ⟨w, hw, hv⟩ := List.mem_map.1 h
  exact .index hx (htype ▸ hw) hv

end Test

namespace Acceptance

/-- Of the keys of an index those pass that satisfy the assertion. -/
theorem admits_indexed {ctx : Context} (x : Index)
    (hV : ∀ e v, t.assertion.holds v = true → t.Origin s e v → V e v) :
    (Comparison.alone ctx (s.Honest (t.Origin s))).Admits (s.Honest V)
      (.indexed x t.assertion) := by
  intro c hc
  -- The candidate stays as it is; what it has to pass is on its key.
  have hsame : Act.Matches [] (accept ctx (.indexed x t.assertion))
      (accept ctx (.indexed x t.assertion)) (· = c) fun accepted ↦
        accepted = true → s.Honest V c := by
    refine Act.matches_bind Act.matches_get ?_
    rintro c rfl
    cases hkey : c.value.filter t.assertion.holds with
    | none => exact Act.matches_pure nofun
    | some key =>
      obtain ⟨hvalue, hholds⟩ := Option.filter_eq_some_iff.1 hkey
      have hhonest : s.Honest V c := by
        refine ⟨hc.record, fun v hv ↦ ?_⟩
        obtain rfl := Option.some.inj (hvalue.symm.trans hv)
        obtain ⟨e, he, horigin⟩ := hc.value _ hvalue
        exact ⟨e, he, hV e _ hholds horigin⟩
      refine Act.matches_bind (Act.matches_tally List.not_mem_nil)
        fun _ _ ↦ Act.matches_bind Act.matches_get fun c' _ ↦ ?_
      exact Act.matches_bind (Act.matches_attempt (x.firstKey?_matches _ _)) fun _ _ ↦
        Act.matches_pure fun _ ↦ hhonest
  refine Effect.Matches.mono (hsame c rfl) ?_
  rintro ⟨o, _⟩ ⟨rfl, ho⟩
  exact ho

theorem admits_keyed {ctx : Context} {K : Candidate → Prop} :
    (Comparison.alone ctx K).Admits K .keyed :=
  Act.Matches.admits (Q := fun _ ↦ True)
    (Act.matches_bind Act.matches_get fun _ _ ↦ Act.matches_pure trivial)

end Acceptance

/-! ## Planned cursors -/

namespace Test

variable {f : Filter}

theorem IsLeafOf.evaluate (h : t.IsLeafOf r f) :
    Act.Matches [] (t.evaluate (s.context r config)) (t.evaluate (s.context r config))
      (s.Honest (f.Explains s r)) fun _ ↦ True :=
  evaluate_honest fun _ _ hholds hv ↦ ⟨t, h, hholds, .of_mem_values hv⟩

/-- An index that candidates for a leaf come from is kept on the attribute of the leaf. -/
theorem IsLeafOf.sourceIndex (h : t.IsLeafOf r f) (hr : r.Reachable) (hs : s.Built r) {x : Index}
    (hx : (s.context r config).sourceIndex? t.subject.type = some x) :
    ∃ x', x = x'.index.index ∧ s.indexes[t.subject.type.oid]? = some x' ∧
      x'.type = t.subject.type ∧ x'.Records s.entries := by
  obtain ⟨c, -, ht⟩ := h
  rw [Store.sourceIndex?_context, Option.map_eq_some_iff] at hx
  obtain ⟨_, hx, rfl⟩ := hx
  obtain ⟨x', hindex, rfl⟩ := Option.map_eq_some_iff.1 (Store.index?_of_sourceIndex? hx)
  obtain ⟨⟨name, hname⟩, -, -⟩ := hs.schematic hindex
  refine ⟨x', rfl, hindex, ?_, hs.consistent.records _ x' hindex⟩
  exact hr.type_unique hname (Clause.resolve_type ht) (hs.consistent.oid_eq _ x' hindex)

end Test

namespace Context

variable {f : Filter}

theorem judges_honest {e : Evaluator} (h : ∀ t ∈ e.leaves, t.IsLeafOf r f) :
    (Comparison.alone (s.context r config) (s.Honest (f.Explains s r))).Judges e :=
  Formula.judge_matches e fun t ht ↦ (h t ht).evaluate

theorem carries_everyEntry (h : s.Consistent) {reel : Reel}
    (hreel : (s.context r config).directory.everyEntry = .ok reel) :
    reel.Carries (s.Honest V) := by
  obtain rfl := Except.ok.inj hreel
  intro c hc
  obtain ⟨e, he, rfl⟩ := List.mem_map.1 hc
  exact Store.honest_resolved h he

/-- **The cursor that is planned for a leaf vouches for honest candidates**, be it over one key,
over an index or over all entries. -/
theorem PlannedLeaf.vouches (hr : r.Reachable) (hs : s.Built r) (hleaf : t.IsLeafOf r f)
    {o : Operand} (ho : (s.context r config).PlannedLeaf t o) :
    o.cursor.Vouches (s.context r config) (s.Honest (f.Explains s r)) := by
  cases ho with
  | @keyed _ key _ hx hkey hreel =>
    obtain ⟨x, rfl, hindex, htype, hrecords⟩ := hleaf.sourceIndex hr hs hx
    obtain rfl := Except.ok.inj hreel
    refine Cursor.vouches_over Acceptance.admits_keyed fun c hc ↦ ?_
    obtain ⟨p, hp, rfl⟩ := List.mem_map.1 hc
    have hmem := ValueIndex.mem_toList.1 (x.index.postingsOf_subset key hp)
    obtain ⟨i, -, rfl⟩ := List.mem_map.1 hp
    have hholds := (Test.holds_iff_of_lookupKey hkey key).2 rfl
    exact Store.honest_posting hrecords hmem fun e hkeys ↦
      ⟨t, hleaf, hholds, .of_mem_keysOf hindex htype hkeys⟩
  | indexed hx hkey hreverse hreel =>
    obtain ⟨x, rfl, hindex, htype, hrecords⟩ := hleaf.sourceIndex hr hs hx
    obtain rfl := Except.ok.inj hreel
    refine Cursor.vouches_over
      (Acceptance.admits_indexed _ fun _ _ hholds h ↦ ⟨t, hleaf, hholds, h⟩) fun c hc ↦ ?_
    obtain ⟨p, hp, rfl⟩ := List.mem_map.1 hc
    exact Store.honest_posting hrecords (ValueIndex.mem_toList.1 hp) fun e hkeys ↦
      .of_mem_keysOf hindex htype hkeys
  | scanned hx hreel =>
    refine Cursor.vouches_over (Act.Matches.admits (judges_honest fun t' ht' ↦ ?_))
      (carries_everyEntry hs.consistent hreel)
    obtain rfl := List.mem_singleton.1 ht'
    exact hleaf

/-- Planning only makes cursors that vouch for honest candidates. -/
theorem builds_vouches (hr : r.Reachable) (hs : s.Built r) (config : SearchConfig) (f : Filter) :
    (s.context r config).Builds (Test.IsLeafOf · r f)
      (Cursor.Vouches (s.context r config) (s.Honest (f.Explains s r))) where
  leaf hleaf ho := PlannedLeaf.vouches hr hs hleaf ho
  empty := .reel fun _ hc ↦ absurd hc List.not_mem_nil
  scan he hr := Cursor.vouches_over (Act.Matches.admits (judges_honest he))
    (carries_everyEntry hs.consistent hr)
  negation he hr := Cursor.vouches_over
    (Act.Matches.admits (Comparison.accepts_rejecting (judges_honest he)))
    (carries_everyEntry hs.consistent hr)
  conjunction hdriver hothers := .sieve
    (Act.Matches.admits (Formula.judgeAll_matches _ fun t ht ↦ (hothers t ht).evaluate)) hdriver
    fun _ hc ↦ nomatch hc
  disjunction hoperands := .relay (List.forall_mem_map.2 fun o ho ↦ (hoperands o ho).1)
    (List.forall_mem_map.2 fun o ho ↦ judges_honest (hoperands o ho).2) fun _ hc ↦ nomatch hc

end Context

/-! ## Searches -/

namespace Store

/-- **Whatever calls are made to the cursor of a filter, what it stands on is honest**: an entry
that is attached to the candidate is the store's, and the value satisfies a leaf of the filter and
is a value of the entry, normalized by the leaf or by the index on its attribute. -/
theorem honest_session (hr : r.Reachable) (hs : s.Built r) (config : SearchConfig) {f : Filter}
    {trace : Trace} {o : Operand}
    (ho : Attempt.outcome ((s.context r config).plan f) trace = .ok o)
    {reports : List Cursor.Report} {c : Cursor}
    (h : Cursor.Session (s.context r config) o.cursor reports c) {x : Candidate}
    (hx : c.current = .ok x) : s.Honest (f.Explains s r) x := by
  have hplan := (s.plan_planned r config f).outcome trace
  rw [ho] at hplan
  obtain ⟨e, he, hplanned⟩ := hplan
  have hleaves : ∀ t ∈ e.leaves, Test.IsLeafOf t r f :=
    fun _ ht ↦ Filter.mem_leaves_toEvaluator he ht
  have hvouches := hplanned.built (Context.builds_vouches hr hs config f) hleaves
  exact (h.keeps (Cursor.vouches_call _) hvouches).known hx

/-- The first of the people with a common name or called Bob.  The candidate comes from the index on
common names, without its entry, and then is asked whether it is called Bob. -/
theorem honest_session_people :
    let ctx := people.context .names .standard
    let f : Filter := .any [.leaf ⟨"cn", .present⟩, .leaf ⟨"name", .equalTo (.text "BOB")⟩]
    ∃ o x, Attempt.outcome (ctx.plan f) (.start .warn false) = .ok o ∧
      ((Cursor.Call.begin .forward).report ctx (.start .warn false) o.cursor).after.current =
        .ok x ∧ x.value = some (.text "bob") ∧ x.record.isSome = true ∧
      people.Honest (f.Explains people .names) x := by
  intro ctx f
  have hfound : (Attempt.outcome (ctx.plan f) (.start .warn false)).toOption.any (fun o ↦
      ((Cursor.Call.begin .forward).report ctx (.start .warn false)
        o.cursor).after.current.toOption.any fun x ↦
          decide (x.value = some (.text "bob") ∧ x.record.isSome = true)) = true := by
    decide +kernel
  obtain ⟨o, ho, hfound⟩ := (Option.any_eq_true _ _).1 hfound
  obtain ⟨x, hx, hfound⟩ := (Option.any_eq_true _ _).1 hfound
  obtain ⟨hvalue, hrecord⟩ := of_decide_eq_true hfound
  rw [toOption_eq_some] at ho hx
  refine ⟨o, x, ho, hx, hvalue, hrecord, ?_⟩
  exact honest_session Registry.reachable_names built_people .standard ho
    (.call .start (.begin .forward) (.start .warn false)) hx

end Store
end DirectoryQuery
