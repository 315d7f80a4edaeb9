import DirectoryQuery.Proofs.Closing
import DirectoryQuery.Proofs.Fairness

/-!
# Searches that list an entry twice

A disjunction lists an entry once if each part, asked about an entry that it lists itself, accepts
it.  Otherwise the part does not learn that the entry has come up, and lists it again.

A leaf *strays* on an entry if it finds the entry by an index and then, looking at the entry itself,
does not accept it (`Test.Strays`).  This takes settings that let candidates but not verdicts come
from an index, and a rule that normalizes values in another way than the equality rule does.
Filters over leaves that never stray list nothing twice, whatever their shape, and these are the
only leaves of which that is true (`Store.nodup_search_iff`).
-/

set_option autoImplicit false

namespace DirectoryQuery

variable {s : Store} {r : Registry} {config : SearchConfig} {t : Test} {c : Clause} {i : EntryId}
  {e : Entry}

namespace Test

/-- The leaf finds the entry by an index and does not accept it when it looks at the entry. -/
structure Strays (s : Store) (r : Registry) (config : SearchConfig) (t : Test) (e : Entry) :
    Prop where
  prefers : config.preferIndexCursors = true
  looks : config.useReverseIndex = false
  indexed : (s.index? t.subject.type).isSome
  hasKey : t.HasKey r e
  rejects : t.acceptsEntry e = false

/-- A leaf that does not stray accepts what it finds. -/
theorem sound_of_not_strays (hs : s.Built r) (hr : r.Reachable) (ht : c.toTest r = .ok t)
    (hstrays : ∀ (i : EntryId) (e : Entry), s.entries[i]? = some e → ¬t.Strays s r config e) :
    t.Sound s config := by
  intro i hi
  cases hsource : s.sourceIndex? config t.subject.type with
  | none => exact ((mem_found_of_entries hs.consistent hsource).1 hi).2
  | some x =>
    have hindex := Store.index?_of_sourceIndex? hsource
    obtain ⟨e, he, hkey⟩ := (mem_found_of_index hs hr ht hsource).1 hi
    cases huse : config.useReverseIndex with
    | true => exact (verdict_of_index hs hr ht hindex huse he).2 hkey
    | false =>
      have hprefer : config.preferIndexCursors = true := by
        by_contra hnot
        simp [Store.sourceIndex?, hnot] at hsource
      rw [verdict_of_entry (.inr huse) he]
      by_contra hrejects
      have hindexed : (s.index? t.subject.type).isSome := by rw [hindex]; rfl
      exact hstrays i e he ⟨hprefer, huse, hindexed, hkey, eq_false_of_ne_true hrejects⟩

/-- A leaf that strays finds an entry that it does not accept. -/
theorem Strays.found (h : t.Strays s r config e) (hs : s.Built r) (hr : r.Reachable)
    (ht : c.toTest r = .ok t) (he : s.entries[i]? = some e) :
    i ∈ t.found s config ∧ t.verdict s config i = false := by
  obtain ⟨x, hx⟩ := Option.isSome_iff_exists.1 h.indexed
  have hsource : s.sourceIndex? config t.subject.type = some x := by
    rw [Store.sourceIndex?, if_pos h.prefers, hx]
  refine ⟨(mem_found_of_index hs hr ht hsource).2 ⟨e, he, h.hasKey⟩, ?_⟩
  rw [verdict_of_entry (.inr h.looks) he, h.rejects]

end Test

/-- What two parts list and neither accepts comes up twice. -/
theorem not_nodup_merge_of_rejected {leg leg' : Leg} (hi : i ∈ leg.ids) (hi' : i ∈ leg'.ids)
    (hskips : leg.skips i = false) (hskips' : leg'.skips i = false)
    (hrejects : leg'.accepts i = false) : ¬(merge [] [leg, leg']).Nodup := by
  intro hnodup
  rw [merge, merge, merge, List.append_nil, List.nil_append, List.nodup_append] at hnodup
  have hfirst : i ∈ leg.fresh [] := Leg.mem_fresh.2 ⟨hi, hskips, fun _ ↦ List.not_mem_nil⟩
  have hsecond : i ∈ leg'.fresh (leg.fresh []) := by
    refine Leg.mem_fresh.2 ⟨hi', hskips', fun haccepts ↦ ?_⟩
    rw [hrejects] at haccepts
    exact absurd haccepts Bool.false_ne_true
  exact hnodup.2.2 i hfirst i hsecond rfl

namespace Store

/-- **No search over certain leaves lists an entry twice exactly if none of the leaves strays on a
stored entry.** -/
theorem nodup_search_iff (hr : r.Reachable) (hs : s.Built r) (config : SearchConfig)
    (allowed : Clause → Prop) :
    (∀ f : Filter, (∀ c ∈ f.leaves, allowed c) → ∀ d searchId trace ids,
      Attempt.outcome ((s.context r config).search searchId f d) trace = .ok ids → ids.Nodup) ↔
    ∀ c, allowed c → ∀ t, c.toTest r = .ok t → ∀ (i : EntryId) (e : Entry),
      s.entries[i]? = some e → ¬t.Strays s r config e := by
  constructor
  · intro hnodup c hc t ht i e he hstrays
    obtain ⟨hfound, hrejects⟩ := hstrays.found hs hr ht he
    have htwice : Filter.toEvaluator r (.any [.leaf c, .leaf c]) =
        .ok (.any [.leaf t, .leaf t]) := by
      have hleaf : Formula.traverse (Clause.toTest r) (.leaf c) = .ok (.leaf t) :=
        bind_eq_ok.2 ⟨t, ht, rfl⟩
      have hrest : Formula.traverseEach (Clause.toTest r) [.leaf c] = .ok [.leaf t] :=
        bind_eq_ok.2 ⟨.leaf t, hleaf, rfl⟩
      exact bind_eq_ok.2 ⟨_, bind_eq_ok.2 ⟨.leaf t, hleaf, bind_eq_ok.2 ⟨_, hrest, rfl⟩⟩, rfl⟩
    have hleaves : ∀ c' ∈ Formula.leaves (.any [.leaf c, .leaf c]), allowed c' := by
      simpa [Formula.leaves, Formula.leavesOf] using hc
    obtain ⟨ids, hids, hlists⟩ := search_eq_ok hs.consistent config "" .forward htwice
      (.start .warn false)
    have hids' := hnodup _ hleaves .forward "" _ ids hids
    simp only [Lists, ListsEach] at hlists
    obtain ⟨_, ⟨_, _, rfl, rfl, _, _, rfl, rfl, rfl⟩, rfl⟩ := hlists
    exact not_nodup_merge_of_rejected hfound hfound rfl rfl hrejects hids'
  · intro hstrays f hf d searchId trace ids hids
    have hsearch := (search_spec hs.consistent r config searchId f d).outcome trace
    rw [hids] at hsearch
    obtain ⟨e, he, hlists⟩ := hsearch
    refine (hlists.sound hs.consistent fun t ht ↦ ?_).nodup
    obtain ⟨c, hc, hct⟩ := Filter.mem_leaves_toEvaluator he ht
    exact Test.sound_of_not_strays hs hr hct (hstrays c (hf c hc) t hct)

/-- A person with a common name, and an index on common names. -/
def listed : Store :=
  (empty.add ((Entry.empty 1).add "cn" (.text "Bob"))).keepIndex .commonName .squeezedLower true

theorem built_listed : listed.Built .names :=
  .keepIndexOn (.add .empty _) "cn" (keepIndexOn_cn _)

/-- Settings that let candidates but not verdicts come from an index. -/
def candidatesOnly : SearchConfig := { SearchConfig.standard with useReverseIndex := false }

/-- Searches for common names from `b` on. -/
theorem nodup_search_iff_listed :
    (∀ f : Filter, (∀ c ∈ f.leaves, c = ⟨"cn", .atLeast (.text "b")⟩) → ∀ d searchId trace ids,
      Attempt.outcome ((listed.context .names candidatesOnly).search searchId f d) trace = .ok ids →
        ids.Nodup) ↔
    ∀ c : Clause, c = ⟨"cn", .atLeast (.text "b")⟩ → ∀ t : Test, c.toTest .names = .ok t →
      ∀ (i : EntryId) (e : Entry), listed.entries[i]? = some e →
        ¬t.Strays listed .names candidatesOnly e :=
  nodup_search_iff Registry.reachable_names built_listed candidatesOnly _

/-- **A disjunction lists `Bob` twice**: in lower case he comes after `b`, as he is written before
it. -/
theorem search_lists_twice :
    Attempt.outcome ((listed.context .names candidatesOnly).search ""
      (.any [.leaf ⟨"cn", .atLeast (.text "b")⟩, .leaf ⟨"cn", .atLeast (.text "b")⟩]) .forward)
      (.start .warn false) = .ok [1, 1] :=
  toOption_eq_some.1 (by decide +kernel)

end Store
end DirectoryQuery
