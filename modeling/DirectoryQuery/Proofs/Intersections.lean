import Mathlib.Order.WithBot
import DirectoryQuery.Proofs.Assemblies
import DirectoryQuery.Proofs.Parity
import DirectoryQuery.Proofs.Passes

/-!
# Conjunctions as intersections

The evaluator of an operand need not know what the cursor of the operand lists, but in a conjunction
it is asked about what another operand lists.  If it then tells the entries of its own list from all
others (`Operand.Discerning`), it does not matter which operand drives: a pass comes to what the
lists have in common.  Only the order is that of the list of the operand that drives
(`Cursor.conjunction_intersects`).

The estimates decide which operand that is.  An operand without an estimate ranks as one with the
greatest estimate of all.  So it may drive although another operand has an estimate, if that is the
greatest one and the other operand is later.
-/

set_option autoImplicit false

namespace DirectoryQuery

variable {ctx : Context} {K : Candidate → Prop} {lists : Nat → List Candidate} {n j : Nat}

/-! ## The operand that drives -/

/-- The estimate of the operand, above all numbers if it is not known. -/
def Operand.expectation (o : Operand) : WithTop Nat := o.estimate.elim ⊤ WithTop.some

/-- The operand that drives has the least estimate exactly if its own is known or none is. -/
theorem Cursor.Leads.expectation_iff {operands : List Operand} {driver : Operand}
    (h : Leads driverRank operands j) (hdriver : operands[j]? = some driver) :
    Leads Operand.expectation operands j ↔
      (driver.estimate = none → ∀ o ∈ operands, o.estimate = none) := by
  obtain ⟨_, hdriver', hrank⟩ := h
  obtain rfl := Option.some.inj (hdriver.symm.trans hdriver')
  constructor
  · rintro ⟨_, hdriver'', hleads⟩ hnone o ho
    obtain rfl := Option.some.inj (hdriver.symm.trans hdriver'')
    obtain ⟨k, hk⟩ := List.mem_iff_getElem?.1 ho
    cases he : o.estimate with
    | none => rfl
    | some m =>
      have hcase := hleads k o hk
      simp [Operand.expectation, hnone, he] at hcase
  · intro hknown
    refine ⟨driver, hdriver, fun k o hk ↦ ?_⟩
    have hcase := hrank k o hk
    rw [driverRank, driverRank] at hcase
    rw [Operand.expectation, Operand.expectation]
    cases he : driver.estimate with
    | none =>
      have hnone := hknown he o (List.mem_of_getElem? hk)
      rw [he, hnone] at hcase
      rw [hnone]
      exact .inr ⟨rfl, (hcase.resolve_left (Nat.lt_irrefl _)).2⟩
    | some m =>
      rw [he] at hcase
      cases he' : o.estimate with
      | none => exact .inl (WithTop.coe_lt_top m)
      | some m' =>
        rw [he'] at hcase
        exact hcase.imp WithTop.coe_lt_coe.2 (And.imp_left (congrArg WithTop.some))

/-! ## What the other operands accept -/

/-- The operand has a cursor over a list without repetition, and an evaluator that does not fail
and, asked about an entry of the kind, accepts it exactly if it is in the list. -/
structure Operand.Discerning (ctx : Context) (K : Candidate → Prop) (among : EntryId → Prop)
    (l : List Candidate) (o : Operand) : Prop where
  nodup : (l.map Candidate.id).Nodup
  behaves : Cursor.Behaves ctx Cursor.Call.IsMove (fun _ c ↦ K c) o.cursor (Cursor.ofList l)
  decides (c : Candidate) : K c → among c.id → (o.evaluator.evaluate ctx).Ensures c
    (fun accepted c' ↦ (accepted = true ↔ c.id ∈ l.map Candidate.id) ∧ K c') fun _ _ ↦ False

namespace Cursor

/-- The entry is in one of the lists. -/
def Listed (lists : Nat → List Candidate) (n : Nat) (i : EntryId) : Prop :=
  ∃ k < n, i ∈ entriesOf lists k

/-- Whether the entry is in the lists of all of these operands. -/
def inAll (lists : Nat → List Candidate) (others : List (Operand × Nat)) (i : EntryId) : Bool :=
  others.all fun o ↦ decide (i ∈ entriesOf lists o.2)

/-- What is in some list passes the other operands exactly if it is in all of their lists. -/
theorem decides_joint {others : List (Operand × Nat)}
    (hothers : ∀ o ∈ others, o.1.Discerning ctx K (Listed lists n) (lists o.2)) (position : Nat)
    {l : List EntryId} (hl : ∀ i ∈ l, Listed lists n i) :
    Sieve.Decides ctx (.joint position (others.map fun o ↦ o.1.evaluator)) (fun _ ↦ False)
      (Stands K) (Stands K) (inAll lists others) l := by
  rintro i hi c ⟨rfl, hc⟩
  have hjudge := Formula.judgeAll_map_spec (p := fun t ↦ t.evaluate ctx)
    (f := fun o : Operand × Nat ↦ o.1.evaluator)
    (u := fun o ↦ decide (c.id ∈ entriesOf lists o.2))
    (I := fun c' ↦ c'.id = c.id ∧ K c') (E := fun _ ↦ False) (l := others) (s := c) ?_ ⟨rfl, hc⟩
  · refine hjudge.imp ?_
    rintro _ c' ⟨rfl, hc'⟩
    exact ⟨rfl, fun _ ↦ hc'⟩
  · rintro o ho c₁ ⟨hid, hc₁⟩
    have hanswer := (hothers o ho).decides c₁ hc₁ (hid ▸ hl c.id hi)
    refine ((o.1.evaluator.evaluate_id ctx c₁).and hanswer).mono ?_ fun _ _ hfalse ↦ hfalse.2
    rintro accepted c₂ ⟨hid', haccepted, hc₂⟩
    refine ⟨Bool.eq_iff_iff.2 (haccepted.trans ?_), hid'.trans hid, hc₂⟩
    rw [decide_eq_true_iff, ← hid]
    rfl

/-! ## Conjunctions -/

/-- A sieve over a cursor that stands for the positions in the list of an operand moves over what
passes of the list. -/
theorem follows_passing {x : Acceptance} {q : EntryId → Bool} {idle : List Cursor}
    (hx : Sieve.Decides ctx x (fun _ ↦ False) (Stands K) (Stands K) q (entriesOf lists j))
    (hidle : ∀ c ∈ idle, c.height ≤ n) :
    Follows ctx Call.IsMove (fun _ c ↦ K c) (n + 1)
      (((entriesOf lists j).filter q).map Candidate.bare) fun p c ↦
        ∃ s, c = sieve s ∧
          s.StandsAt (Stands K) q (entriesOf lists j) (Stood ctx K lists n j) x idle p := by
  refine ⟨(embeds_sieve.tracks (Sieve.tracks (tracks_stood ctx K lists n j) hx)).map
    fun _ _ _ hc ↦ hc, ?_, ?_, fun _ hcall ↦ hcall.elim⟩
  · rintro p _ ⟨s, rfl, hs⟩
    obtain ⟨i, hi, -⟩ := hs.source
    exact height_sieve_le_iff.2 ⟨hi.1, hs.idle ▸ hidle⟩
  · rintro p _ ⟨s, rfl, hs⟩
    exact hs.shows.map_eq

variable {operands : List Operand} {driver : Operand} {others : List (Operand × Nat)}
  (hoperands : ∀ (j : Nat) (o : Operand), operands[j]? = some o →
    o.Discerning ctx K (Listed lists operands.length) (lists j))
  (hranked : ranked operands = (driver, j) :: others)

include hranked

/-- An operand drives, or it is one of the others. -/
theorem mem_ranked_iff {o : Operand} {k : Nat} :
    operands[k]? = some o ↔ (o, k) = (driver, j) ∨ (o, k) ∈ others := by
  rw [← List.mem_cons, ← hranked, mem_ranked]

/-- What is in the list of the operand that drives and passes the others is in all lists. -/
theorem mem_filter_inAll {i : EntryId} :
    i ∈ (entriesOf lists j).filter (inAll lists others) ↔
      ∀ k < operands.length, i ∈ entriesOf lists k := by
  rw [List.mem_filter, inAll, List.all_eq_true]
  constructor
  · rintro ⟨hi, hothers⟩ k hk
    rcases (mem_ranked_iff hranked).1 (List.getElem?_eq_getElem hk) with heq | hmem
    · exact (Prod.mk.inj heq).2 ▸ hi
    · exact of_decide_eq_true (hothers _ hmem)
  · intro hall
    have hlt : ∀ {o k}, operands[k]? = some o → k < operands.length := fun h ↦
      (List.getElem?_eq_some_iff.1 h).1
    refine ⟨hall j (hlt ((mem_ranked_iff hranked).2 (.inl rfl))), fun o ho ↦ decide_eq_true ?_⟩
    exact hall o.2 (hlt ((mem_ranked_iff hranked).2 (.inr ho)))

include hoperands

/-- **A conjunction behaves as a cursor over what the list of the operand that drives has in common
with all others.** -/
theorem behaves_joint :
    Behaves ctx Call.IsMove (fun _ c ↦ K c)
      (sieve (.fresh (.joint j (others.map fun o ↦ o.1.evaluator)) driver.cursor
        (others.map fun o ↦ o.1.cursor)))
      (ofList (((entriesOf lists j).filter (inAll lists others)).map Candidate.bare)) := by
  have hdriver : operands[j]? = some driver := (mem_ranked_iff hranked).2 (.inl rfl)
  have hj : j < operands.length := (List.getElem?_eq_some_iff.1 hdriver).1
  have hdecides : Sieve.Decides ctx (.joint j (others.map fun o ↦ o.1.evaluator)) (fun _ ↦ False)
      (Stands K) (Stands K) (inAll lists others) (entriesOf lists j) :=
    decides_joint (fun o ho ↦ hoperands o.2 o.1 ((mem_ranked_iff hranked).2 (.inr ho))) j
      fun i hi ↦ ⟨j, hj, hi⟩
  let idle : List Cursor := others.map fun o ↦ o.1.cursor
  have hfollows := follows_passing (n := max driver.cursor.height (heightOf idle)) hdecides
    fun c (hc : c ∈ idle) ↦ Nat.le_trans (height_le_heightOf hc) (Nat.le_max_right _ _)
  refine hfollows.behaves (follows_listed ctx _ _) (p := .unpositioned)
    ⟨_, rfl, rfl, rfl, trivial, .unpositioned, ?_, nofun⟩ ⟨trivial, rfl⟩
  exact ⟨Nat.le_max_left _ _, trivial, (hoperands j driver hdriver).behaves⟩

omit hranked hoperands

/-- The entries are those that the lists have in common, each of them once, in the given order. -/
structure Common (lists : Nat → List Candidate) (n : Nat) (order found : List EntryId) : Prop where
  nodup : found.Nodup
  mem_iff (i : EntryId) : i ∈ found ↔ ∀ k < n, i ∈ entriesOf lists k
  sublist : found.Sublist order

include hoperands in
/-- **A conjunction is the intersection of its operands, whichever of them drives.**  The operand
drives that comes first by its rank, which is the one with the least estimate unless its own
estimate is unknown while another one is known.  Making the cursor does not fail.  After any moves,
to collect the entries in either direction does not fail either, and it comes, as every full pass
does, to what the lists have in common: each entry once, in the order of the list of the operand
that drives. -/
theorem conjunction_intersects (hpos : 0 < operands.length) :
    ∃ j driver, operands[j]? = some driver ∧ Leads driverRank operands j ∧
      (Leads Operand.expectation operands j ↔
        (driver.estimate = none → ∀ o ∈ operands, o.estimate = none)) ∧
      ∀ t, ∃ s, (conjunction operands).outcome t = .ok (sieve s) ∧ s.driver? = some j ∧
        ∀ c, Reached ctx (sieve s) c → ∀ d,
          (Cursor.collect ctx d).Ensures c
            (fun found _ ↦ Common lists operands.length (d.arrange (entriesOf lists j)) found)
            (fun _ _ ↦ False) ∧
          ∀ found c', Pass ctx d c found c' →
            Common lists operands.length (d.arrange (entriesOf lists j)) found := by
  obtain ⟨driver, j, others, hranked⟩ := Context.exists_ranked hpos
  obtain ⟨hdriver, hleads⟩ := leads_of_ranked hranked
  refine ⟨j, driver, hdriver, hleads, hleads.expectation_iff hdriver, fun t ↦ ?_⟩
  refine ⟨_, by rw [conjunction, hranked]; rfl, rfl, fun c hc d ↦ ?_⟩
  obtain ⟨p, hp, hbehaves⟩ :=
    (behaves_joint hoperands hranked).reached (fun _ hcall ↦ hcall) trivial hc
  have hids : ∀ l : List EntryId, (l.map Candidate.bare).map Candidate.id = l := fun l ↦ by
    rw [List.map_map]
    exact List.map_id l
  have hcommon : Common lists operands.length (d.arrange (entriesOf lists j))
      (d.arrange ((((entriesOf lists j).filter (inAll lists others)).map
        Candidate.bare).map Candidate.id)) := by
    rw [hids]
    refine ⟨?_, fun i ↦ ?_, ?_⟩
    · exact (d.arrange_perm _).nodup_iff.2 ((hoperands j driver hdriver).nodup.filter _)
    · exact (d.arrange_perm _).mem_iff.trans (mem_filter_inAll hranked)
    · rw [d.arrange_filter]
      exact List.filter_sublist
  refine ⟨(hbehaves.collect (fun _ hcall ↦ hcall) hp d).imp ?_, fun found c' hpass ↦ ?_⟩
  · rintro found _ rfl
    exact hcommon
  · rw [hbehaves.pass (fun _ hcall ↦ hcall) hp hpass]
    exact hcommon

/-- Of a list of stored entries, an operand tells the entries from others if the formula of its
evaluator holds of the entries of the list. -/
theorem discerning_ofList {s : Store} {r : Registry} {config : SearchConfig} {e : Evaluator}
    {l : List Candidate} {among : EntryId → Prop} (hnodup : (l.map Candidate.id).Nodup)
    (hl : ∀ c ∈ l, s.Genuine c)
    (he : ∀ i, among i →
      ((e.holds fun t ↦ t.verdict s config i) = true ↔ i ∈ l.map Candidate.id))
    (estimate : Option Nat) :
    Operand.Discerning (s.context r config) s.Genuine among l ⟨ofList l, e, estimate⟩ := by
  refine ⟨hnodup, behaves_ofList _ _ hl, fun c hc hamong ↦ ?_⟩
  refine (e.evaluate_spec hc).imp ?_
  rintro _ c' ⟨rfl, -, hc'⟩
  exact ⟨he c.id hamong, hc'⟩

/-- Three operands over two people.  The first has no estimate and the others have the same, so the
second one drives. -/
theorem conjunction_intersects_people :
    let ctx := Store.people.context .names .standard
    let commonName (rule : Option MatchingRule) : Subject :=
      ⟨.commonName, [], ⟨"1.1", "text", true⟩, rule⟩
    let named : Evaluator := .leaf ⟨⟨"cn", .present⟩, commonName none, .present⟩
    let isBob : Evaluator := .leaf ⟨⟨"cn", .equalTo (.text "bob")⟩,
      commonName (some ⟨"2.1", "caseIgnoreMatch", .squeezedLower, .lexical⟩),
      .equals (.text "bob") .lexical⟩
    let lists : Nat → List Candidate :=
      fun j ↦ [[.bare 2, .bare 1], [.bare 1], [.bare 1, .bare 2]].getD j []
    let operands : List Operand := [⟨ofList (lists 0), named, none⟩,
      ⟨ofList (lists 1), isBob, some 1⟩, ⟨ofList (lists 2), .all [], some 1⟩]
    ∀ t, ∃ s, (conjunction operands).outcome t = .ok (sieve s) ∧ s.driver? = some 1 ∧
      ∀ c, Reached ctx (sieve s) c → ∀ d,
        (Cursor.collect ctx d).Ensures c
          (fun found _ ↦ Common lists 3 (d.arrange [1]) found) (fun _ _ ↦ False) ∧
        ∀ found c', Pass ctx d c found c' → Common lists 3 (d.arrange [1]) found := by
  intro ctx commonName named isBob lists operands t
  have hgenuine : Store.people.Genuine (.bare 1) ∧ Store.people.Genuine (.bare 2) :=
    ⟨⟨Option.isSome_iff_exists.1 (by decide +kernel), nofun⟩,
      ⟨Option.isSome_iff_exists.1 (by decide +kernel), nofun⟩⟩
  have hlisted : ∀ i, Listed lists operands.length i → i = 1 ∨ i = 2 := by
    rintro i ⟨k, -, hi⟩
    rcases k with _ | _ | _ | k
    · exact (List.mem_pair.1 hi).symm
    · exact .inl (List.mem_singleton.1 hi)
    · exact List.mem_pair.1 hi
    · exact absurd hi List.not_mem_nil
  have hoperands : ∀ (j : Nat) (o : Operand), operands[j]? = some o →
      o.Discerning ctx Store.people.Genuine (Listed lists operands.length) (lists j) := by
    intro j o ho
    rcases j with _ | _ | _ | j
    · obtain rfl := Option.some.inj ho
      refine discerning_ofList (by decide) (by simp [lists, hgenuine]) (fun i hi ↦ ?_) _
      rcases hlisted i hi with rfl | rfl <;> decide +kernel
    · obtain rfl := Option.some.inj ho
      refine discerning_ofList (by decide) (by simp [lists, hgenuine]) (fun i hi ↦ ?_) _
      rcases hlisted i hi with rfl | rfl <;> decide +kernel
    · obtain rfl := Option.some.inj ho
      refine discerning_ofList (by decide) (by simp [lists, hgenuine]) (fun i hi ↦ ?_) _
      rcases hlisted i hi with rfl | rfl <;> decide +kernel
    · exact absurd ho (Option.some_ne_none o).symm
  obtain ⟨j, driver, -, hleads, -, hconjunction⟩ :=
    conjunction_intersects hoperands (Nat.zero_lt_succ 2)
  have hsecond : Leads driverRank operands 1 := by
    refine ⟨_, rfl, fun k o ho ↦ ?_⟩
    rcases k with _ | _ | _ | k
    all_goals first
      | obtain rfl := Option.some.inj ho
        simp [driverRank, greatestEstimate, UInt64.size]
      | exact absurd ho (Option.some_ne_none o).symm
  obtain rfl : j = 1 := hleads.unique hsecond
  exact hconjunction t

/-- **An operand without an estimate drives although the estimate of the other one is known.** -/
theorem conjunction_led_by_unknown :
    let ctx : Context := ⟨Store.empty.directory, .empty, .standard⟩
    let lists : Nat → List Candidate := fun j ↦ [[.bare 1, .bare 2], [.bare 2, .bare 1]].getD j []
    let operands : List Operand := [⟨ofList (lists 0), .all [], none⟩,
      ⟨ofList (lists 1), .all [], some greatestEstimate⟩]
    (∀ (j : Nat) (o : Operand), operands[j]? = some o →
      o.Discerning ctx (fun _ ↦ True) (Listed lists operands.length) (lists j)) ∧
    Leads Operand.expectation operands 1 ∧
    ∃ s, (conjunction operands).outcome (.start .warn false) = .ok (sieve s) ∧
      s.driver? = some 0 ∧
      (Cursor.collect ctx .forward).Ensures (sieve s)
        (fun found _ ↦ found = [1, 2] ∧ ¬Common lists 2 (entriesOf lists 1) found)
        fun _ _ ↦ False := by
  intro ctx lists operands
  have hmem : ∀ i k, k < 2 → (i ∈ entriesOf lists k ↔ i = 1 ∨ i = 2) := by
    intro i k hk
    rcases k with _ | _ | k
    · exact List.mem_pair
    · exact List.mem_pair.trans or_comm
    · exact absurd hk (Nat.not_lt.2 (Nat.le_add_left 2 k))
  have hdiscerning : ∀ k, k < 2 → (entriesOf lists k).Nodup → ∀ estimate : Option Nat,
      Operand.Discerning ctx (fun _ ↦ True) (Listed lists operands.length) (lists k)
        ⟨ofList (lists k), .all [], estimate⟩ := by
    intro k hk hnodup estimate
    refine ⟨hnodup, behaves_ofList ctx _ fun _ _ ↦ trivial, ?_⟩
    rintro c - ⟨k', hk', hi⟩
    have hself : c.id ∈ entriesOf lists k := (hmem c.id k hk).2 ((hmem c.id k' hk').1 hi)
    exact Act.ensures_pure ⟨⟨fun _ ↦ hself, fun _ ↦ rfl⟩, trivial⟩
  have hoperands : ∀ (j : Nat) (o : Operand), operands[j]? = some o →
      o.Discerning ctx (fun _ ↦ True) (Listed lists operands.length) (lists j) := by
    intro j o ho
    rcases j with _ | _ | j
    · obtain rfl := Option.some.inj ho
      exact hdiscerning 0 Nat.zero_lt_two (by decide) none
    · obtain rfl := Option.some.inj ho
      exact hdiscerning 1 Nat.one_lt_two (by decide) _
    · exact absurd ho (Option.some_ne_none o).symm
  have hranked : ranked operands = [(operands[0], 0), (operands[1], 1)] :=
    ranked_eq (List.Perm.refl _) (by simp [operands, Precedes, driverRank])
  have hbehaves := behaves_joint hoperands hranked
  refine ⟨hoperands, ?_, _, by rw [conjunction, hranked]; rfl, rfl, ?_⟩
  · refine ⟨_, rfl, fun k o ho ↦ ?_⟩
    rcases k with _ | _ | k
    · obtain rfl := Option.some.inj ho
      exact .inl (WithTop.coe_lt_top greatestEstimate)
    · obtain rfl := Option.some.inj ho
      exact .inr ⟨rfl, Nat.le_refl 1⟩
    · exact absurd ho (Option.some_ne_none o).symm
  · refine (hbehaves.collect (fun _ hcall ↦ hcall) trivial .forward).imp ?_
    intro found _ hfound
    obtain rfl : found = [1, 2] := hfound.trans (by decide)
    refine ⟨rfl, fun hcommon ↦ ?_⟩
    have hsublist : ¬([1, 2] : List EntryId).Sublist [2, 1] := by decide
    exact hsublist hcommon.sublist

end Cursor
end DirectoryQuery
