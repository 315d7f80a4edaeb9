import DirectoryQuery.Proofs.Results
import DirectoryQuery.Search.Basic

/-!
# Searches over a store

A store hands out no monitored cursors, and no move puts a monitor anywhere, so the cursor of a
search can be closed without failure (`Cursor.releaseTree_spec`).  With that, a search over a store
comes to what the operand of its filter lists, and fails only as making the filter ready for use
fails (`Store.search_spec`).
-/

set_option autoImplicit false

namespace DirectoryQuery

variable {σ α : Type} {P : σ → Prop}

/-! ## What moves keep -/

/-- Moves leave things with the property. -/
structure Walker.Keeps (w : Walker σ) (P : σ → Prop) : Prop where
  rewind (d : Direction) : (w.rewind d).Keeps P
  advance (d : Direction) : (w.advance d).Keeps P

variable {w : Walker σ} {ctx : Context}

namespace Walker

theorem Keeps.seekWithin (h : w.Keeps P) (d : Direction) (accept : Act Candidate Bool)
    (moves : Nat) : (w.seekWithin d accept moves).Keeps P := by
  induction moves with
  | zero => exact .pure none
  | succ moves ih =>
    refine .bind (h.advance d) fun found ↦ ?_
    cases found with
    | false => exact .pure none
    | true =>
      refine .bind (.effect _) fun _ ↦ .bind .get fun s ↦ .bind (.except _) fun c ↦ ?_
      refine .bind (.attempt _) fun accepted ↦ ?_
      obtain ⟨accepted, c'⟩ := accepted
      cases accepted with
      | true => exact .pure _
      | false => exact ih

theorem Keeps.seek (h : w.Keeps P) (d : Direction) (accept : Act Candidate Bool) :
    (w.seek d accept).Keeps P :=
  .bind .get fun _ ↦ h.seekWithin d accept _

theorem Keeps.collectWithin (h : w.Keeps P) (d : Direction) (moves : Nat) :
    (w.collectWithin d moves).Keeps P := by
  induction moves with
  | zero => exact .pure []
  | succ moves ih =>
    refine .bind (h.advance d) fun found ↦ ?_
    cases found with
    | false => exact .pure []
    | true => exact .bind .get fun s ↦ .bind (.except _) fun c ↦ .bind ih fun _ ↦ .pure _

theorem Keeps.collect (h : w.Keeps P) (d : Direction) : (w.collect d).Keeps P :=
  .bind (h.rewind d) fun _ ↦ .bind .get fun _ ↦ h.collectWithin d _

end Walker

/-! ## Cursors that are not monitored -/

namespace Sieve

/-- Every cursor within the sieve has the property. -/
def Within (P : σ → Prop) (s : Sieve σ) : Prop := P s.source ∧ ∀ c ∈ s.idle, P c

theorem keeps_onSource {act : Act σ α} (h : act.Keeps P) : (onSource act).Keeps (Within P) :=
  h.within (fun _ hs ↦ hs.1) fun _ _ hs hsource ↦ ⟨hsource, hs.2⟩

theorem keeps (h : w.Keeps P) : (walker w ctx).Keeps (Within P) := by
  have hrewind : ∀ d, (rewind w d).Keeps (Within P) := by
    intro d
    refine .bind .get fun s ↦ .bind (.except _) fun _ ↦ ?_
    exact .bind (keeps_onSource (h.rewind d)) fun _ ↦ .modify fun _ hs ↦ hs
  refine ⟨hrewind, fun d ↦ .bind .get fun s ↦ .bind (.except _) fun _ ↦ ?_⟩
  have hrest : (do
      let found ← onSource (w.seek d (s.acceptance.accept ctx))
      if found.isSome then tally .emitted
      moveTo (.reached d found)
      return found.isSome : Act (Sieve σ) Bool).Keeps (Within P) := by
    refine .bind (keeps_onSource (h.seek d _)) fun found ↦ ?_
    cases found with
    | none => exact .bind (.modify fun _ hs ↦ hs) fun _ ↦ .pure _
    | some c => exact .bind (.effect _) fun _ ↦ .bind (.modify fun _ hs ↦ hs) fun _ ↦ .pure _
  cases s.standing.position.isUnpositioned with
  | true => exact .bind (keeps_onSource (h.rewind d)) fun _ ↦ hrest
  | false => exact hrest

end Sieve

namespace Relay

/-- Every cursor within the relay has the property. -/
def Within (P : σ → Prop) (r : Relay σ) : Prop := ∀ c ∈ r.sources, P c

theorem keeps_onActive {otherwise : α} {act : Act σ α} (h : act.Keeps P) :
    (onActive otherwise act).Keeps (Within P) := by
  intro r hr
  cases hsource : r.sources[r.active]? with
  | none => exact ensures_onActive_none hsource hr
  | some source =>
    have hmem : source ∈ r.sources := List.mem_of_getElem? hsource
    have hset : ∀ s, P s → Within P { r with sources := r.sources.set r.active s } := by
      intro s hs c hc
      rcases List.mem_or_eq_of_mem_set hc with hc | rfl
      · exact hr c hc
      · exact hs
    exact ensures_onActive hsource ((h source (hr source hmem)).mono (fun _ s hs ↦ hset s hs)
      fun _ s hs ↦ hset s hs)

theorem keeps_announce {P : Relay σ → Prop} (hP : ∀ r j i, P r → P (r.skip j i)) (js : List Nat)
    (c : Candidate) : (announce ctx js c : Act (Relay σ) Candidate).Keeps P := by
  induction js generalizing c with
  | nil => exact .pure c
  | cons j js ih =>
    refine .bind .get fun r ↦ ?_
    cases r.lanes[j]? with
    | none => exact ih c
    | some lane =>
      refine .bind (.attempt _) fun accepted ↦ ?_
      obtain ⟨accepted, c'⟩ := accepted
      cases accepted with
      | true => exact .bind (.modify fun r hr ↦ hP r _ _ hr) fun _ ↦ ih c'
      | false => exact ih c'

theorem keeps_activate (h : w.Keeps P) (d : Direction) (j : Nat) :
    (activate w d j).Keeps (Within P) :=
  .bind (.modify fun _ hr ↦ hr) fun _ ↦ keeps_onActive (h.rewind d)

theorem keeps_seekActive (h : w.Keeps P) (d : Direction) :
    (seekActive w ctx d).Keeps (Within P) := by
  refine .bind .get fun r ↦ .bind (keeps_onActive (h.seek d _)) fun found ↦ ?_
  cases found with
  | none => exact .pure none
  | some c => exact .bind (keeps_announce (fun _ _ _ hr ↦ hr) _ c) fun _ ↦ .pure _

theorem keeps_sweep (h : w.Keeps P) (d : Direction) (fuel : Nat) :
    (sweep w ctx d fuel).Keeps (Within P) := by
  induction fuel with
  | zero => exact .pure none
  | succ fuel ih =>
    refine .bind (keeps_seekActive h d) fun found ↦ ?_
    cases found with
    | some c => exact .pure _
    | none =>
      refine .bind .get fun r ↦ ?_
      cases r.nextOperand? d with
      | none => exact .pure none
      | some j => exact .bind (keeps_activate h d j) fun _ ↦ ih

theorem keeps_rewind (h : w.Keeps P) (d : Direction) : (rewind w d).Keeps (Within P) := by
  refine .bind .get fun r ↦ .bind (.except _) fun _ ↦ ?_
  exact .bind (keeps_activate h d _) fun _ ↦ .modify fun _ hr ↦ hr

theorem keeps (h : w.Keeps P) : (walker w ctx).Keeps (Within P) := by
  refine ⟨keeps_rewind h, fun d ↦ .bind .get fun r ↦ .bind (.except _) fun _ ↦ ?_⟩
  have hrest : (do
      let found ← sweep w ctx d r.size
      if found.isSome then tally .emitted
      moveTo (.reached d found)
      return found.isSome : Act (Relay σ) Bool).Keeps (Within P) := by
    refine .bind (keeps_sweep h d _) fun found ↦ ?_
    cases found with
    | none => exact .bind (.modify fun _ hr ↦ hr) fun _ ↦ .pure _
    | some c => exact .bind (.effect _) fun _ ↦ .bind (.modify fun _ hr ↦ hr) fun _ ↦ .pure _
  cases r.standing.position.isUnpositioned with
  | true => exact .bind (keeps_rewind h d) fun _ ↦ hrest
  | false => exact hrest

end Relay

namespace Cursor

mutual
/-- Neither the cursor nor any within it is monitored. -/
def Plain : Cursor → Prop
  | reel r => r.monitor = none
  | monitored _ _ => False
  | sieve ⟨_, source, idle, _⟩ => Plain source ∧ PlainEach idle
  | relay ⟨sources, _, _, _⟩ => PlainEach sources
/-- None of the cursors is monitored. -/
def PlainEach : List Cursor → Prop
  | [] => True
  | c :: cs => Plain c ∧ PlainEach cs
end

theorem plainEach_iff {cs : List Cursor} : PlainEach cs ↔ ∀ c ∈ cs, c.Plain := by
  induction cs with
  | nil => exact ⟨fun _ c hc ↦ absurd hc List.not_mem_nil, fun _ ↦ trivial⟩
  | cons c cs ih => rw [PlainEach, ih, List.forall_mem_cons]

theorem plain_sieve {s : Sieve Cursor} : Plain (sieve s) ↔ s.Within Plain :=
  and_congr_right fun _ ↦ plainEach_iff

theorem plain_relay {r : Relay Cursor} : Plain (relay r) ↔ r.Within Plain := plainEach_iff

/-- The property is one of cursors over lists, and of sieves and relays that are made of cursors
with the property. -/
structure Compositional (Q : Cursor → Prop) : Prop where
  reel (cs : List Candidate) : Q (reel (.ofList cs))
  sieve (x : Acceptance) {source : Cursor} {idle : List Cursor} :
    Q source → (∀ c ∈ idle, Q c) → Q (sieve (.fresh x source idle))
  relay {operands : List (Cursor × Evaluator)} :
    (∀ o ∈ operands, Q o.1) → Q (relay (.fresh operands))

theorem Compositional.over {Q : Cursor → Prop} (hQ : Compositional Q) (x : Acceptance)
    (cs : List Candidate) : Q (.sieve (.fresh x (.reel (.ofList cs)) [])) :=
  hQ.sieve x (hQ.reel cs) fun _ hc ↦ absurd hc List.not_mem_nil

theorem compositional_plain : Compositional Plain where
  reel _ := rfl
  sieve _ _ _ hsource hidle := ⟨hsource, plainEach_iff.2 hidle⟩
  relay h := plainEach_iff.2 (List.forall_mem_map.2 h)

/-- To move a cursor of one kind is to move what it is made of. -/
theorem ensures_made {act : Act σ α} {s : σ} {make : σ → Cursor} {Q : Cursor → Prop}
    (h : act.Keeps P) (hs : P s) (hmake : ∀ s, P s → Q (make s)) :
    Effect.Ensures (do let (outcome, s') ← act.perform s; return (outcome, make s'))
      fun r ↦ Meets (fun _ ↦ Q r.2) (fun _ ↦ Q r.2) r.1 := by
  refine Effect.ensures_bind (Effect.Ensures.mono (h s hs) ?_)
  rintro ⟨outcome, s'⟩ hs'
  refine Effect.ensures_pure (hs'.mono ?_ ?_)
  · exact fun _ ↦ hmake s'
  · exact fun _ ↦ hmake s'

/-- What moves of the cursors within keep, moves of the whole keep, if the whole has the one
property when the cursors within have the other. -/
theorem keeps_succ {Q Q' : Cursor → Prop} {n : Nat} (h : (walker ctx n).Keeps Q)
    (hreel : Reel.walker.Keeps fun r ↦ Q' (reel r))
    (hmonitored : ∀ m c, Q' (monitored m c) → Q c ∧ ∀ m' c', Q c' → Q' (monitored m' c'))
    (hsieve : ∀ s, Q' (sieve s) ↔ s.Within Q) (hrelay : ∀ r, Q' (relay r) ↔ r.Within Q) :
    (walker ctx (n + 1)).Keeps Q' := by
  have hs : (Sieve.walker (walker ctx n) ctx).Keeps (Sieve.Within Q) := Sieve.keeps h
  have hr : (Relay.walker (walker ctx n) ctx).Keeps (Relay.Within Q) := Relay.keeps h
  refine ⟨fun d c hc ↦ ?_, fun d c hc ↦ ?_⟩
  · cases c with
    | reel r => exact ensures_made (hreel.rewind d) hc fun _ ↦ id
    | monitored m inner =>
      obtain ⟨hinner, hmade⟩ := hmonitored m inner hc
      exact ensures_made (h.rewind d) hinner (hmade m)
    | sieve s =>
      exact ensures_made (hs.rewind d) ((hsieve s).1 hc) fun s' ↦ (hsieve s').2
    | relay r =>
      exact ensures_made (hr.rewind d) ((hrelay r).1 hc) fun r' ↦ (hrelay r').2
  · cases c with
    | reel r => exact ensures_made (hreel.advance d) hc fun _ ↦ id
    | monitored m inner =>
      obtain ⟨hinner, hmade⟩ := hmonitored m inner hc
      rw [Act.Ensures, advance_monitored]
      cases m.refusal? with
      | none => exact ensures_made (h.advance d) hinner (hmade m.counted)
      | some e => exact Effect.ensures_pure (hmade m.counted inner hinner)
    | sieve s =>
      exact ensures_made (hs.advance d) ((hsieve s).1 hc) fun s' ↦ (hsieve s').2
    | relay r =>
      exact ensures_made (hr.advance d) ((hrelay r).1 hc) fun r' ↦ (hrelay r').2

theorem keeps_onListing (act : Act Listing α) :
    (Reel.onListing act).Keeps fun r ↦ r.monitor = none :=
  fun _ hr ↦ Reel.ensures_onListing (Act.ensures_of_forall (fun _ _ ↦ hr) fun _ _ ↦ hr)

theorem keeps_reel : Reel.walker.Keeps fun r ↦ r.monitor = none := by
  refine ⟨fun d ↦ keeps_onListing _, fun d r hr ↦ ?_⟩
  have hcounted : (Reel.mk r.listing (r.monitor.map Monitor.counted)).monitor = none := by
    rw [hr]
    rfl
  refine Act.ensures_bind (Act.ensures_get (Act.ensures_bind (Act.ensures_set ?_)))
  cases r.monitor.bind Monitor.refusal? with
  | none => exact keeps_onListing _ _ hcounted
  | some e => exact Act.ensures_throw hcounted

/-- **Moves put no monitor anywhere.** -/
theorem walker_keeps (ctx : Context) (n : Nat) : (walker ctx n).Keeps Plain := by
  induction n with
  | zero => exact ⟨fun _ ↦ .pure (), fun _ ↦ .pure false⟩
  | succ n ih =>
    exact keeps_succ ih keeps_reel (fun _ _ hc ↦ hc.elim) (fun _ ↦ plain_sieve) fun _ ↦ plain_relay

/-! ## Closing -/

mutual
/-- **A cursor that is not monitored is closed without failure.** -/
theorem releaseTree_spec (cause : Option SearchError) : ∀ c : Cursor, c.Plain →
    Effect.Ensures (releaseTree cause c) fun r ↦ r.1 = .ok ()
  | reel r, hc => by
    refine Effect.ensures_bind (Effect.Ensures.mono (Reel.release_spec hc cause) ?_)
    rintro ⟨outcome, r'⟩ houtcome
    cases outcome with
    | ok => exact Effect.ensures_pure rfl
    | error e => exact houtcome.elim
  | monitored m inner, hc => hc.elim
  | sieve ⟨acceptance, source, idle, standing⟩, ⟨hsource, hidle⟩ => by
    rw [releaseTree]
    split
    · exact Effect.ensures_pure rfl
    · refine Effect.ensures_bind (Effect.Ensures.mono (ensures_note _ _) fun _ _ ↦ ?_)
      refine Effect.ensures_bind (Effect.Ensures.mono (releaseTree_spec cause source hsource) ?_)
      rintro ⟨outcome, source'⟩ rfl
      have hrest : Effect.Ensures (do
          let (others, idle) ← releaseTrees cause idle
          let closed := sieve ⟨acceptance, source', idle, standing.close cause⟩
          return (do Except.ok (); others, closed) : Effect (Except SearchError Unit × Cursor))
          fun r ↦ r.1 = .ok () := by
        refine Effect.ensures_bind (Effect.Ensures.mono (releaseTrees_spec cause idle hidle) ?_)
        rintro ⟨others, idle'⟩ rfl
        exact Effect.ensures_pure rfl
      cases acceptance.readsIndex with
      | true => exact hrest
      | false => exact hrest
  | relay ⟨sources, lanes, active, standing⟩, hsources => by
    rw [releaseTree]
    split
    · exact Effect.ensures_pure rfl
    · refine Effect.ensures_bind (Effect.Ensures.mono (ensures_note _ _) fun _ _ ↦ ?_)
      refine Effect.ensures_bind (Effect.Ensures.mono (releaseTrees_spec cause sources hsources) ?_)
      rintro ⟨outcome, sources'⟩ rfl
      exact Effect.ensures_pure rfl
theorem releaseTrees_spec (cause : Option SearchError) : ∀ cs : List Cursor, PlainEach cs →
    Effect.Ensures (releaseTrees cause cs) fun r ↦ r.1 = .ok ()
  | [], _ => Effect.ensures_pure rfl
  | c :: cs, ⟨hc, hcs⟩ => by
    rw [releaseTrees]
    refine Effect.ensures_bind (Effect.Ensures.mono (releaseTree_spec cause c hc) ?_)
    rintro ⟨outcome, c'⟩ rfl
    refine Effect.ensures_bind (Effect.ensures_pure (a := ()) ?_)
    refine Effect.ensures_bind (Effect.Ensures.mono (releaseTrees_spec cause cs hcs) ?_)
    rintro ⟨others, cs'⟩ rfl
    exact Effect.ensures_pure rfl
end

end Cursor

/-! ## Searches -/

variable {s : Store} {r : Registry} {config : SearchConfig}

namespace Context

variable {Q : Cursor → Prop}

theorem PlannedLeaf.made (hQ : Cursor.Compositional Q) {t : Test} {o : Operand}
    (h : (s.context r config).PlannedLeaf t o) : Q o.cursor := by
  cases h with
  | keyed hx hkey hreel =>
    rw [Store.sourceIndex?_context, Option.map_eq_some_iff] at hx
    obtain ⟨x, -, rfl⟩ := hx
    obtain rfl := Except.ok.inj hreel
    exact hQ.over _ _
  | indexed hx hkey hreverse hreel =>
    rw [Store.sourceIndex?_context, Option.map_eq_some_iff] at hx
    obtain ⟨x, -, rfl⟩ := hx
    obtain rfl := Except.ok.inj hreel
    exact hQ.over _ _
  | scanned hx hreel =>
    obtain rfl := Except.ok.inj hreel
    exact hQ.over _ _

mutual
/-- What holds of everything made of lists holds of the cursors that are planned over a store. -/
theorem Planned.made (hQ : Cursor.Compositional Q) : ∀ {e : Evaluator} {o : Operand},
    (s.context r config).Planned e o → Q o.cursor
  | .all [], _, ho => by
    rw [Planned] at ho
    obtain ⟨reel, hreel, rfl⟩ := ho
    obtain rfl := Except.ok.inj hreel
    exact hQ.over _ _
  | .all [part], _, ho => by
    rw [Planned] at ho
    exact ho.made hQ
  | .all (first :: second :: rest), _, ho => by
    rw [Planned] at ho
    obtain ⟨operands, driver, position, others, hplanned, hranked, rfl⟩ := ho
    have hmem : ∀ o ∈ (driver, position) :: others, Q o.1.cursor := by
      intro o ho
      rw [← hranked] at ho
      exact hplanned.made hQ _ (mem_of_mem_ranked ho)
    refine hQ.sieve _ (hmem _ List.mem_cons_self) fun c hc ↦ ?_
    obtain ⟨o, ho, rfl⟩ := List.mem_map.1 hc
    exact hmem o (List.mem_cons_of_mem _ ho)
  | .any [], _, ho => by
    rw [Planned] at ho
    rw [ho]
    exact hQ.reel []
  | .any [part], _, ho => by
    rw [Planned] at ho
    exact ho.made hQ
  | .any (first :: second :: rest), _, ho => by
    rw [Planned] at ho
    obtain ⟨operands, hplanned, rfl⟩ := ho
    exact hQ.relay (List.forall_mem_map.2 (hplanned.made hQ))
  | .not part, _, ho => by
    rw [Planned] at ho
    obtain ⟨reel, hreel, rfl⟩ := ho
    obtain rfl := Except.ok.inj hreel
    exact hQ.over _ _
  | .leaf t, _, ho => by
    rw [Planned] at ho
    exact PlannedLeaf.made hQ ho
theorem PlannedEach.made (hQ : Cursor.Compositional Q) :
    ∀ {parts : List Evaluator} {operands : List Operand},
      (s.context r config).PlannedEach parts operands → ∀ o ∈ operands, Q o.cursor
  | [], _, ho => by
    rw [PlannedEach] at ho
    rw [ho]
    exact fun o ho ↦ absurd ho List.not_mem_nil
  | part :: parts, _, ho => by
    rw [PlannedEach] at ho
    obtain ⟨first, rest, rfl, hfirst, hrest⟩ := ho
    exact List.forall_mem_cons.2 ⟨hfirst.made hQ, hrest.made hQ⟩
end

/-- The cursors that are planned over a store are not monitored. -/
theorem Planned.plain {e : Evaluator} {o : Operand} (ho : (s.context r config).Planned e o) :
    o.cursor.Plain :=
  ho.made Cursor.compositional_plain

end Context

namespace Store

theorem not_fails (s : Store) (r : Registry) (config : SearchConfig) (e : SearchError) :
    ¬(s.context r config).Fails e := by
  rintro ⟨cause, -, hevery | ⟨t, x, hx, hx'⟩⟩
  · exact nomatch hevery
  · obtain ⟨x, -, rfl⟩ := Option.map_eq_some_iff.1 hx
    rcases hx' with hforward | ⟨key, hkey⟩
    · exact nomatch hforward
    · exact nomatch hkey

/-- To collect with an operand's cursor reads off what the operand lists. -/
theorem collect_spec {o : Operand} {d : Direction} {l : List EntryId}
    (hserves : o.Serves s r config d l) (hplain : o.cursor.Plain) :
    (Cursor.collect (s.context r config) d).Ensures o.cursor (fun ids c ↦ ids = l ∧ c.Plain)
      fun _ _ ↦ False := by
  have hident : ∀ i c, Stands s.Genuine i c → c.id = id i := fun _ _ hc ↦ hc.1
  have hcollect := Walker.collect_spec hident (hserves _ (Nat.le_refl _))
  have hkeeps := (Cursor.walker_keeps (s.context r config) o.cursor.height).collect d
  refine Act.ensures_bind (Act.ensures_get ((hcollect.and (hkeeps _ hplain)).mono ?_ ?_))
  · intro ids c hpost
    obtain ⟨hids, hc⟩ := hpost
    rw [List.map_id] at hids
    exact ⟨hids, hc⟩
  · exact fun _ _ he ↦ he.1

/-- A search fails only as planning does, and otherwise comes to what the planned operand lists. -/
theorem search_of_plan {f : Filter} {d : Direction} {P : Operand → Prop}
    {Q : List EntryId → Prop} {E : SearchError → Prop}
    (hplan : Attempt.Ensures ((s.context r config).plan f) P E)
    (hserves : ∀ o, P o → o.cursor.Plain ∧ ∃ l, o.Serves s r config d l ∧ Q l)
    (searchId : String) : Attempt.Ensures ((s.context r config).search searchId f d) Q E := by
  refine Attempt.ensures_bind (Attempt.ensures_effect fun _ ↦ ?_)
  refine Attempt.ensures_bind (hplan.mono (fun o ho ↦ ?_) fun _ he ↦ he)
  obtain ⟨hplain, l, hl, hQ⟩ := hserves o ho
  refine Attempt.ensures_bind (Attempt.ensures_effect
    (Effect.Ensures.mono (collect_spec hl hplain) ?_))
  rintro ⟨outcome, cursor⟩ houtcome
  cases outcome with
  | error err => exact houtcome.elim
  | ok ids =>
    obtain ⟨rfl, hplain⟩ := houtcome
    refine Attempt.ensures_bind (Attempt.ensures_effect
      (Effect.Ensures.mono (Cursor.releaseTree_spec none cursor hplain) ?_))
    rintro ⟨closing, cursor'⟩ rfl
    refine Attempt.ensures_bind (Attempt.ensures_except (o := .ok ()) ?_)
    exact Attempt.ensures_bind (Attempt.ensures_effect fun _ ↦ Attempt.ensures_pure hQ)

/-- Over a store planning fails only as making the filter ready for use fails. -/
theorem plan_planned (s : Store) (r : Registry) (config : SearchConfig) (f : Filter) :
    Attempt.Ensures ((s.context r config).plan f)
      (fun o ↦ ∃ e, f.toEvaluator r = .ok e ∧ (s.context r config).Planned e o)
      fun err ↦ f.toEvaluator r = .error err :=
  (Context.plan_spec _ f).mono (fun _ ho ↦ ho) fun _ herr ↦
    herr.resolve_right (s.not_fails r config _)

/-- There is an operand for every filter that makes sense to the schema. -/
theorem plan_eq_ok {f : Filter} {e : Evaluator} (he : f.toEvaluator r = .ok e) (t : Trace) :
    ∃ o, Attempt.outcome ((s.context r config).plan f) t = .ok o := by
  have hplan := (s.plan_planned r config f).outcome t
  cases ho : Attempt.outcome ((s.context r config).plan f) t with
  | ok o => exact ⟨o, rfl⟩
  | error err =>
    rw [ho] at hplan
    exact nomatch he.symm.trans hplan

/-- **A search over a store fails only as making its filter ready for use fails, and otherwise comes
to what the operand of the filter lists.** -/
theorem search_spec (h : s.Consistent) (r : Registry) (config : SearchConfig) (searchId : String)
    (f : Filter) (d : Direction) :
    Attempt.Ensures ((s.context r config).search searchId f d)
      (fun ids ↦ ∃ e, f.toEvaluator r = .ok e ∧ s.Lists config d e ids)
      fun err ↦ f.toEvaluator r = .error err := by
  refine search_of_plan (s.plan_planned r config f) ?_ searchId
  rintro o ⟨e, he, ho⟩
  obtain ⟨l, hserves, hlists⟩ := ho.serves h (d := d)
  exact ⟨ho.plain, l, hserves, e, he, hlists⟩

/-- A search whose filter makes sense to the schema succeeds. -/
theorem search_eq_ok (h : s.Consistent) (config : SearchConfig) (searchId : String) {f : Filter}
    (d : Direction) {e : Evaluator} (he : f.toEvaluator r = .ok e) (t : Trace) :
    ∃ ids, Attempt.outcome ((s.context r config).search searchId f d) t = .ok ids ∧
      s.Lists config d e ids := by
  have hsearch := (search_spec h r config searchId f d).outcome t
  cases houtcome : Attempt.outcome ((s.context r config).search searchId f d) t with
  | error err =>
    rw [houtcome] at hsearch
    exact nomatch he.symm.trans hsearch
  | ok ids =>
    rw [houtcome] at hsearch
    obtain ⟨e', he', hlists⟩ := hsearch
    obtain rfl := Except.ok.inj (he.symm.trans he')
    exact ⟨ids, rfl, hlists⟩

end Store
end DirectoryQuery
