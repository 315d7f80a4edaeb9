import DirectoryQuery.Proofs.Passes
import DirectoryQuery.Proofs.Steadiness

/-!
# What the operands of a disjunction are told

When an operand comes up with an entry, the others are asked about it one after the other
(`Relay.ask`), and whoever accepts it is told at once to skip it.  If one of them fails, the move
fails, and yet those that were asked before have been told (`Relay.announce_ask`).

So a move tells nobody anything, or else it comes up with one candidate and those are told that have
accepted it (`Relay.Comes`, `Relay.advance_comes`).  Nothing is assumed of the operands: their
cursors and evaluators may be any, and may fail at any time.
-/

set_option autoImplicit false

namespace DirectoryQuery

variable {σ : Type} {w : Walker σ} {ctx : Context} {d : Direction}

/-- A candidate that is found need not be skipped, and the cursor stands on it. -/
theorem Walker.seek_unlessSkipped (w : Walker σ) (d : Direction)
    (skipped : Std.ExtTreeSet EntryId) (s : σ) :
    (w.seek d (Relay.unlessSkipped skipped)).Ensures s
      (fun found s' ↦ ∀ c, found = some c → w.current s' = .ok c ∧ skipped.contains c.id = false)
      fun _ _ ↦ True := by
  refine Act.ensures_bind (Act.ensures_get ?_)
  generalize w.extent s + 1 = moves
  induction moves generalizing s with
  | zero => exact Act.ensures_pure nofun
  | succ moves ih =>
    refine Act.ensures_bind (Act.ensures_of_forall (fun found s' ↦ ?_) fun _ _ ↦ trivial)
    cases found with
    | false => exact Act.ensures_pure nofun
    | true =>
      refine Act.ensures_bind (Act.ensures_tally (Act.ensures_bind (Act.ensures_get ?_)))
      refine Act.ensures_except_bind (fun _ _ ↦ trivial) fun c hc ↦ ?_
      refine Act.ensures_bind (Act.ensures_attempt (Act.ensures_on ?_))
      refine (Relay.unlessSkipped_spec skipped c).mono ?_ fun _ _ hfalse ↦ hfalse.elim
      rintro passed c' ⟨rfl, rfl⟩
      cases hskip : skipped.contains c'.id with
      | true => exact ih s'
      | false =>
        refine Act.ensures_pure ?_
        rintro _ ⟨⟩
        exact ⟨hc, hskip⟩

namespace Relay

variable {r r' r₁ : Relay σ}

/-! ## Asking -/

/-- Asks the operands `js` about a candidate one after the other until one fails: those that accept
it, and how the asking ends. -/
def ask (ctx : Context) (evaluators : List Evaluator) :
    List Nat → Candidate → List Nat × Except SearchError Candidate
  | [], c => ([], .ok c)
  | j :: js, c =>
    match evaluators[j]? with
    | none => ask ctx evaluators js c
    | some e =>
      match (e.evaluate ctx).outcome c with
      | (.ok true, c') => (j :: (ask ctx evaluators js c').1, (ask ctx evaluators js c').2)
      | (.ok false, c') => ask ctx evaluators js c'
      | (.error err, _) => ([], .error err)

/-- The evaluators of the operands. -/
def evaluators (r : Relay σ) : List Evaluator := r.lanes.map Lane.evaluator

/-- What comes of asking the operands that are not being traversed. -/
def asked (ctx : Context) (r : Relay σ) (c : Candidate) : List Nat × Except SearchError Candidate :=
  ask ctx r.evaluators r.inactive c

/-- The relay with one more entry that some operands have to skip. -/
def skipEach (r : Relay σ) (js : List Nat) (x : EntryId) : Relay σ :=
  js.foldl (fun r j ↦ r.skip j x) r

section Ask

variable {evaluators : List Evaluator} {e : Evaluator} {j : Nat} {js : List Nat} {c c' : Candidate}

theorem ask_absent (h : evaluators[j]? = none) :
    ask ctx evaluators (j :: js) c = ask ctx evaluators js c := by
  simp [ask, h]

theorem ask_accepted (h : evaluators[j]? = some e)
    (houtcome : (e.evaluate ctx).outcome c = (.ok true, c')) :
    ask ctx evaluators (j :: js) c =
      (j :: (ask ctx evaluators js c').1, (ask ctx evaluators js c').2) := by
  simp [ask, h, houtcome]

theorem ask_rejected (h : evaluators[j]? = some e)
    (houtcome : (e.evaluate ctx).outcome c = (.ok false, c')) :
    ask ctx evaluators (j :: js) c = ask ctx evaluators js c' := by
  simp [ask, h, houtcome]

theorem ask_failed (h : evaluators[j]? = some e) {err : SearchError}
    (houtcome : (e.evaluate ctx).outcome c = (.error err, c')) :
    ask ctx evaluators (j :: js) c = ([], .error err) := by
  simp [ask, h, houtcome]

/-- Only operands that were asked can accept. -/
theorem mem_ask {k : Nat} (h : k ∈ (ask ctx evaluators js c).1) :
    k ∈ js ∧ k < evaluators.length := by
  induction js generalizing c with
  | nil => exact absurd h List.not_mem_nil
  | cons j js ih =>
    cases he : evaluators[j]? with
    | none =>
      rw [ask_absent he] at h
      exact (ih h).imp_left (List.mem_cons_of_mem j)
    | some e =>
      rcases houtcome : (e.evaluate ctx).outcome c with ⟨err | _ | _, c'⟩
      · rw [ask_failed he houtcome] at h
        exact absurd h List.not_mem_nil
      · rw [ask_rejected he houtcome] at h
        exact (ih h).imp_left (List.mem_cons_of_mem j)
      · rw [ask_accepted he houtcome] at h
        rcases List.mem_cons.1 h with rfl | h
        · exact ⟨List.mem_cons_self, (List.getElem?_eq_some_iff.1 he).1⟩
        · exact (ih h).imp_left (List.mem_cons_of_mem j)

/-- To ask about a candidate keeps it the same entry. -/
theorem ask_id (h : (ask ctx evaluators js c).2 = .ok c') : c'.id = c.id := by
  induction js generalizing c with
  | nil => exact congrArg Candidate.id (Except.ok.inj h).symm
  | cons j js ih =>
    cases he : evaluators[j]? with
    | none =>
      rw [ask_absent he] at h
      exact ih h
    | some e =>
      have hid : ((e.evaluate ctx).outcome c).2.id = c.id :=
        (e.evaluate_id ctx c).changed (P := fun c' : Candidate ↦ c'.id = c.id) _
      rcases houtcome : (e.evaluate ctx).outcome c with ⟨err | _ | _, c₁⟩
      · rw [ask_failed he houtcome] at h
        exact nomatch h
      · rw [ask_rejected he houtcome] at h
        rw [houtcome] at hid
        exact (ih h).trans hid
      · rw [ask_accepted he houtcome] at h
        rw [houtcome] at hid
        exact (ih h).trans hid

end Ask

theorem evaluators_skip (r : Relay σ) (j : Nat) (x : EntryId) :
    (r.skip j x).evaluators = r.evaluators :=
  (told_skip r j x).evaluators

theorem skipEach_cons (r : Relay σ) (j : Nat) (js : List Nat) (x : EntryId) :
    r.skipEach (j :: js) x = (r.skip j x).skipEach js x := rfl

/-- Nothing but what operands have to skip is new. -/
theorem told_skipEach (r : Relay σ) (js : List Nat) (x : EntryId) :
    Told js x r (r.skipEach js x) := by
  induction js generalizing r with
  | nil => exact .refl _ _ _
  | cons j js ih =>
    have hone : Told (j :: js) x r (r.skip j x) :=
      (told_skip r j x).mono (List.cons_subset_cons j (List.nil_subset js))
    exact hone.trans ((ih (r.skip j x)).mono (List.subset_cons_self _ _))

/-- Who was told what does not matter to what comes of asking. -/
theorem Told.asked_eq {js : List Nat} {x : EntryId} (h : Told js x r r') (ctx : Context)
    (c : Candidate) : r'.asked ctx c = r.asked ctx c := by
  have hevaluators : r'.evaluators = r.evaluators := h.evaluators
  have hinactive : r'.inactive = r.inactive := by
    rw [inactive, inactive, h.length_lanes, h.active]
  rw [asked, asked, hevaluators, hinactive]

theorem skips_skipEach {js : List Nat} (hjs : ∀ j ∈ js, j < r.lanes.length) (x : EntryId) (j : Nat)
    (i : EntryId) :
    (r.skipEach js x).skips j i = (r.skips j i || (js.contains j && x == i)) := by
  induction js generalizing r with
  | nil => simp [skipEach]
  | cons k js ih =>
    obtain ⟨hk, hjs⟩ := List.forall_mem_cons.1 hjs
    rw [← (told_skip r k x).length_lanes] at hjs
    rw [skipEach_cons, ih hjs, skips_skip]
    by_cases hkj : j = k
    · subst hkj
      simp [hk]
      grind
    · have hne : (k == j) = false := beq_eq_false_iff_ne.2 (Ne.symm hkj)
      simp [hkj, hne]

/-- To announce a candidate is to ask about it and to tell those that accept it. -/
theorem announce_ask (ctx : Context) (js : List Nat) (c : Candidate) (r : Relay σ) :
    (announce ctx js c).Ensures r
      (fun c' r' ↦ (ask ctx r.evaluators js c).2 = .ok c' ∧
        r' = r.skipEach (ask ctx r.evaluators js c).1 c.id)
      fun e r' ↦ (ask ctx r.evaluators js c).2 = .error e ∧
        r' = r.skipEach (ask ctx r.evaluators js c).1 c.id := by
  induction js generalizing r c with
  | nil => exact Act.ensures_pure ⟨rfl, rfl⟩
  | cons j js ih =>
    refine Act.ensures_bind (Act.ensures_get ?_)
    have hget : r.evaluators[j]? = r.lanes[j]?.map Lane.evaluator := List.getElem?_map
    cases hlane : r.lanes[j]? with
    | none =>
      rw [hlane] at hget
      rw [ask_absent hget]
      exact ih c r
    | some lane =>
      rw [hlane] at hget
      refine Act.ensures_bind (Act.ensures_attempt (Act.ensures_on ?_))
      refine (((lane.evaluator.steady_evaluate ctx).ensures c).and
        (lane.evaluator.evaluate_id ctx c)).mono ?_ ?_
      · rintro accepted c' ⟨houtcome, hid⟩
        cases accepted with
        | true =>
          rw [ask_accepted hget houtcome, skipEach_cons, ← hid, ← evaluators_skip r j c'.id]
          exact Act.ensures_bind (Act.ensures_modify (ih c' _))
        | false =>
          rw [ask_rejected hget houtcome, ← hid]
          exact ih c' r
      · rintro e c' ⟨houtcome, -⟩
        rw [ask_failed hget houtcome]
        exact ⟨rfl, rfl⟩

/-! ## Coming up with an entry -/

/-- On the way from `r` to `r'` the relay comes up with the candidate: its active operand stands on
it and need not skip it, and of the others those that accept it are told to skip the entry. -/
structure Raises (current : σ → Except SearchError Candidate) (ctx : Context) (r r' : Relay σ)
    (c : Candidate) : Prop where
  stands : ∃ source, r'.sources[r'.active]? = some source ∧ current source = .ok c
  unskipped : r.skips r'.active c.id = false
  skips (j : Nat) (i : EntryId) :
    r'.skips j i = (r.skips j i || ((r'.asked ctx c).1.contains j && c.id == i))

/-- What was done from `r` to `r'` comes to the outcome: it tells nobody anything and finds nothing,
or it comes up with a candidate, and the outcome is that of asking about it. -/
def Comes (current : σ → Except SearchError Candidate) (ctx : Context) (r : Relay σ)
    (o : Except SearchError (Option Candidate)) (r' : Relay σ) : Prop :=
  (r'.lanes = r.lanes ∧ ∀ c, o ≠ .ok (some c)) ∨
    ∃ c, Raises current ctx r r' c ∧ (r'.asked ctx c).2.map some = o

theorem skips_of_lanes (h : r'.lanes = r.lanes) (j : Nat) (i : EntryId) :
    r'.skips j i = r.skips j i := by
  rw [skips, skips, skippedBy?, skippedBy?, h]

/-- Only what the operands had to skip before matters. -/
theorem Raises.of_lanes {current : σ → Except SearchError Candidate} {c : Candidate}
    (h : Raises current ctx r₁ r' c) (hlanes : r₁.lanes = r.lanes) : Raises current ctx r r' c := by
  have hskips := skips_of_lanes hlanes
  exact ⟨h.stands, (hskips _ _).symm.trans h.unskipped, fun j i ↦ hskips j i ▸ h.skips j i⟩

theorem Comes.of_lanes {current : σ → Except SearchError Candidate}
    {o : Except SearchError (Option Candidate)} (h : Comes current ctx r₁ o r')
    (hlanes : r₁.lanes = r.lanes) : Comes current ctx r o r' := by
  rcases h with ⟨hsame, hnone⟩ | ⟨c, hc, ho⟩
  · exact .inl ⟨hsame.trans hlanes, hnone⟩
  · exact .inr ⟨c, hc.of_lanes hlanes, ho⟩

theorem lanes_activate (w : Walker σ) (d : Direction) (j : Nat) (r : Relay σ) :
    (activate w d j).Ensures r (fun _ r' ↦ r'.lanes = r.lanes) fun _ r' ↦ r'.lanes = r.lanes := by
  refine Act.ensures_bind (Act.ensures_modify ?_)
  cases hsource : (r.turned j).sources[(r.turned j).active]? with
  | none => exact ensures_onActive_none (r := r.turned j) hsource rfl
  | some source =>
    exact ensures_onActive (r := r.turned j) hsource
      (Act.ensures_of_forall (fun _ _ ↦ rfl) fun _ _ ↦ rfl)

theorem lanes_rewind (w : Walker σ) (d : Direction) (r : Relay σ) :
    (rewind w d).Ensures r (fun _ r' ↦ r'.lanes = r.lanes) fun _ r' ↦ r'.lanes = r.lanes := by
  refine Act.ensures_bind (Act.ensures_get (Act.ensures_except_bind (fun _ _ ↦ rfl) fun _ _ ↦ ?_))
  refine Act.ensures_bind ((lanes_activate w d (r.firstOperand d) r).imp fun _ r' hr' ↦ ?_)
  exact Act.ensures_modify hr'

/-- When the active operand has moved to a candidate that it need not skip, and those of the others
that accept it have been told, the relay has come up with the candidate. -/
theorem raises_told (ctx : Context) {current : σ → Except SearchError Candidate} {s : σ}
    {c : Candidate} (hactive : r.active < r.size) (hcurrent : current s = .ok c)
    (hskip : r.skips r.active c.id = false) :
    let asked := (r.moved s).asked ctx c
    Raises current ctx r ((r.moved s).skipEach asked.1 c.id) c ∧
      ((r.moved s).skipEach asked.1 c.id).asked ctx c = asked := by
  intro asked
  have htold := told_skipEach (r.moved s) asked.1 c.id
  have hsame := htold.asked_eq ctx c
  refine ⟨⟨⟨s, ?_, hcurrent⟩, ?_, fun j i ↦ ?_⟩, hsame⟩
  · rw [htold.sources, htold.active]
    exact List.getElem?_set_self hactive
  · rw [htold.active]
    exact hskip
  · rw [hsame]
    refine skips_skipEach (fun j hj ↦ ?_) c.id j i
    have hlt := (mem_ask hj).2
    rwa [evaluators, List.length_map] at hlt

/-- The active operand comes up with a candidate, or with none. -/
theorem seekActive_comes (w : Walker σ) (ctx : Context) (d : Direction) (r : Relay σ) :
    (seekActive w ctx d).Ensures r (fun found r' ↦ Comes w.current ctx r (.ok found) r')
      fun e r' ↦ Comes w.current ctx r (.error e) r' := by
  have hquiet : ∀ (r' : Relay σ) (o : Except SearchError (Option Candidate)),
      r'.lanes = r.lanes → (∀ c, o ≠ .ok (some c)) → Comes w.current ctx r o r' :=
    fun r' o hlanes ho ↦ .inl ⟨hlanes, ho⟩
  refine Act.ensures_bind (Act.ensures_get (Act.ensures_bind ?_))
  cases hsource : r.sources[r.active]? with
  | none => exact ensures_onActive_none hsource (Act.ensures_pure (hquiet r _ rfl nofun))
  | some source =>
    refine ensures_onActive hsource ((w.seek_unlessSkipped d _ source).mono ?_ ?_)
    · intro found s hfound
      cases found with
      | none => exact Act.ensures_pure (hquiet _ _ rfl nofun)
      | some c =>
        obtain ⟨hcurrent, hskip⟩ := hfound c rfl
        obtain ⟨hactive, -⟩ := List.getElem?_eq_some_iff.1 hsource
        obtain ⟨hraises, hsame⟩ := raises_told ctx hactive hcurrent hskip
        have hends : ∀ {o : Except SearchError Candidate}, ((r.moved s).asked ctx c).2 = o →
            (((r.moved s).skipEach ((r.moved s).asked ctx c).1 c.id).asked ctx c).2.map some =
              o.map some := fun hasked ↦ by rw [hsame, hasked]
        refine Act.ensures_bind ((announce_ask ctx (r.moved s).inactive c (r.moved s)).mono ?_ ?_)
        · rintro c' _ ⟨hasked, rfl⟩
          exact Act.ensures_pure (.inr ⟨c, hraises, hends hasked⟩)
        · rintro e _ ⟨hasked, rfl⟩
          exact .inr ⟨c, hraises, hends hasked⟩
    · exact fun e s _ ↦ hquiet _ _ rfl nofun

/-- Going through the operands comes up with a candidate, or with none. -/
theorem sweep_comes (w : Walker σ) (ctx : Context) (d : Direction) (operands : Nat) (r : Relay σ) :
    (sweep w ctx d operands).Ensures r (fun found r' ↦ Comes w.current ctx r (.ok found) r')
      fun e r' ↦ Comes w.current ctx r (.error e) r' := by
  induction operands generalizing r with
  | zero => exact Act.ensures_pure (.inl ⟨rfl, nofun⟩)
  | succ operands ih =>
    refine Act.ensures_bind ((seekActive_comes w ctx d r).imp fun found r' hfound ↦ ?_)
    cases found with
    | some c => exact Act.ensures_pure hfound
    | none =>
      have hlanes : r'.lanes = r.lanes := by
        rcases hfound with ⟨hlanes, -⟩ | ⟨c, -, ho⟩
        · exact hlanes
        · cases hasked : (r'.asked ctx c).2 <;> rw [hasked] at ho <;> exact nomatch ho
      refine Act.ensures_bind (Act.ensures_get ?_)
      cases r'.nextOperand? d with
      | none => exact Act.ensures_pure (.inl ⟨hlanes, nofun⟩)
      | some j =>
        refine Act.ensures_bind ((lanes_activate w d j r').mono ?_ ?_)
        · intro _ r'' hr''
          exact (ih r'').mono (fun _ _ h ↦ h.of_lanes (hr''.trans hlanes))
            fun _ _ h ↦ h.of_lanes (hr''.trans hlanes)
        · exact fun e r'' hr'' ↦ .inl ⟨hr''.trans hlanes, nofun⟩

/-- A move comes up with a candidate and stands on it, or with none. -/
theorem advance_comes (w : Walker σ) (ctx : Context) (d : Direction) (r : Relay σ) :
    (advance w ctx d).Ensures r
      (fun found r' ↦ ∃ o, found = o.isSome ∧ Comes w.current ctx r (.ok o) r' ∧
        r'.standing.position = .reached d o)
      fun e r' ↦ Comes w.current ctx r (.error e) r' := by
  refine ensures_advance (I := fun r' ↦ r'.lanes = r.lanes) (fun _ ↦ .inl ⟨rfl, nofun⟩) (fun _ ↦ ?_)
    (fun _ ↦ rfl) fun r₁ hr₁ ↦ ?_
  · exact (lanes_rewind w d r).mono (fun _ _ h ↦ h) fun e r' h ↦ .inl ⟨h, nofun⟩
  · refine (sweep_comes w ctx d r.size r₁).mono ?_ fun e r' h ↦ h.of_lanes hr₁
    intro found r' h
    refine ⟨found, rfl, ?_, rfl⟩
    -- Where the relay stands does not matter to what the operands are told.
    rcases h.of_lanes hr₁ with h | ⟨c, ⟨hstands, hunskipped, hskips⟩, ho⟩
    · exact .inl h
    · exact .inr ⟨c, ⟨hstands, hunskipped, hskips⟩, ho⟩

end Relay
end DirectoryQuery
