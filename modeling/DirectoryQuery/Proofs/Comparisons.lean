import DirectoryQuery.Proofs.Closing
import DirectoryQuery.Proofs.Judgement

/-!
# What is done alike in two contexts

Two contexts may differ in something that a search never asks for.  Then it is the same search, with
the same lines, counts and releases, whatever fails on the way.  That something is not asked for is
also seen from the counts: a look-up that is never made is never counted.

`Matches` says both at once.  It follows the text of a computation like `Leaves`, in the two
contexts side by side.  What a cursor does depends on the candidates it comes upon, so a
`Comparison` also says what is known of all candidates.  A cursor suits the comparison if its
candidates are known and its evaluators and acceptances match on what is known; such a cursor moves
alike in both contexts and goes on to suit (`Cursor.walker_matches`).

Of what a sieve lets through, more may be known than of what its source comes upon; the lemmas on
moves of a sieve are about any two such properties (`Sieve.Consists`).
-/

set_option autoImplicit false

namespace DirectoryQuery

variable {σ τ α β : Type} {whats : List Tally}

/-! ## Footprints without certain counts -/

namespace Footprint

/-- None of these things is counted. -/
def Spares (whats : List Tally) (p : Footprint) : Prop := ∀ what ∈ whats, what ∉ p.counts

theorem Spares.of_counts_eq_nil {p : Footprint} (h : p.counts = []) : p.Spares whats := by
  intro what _
  rw [h]
  exact List.not_mem_nil

theorem spares_ofTally {what : Tally} (h : what ∉ whats) : (ofTally what).Spares whats := by
  rintro what' hwhat' hmem
  obtain rfl := List.mem_singleton.1 hmem
  exact h hwhat'

theorem Spares.followed {p q : Footprint} (hp : p.Spares whats) (hq : q.Spares whats) :
    (p.followed q).Spares whats := by
  intro what hwhat hmem
  rcases List.mem_append.1 hmem with hmem | hmem
  · exact hq what hwhat hmem
  · exact hp what hwhat hmem

end Footprint

/-! ## Effects -/

namespace Effect

/-- The effects are one and the same, none of these things is counted, and the answer has the
property. -/
def Matches (whats : List Tally) (x y : Effect α) (Q : α → Prop) : Prop :=
  x = y ∧ Effect.Leaves x fun a p ↦ Q a ∧ p.Spares whats

variable {Q : α → Prop}

theorem matches_pure {a : α} (h : Q a) : Effect.Matches whats (pure a) (pure a) Q :=
  ⟨rfl, leaves_pure ⟨h, .of_counts_eq_nil rfl⟩⟩

theorem Matches.ensures {x y : Effect α} (h : Effect.Matches whats x y Q) :
    Effect.Ensures x Q := by
  intro t
  obtain ⟨p, -, hp⟩ := Effect.Leaves.run h.2 t
  exact hp.1

theorem Matches.mono {x y : Effect α} {Q' : α → Prop} (h : Effect.Matches whats x y Q)
    (hQ : ∀ a, Q a → Q' a) : Effect.Matches whats x y Q' :=
  ⟨h.1, Effect.Leaves.mono h.2 fun a _ ha ↦ ⟨hQ a ha.1, ha.2⟩⟩

theorem matches_bind {x y : Effect β} {f g : β → Effect α} {R : β → Prop}
    (hxy : Effect.Matches whats x y R) (hfg : ∀ b, R b → Effect.Matches whats (f b) (g b) Q) :
    Effect.Matches whats (x >>= f) (y >>= g) Q := by
  have hanswer := Matches.ensures hxy
  obtain ⟨rfl, hx⟩ := hxy
  refine ⟨bind_congr_of_ensures hanswer fun b hb ↦ (hfg b hb).1, leaves_bind ?_⟩
  refine Effect.Leaves.mono hx fun b p hb ↦ ?_
  exact Effect.Leaves.mono (hfg b hb.1).2 fun a q ha ↦ ⟨ha.1, hb.2.followed ha.2⟩

theorem matches_note (e : Event) (fields : List (String × String)) :
    Effect.Matches whats (note e fields) (note e fields) fun _ ↦ True :=
  ⟨rfl, leaves_note ⟨trivial, .of_counts_eq_nil rfl⟩⟩

theorem matches_noteRelease (label : String) :
    Effect.Matches whats (noteRelease label) (noteRelease label) fun _ ↦ True :=
  ⟨rfl, leaves_noteRelease ⟨trivial, .of_counts_eq_nil rfl⟩⟩

theorem matches_tally {what : Tally} (h : what ∉ whats) :
    Effect.Matches whats (tally what) (tally what) fun _ ↦ True :=
  ⟨rfl, leaves_tally ⟨trivial, Footprint.spares_ofTally h⟩⟩

end Effect

/-! ## Attempts -/

namespace Attempt

/-- The attempts are one and the same, none of these things is counted, and an answer has the
property. -/
def Matches (whats : List Tally) (x y : Attempt α) (Q : α → Prop) : Prop :=
  Effect.Matches whats x.run y.run (Meets Q fun _ ↦ True)

variable {Q : α → Prop}

theorem matches_pure {a : α} (h : Q a) : Attempt.Matches whats (pure a) (pure a) Q :=
  Effect.matches_pure h

theorem matches_throw (e : SearchError) :
    Attempt.Matches whats (throw e : Attempt α) (throw e) Q :=
  Effect.matches_pure trivial

theorem matches_except (o : Except SearchError α) :
    Attempt.Matches whats (liftM o) (liftM o) fun a ↦ o = .ok a := by
  refine Effect.matches_pure ?_
  cases o with
  | ok a => exact rfl
  | error e => exact trivial

/-- An effect never fails. -/
theorem matches_effect {x y : Effect α} (h : Effect.Matches whats x y Q) :
    Attempt.Matches whats (liftM x) (liftM y) Q := by
  have hlift : ∀ z : Effect α, (liftM z : Attempt α).run = z >>= fun a ↦ pure (.ok a) :=
    fun _ ↦ rfl
  rw [Attempt.Matches, hlift, hlift]
  exact Effect.matches_bind h fun _ ha ↦ Effect.matches_pure ha

theorem matches_bind {x y : Attempt β} {f g : β → Attempt α} {R : β → Prop}
    (hxy : Attempt.Matches whats x y R) (hfg : ∀ b, R b → Attempt.Matches whats (f b) (g b) Q) :
    Attempt.Matches whats (x >>= f) (y >>= g) Q := by
  rw [Attempt.Matches, run_bind, run_bind]
  refine Effect.matches_bind hxy fun o ho ↦ ?_
  cases o with
  | ok b => exact hfg b ho
  | error e => exact Effect.matches_pure trivial

/-- What is known of answers may come from elsewhere. -/
theorem Matches.ensures {x y : Attempt α} {E : SearchError → Prop}
    (h : Attempt.Matches whats x y fun _ ↦ True) (hx : Attempt.Ensures x Q E) :
    Attempt.Matches whats x y Q := by
  obtain ⟨heq, o, p, hrun, -, hp⟩ := h
  have ho := hx (.start .warn false)
  rw [hrun] at ho
  exact ⟨heq, o, p, hrun, ho.mono (fun _ ha ↦ ha) fun _ _ ↦ trivial, hp⟩

end Attempt

/-! ## Acts -/

namespace Act

/-- Done to a thing with the property, the acts are one and the same, none of these things is
counted, the thing keeps the property, and an answer has the other one. -/
def Matches (whats : List Tally) (x y : Act σ α) (I : σ → Prop) (Q : α → Prop) : Prop :=
  ∀ s, I s → Effect.Matches whats (x.perform s) (y.perform s) fun r ↦
    I r.2 ∧ Meets Q (fun _ ↦ True) r.1

variable {I : σ → Prop} {Q : α → Prop}

theorem matches_pure {a : α} (h : Q a) : Act.Matches whats (pure a) (pure a) I Q :=
  fun _ hs ↦ Effect.matches_pure ⟨hs, h⟩

theorem matches_throw (e : SearchError) :
    Act.Matches whats (throw e : Act σ α) (throw e) I Q :=
  fun _ hs ↦ Effect.matches_pure ⟨hs, trivial⟩

theorem matches_get : Act.Matches whats (get : Act σ σ) get I I :=
  fun _ hs ↦ Effect.matches_pure ⟨hs, hs⟩

theorem matches_set {s : σ} (hs : I s) :
    Act.Matches whats (set s : Act σ PUnit) (set s) I fun _ ↦ True :=
  fun _ _ ↦ Effect.matches_pure ⟨hs, trivial⟩

theorem matches_modify {f : σ → σ} (hf : ∀ s, I s → I (f s)) :
    Act.Matches whats (modify f : Act σ PUnit) (modify f) I fun _ ↦ True :=
  fun s hs ↦ Effect.matches_pure ⟨hf s hs, trivial⟩

/-- An outcome that is at hand. -/
theorem matches_except (o : Except SearchError α) :
    Act.Matches whats (liftM o : Act σ α) (liftM o) I fun a ↦ o = .ok a := by
  refine fun _ hs ↦ Effect.matches_pure ⟨hs, ?_⟩
  cases o with
  | ok a => exact rfl
  | error e => exact trivial

theorem matches_bind {x y : Act σ β} {f g : β → Act σ α} {R : β → Prop}
    (hxy : Act.Matches whats x y I R) (hfg : ∀ b, R b → Act.Matches whats (f b) (g b) I Q) :
    Act.Matches whats (x >>= f) (y >>= g) I Q := by
  intro s hs
  rw [perform_bind, perform_bind]
  refine Effect.matches_bind (hxy s hs) ?_
  rintro ⟨o, s'⟩ ⟨hs', ho⟩
  cases o with
  | ok b => exact hfg b ho s' hs'
  | error e => exact Effect.matches_pure ⟨hs', trivial⟩

/-- An attempt leaves the thing at hand as it is. -/
theorem matches_attempt {x y : Attempt α} (h : Attempt.Matches whats x y Q) :
    Act.Matches whats (Act.attempt x : Act σ α) (Act.attempt y) I Q :=
  fun _ hs ↦ Effect.matches_bind h fun _ ho ↦ Effect.matches_pure ⟨hs, ho⟩

/-- An effect leaves the thing at hand as it is. -/
theorem matches_effect {x y : Effect α} (h : Effect.Matches whats x y Q) :
    Act.Matches whats (liftM x : Act σ α) (liftM y) I Q := by
  intro s hs
  have hlift : ∀ z : Effect α, (liftM z : Act σ α).perform s = z >>= fun a ↦ pure (.ok a, s) :=
    fun _ ↦ rfl
  rw [hlift, hlift]
  exact Effect.matches_bind h fun _ ha ↦ Effect.matches_pure ⟨hs, ha⟩

theorem matches_tally {what : Tally} (h : what ∉ whats) :
    Act.Matches whats (liftM (tally what) : Act σ Unit) (liftM (tally what)) I fun _ ↦ True :=
  matches_effect (Effect.matches_tally h)

theorem matches_within {part : τ → σ} {put : τ → σ → τ} {x y : Act σ α} {J : τ → Prop}
    (h : Act.Matches whats x y I Q) (hpart : ∀ whole, J whole → I (part whole))
    (hput : ∀ whole s, J whole → I s → J (put whole s)) :
    Act.Matches whats (x.within part put) (y.within part put) J Q :=
  fun whole hwhole ↦ Effect.matches_bind (h _ (hpart whole hwhole)) fun _ hr ↦
    Effect.matches_pure ⟨hput whole _ hwhole hr.1, hr.2⟩

/-- An act on a thing at hand. -/
theorem matches_on {x y : Act σ α} {s : σ} (h : Act.Matches whats x y I Q) (hs : I s) :
    Attempt.Matches whats (x.on s) (y.on s) fun r ↦ Q r.1 ∧ I r.2 := by
  refine Effect.matches_bind (h s hs) fun r hr ↦ Effect.matches_pure ?_
  obtain ⟨o, s'⟩ := r
  cases o with
  | ok a => exact ⟨hr.2, hr.1⟩
  | error e => exact trivial

/-- Done to a thing with the first property, the acts are one and the same and none of these things
is counted; if the answer is yes, the thing comes to have the second property. -/
def Admits (whats : List Tally) (x y : Act σ Bool) (I J : σ → Prop) : Prop :=
  ∀ s, I s → Effect.Matches whats (x.perform s) (y.perform s) fun r ↦
    Meets (fun accepted ↦ accepted = true → J r.2) (fun _ ↦ True) r.1

theorem Matches.admits {x y : Act σ Bool} {Q : Bool → Prop} (h : Act.Matches whats x y I Q) :
    Act.Admits whats x y I I := by
  refine fun s hs ↦ Effect.Matches.mono (h s hs) ?_
  rintro r ⟨hr, ho⟩
  exact ho.mono (fun _ _ _ ↦ hr) fun _ _ ↦ trivial

theorem admits_on {x y : Act σ Bool} {s : σ} {J : σ → Prop} (h : Act.Admits whats x y I J)
    (hs : I s) : Attempt.Matches whats (x.on s) (y.on s) fun r ↦ r.1 = true → J r.2 := by
  refine Effect.matches_bind (h s hs) fun r hr ↦ Effect.matches_pure ?_
  obtain ⟨o, s'⟩ := r
  cases o with
  | ok accepted => exact hr
  | error e => exact trivial

end Act

/-! ## Comparisons -/

/-- Whether it is the look-up of an entry or the reverse reading of an index. -/
def Tally.isLookup : Tally → Bool
  | recordLookup | reverseLookup => true
  | _ => false

/-- Two contexts in which the same is to be done. -/
structure Comparison where
  first : Context
  second : Context
  /-- What is not to be counted; only look-ups can be spared. -/
  spared : List Tally
  lookups : ∀ what ∈ spared, what.isLookup = true
  /-- What is known of every candidate that a cursor comes upon. -/
  Known : Candidate → Prop

variable {m : Comparison}

namespace Comparison

/-- The evaluator does the same to known candidates. -/
def Judges (m : Comparison) (e : Evaluator) : Prop :=
  Act.Matches m.spared (e.evaluate m.first) (e.evaluate m.second) m.Known fun _ ↦ True

/-- The acceptance does the same to known candidates. -/
def Accepts (m : Comparison) (x : Acceptance) : Prop :=
  Act.Matches m.spared (x.accept m.first) (x.accept m.second) m.Known fun _ ↦ True

/-- The acceptance does the same to known candidates, and those that pass have the property. -/
def Admits (m : Comparison) (K : Candidate → Prop) (x : Acceptance) : Prop :=
  Act.Admits m.spared (x.accept m.first) (x.accept m.second) m.Known K

theorem matches_tally (m : Comparison) {I : σ → Prop} {what : Tally}
    (h : what.isLookup = false) :
    Act.Matches m.spared (liftM (tally what) : Act σ Unit) (liftM (tally what)) I fun _ ↦ True :=
  Act.matches_tally fun hmem ↦ Bool.eq_false_iff.1 h (m.lookups what hmem)

end Comparison

/-! ### Formulas -/

namespace Formula

variable {I : σ → Prop} {p q : α → Act σ Bool}

mutual
/-- A formula is judged alike if its leaves are. -/
theorem judge_matches : ∀ f : Formula α,
    (∀ a ∈ f.leaves, Act.Matches whats (p a) (q a) I fun _ ↦ True) →
    Act.Matches whats (f.judge p) (f.judge q) I fun _ ↦ True
  | all parts, h => judgeAll_matches parts h
  | any parts, h => judgeAny_matches parts h
  | not part, h => Act.matches_bind (judge_matches part h) fun _ _ ↦ Act.matches_pure trivial
  | leaf a, h => h a List.mem_cons_self
theorem judgeAll_matches : ∀ fs : List (Formula α),
    (∀ a ∈ leavesOf fs, Act.Matches whats (p a) (q a) I fun _ ↦ True) →
    Act.Matches whats (judgeAll p fs) (judgeAll q fs) I fun _ ↦ True
  | [], _ => Act.matches_pure trivial
  | part :: parts, h => by
    rw [leavesOf, List.forall_mem_append] at h
    refine Act.matches_bind (judge_matches part h.1) fun accepted _ ↦ ?_
    cases accepted with
    | true => exact judgeAll_matches parts h.2
    | false => exact Act.matches_pure trivial
theorem judgeAny_matches : ∀ fs : List (Formula α),
    (∀ a ∈ leavesOf fs, Act.Matches whats (p a) (q a) I fun _ ↦ True) →
    Act.Matches whats (judgeAny p fs) (judgeAny q fs) I fun _ ↦ True
  | [], _ => Act.matches_pure trivial
  | part :: parts, h => by
    rw [leavesOf, List.forall_mem_append] at h
    refine Act.matches_bind (judge_matches part h.1) fun accepted _ ↦ ?_
    cases accepted with
    | true => exact Act.matches_pure trivial
    | false => exact judgeAny_matches parts h.2
end

end Formula

/-! ## Moves -/

/-- The walkers do the same to things with the property, which stand on known candidates only. -/
structure Walker.Matches (m : Comparison) (w w' : Walker σ) (I : σ → Prop) : Prop where
  rewind (d : Direction) : Act.Matches m.spared (w.rewind d) (w'.rewind d) I fun _ ↦ True
  advance (d : Direction) : Act.Matches m.spared (w.advance d) (w'.advance d) I fun _ ↦ True
  current : w.current = w'.current
  extent : w.extent = w'.extent
  known {s : σ} {c : Candidate} : I s → w.current s = .ok c → m.Known c

namespace Walker

variable {I : σ → Prop} {w w' : Walker σ}

/-- Candidates that are known are sought until one passes, and those that pass have the property. -/
theorem Matches.seek (h : w.Matches m w' I) (d : Direction) {accept accept' : Act Candidate Bool}
    {K : Candidate → Prop} (haccept : Act.Admits m.spared accept accept' m.Known K) :
    Act.Matches m.spared (w.seek d accept) (w'.seek d accept') I fun found ↦
      ∀ c ∈ found, K c := by
  refine Act.matches_bind Act.matches_get fun s _ ↦ ?_
  rw [← h.extent]
  generalize w.extent s + 1 = moves
  induction moves with
  | zero => exact Act.matches_pure nofun
  | succ moves ih =>
    refine Act.matches_bind (h.advance d) fun found _ ↦ ?_
    cases found with
    | false => exact Act.matches_pure nofun
    | true =>
      refine Act.matches_bind (m.matches_tally rfl) fun _ _ ↦ ?_
      refine Act.matches_bind Act.matches_get fun s hs ↦ ?_
      rw [← h.current]
      refine Act.matches_bind (Act.matches_except _) fun c hc ↦ ?_
      have hon := Act.admits_on haccept (h.known hs hc)
      refine Act.matches_bind (Act.matches_attempt hon) fun accepted haccepted ↦ ?_
      obtain ⟨accepted, c'⟩ := accepted
      cases accepted with
      | true => exact Act.matches_pure fun _ hc ↦ Option.mem_some.1 hc ▸ haccepted rfl
      | false => exact ih

theorem Matches.collect (h : w.Matches m w' I) (d : Direction) :
    Act.Matches m.spared (w.collect d) (w'.collect d) I fun _ ↦ True := by
  refine Act.matches_bind (h.rewind d) fun _ _ ↦ Act.matches_bind Act.matches_get fun s _ ↦ ?_
  rw [← h.extent]
  generalize w.extent s + 1 = moves
  induction moves with
  | zero => exact Act.matches_pure trivial
  | succ moves ih =>
    refine Act.matches_bind (h.advance d) fun found _ ↦ ?_
    cases found with
    | false => exact Act.matches_pure trivial
    | true =>
      refine Act.matches_bind Act.matches_get fun s _ ↦ ?_
      rw [← h.current]
      refine Act.matches_bind (Act.matches_except _) fun c _ ↦ ?_
      exact Act.matches_bind ih fun _ _ ↦ Act.matches_pure trivial

end Walker

/-! ### Reels -/

namespace Reel

variable {K : Candidate → Prop}

/-- The property holds of all candidates of the reel. -/
def Carries (K : Candidate → Prop) (r : Reel) : Prop := ∀ c ∈ r.listing.candidates, K c

theorem matches_onListing {act : Act Listing α} {Q : α → Prop}
    (h : Act.Matches whats act act (fun l ↦ ∀ c ∈ l.candidates, K c) Q) :
    Act.Matches whats (onListing act) (onListing act) (Carries K) Q :=
  Act.matches_within h (fun _ hr ↦ hr) fun _ _ _ hl ↦ hl

theorem matches_rewind (d : Direction) :
    Act.Matches whats (rewind d) (rewind d) (Carries K) fun _ ↦ True := by
  refine matches_onListing (Act.matches_bind Act.matches_get fun l hl ↦ ?_)
  exact Act.matches_bind (Act.matches_except _) fun _ _ ↦ Act.matches_set hl

theorem matches_advance (d : Direction) :
    Act.Matches whats (advance d) (advance d) (Carries K) fun _ ↦ True := by
  refine Act.matches_bind Act.matches_get fun r hr ↦ ?_
  refine Act.matches_bind (Act.matches_set hr) fun _ _ ↦ ?_
  cases r.monitor.bind Monitor.refusal? with
  | some e => exact Act.matches_throw e
  | none =>
    refine matches_onListing (Act.matches_bind Act.matches_get fun l hl ↦ ?_)
    refine Act.matches_bind (Act.matches_except _) fun _ _ ↦ ?_
    exact Act.matches_bind (Act.matches_set hl) fun _ _ ↦ Act.matches_pure trivial

/-- A reel stands on one of its candidates. -/
theorem Carries.current {r : Reel} (h : r.Carries K) {c : Candidate} (hc : r.current = .ok c) :
    K c := by
  obtain ⟨i, -, hi⟩ := bind_eq_ok.1 hc
  cases hget : r.listing.candidates[i]? with
  | none => exact nomatch (hget ▸ hi :)
  | some c' =>
    rw [hget] at hi
    obtain rfl := Except.ok.inj hi
    exact h c' (List.mem_of_getElem? hget)

end Reel

/-- The property holds of the candidate that the cursor stands on, if it stands on one. -/
def Standing.On (K : Candidate → Prop) (s : Standing Candidate) : Prop :=
  ∀ c, s.position = .onElement c → K c

theorem Standing.On.element {K : Candidate → Prop} {s : Standing Candidate} (h : s.On K)
    {operation : Operation} {c : Candidate} (hc : s.element operation = .ok c) : K c := by
  cases hp : s.position with
  | onElement c' =>
    rw [Standing.element, hp] at hc
    exact Except.ok.inj hc ▸ h c' hp
  | unpositioned | beforeFirst | afterLast | closed => simp [Standing.element, hp] at hc

theorem Standing.on_start {K : Candidate → Prop} (s : Standing Candidate) (d : Direction) :
    (s.moveTo (.start d)).On K := by
  cases d <;> exact fun _ hc ↦ nomatch hc

theorem Standing.on_reached {K : Candidate → Prop} (s : Standing Candidate) (d : Direction)
    {found : Option Candidate} (h : ∀ c ∈ found, K c) : (s.moveTo (.reached d found)).On K := by
  cases found with
  | none => cases d <;> exact fun _ hc ↦ nomatch hc
  | some c =>
    intro c' hc'
    obtain rfl := Position.onElement.inj hc'
    exact h c rfl

/-! ### Sieves -/

namespace Sieve

/-- What the condition of the sieve, its source, and the candidate it stands on have. -/
structure Consists (P : Acceptance → Prop) (I : σ → Prop) (K : Candidate → Prop) (s : Sieve σ) :
    Prop where
  acceptance : P s.acceptance
  source : I s.source
  standing : s.standing.On K

/-- The sieve does the same in both contexts if its source does. -/
abbrev Suits (m : Comparison) (I : σ → Prop) : Sieve σ → Prop := Consists m.Accepts I m.Known

variable {I : σ → Prop} {w w' : Walker σ} {Q : α → Prop} {P : Acceptance → Prop}
  {K : Candidate → Prop}

theorem matches_onSource {x y : Act σ α} (h : Act.Matches whats x y I Q) :
    Act.Matches whats (onSource x) (onSource y) (Consists P I K) Q :=
  Act.matches_within h (fun _ hs ↦ hs.source) fun _ _ hs hsource ↦
    ⟨hs.acceptance, hsource, hs.standing⟩

theorem matches_rewind (h : w.Matches m w' I) (d : Direction) :
    Act.Matches m.spared (rewind w d) (rewind w' d) (Consists P I K) fun _ ↦ True := by
  refine Act.matches_bind Act.matches_get fun s _ ↦ ?_
  refine Act.matches_bind (Act.matches_except _) fun _ _ ↦ ?_
  refine Act.matches_bind (matches_onSource (h.rewind d)) fun _ _ ↦ ?_
  exact Act.matches_modify fun s hs ↦ ⟨hs.acceptance, hs.source, s.standing.on_start d⟩

/-- What is known of the candidates of the source need not be what is known of those that pass. -/
theorem matches_advance (h : w.Matches m w' I) (hP : ∀ x, P x → m.Admits K x) (d : Direction) :
    Act.Matches m.spared (advance w m.first d) (advance w' m.second d) (Consists P I K)
      fun _ ↦ True := by
  refine Act.matches_bind Act.matches_get fun s hs ↦ ?_
  refine Act.matches_bind (Act.matches_except _) fun _ _ ↦ ?_
  have hrest : Act.Matches m.spared (do
      let found ← onSource (w.seek d (s.acceptance.accept m.first))
      if found.isSome then tally .emitted
      moveTo (.reached d found)
      return found.isSome : Act (Sieve σ) Bool) (do
      let found ← onSource (w'.seek d (s.acceptance.accept m.second))
      if found.isSome then tally .emitted
      moveTo (.reached d found)
      return found.isSome) (Consists P I K) fun _ ↦ True := by
    refine Act.matches_bind (matches_onSource (h.seek d (hP _ hs.acceptance))) fun found hfound ↦ ?_
    have hmoved : Act.Matches m.spared (do moveTo (.reached d found); return found.isSome :
        Act (Sieve σ) Bool) (do moveTo (.reached d found); return found.isSome) (Consists P I K)
        fun _ ↦ True :=
      Act.matches_bind (Act.matches_modify fun s hs ↦
        ⟨hs.acceptance, hs.source, s.standing.on_reached d hfound⟩) fun _ _ ↦
          Act.matches_pure trivial
    cases found with
    | none => exact hmoved
    | some c => exact Act.matches_bind (m.matches_tally rfl) fun _ _ ↦ hmoved
  cases s.standing.position.isUnpositioned with
  | true => exact Act.matches_bind (matches_onSource (h.rewind d)) fun _ _ ↦ hrest
  | false => exact hrest

end Sieve

/-! ### Relays -/

namespace Relay

/-- The relay does the same in both contexts if its sources do. -/
structure Suits (m : Comparison) (I : σ → Prop) (r : Relay σ) : Prop where
  sources : ∀ s ∈ r.sources, I s
  lanes : ∀ lane ∈ r.lanes, m.Judges lane.evaluator
  standing : r.standing.On m.Known

variable {I : σ → Prop} {w w' : Walker σ} {Q : α → Prop}

theorem Suits.skip {r : Relay σ} (h : r.Suits m I) (j : Nat) (i : EntryId) :
    (r.skip j i).Suits m I := by
  refine ⟨h.sources, fun lane hlane ↦ ?_, h.standing⟩
  obtain ⟨k, hk⟩ := List.mem_iff_getElem?.1 hlane
  rw [Relay.skip, List.getElem?_modify, Option.map_eq_map, Option.map_eq_some_iff] at hk
  obtain ⟨lane', hlane', rfl⟩ := hk
  have hjudges := h.lanes lane' (List.mem_of_getElem? hlane')
  split <;> exact hjudges

theorem matches_onActive {otherwise : α} {x y : Act σ α} (h : Act.Matches m.spared x y I Q)
    (hotherwise : Q otherwise) :
    Act.Matches m.spared (onActive otherwise x) (onActive otherwise y) (Suits m I) Q := by
  intro r hr
  cases hsource : r.sources[r.active]? with
  | none =>
    rw [perform_onActive_none hsource, perform_onActive_none hsource]
    exact Effect.matches_pure ⟨hr, hotherwise⟩
  | some source =>
    rw [perform_onActive hsource, perform_onActive hsource]
    refine Effect.matches_bind (h source (hr.sources _ (List.mem_of_getElem? hsource))) ?_
    rintro ⟨o, s⟩ ⟨hs, ho⟩
    refine Effect.matches_pure ⟨⟨fun s' hs' ↦ ?_, hr.lanes, hr.standing⟩, ho⟩
    rcases List.mem_or_eq_of_mem_set hs' with hs' | rfl
    · exact hr.sources s' hs'
    · exact hs

theorem matches_announce (js : List Nat) {c : Candidate} (hc : m.Known c) :
    Act.Matches m.spared (announce m.first js c : Act (Relay σ) Candidate)
      (announce m.second js c) (Suits m I) m.Known := by
  induction js generalizing c with
  | nil => exact Act.matches_pure hc
  | cons j js ih =>
    refine Act.matches_bind Act.matches_get fun r hr ↦ ?_
    cases hlane : r.lanes[j]? with
    | none => exact ih hc
    | some lane =>
      have hon := Act.matches_on (hr.lanes lane (List.mem_of_getElem? hlane)) hc
      refine Act.matches_bind (Act.matches_attempt hon) fun accepted haccepted ↦ ?_
      obtain ⟨accepted, c'⟩ := accepted
      cases accepted with
      | true =>
        exact Act.matches_bind (Act.matches_modify fun r hr ↦ hr.skip j c'.id) fun _ _ ↦
          ih haccepted.2
      | false => exact ih haccepted.2

theorem matches_unlessSkipped (m : Comparison) (skipped : Std.ExtTreeSet EntryId) :
    Act.Matches m.spared (unlessSkipped skipped) (unlessSkipped skipped) m.Known
      fun _ ↦ True := by
  refine Act.matches_bind Act.matches_get fun c _ ↦ ?_
  cases skipped.contains c.id with
  | true => exact Act.matches_bind (m.matches_tally rfl) fun _ _ ↦ Act.matches_pure trivial
  | false => exact Act.matches_pure trivial

theorem matches_activate (h : w.Matches m w' I) (d : Direction) (j : Nat) :
    Act.Matches m.spared (activate w d j) (activate w' d j) (Suits m I) fun _ ↦ True :=
  Act.matches_bind (Act.matches_modify fun _ hr ↦ ⟨hr.sources, hr.lanes, hr.standing⟩) fun _ _ ↦
    matches_onActive (h.rewind d) trivial

theorem matches_rewind (h : w.Matches m w' I) (d : Direction) :
    Act.Matches m.spared (rewind w d) (rewind w' d) (Suits m I) fun _ ↦ True := by
  refine Act.matches_bind Act.matches_get fun r _ ↦ ?_
  refine Act.matches_bind (Act.matches_except _) fun _ _ ↦ ?_
  refine Act.matches_bind (matches_activate h d _) fun _ _ ↦ ?_
  exact Act.matches_modify fun r hr ↦ ⟨hr.sources, hr.lanes, r.standing.on_start d⟩

theorem matches_seekActive (h : w.Matches m w' I) (d : Direction) :
    Act.Matches m.spared (seekActive w m.first d) (seekActive w' m.second d) (Suits m I)
      fun found ↦ ∀ c ∈ found, m.Known c := by
  refine Act.matches_bind Act.matches_get fun r _ ↦ ?_
  have hseek := h.seek d (matches_unlessSkipped m ((r.skippedBy? r.active).getD ∅)).admits
  refine Act.matches_bind (matches_onActive hseek nofun) fun found hfound ↦ ?_
  cases found with
  | none => exact Act.matches_pure nofun
  | some c =>
    refine Act.matches_bind (matches_announce r.inactive (hfound c rfl)) fun c' hc' ↦ ?_
    exact Act.matches_pure fun _ hmem ↦ Option.mem_some.1 hmem ▸ hc'

theorem matches_sweep (h : w.Matches m w' I) (d : Direction) (operands : Nat) :
    Act.Matches m.spared (sweep w m.first d operands) (sweep w' m.second d operands) (Suits m I)
      fun found ↦ ∀ c ∈ found, m.Known c := by
  induction operands with
  | zero => exact Act.matches_pure nofun
  | succ operands ih =>
    refine Act.matches_bind (matches_seekActive h d) fun found hfound ↦ ?_
    cases found with
    | some c => exact Act.matches_pure hfound
    | none =>
      refine Act.matches_bind Act.matches_get fun r _ ↦ ?_
      cases r.nextOperand? d with
      | none => exact Act.matches_pure nofun
      | some j => exact Act.matches_bind (matches_activate h d j) fun _ _ ↦ ih

theorem matches_advance (h : w.Matches m w' I) (d : Direction) :
    Act.Matches m.spared (advance w m.first d) (advance w' m.second d) (Suits m I)
      fun _ ↦ True := by
  refine Act.matches_bind Act.matches_get fun r _ ↦ ?_
  refine Act.matches_bind (Act.matches_except _) fun _ _ ↦ ?_
  have hrest : Act.Matches m.spared (do
      let found ← sweep w m.first d r.size
      if found.isSome then tally .emitted
      moveTo (.reached d found)
      return found.isSome : Act (Relay σ) Bool) (do
      let found ← sweep w' m.second d r.size
      if found.isSome then tally .emitted
      moveTo (.reached d found)
      return found.isSome) (Suits m I) fun _ ↦ True := by
    refine Act.matches_bind (matches_sweep h d _) fun found hfound ↦ ?_
    have hmoved : Act.Matches m.spared (do moveTo (.reached d found); return found.isSome :
        Act (Relay σ) Bool) (do moveTo (.reached d found); return found.isSome) (Suits m I)
        fun _ ↦ True :=
      Act.matches_bind (Act.matches_modify fun r hr ↦
        ⟨hr.sources, hr.lanes, r.standing.on_reached d hfound⟩) fun _ _ ↦ Act.matches_pure trivial
    cases found with
    | none => exact hmoved
    | some c => exact Act.matches_bind (m.matches_tally rfl) fun _ _ ↦ hmoved
  cases r.standing.position.isUnpositioned with
  | true => exact Act.matches_bind (matches_rewind h d) fun _ _ ↦ hrest
  | false => exact hrest

end Relay

/-! ### Cursors -/

namespace Cursor

mutual
/-- The cursor comes upon known candidates only, and does the same to them in both contexts. -/
def Suits (m : Comparison) : Cursor → Prop
  | reel r => r.Carries m.Known
  | monitored _ inner => Suits m inner
  | sieve ⟨x, source, _, standing⟩ => m.Accepts x ∧ Suits m source ∧ standing.On m.Known
  | relay ⟨sources, lanes, _, standing⟩ =>
    SuitEach m sources ∧ (∀ lane ∈ lanes, m.Judges lane.evaluator) ∧ standing.On m.Known
/-- Each of the cursors suits the comparison. -/
def SuitEach (m : Comparison) : List Cursor → Prop
  | [] => True
  | c :: cs => Suits m c ∧ SuitEach m cs
end

theorem suitEach_iff {cs : List Cursor} : SuitEach m cs ↔ ∀ c ∈ cs, c.Suits m := by
  induction cs with
  | nil => exact ⟨fun _ c hc ↦ absurd hc List.not_mem_nil, fun _ ↦ trivial⟩
  | cons c cs ih => rw [SuitEach, ih, List.forall_mem_cons]

theorem suits_sieve {s : Sieve Cursor} : (sieve s).Suits m ↔ s.Suits m (Suits m) :=
  ⟨fun h ↦ ⟨h.1, h.2.1, h.2.2⟩, fun h ↦ ⟨h.acceptance, h.source, h.standing⟩⟩

theorem suits_relay {r : Relay Cursor} : (relay r).Suits m ↔ r.Suits m (Suits m) :=
  ⟨fun h ↦ ⟨suitEach_iff.1 h.1, h.2.1, h.2.2⟩,
    fun h ↦ ⟨suitEach_iff.2 h.sources, h.lanes, h.standing⟩⟩

/-- The candidate that a cursor stands on is known. -/
theorem Suits.known : ∀ {c : Cursor}, c.Suits m → ∀ {x : Candidate}, c.current = .ok x → m.Known x
  | reel _, hc, _, hx => Reel.Carries.current hc hx
  | monitored _ inner, hc, _, hx => Suits.known (c := inner) hc hx
  | sieve _, hc, _, hx => (suits_sieve.1 hc).standing.element hx
  | relay _, hc, _, hx => (suits_relay.1 hc).standing.element hx

/-- To move a cursor of one kind is to move what it is made of. -/
theorem matches_made {x y : Act σ α} {s : σ} {make : σ → Cursor} {I : σ → Prop} {Q : α → Prop}
    {S : Cursor → Prop} (h : Act.Matches whats x y I Q) (hs : I s)
    (hmake : ∀ s, I s → S (make s)) :
    Effect.Matches whats
      (do let (outcome, s') ← x.perform s; return (outcome, make s'))
      (do let (outcome, s') ← y.perform s; return (outcome, make s'))
      fun r ↦ S r.2 ∧ Meets Q (fun _ ↦ True) r.1 := by
  refine Effect.matches_bind (h s hs) ?_
  rintro ⟨outcome, s'⟩ ⟨hs', ho⟩
  exact Effect.matches_pure ⟨hmake s' hs', ho⟩

/-- **A cursor that suits the comparison moves alike in both contexts**, whatever fails on the way,
and goes on to suit. -/
theorem walker_matches (m : Comparison) (n : Nat) :
    (walker m.first n).Matches m (walker m.second n) (Suits m) := by
  -- The cursors within are moved by the walkers of the height below.
  induction n with
  | zero =>
    exact ⟨fun _ ↦ Act.matches_pure trivial, fun _ ↦ Act.matches_pure trivial, rfl, rfl,
      fun _ hc ↦ nomatch hc⟩
  | succ n ih =>
    refine ⟨fun d c hc ↦ ?_, fun d c hc ↦ ?_, rfl, rfl, fun hc hx ↦ hc.known hx⟩
    · cases c with
      | reel r => exact matches_made (Reel.matches_rewind d) hc fun _ hr ↦ hr
      | monitored _ inner => exact matches_made (ih.rewind d) hc fun _ hinner ↦ hinner
      | sieve s =>
        exact matches_made (Sieve.matches_rewind ih d) (suits_sieve.1 hc) fun _ ↦ suits_sieve.2
      | relay r =>
        exact matches_made (Relay.matches_rewind ih d) (suits_relay.1 hc) fun _ ↦ suits_relay.2
    · cases c with
      | reel r => exact matches_made (Reel.matches_advance d) hc fun _ hr ↦ hr
      | monitored monitor inner =>
        rw [advance_monitored, advance_monitored]
        cases monitor.refusal? with
        | none => exact matches_made (ih.advance d) hc fun _ hinner ↦ hinner
        | some e => exact Effect.matches_pure ⟨hc, trivial⟩
      | sieve s =>
        have hadvance :=
          Sieve.matches_advance (P := m.Accepts) ih (fun _ hx ↦ Act.Matches.admits hx) d
        exact matches_made hadvance (suits_sieve.1 hc) fun _ ↦ suits_sieve.2
      | relay r =>
        exact matches_made (Relay.matches_advance ih d) (suits_relay.1 hc) fun _ ↦ suits_relay.2

/-- The entries of a cursor that suits the comparison are collected alike. -/
theorem collect_matches (m : Comparison) (d : Direction) :
    Act.Matches m.spared (Cursor.collect m.first d) (Cursor.collect m.second d) (Suits m)
      fun _ ↦ True :=
  Act.matches_bind Act.matches_get fun c _ ↦ (walker_matches m c.height).collect d

end Cursor
end DirectoryQuery
