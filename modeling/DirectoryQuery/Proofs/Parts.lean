import DirectoryQuery.Proofs.Calls
import DirectoryQuery.Proofs.Steadiness

/-!
# What a cursor is made of

A cursor is a tree of sieves and relays with monitors here and there.  `Cursor.parts` lists what a
release comes upon when it goes through the tree: a monitor is entered before what is behind it and
left afterwards.

Moves leave the parts as they are, and all that they leave behind is what comes of reading indexes
in reverse (`Cursor.walker_stays`).  This holds whatever fails on the way.
-/

set_option autoImplicit false

namespace DirectoryQuery

variable {σ τ : Type} {A : Option SearchError → Footprint → Prop} {w : Walker σ} {ctx : Context}

/-! ## Parts -/

/-- What a release comes upon. -/
inductive Part where
  /-- It comes to what is behind a monitor. -/
  | entered (m : Monitor)
  /-- A sieve, which may be closed already. -/
  | sieve (x : Acceptance) (closed : Bool)
  /-- A relay, which may be closed already. -/
  | relay (closed : Bool)
  /-- It comes back to the monitor. -/
  | left (m : Monitor)

namespace Part

/-- The label of a monitor that is entered. -/
def label? : Part → Option String
  | entered m => some m.label
  | _ => none

/-- The kind of a cursor with others within it, as the log has it. -/
def kind? : Part → Option String
  | sieve x _ => some x.kind
  | relay _ => some "or"
  | _ => none

/-- Whether it is a cursor that is closed already. -/
def isClosed : Part → Bool
  | sieve _ closed => closed
  | relay closed => closed
  | _ => false

/-- The footprints of reading an index in reverse are allowed for the index that the part reads. -/
def Reads (A : Option SearchError → Footprint → Prop) : Part → Prop
  | sieve x _ => x.Reads A
  | _ => True

theorem reads_true (part : Part) : part.Reads fun _ _ ↦ True := by
  cases part with
  | sieve x => exact x.reads_true
  | entered | relay | left => trivial

end Part

/-- The parts of a reel. -/
def Reel.parts (r : Reel) : List Part :=
  match r.rested with
  | some m => [.entered m, .left m]
  | none => []

namespace Cursor

mutual
/-- What a release of the cursor comes upon, in this order. -/
def parts : Cursor → List Part
  | reel r => r.parts
  | monitored m inner => .entered m.rested :: (parts inner ++ [.left m.rested])
  | sieve ⟨x, source, idle, standing⟩ =>
    .sieve x standing.position.isClosed :: (parts source ++ partsOf idle)
  | relay ⟨sources, _, _, standing⟩ => .relay standing.position.isClosed :: partsOf sources
/-- What a release of the cursors comes upon. -/
def partsOf : List Cursor → List Part
  | [] => []
  | c :: cs => parts c ++ partsOf cs
end

theorem partsOf_eq_flatMap (cs : List Cursor) : partsOf cs = cs.flatMap parts := by
  induction cs with
  | nil => rfl
  | cons c cs ih => rw [partsOf, ih, List.flatMap_cons]

end Cursor

/-! ## Moves -/

/-- A cursor that an operation is not refused on is not closed. -/
theorem Standing.isOpen_of_checkOpen {α : Type} {s : Standing α} {operation : Operation} {u : Unit}
    (h : s.checkOpen operation = .ok u) : s.position.isClosed = false := by
  by_contra hclosed
  simp [checkOpen, hclosed] at h

/-- Moves leave things with the property, and allowed footprints. -/
structure Walker.Stays (w : Walker σ) (I : σ → Prop)
    (A : Option SearchError → Footprint → Prop) : Prop where
  rewind (d : Direction) : (w.rewind d).Stays I A
  advance (d : Direction) : (w.advance d).Stays I A

namespace Walker

variable {I : σ → Prop} (hA : Footprint.Allows A)

include hA

theorem Stays.seek (h : w.Stays I A) (d : Direction) {accept : Act Candidate Bool}
    (haccept : ∀ i, accept.Stays (fun c ↦ c.id = i) A) : (w.seek d accept).Stays I A := by
  refine .bind hA (.get hA) fun s ↦ ?_
  generalize w.extent s + 1 = moves
  induction moves with
  | zero => exact .pure hA none
  | succ moves ih =>
    refine .bind hA (h.advance d) fun found ↦ ?_
    cases found with
    | false => exact .pure hA none
    | true =>
      refine .bind hA (.tally hA _) fun _ ↦ .bind hA (.get hA) fun s ↦ ?_
      refine .bind hA (.except hA _) fun c ↦ .bind hA (.on (haccept c.id) rfl) fun accepted ↦ ?_
      obtain ⟨accepted, c'⟩ := accepted
      cases accepted with
      | true => exact .pure hA _
      | false => exact ih

theorem Stays.collect (h : w.Stays I A) (d : Direction) : (w.collect d).Stays I A := by
  refine .bind hA (h.rewind d) fun _ ↦ .bind hA (.get hA) fun s ↦ ?_
  generalize w.extent s + 1 = moves
  induction moves with
  | zero => exact .pure hA []
  | succ moves ih =>
    refine .bind hA (h.advance d) fun found ↦ ?_
    cases found with
    | false => exact .pure hA []
    | true =>
      refine .bind hA (.get hA) fun s ↦ .bind hA (.except hA _) fun c ↦ ?_
      exact .bind hA ih fun _ ↦ .pure hA _

end Walker

/-! ### Sieves -/

namespace Sieve

/-- The sieve is made of the same as the first one; of the source only `f` matters. -/
structure Alike (f : σ → τ) (s₀ s : Sieve σ) : Prop where
  acceptance : s.acceptance = s₀.acceptance
  source : f s.source = f s₀.source
  idle : s.idle = s₀.idle
  isClosed : s.standing.position.isClosed = s₀.standing.position.isClosed

variable {f : σ → τ} {s₀ : Sieve σ}

theorem onSource_stays {α : Type} {act : Act σ α} (h : act.Stays (fun s ↦ f s = f s₀.source) A) :
    (onSource act).Stays (Alike f s₀) A :=
  .within fun s hs ↦ Effect.Leaves.mono (h s.source hs.source) fun _ _ hr ↦
    ⟨⟨hs.acceptance, hr.1, hs.idle, hs.isClosed⟩, hr.2⟩

section Moves

variable (hA : Footprint.Allows A)
  (hw : w.Stays (fun s ↦ f s = f s₀.source) A)

include hA

theorem moveTo_stays (hopen : s₀.standing.position.isClosed = false) {p : Position Candidate}
    (hp : p.isClosed = false) : (moveTo p : Act (Sieve σ) Unit).Stays (Alike f s₀) A :=
  .modify hA fun _ hs ↦ ⟨hs.acceptance, hs.source, hs.idle, hp.trans hopen.symm⟩

include hw

theorem rewind_stays (d : Direction) : (rewind w d).Stays (Alike f s₀) A := by
  refine .get_bind hA fun s hs ↦ .except_bind hA fun _ hcheck ↦ ?_
  have hopen := hs.isClosed.symm.trans (Standing.isOpen_of_checkOpen hcheck)
  refine .bind hA (onSource_stays (hw.rewind d)) fun _ ↦ moveTo_stays hA hopen ?_
  cases d <;> rfl

theorem advance_stays (hctx : ctx.Reads A) (hx : s₀.acceptance.Reads A) (d : Direction) :
    (advance w ctx d).Stays (Alike f s₀) A := by
  refine .get_bind hA fun s hs ↦ .except_bind hA fun _ hcheck ↦ ?_
  have hopen := hs.isClosed.symm.trans (Standing.isOpen_of_checkOpen hcheck)
  have hseek : (w.seek d (s.acceptance.accept ctx)).Stays (fun s ↦ f s = f s₀.source) A := by
    rw [hs.acceptance]
    exact hw.seek hA d fun _ ↦ Acceptance.accept_stays hA hctx hx
  have hrest : (do
      let found ← onSource (w.seek d (s.acceptance.accept ctx))
      if found.isSome then tally .emitted
      moveTo (.reached d found)
      return found.isSome : Act (Sieve σ) Bool).Stays (Alike f s₀) A := by
    refine .bind hA (onSource_stays hseek) fun found ↦ ?_
    cases found with
    | none =>
      refine .bind hA (moveTo_stays hA hopen ?_) fun _ ↦ .pure hA _
      cases d <;> rfl
    | some c =>
      exact .bind hA (.tally hA _) fun _ ↦ .bind hA (moveTo_stays hA hopen rfl) fun _ ↦ .pure hA _
  cases s.standing.position.isUnpositioned with
  | true => exact .bind hA (onSource_stays (hw.rewind d)) fun _ ↦ hrest
  | false => exact hrest

end Moves

end Sieve

/-! ### Relays -/

namespace Relay

/-- The relay is made of the same as the first one; of the sources only `f` matters. -/
structure Alike (f : σ → τ) (r₀ r : Relay σ) : Prop where
  sources : r.sources.map f = r₀.sources.map f
  isClosed : r.standing.position.isClosed = r₀.standing.position.isClosed

section Moves

variable {f : σ → τ} {r₀ : Relay σ} (hA : Footprint.Allows A)
  (hw : ∀ s ∈ r₀.sources, w.Stays (fun s' ↦ f s' = f s) A)

include hA

theorem onActive_stays {α : Type} {otherwise : α} {act : Act σ α}
    (h : ∀ s ∈ r₀.sources, act.Stays (fun s' ↦ f s' = f s) A) :
    (onActive otherwise act).Stays (Alike f r₀) A := by
  intro r hr
  cases hsource : r.sources[r.active]? with
  | none =>
    rw [perform_onActive_none hsource]
    exact Effect.leaves_pure ⟨hr, hA.nothing _⟩
  | some s =>
    rw [perform_onActive hsource]
    obtain ⟨hlt, rfl⟩ := List.getElem?_eq_some_iff.1 hsource
    obtain ⟨s₁, hs₁, hsame⟩ : ∃ s₁ ∈ r₀.sources, f s₁ = f r.sources[r.active] := by
      rw [← List.mem_map, ← hr.sources]
      exact List.mem_map_of_mem (List.getElem_mem hlt)
    refine Effect.leaves_bind (Effect.Leaves.mono (h s₁ hs₁ _ hsame.symm) fun o p ho ↦ ?_)
    rw [← p.followed_nothing] at ho
    refine Effect.leaves_pure ⟨⟨?_, hr.isClosed⟩, ho.2⟩
    have hf : f o.2 = f r.sources[r.active] := ho.1.trans hsame
    show (r.sources.set r.active o.2).map f = r₀.sources.map f
    have hget : (r.sources.map f)[r.active]? = some (f o.2) := by simp [hlt, hf]
    obtain ⟨_, hget⟩ := List.getElem?_eq_some_iff.1 hget
    rw [List.map_set, ← hget, List.set_getElem_self, hr.sources]

theorem announce_stays (hctx : ctx.Reads A) (js : List Nat) (c : Candidate) :
    (announce ctx js c : Act (Relay σ) Candidate).Stays (Alike f r₀) A := by
  induction js generalizing c with
  | nil => exact .pure hA c
  | cons j js ih =>
    refine .bind hA (.get hA) fun r ↦ ?_
    cases r.lanes[j]? with
    | none => exact ih c
    | some lane =>
      refine .bind hA (.on (lane.evaluator.evaluate_stays hA (hctx _)) rfl) fun accepted ↦ ?_
      obtain ⟨accepted, c'⟩ := accepted
      cases accepted with
      | true => exact .bind hA (.modify hA fun r hr ↦ ⟨hr.sources, hr.isClosed⟩) fun _ ↦ ih c'
      | false => exact ih c'

theorem moveTo_stays (hopen : r₀.standing.position.isClosed = false) {p : Position Candidate}
    (hp : p.isClosed = false) : (moveTo p : Act (Relay σ) Unit).Stays (Alike f r₀) A :=
  .modify hA fun _ hr ↦ ⟨hr.sources, hp.trans hopen.symm⟩

theorem unlessSkipped_stays (skipped : Std.ExtTreeSet EntryId) (i : EntryId) :
    (unlessSkipped skipped).Stays (fun c ↦ c.id = i) A := by
  refine .bind hA (.get hA) fun c ↦ ?_
  cases skipped.contains c.id with
  | true => exact .bind hA (.tally hA _) fun _ ↦ .pure hA _
  | false => exact .pure hA _

include hw

theorem activate_stays (d : Direction) (j : Nat) : (activate w d j).Stays (Alike f r₀) A :=
  .bind hA (.modify hA fun _ hr ↦ ⟨hr.sources, hr.isClosed⟩) fun _ ↦
    onActive_stays hA fun s hs ↦ (hw s hs).rewind d

theorem seekActive_stays (hctx : ctx.Reads A) (d : Direction) :
    (seekActive w ctx d).Stays (Alike f r₀) A := by
  refine .bind hA (.get hA) fun r ↦ ?_
  refine .bind hA (onActive_stays hA fun s hs ↦ ?_) fun found ↦ ?_
  · exact (hw s hs).seek hA d (unlessSkipped_stays hA _)
  · cases found with
    | none => exact .pure hA none
    | some c => exact .bind hA (announce_stays hA hctx _ c) fun _ ↦ .pure hA _

theorem sweep_stays (hctx : ctx.Reads A) (d : Direction) (operands : Nat) :
    (sweep w ctx d operands).Stays (Alike f r₀) A := by
  induction operands with
  | zero => exact .pure hA none
  | succ operands ih =>
    refine .bind hA (seekActive_stays hA hw hctx d) fun found ↦ ?_
    cases found with
    | some c => exact .pure hA _
    | none =>
      refine .bind hA (.get hA) fun r ↦ ?_
      cases r.nextOperand? d with
      | none => exact .pure hA none
      | some j => exact .bind hA (activate_stays hA hw d j) fun _ ↦ ih

theorem rewind_stays (d : Direction) : (rewind w d).Stays (Alike f r₀) A := by
  refine .get_bind hA fun r hr ↦ .except_bind hA fun _ hcheck ↦ ?_
  have hopen := hr.isClosed.symm.trans (Standing.isOpen_of_checkOpen hcheck)
  refine .bind hA (activate_stays hA hw d _) fun _ ↦ moveTo_stays hA hopen ?_
  cases d <;> rfl

theorem advance_stays (hctx : ctx.Reads A) (d : Direction) :
    (advance w ctx d).Stays (Alike f r₀) A := by
  refine .get_bind hA fun r hr ↦ .except_bind hA fun _ hcheck ↦ ?_
  have hopen := hr.isClosed.symm.trans (Standing.isOpen_of_checkOpen hcheck)
  have hrest : (do
      let found ← sweep w ctx d r.size
      if found.isSome then tally .emitted
      moveTo (.reached d found)
      return found.isSome : Act (Relay σ) Bool).Stays (Alike f r₀) A := by
    refine .bind hA (sweep_stays hA hw hctx d _) fun found ↦ ?_
    cases found with
    | none =>
      refine .bind hA (moveTo_stays hA hopen ?_) fun _ ↦ .pure hA _
      cases d <;> rfl
    | some c =>
      exact .bind hA (.tally hA _) fun _ ↦ .bind hA (moveTo_stays hA hopen rfl) fun _ ↦ .pure hA _
  cases r.standing.position.isUnpositioned with
  | true => exact .bind hA (rewind_stays hA hw d) fun _ ↦ hrest
  | false => exact hrest

end Moves

end Relay

/-! ### Cursors -/

namespace Cursor

theorem parts_sieve (s : Sieve Cursor) : parts (sieve s) =
    .sieve s.acceptance s.standing.position.isClosed :: (parts s.source ++ partsOf s.idle) := rfl

theorem parts_relay (r : Relay Cursor) : parts (relay r) =
    .relay r.standing.position.isClosed :: (r.sources.map parts).flatten := by
  rw [← List.flatMap_def, ← partsOf_eq_flatMap]
  rfl

/-- The footprints of reading an index in reverse are allowed for the indexes that the cursor
reads. -/
def Reads (A : Option SearchError → Footprint → Prop) (c : Cursor) : Prop :=
  ∀ part ∈ c.parts, part.Reads A

variable {c : Cursor}

theorem reads_monitored {m : Monitor} : (monitored m c).Reads A ↔ c.Reads A := by
  simp [Reads, parts, Part.Reads, or_imp, forall_and]

theorem reads_sieve {s : Sieve Cursor} : (sieve s).Reads A ↔
    s.acceptance.Reads A ∧ s.source.Reads A ∧ ∀ c ∈ s.idle, c.Reads A := by
  simp only [Reads, parts_sieve, partsOf_eq_flatMap, List.forall_mem_cons, List.forall_mem_append,
    List.mem_flatMap, Part.Reads]
  grind

theorem reads_relay {r : Relay Cursor} : (relay r).Reads A ↔ ∀ c ∈ r.sources, c.Reads A := by
  simp only [Reads, parts_relay, List.forall_mem_cons, List.mem_flatten, List.mem_map, Part.Reads]
  grind

/-- The parts of a cursor say which indexes it reads. -/
theorem reads_of_parts {c c' : Cursor} (h : c'.parts = c.parts) (hc : c.Reads A) : c'.Reads A :=
  fun part hpart ↦ hc part (h ▸ hpart)

/-- What is read off a cursor depends on what the cursor is made of, and on where it stands only as
far as it is closed. -/
structure Lasting (f : Cursor → τ) : Prop where
  reel {r r' : Reel} : r.Alike r' → f (reel r') = f (reel r)
  monitored {m m' : Monitor} {c c' : Cursor} : m'.rested = m.rested → f c' = f c →
    f (monitored m' c') = f (monitored m c)
  sieve {s s' : Sieve Cursor} : s.Alike f s' → f (sieve s') = f (sieve s)
  relay {r r' : Relay Cursor} : r.Alike f r' → f (relay r') = f (relay r)

theorem lasting_parts : Lasting parts where
  reel h := by simp [parts, Reel.parts, h.rested]
  monitored hm hc := by simp [parts, hm, hc]
  sieve h := by rw [parts_sieve, parts_sieve, h.acceptance, h.source, h.idle, h.isClosed]
  relay h := by rw [parts_relay, parts_relay, h.sources, h.isClosed]

/-- To move a cursor of one kind is to move what it is made of. -/
theorem leaves_made {α : Type} {act : Act σ α} {s : σ} {make : σ → Cursor} {I : σ → Prop}
    {f : Cursor → τ} {b : τ} (h : act.Stays I A) (hs : I s) (hmake : ∀ s, I s → f (make s) = b) :
    Effect.Leaves (do let (outcome, s') ← act.perform s; return (outcome, make s'))
      fun r p ↦ f r.2 = b ∧ A (failureOf r.1) p := by
  refine Effect.leaves_bind (Effect.Leaves.mono (h s hs) ?_)
  rintro ⟨outcome, s'⟩ p ⟨hs', hp⟩
  refine Effect.leaves_pure ⟨hmake s' hs', ?_⟩
  rwa [Footprint.followed_nothing]

section Moves

variable (hA : Footprint.Allows A)

include hA

/-- **Moves leave what a cursor is made of as it is**, so what lasts can be read off the same. -/
theorem Lasting.walker_stays {f : Cursor → τ} (hf : Lasting f)
    (hreads : ∀ c c', f c' = f c → c.Reads A → c'.Reads A) (hctx : ctx.Reads A) (n : Nat)
    (hc : c.Reads A) : (walker ctx n).Stays (fun c' ↦ f c' = f c) A := by
  induction n generalizing c with
  | zero => exact ⟨fun _ ↦ .pure hA (), fun _ ↦ .pure hA false⟩
  | succ n ih =>
    refine ⟨fun d c' hc' ↦ ?_, fun d c' hc' ↦ ?_⟩
    all_goals
      rw [← hc']
      have hreads' : c'.Reads A := hreads c c' hc' hc
    · cases c' with
      | reel r => exact leaves_made (Reel.rewind_stays hA d) (.refl r) fun _ ↦ hf.reel
      | monitored m inner =>
        exact leaves_made ((ih (reads_monitored.1 hreads')).rewind d) rfl fun _ ↦ hf.monitored rfl
      | sieve s =>
        have hsource := ih (reads_sieve.1 hreads').2.1
        exact leaves_made (Sieve.rewind_stays hA hsource d) ⟨rfl, rfl, rfl, rfl⟩ fun _ ↦ hf.sieve
      | relay r =>
        have hsources := fun c hc ↦ ih (reads_relay.1 hreads' c hc)
        exact leaves_made (Relay.rewind_stays hA hsources d) ⟨rfl, rfl⟩ fun _ ↦ hf.relay
    · cases c' with
      | reel r => exact leaves_made (Reel.advance_stays hA d) (.refl r) fun _ ↦ hf.reel
      | monitored m inner =>
        rw [advance_monitored]
        cases m.refusal? with
        | none =>
          exact leaves_made ((ih (reads_monitored.1 hreads')).advance d) rfl fun _ ↦
            hf.monitored m.rested_counted
        | some e => exact Effect.leaves_pure ⟨hf.monitored m.rested_counted rfl, hA.nothing _⟩
      | sieve s =>
        obtain ⟨hx, hsource, -⟩ := reads_sieve.1 hreads'
        exact leaves_made (Sieve.advance_stays hA (ih hsource) hctx hx d) ⟨rfl, rfl, rfl, rfl⟩
          fun _ ↦ hf.sieve
      | relay r =>
        have hsources := fun c hc ↦ ih (reads_relay.1 hreads' c hc)
        exact leaves_made (Relay.advance_stays hA hsources hctx d) ⟨rfl, rfl⟩ fun _ ↦ hf.relay

/-- What lasts is the same after any call but a release. -/
theorem Lasting.call_stays {f : Cursor → τ} (hf : Lasting f)
    (hreads : ∀ c c', f c' = f c → c.Reads A → c'.Reads A) (hctx : ctx.Reads A) (hc : c.Reads A)
    {call : Call} (hcall : call.IsMove) :
    (call.perform ctx).Stays (fun c' ↦ f c' = f c) A := by
  have hwalker (n : Nat) := hf.walker_stays hA hreads hctx n hc
  have hrewind (d : Direction) : (Cursor.rewind ctx d).Stays (fun c' ↦ f c' = f c) A :=
    .bind hA (.get hA) fun _ ↦ (hwalker _).rewind d
  have hadvance (d : Direction) : (Cursor.advance ctx d).Stays (fun c' ↦ f c' = f c) A :=
    .bind hA (.get hA) fun _ ↦ (hwalker _).advance d
  cases call with
  | rewind d => exact .bind hA (hrewind d) fun _ ↦ .pure hA _
  | begin d => exact .bind hA (.bind hA (hrewind d) fun _ ↦ hadvance d) fun _ ↦ .pure hA _
  | advance d => exact .bind hA (hadvance d) fun _ ↦ .pure hA _
  | get => exact .bind hA (.get hA) fun _ ↦ .bind hA (.except hA _) fun _ ↦ .pure hA _
  | release cause => exact hcall.elim

/-- Moves leave the parts of a cursor as they are. -/
theorem walker_stays (hctx : ctx.Reads A) (n : Nat) (hc : c.Reads A) :
    (walker ctx n).Stays (fun c' ↦ c'.parts = c.parts) A :=
  lasting_parts.walker_stays hA (fun _ _ ↦ reads_of_parts) hctx n hc

/-- Any call but a release leaves the parts of a cursor as they are. -/
theorem call_stays (hctx : ctx.Reads A) (hc : c.Reads A) {call : Call} (hcall : call.IsMove) :
    (call.perform ctx).Stays (fun c' ↦ c'.parts = c.parts) A :=
  lasting_parts.call_stays hA (fun _ _ ↦ reads_of_parts) hctx hc hcall

/-- To collect the entries of a cursor leaves its parts as they are. -/
theorem collect_stays (hctx : ctx.Reads A) (hc : c.Reads A) (d : Direction) :
    (Cursor.collect ctx d).Stays (fun c' ↦ c'.parts = c.parts) A :=
  .bind hA (.get hA) fun _ ↦ (walker_stays hA hctx _ hc).collect hA d

end Moves

/-- What lasts is not changed by any call but a release. -/
theorem Lasting.run {f : Cursor → τ} (hf : Lasting f) {call : Call} (hcall : call.IsMove)
    (t : Trace) (c : Cursor) : f (call.run ctx t c).2 = f c := by
  have hreads : ∀ c : Cursor, c.Reads fun _ _ ↦ True := fun _ part _ ↦ part.reads_true
  have hstays := hf.call_stays Footprint.allows_true (fun _ c' _ _ ↦ hreads c') ctx.reads_true
    (hreads c) hcall
  exact (hstays.keeps c rfl).changed t

end Cursor
end DirectoryQuery
