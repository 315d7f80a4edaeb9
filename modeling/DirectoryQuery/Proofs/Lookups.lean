import DirectoryQuery.Proofs.Parts

/-!
# Readings in reverse are completed

Evaluators and cursors read indexes in reverse on their way, candidate by candidate.  The cursors
that are opened for that may fail at any move, and when they are released.

A single reading releases what it has opened before anything else happens (`Lookup.leaves`).  What
follows for whole runs is said by `Footprint.Settles`: the readings that were counted can be listed,
what they opened was released, each once, nothing else was released, and a reading that failed is
what the run has failed of.  That holds of nothing, and of one thing after the other if the first
has not failed (`Footprint.allows_settled`), hence of evaluators and of moves of cursors of all
kinds, in any state (`Cursor.lookups_settle`).
-/

set_option autoImplicit false

namespace DirectoryQuery

/-! ## One reading -/

/-- What a reading in reverse does with the cursor that the index hands out, and what it comes to
when that cursor fails at a move, or when it is released, or both. -/
structure Lookup.Completes (q : Lookup) (o : Except SearchError (Option Value)) (p : Footprint) :
    Prop where
  unopened (cause : StoreError) : q.index.reverse q.id = .error cause →
    o = .error (.store cause) ∧ p.releases = []
  released (r : Reel) : q.index.reverse q.id = .ok r → p.releases = r.labels
  scanFailed (r : Reel) (e : SearchError) : q.index.reverse q.id = .ok r →
    r.scan q.wanted = .error e → o = .error e
  scanned (r : Reel) (found : Option Value) : q.index.reverse q.id = .ok r →
    r.scan q.wanted = .ok found → o = r.closing.map fun _ ↦ found

theorem Lookup.completes (q : Lookup) :
    Effect.Leaves (q.index.firstKey? q.id q.wanted).run q.Completes := by
  refine Effect.Leaves.mono q.leaves ?_
  rintro _ p ⟨rfl, hp⟩
  refine ⟨fun cause hclosed ↦ ?_, fun r hr ↦ ?_, fun r e hr he ↦ ?_, fun r found hr hfound ↦ ?_⟩
  · obtain ⟨houtcome, hlabels⟩ := outcome_of_closed hclosed
    exact ⟨houtcome, hp.releases.trans hlabels⟩
  · exact hp.releases.trans (outcome_of_opened hr).2
  · rw [(outcome_of_opened hr).1, he]
    rfl
  · rw [(outcome_of_opened hr).1, hfound]
    cases r.closing <;> rfl

/-- There is one label at most. -/
theorem Lookup.reverse_labels (q : Lookup) : q.labels.reverse = q.labels := by
  unfold labels
  cases q.index.reverse q.id with
  | error cause => rfl
  | ok r =>
    obtain ⟨l, m⟩ := r
    cases m <;> rfl

/-! ## Many readings -/

/-- As many readings were counted as are listed, all of them permitted.  Whatever they opened was
released, each once, and nothing else was.  If one has failed, then this is the failure at the
end. -/
structure Footprint.Settles (L : Lookup → Prop) (qs : List Lookup) (failure : Option SearchError)
    (p : Footprint) : Prop where
  counted : p.counts.count .reverseLookup = qs.length
  released : p.releases.reverse = qs.flatMap Lookup.labels
  permitted (q : Lookup) : q ∈ qs → L q
  reported (q : Lookup) (e : SearchError) : q ∈ qs → q.outcome = .error e → failure = some e

/-- Footprints one after the other, the first one first. -/
def Footprint.together : List Footprint → Footprint
  | [] => .nothing
  | p :: ps => p.followed (together ps)

/-- There are readings that account for the footprint. -/
def Footprint.Settled (L : Lookup → Prop) (failure : Option SearchError) (p : Footprint) : Prop :=
  ∃ qs, p.Settles L qs failure

namespace Footprint

variable {L : Lookup → Prop} {qs qs' : List Lookup} {e : Option SearchError} {p p' : Footprint}

/-- Readings may follow readings that have not failed. -/
theorem Settles.followed (h : p.Settles L qs none) (h' : p'.Settles L qs' e) :
    (p.followed p').Settles L (qs ++ qs') e where
  counted := by
    rw [counts_followed, List.count_append, h.counted, h'.counted, List.length_append, Nat.add_comm]
  released := by
    rw [releases_followed, List.reverse_append, h.released, h'.released, List.flatMap_append]
  permitted q hq := by
    rcases List.mem_append.1 hq with hq | hq
    · exact h.permitted q hq
    · exact h'.permitted q hq
  reported q e' hq he := by
    rcases List.mem_append.1 hq with hq | hq
    · exact absurd (h.reported q e' hq he) (Option.some_ne_none e').symm
    · exact h'.reported q e' hq he

/-- A single reading, counted first. -/
theorem Only.settles {q : Lookup} (h : p.Only q.labels) (hq : L q) :
    ((ofTally .reverseLookup).followed p).Settles L [q] (failureOf q.outcome) where
  counted := by simp [ofTally, List.count_eq_zero.2 h.counts]
  released := by
    rw [releases_followed, h.releases, List.flatMap_singleton]
    exact (congrArg List.reverse (List.append_nil _)).trans q.reverse_labels
  permitted q' hq' := by
    obtain rfl := List.mem_singleton.1 hq'
    exact hq
  reported q' e hq' he := by
    obtain rfl := List.mem_singleton.1 hq'
    rw [he]
    rfl

theorem settles_of_idle (hreleases : p.releases = []) (hcounts : Tally.reverseLookup ∉ p.counts) :
    p.Settles L [] e :=
  ⟨List.count_eq_zero.2 hcounts, by simp [hreleases], fun _ hq ↦ absurd hq List.not_mem_nil,
    fun _ _ hq ↦ absurd hq List.not_mem_nil⟩

theorem allows_settled (L : Lookup → Prop) : Allows (Settled L) where
  nothing e := ⟨[], settles_of_idle rfl (by simp [nothing])⟩
  tally h := ⟨[], settles_of_idle rfl (by simpa [ofTally] using h.symm)⟩
  followed := by
    rintro e p p' ⟨qs, hp⟩ ⟨qs', hp'⟩
    exact ⟨qs ++ qs', hp.followed hp'⟩

end Footprint

variable {ctx : Context} {c : Cursor}

/-- An index whose readings are permitted leaves what they account for. -/
theorem Index.readsOf_settled {L : Lookup → Prop} {x : Index} {id : EntryId}
    (h : ∀ wanted, L ⟨x, id, wanted⟩) : x.ReadsOf (Footprint.Settled L) id := by
  intro wanted
  refine Effect.Leaves.mono (Lookup.leaves ⟨x, id, wanted⟩) ?_
  rintro _ p ⟨rfl, hp⟩
  exact ⟨[⟨x, id, wanted⟩], hp.settles (h wanted)⟩

/-! ## Evaluators -/

/-- Evaluators may read the index in reverse. -/
def Context.MayRead (ctx : Context) (x : Index) : Prop := ∃ t, ctx.reverseIndex? t = some x

/-- An evaluator completes its readings, which are all of the entry that it judges. -/
theorem Evaluator.evaluate_settled (e : Evaluator) (ctx : Context) (c : Candidate) :
    Effect.Leaves ((e.evaluate ctx).perform c) fun r p ↦
      p.Settled (fun q ↦ q.id = c.id ∧ ctx.MayRead q.index) (failureOf r.1) := by
  have hctx : ctx.ReadsOf (Footprint.Settled fun q ↦ q.id = c.id ∧ ctx.MayRead q.index) c.id :=
    fun t x hx ↦ Index.readsOf_settled fun _ ↦ ⟨rfl, t, hx⟩
  exact Effect.Leaves.mono (e.evaluate_stays (Footprint.allows_settled _) hctx c rfl)
    fun _ _ hr ↦ hr.2

/-! ## Cursors -/

namespace Cursor

/-- The cursor goes through the index, and reads it in reverse to find the least key of an
entry. -/
def GoesThrough (c : Cursor) (x : Index) : Prop :=
  ∃ a closed, Part.sieve (.indexed x a) closed ∈ c.parts

/-- The readings that moves of the cursor make. -/
def MayLook (ctx : Context) (c : Cursor) (q : Lookup) : Prop :=
  ctx.MayRead q.index ∨ c.GoesThrough q.index

theorem reads_settled (ctx : Context) (c : Cursor) :
    ctx.Reads (Footprint.Settled (c.MayLook ctx)) :=
  fun _ t _ hx ↦ Index.readsOf_settled fun _ ↦ .inl ⟨t, hx⟩

theorem reads_settled_self (ctx : Context) (c : Cursor) :
    c.Reads (Footprint.Settled (c.MayLook ctx)) := by
  intro part hpart
  cases part with
  | sieve x closed =>
    cases x with
    | indexed index a => exact fun _ ↦ Index.readsOf_settled fun _ ↦ .inr ⟨a, closed, hpart⟩
    | _ => trivial
  | _ => trivial

/-- A call that moves completes its readings. -/
theorem call_settled (ctx : Context) (c : Cursor) {call : Call} (hcall : call.IsMove) :
    Effect.Leaves ((call.perform ctx).perform c) fun r p ↦
      r.2.parts = c.parts ∧ p.Settled (c.MayLook ctx) (failureOf r.1) :=
  call_stays (Footprint.allows_settled _) (reads_settled ctx c) (reads_settled_self ctx c) hcall c
    rfl

/-- Calls made one after the other, whatever they come to. -/
def Call.performEach (ctx : Context) :
    List Call → Cursor → Effect (List (Except SearchError Answer) × Cursor)
  | [], c => return ([], c)
  | call :: calls, c => do
    let (o, c) ← (call.perform ctx).perform c
    let (os, c) ← performEach ctx calls c
    return (o :: os, c)

/-- The readings that moves make are the same before and after a move. -/
theorem mayLook_eq {c' : Cursor} (h : c'.parts = c.parts) : c'.MayLook ctx = c.MayLook ctx := by
  funext q
  rw [MayLook, MayLook, GoesThrough, GoesThrough, h]

/-- Calls that move complete their readings, each its own. -/
theorem performEach_settled (ctx : Context) (calls : List Call) (c : Cursor)
    (hcalls : ∀ call ∈ calls, call.IsMove) :
    Effect.Leaves (Call.performEach ctx calls c) fun r p ↦ ∃ ps, p = Footprint.together ps ∧
      List.Forall₂ (fun o p ↦ Footprint.Settled (c.MayLook ctx) (failureOf o) p) r.1 ps := by
  induction calls generalizing c with
  | nil => exact Effect.leaves_pure ⟨[], rfl, .nil⟩
  | cons call calls ih =>
    obtain ⟨hcall, hcalls⟩ := List.forall_mem_cons.1 hcalls
    refine Effect.leaves_bind (Effect.Leaves.mono (call_settled ctx c hcall) ?_)
    rintro ⟨o, c'⟩ p ⟨hparts, hp⟩
    refine Effect.leaves_bind (Effect.Leaves.mono (ih c' hcalls) ?_)
    rintro ⟨os, c''⟩ p' ⟨ps, rfl, hps⟩
    rw [mayLook_eq hparts] at hps
    refine Effect.leaves_pure ⟨p :: ps, ?_, .cons hp hps⟩
    rw [Footprint.followed_nothing]
    rfl

/-- **Every cursor that is opened to read an index in reverse is released once before the reading
is over**, whatever fails on the way and whether or not it lets itself be released, and every
evaluator and every call that moves a cursor completes the readings that it has begun.  The failure
of a reading is that of its scan or else that of the release, and it is reported. -/
theorem lookups_settle (ctx : Context) :
    (∀ q : Lookup, Effect.Leaves (q.index.firstKey? q.id q.wanted).run q.Completes) ∧
    (∀ (e : Evaluator) (c : Candidate), Effect.Leaves ((e.evaluate ctx).perform c) fun r p ↦
      p.Settled (fun q ↦ q.id = c.id ∧ ctx.MayRead q.index) (failureOf r.1)) ∧
    ∀ (calls : List Call) (c : Cursor), (∀ call ∈ calls, call.IsMove) →
      Effect.Leaves (Call.performEach ctx calls c) fun r p ↦ ∃ ps, p = Footprint.together ps ∧
        List.Forall₂ (fun o p ↦ Footprint.Settled (c.MayLook ctx) (failureOf o) p) r.1 ps :=
  ⟨Lookup.completes, fun e c ↦ e.evaluate_settled ctx c, performEach_settled ctx⟩

/-- The index hands out cursors that refuse the first move and refuse to be closed.  Two moves over
two keys release two of them, and the refused move is what both come to. -/
theorem lookups_settle_stiff :
    let key : Value := .binary [1]
    let values : Reel := ⟨.ofList [.keyed key 1], some ⟨"values", some 1, true, 0⟩⟩
    let index : Index := ⟨"cn", true, .ok (.ofList []), fun _ ↦ .ok (.ofList []),
      fun _ ↦ .ok values, 2, fun _ ↦ 2⟩
    let ctx : Context := ⟨Store.empty.directory, .empty, .standard⟩
    let c : Cursor := sieve (.fresh (.indexed index .present)
      (ofList [.keyed key 1, .keyed key 2]) [])
    let calls : List Call := [.begin .forward, .advance .forward]
    let refused : SearchError := .store (.backend "values move 1 refused")
    let run := StateT.run (Call.performEach ctx calls c) (.start .warn true)
    (run.1.1.map failureOf = [some refused, some refused] ∧
      run.2.releases = ["values", "values"]) ∧
    Effect.Leaves (Call.performEach ctx calls c) fun r p ↦ ∃ ps, p = Footprint.together ps ∧
      List.Forall₂ (fun o p ↦ Footprint.Settled (c.MayLook ctx) (failureOf o) p) r.1 ps := by
  intro key values index ctx c calls refused run
  refine ⟨⟨rfl, rfl⟩, (lookups_settle ctx).2.2 calls c ?_⟩
  exact List.forall_mem_cons.2 ⟨trivial, List.forall_mem_singleton.2 trivial⟩

end Cursor
end DirectoryQuery
