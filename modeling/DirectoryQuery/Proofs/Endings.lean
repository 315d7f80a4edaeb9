import DirectoryQuery.Proofs.Preparations
import DirectoryQuery.Search.Basic

/-!
# How a search ends

A search that has planned its operand comes to an end in one of three ways: the traversal fails, or
the release of the cursor does, or the identifiers are returned.  `Context.Ends` says what has
happened in each case (`Context.search_ends`).

The cursor is released in all three, and with it everything that was handed out for the plan
(`Context.Planned.handsOut`).  What is released besides was handed out by an index read in reverse.
As many cursors are closed as were made, and the completion of the search is logged with the number
of identifiers, if they are returned at all.
-/

set_option autoImplicit false

namespace DirectoryQuery
namespace Context

open Cursor

variable {ctx : Context}

/-! ## What is handed out -/

/-- The reel that a leaf takes its candidates from. -/
def leafReel (ctx : Context) (t : Test) : Except StoreError Reel :=
  match ctx.sourceIndex? t.subject.type, t.lookupKey with
  | some x, some key => x.forwardOn key
  | some x, none => if x.hasReverse then x.forward else ctx.directory.everyEntry
  | none, _ => ctx.directory.everyEntry

mutual
/-- The reels that are handed out for a filter made ready for use. -/
def handedOut (ctx : Context) : Evaluator → List Reel
  | .all [] => ctx.directory.everyEntry.toOption.toList
  | .all (part :: parts) => handedOut ctx part ++ handedOutEach ctx parts
  | .any parts => handedOutEach ctx parts
  | .not _ => ctx.directory.everyEntry.toOption.toList
  | .leaf t => (ctx.leafReel t).toOption.toList
/-- The reels that are handed out for filters made ready for use. -/
def handedOutEach (ctx : Context) : List Evaluator → List Reel
  | [] => []
  | part :: parts => handedOut ctx part ++ handedOutEach ctx parts
end

/-- The cursor has the monitors of the reels, and no others. -/
def Holds (c : Cursor) (reels : List Reel) : Prop := c.roll.labels.Perm (reels.flatMap Reel.labels)

theorem holds_fresh (x : Acceptance) {source : Except StoreError Reel} {r : Reel}
    (hr : source = .ok r) : Holds (sieve (.fresh x (reel r) [])) source.toOption.toList := by
  have hroll := (made_sieve x (reel r) [] x.kind 1).roll rfl
  rw [Holds, hroll, List.map_singleton, roll_reel, hr]
  simp [Roll.headed, Roll.ofReel, Except.toOption]

theorem PlannedLeaf.holds {t : Test} {o : Operand} (h : ctx.PlannedLeaf t o) :
    Holds o.cursor (ctx.leafReel t).toOption.toList := by
  cases h with
  | keyed hx hkey hreel => exact holds_fresh _ (by simp [leafReel, hx, hkey, hreel])
  | indexed hx hkey hreverse hreel =>
    exact holds_fresh _ (by simp [leafReel, hx, hkey, hreverse, hreel])
  | scanned hx hreel =>
    refine holds_fresh _ ?_
    unfold leafReel
    cases hsource : ctx.sourceIndex? t.subject.type with
    | none => exact hreel
    | some x => simp [hx x hsource, hreel]

mutual
/-- **The cursor that is planned has the monitors of everything that was handed out for it.** -/
theorem Planned.holds : ∀ {e : Evaluator} {o : Operand}, ctx.Planned e o →
    Holds o.cursor (ctx.handedOut e)
  | .all [], _, h => by
    rw [Planned] at h
    obtain ⟨r, hr, rfl⟩ := h
    exact holds_fresh _ hr
  | .all [part], _, h => by
    rw [Planned] at h
    simpa [handedOut, handedOutEach] using h.holds
  | .all (first :: second :: rest), _, h => by
    rw [Planned] at h
    obtain ⟨operands, driver, position, others, hplanned, hranked, rfl⟩ := h
    have hroll := (made_sieve (.joint position (others.map fun o ↦ o.1.evaluator)) driver.cursor
      (others.map fun o ↦ o.1.cursor) "and" operands.length).roll rfl
    have hperm : (((driver, position) :: others).map Prod.fst).Perm operands := by
      rw [← hranked]
      exact ranked_negationsLast_perm operands
    have hlabels := hperm.flatMap_right fun o ↦ o.cursor.roll.labels
    rw [Holds, hroll]
    refine .trans ?_ hplanned.holds
    simpa [Roll.headed, List.flatMap_map] using hlabels
  | .any [], _, h => by
    rw [Planned] at h
    rw [h]
    exact .refl []
  | .any [part], _, h => by
    rw [Planned] at h
    simpa [handedOut, handedOutEach] using h.holds
  | .any (first :: second :: rest), _, h => by
    rw [Planned] at h
    obtain ⟨operands, hplanned, rfl⟩ := h
    have hroll := (made_relay operands "or" operands.length).roll rfl
    rw [Holds, hroll]
    refine .trans ?_ hplanned.holds
    simp [Roll.headed, List.flatMap_map]
  | .not part, _, h => by
    rw [Planned] at h
    obtain ⟨r, hr, rfl⟩ := h
    exact holds_fresh _ hr
  | .leaf t, _, h => by
    rw [Planned] at h
    exact PlannedLeaf.holds h
theorem PlannedEach.holds : ∀ {es : List Evaluator} {operands : List Operand},
    ctx.PlannedEach es operands → (operands.flatMap fun o ↦ o.cursor.roll.labels).Perm
      ((ctx.handedOutEach es).flatMap Reel.labels)
  | [], _, h => by
    rw [PlannedEach] at h
    rw [h]
    exact .refl []
  | part :: parts, _, h => by
    rw [PlannedEach] at h
    obtain ⟨first, rest, rfl, hfirst, hrest⟩ := h
    rw [handedOutEach, List.flatMap_append, List.flatMap_cons]
    exact hfirst.holds.append hrest.holds
end

/-! ## What is read in reverse -/

/-- An index hands out a list with a monitor of this label when it is read in reverse. -/
def InReverse (ctx : Context) (label : String) : Prop :=
  ∃ t x id r m, ctx.directory.index? t = some x ∧ x.reverse id = .ok r ∧ r.monitor = some m ∧
    m.label = label

theorem reads_index {t : AttributeType} {x : Index} (h : ctx.directory.index? t = some x) :
    x.Reads fun _ ↦ Footprint.Aside ctx.InReverse :=
  Index.reads_aside fun id r m hr hm ↦ ⟨t, x, id, r, m, h, hr, hm, rfl⟩

theorem reads_inReverse (ctx : Context) : ctx.Reads fun _ ↦ Footprint.Aside ctx.InReverse := by
  intro id t x hx
  unfold reverseIndex? at hx
  split at hx
  · exact reads_index (Option.filter_eq_some_iff.1 hx).1 id
  · simp at hx

/-! ## Searches -/

/-- The log line about the completion of a search. -/
def completionLine (searchId : String) (f : Filter) (ids : List EntryId) : LogLine :=
  .ofEvent .searchComplete [("search_id", searchId), ("filter", f.display),
    ("matches", toString ids.length)]

/-- The lines about the completion of a search with the outcome. -/
def completionLines (searchId : String) (f : Filter) :
    Except SearchError (List EntryId) → List LogLine
  | .ok ids => [completionLine searchId f ids]
  | .error _ => []

/-- What has happened at the end of a search that has planned the operand. -/
structure Ends (ctx : Context) (searchId : String) (f : Filter) (d : Direction) (o : Operand)
    (result : Except SearchError (List EntryId)) (p : Footprint) : Prop where
  /-- The failure of the traversal comes before that of the release. -/
  outcome : result = do
    let ids ← ((collect ctx d).outcome o.cursor).1
    firstFailure o.cursor.roll.failures
    return ids
  /-- The cursor holds everything that was handed out for the plan. -/
  holds : ∃ e, f.toEvaluator ctx.schema = .ok e ∧ Holds o.cursor (ctx.handedOut e)
  /-- Everything on the cursor is released once, at the very end. -/
  released : ∃ reverses, p.releases = o.cursor.roll.labels.reverse ++ reverses ∧
    ∀ label ∈ reverses, ctx.InReverse label
  /-- The cursors that were made are those on the cursor. -/
  made : p.lines.countP LogLine.isCreation = o.cursor.roll.kinds.length
  /-- As many cursors are closed as were made. -/
  closed : p.lines.countP LogLine.isClosing = p.lines.countP LogLine.isCreation
  /-- The completion is logged if identifiers are returned. -/
  completed : p.lines.filter LogLine.isCompletion = completionLines searchId f result

theorem Ends.of_records {searchId : String} {f : Filter} {d : Direction} {o : Operand}
    {result : Except SearchError (List EntryId)} {p : Footprint} {reverses : List String}
    (hholds : ∃ e, f.toEvaluator ctx.schema = .ok e ∧ Holds o.cursor (ctx.handedOut e))
    (houtcome : result = do
      let ids ← ((collect ctx d).outcome o.cursor).1
      firstFailure o.cursor.roll.failures
      return ids)
    (hp : p.Records o.cursor.roll.kinds.length o.cursor.roll.kinds.length
      (completionLines searchId f result) (o.cursor.roll.labels.reverse ++ reverses))
    (hreverses : ∀ label ∈ reverses, ctx.InReverse label) : ctx.Ends searchId f d o result p where
  outcome := houtcome
  holds := hholds
  released := ⟨reverses, hp.released, hreverses⟩
  made := hp.made
  closed := hp.closed.trans hp.made.symm
  completed := hp.completed

section Closing

variable {c c' : Cursor} (hopen : c.IsOpen) (hparts : c'.parts = c.parts)

include hopen hparts

/-- The release at the end of a search, when the cursor was moved but not closed. -/
theorem release_records (cause : Option SearchError) :
    Effect.Leaves ((release cause).perform c') fun r p ↦ r.1 = firstFailure c.roll.failures ∧
      p.Records 0 c.roll.kinds.length [] c.roll.labels.reverse := by
  have hopen' : c'.IsOpen := by
    rw [Cursor.IsOpen, hparts]
    exact hopen
  refine Effect.Leaves.mono (releaseTree_leaves cause c' hopen') fun r p hpost ↦ ?_
  obtain ⟨hreleased, -⟩ := hpost
  rw [hparts] at hreleased
  exact ⟨hreleased.outcome, hreleased.clears.records⟩

/-- After a failure of the traversal that failure is reported, whatever the release comes to. -/
theorem abandon_leaves (e : SearchError) :
    Attempt.Leaves (α := List EntryId)
      (liftM ((release (some e)).perform c') >>= fun _ ↦ throw e) (fun _ _ ↦ False)
      fun e' p ↦ e' = e ∧ p.Records 0 c.roll.kinds.length [] c.roll.labels.reverse := by
  refine Attempt.leaves_bind (Attempt.leaves_effect ?_)
  refine Effect.Leaves.mono (release_records hopen hparts (some e)) fun r p hp ↦ ?_
  refine Effect.leaves_pure ⟨rfl, ?_⟩
  rw [Footprint.followed_nothing]
  exact hp.2

/-- After the traversal the release decides whether identifiers are returned. -/
theorem conclude_leaves (searchId : String) (f : Filter) (ids : List EntryId) :
    Attempt.Leaves
      (liftM ((release none).perform c') >>= fun r ↦ do
        r.1
        note .searchComplete [("search_id", searchId), ("filter", f.display),
          ("matches", toString ids.length)]
        return ids)
      (fun ids' p ↦ ids' = ids ∧ firstFailure c.roll.failures = .ok () ∧
        p.Records 0 c.roll.kinds.length [completionLine searchId f ids] c.roll.labels.reverse)
      fun e p ↦ firstFailure c.roll.failures = .error e ∧
        p.Records 0 c.roll.kinds.length [] c.roll.labels.reverse := by
  refine Attempt.leaves_bind (Attempt.leaves_effect ?_)
  refine Effect.Leaves.mono (release_records hopen hparts none) fun r p hpost ↦ ?_
  obtain ⟨houtcome, hp⟩ := hpost
  refine Attempt.leaves_bind (Attempt.leaves_except ?_)
  rw [houtcome]
  cases firstFailure c.roll.failures with
  | error e =>
    rw [Meets, Footprint.followed_nothing]
    exact ⟨rfl, hp⟩
  | ok =>
    refine Attempt.leaves_bind (Attempt.leaves_effect (Effect.leaves_note ?_))
    refine Attempt.leaves_pure ⟨rfl, rfl, ?_⟩
    have hline : (Footprint.ofLine (completionLine searchId f ids)).Records 0 0
        [completionLine searchId f ids] [] := ⟨rfl, rfl, rfl, rfl⟩
    simpa [completionLine] using hp.followed hline

end Closing

/-- **The end of a search that has planned its operand**, whatever fails from there on and whatever
was logged before. -/
theorem search_ends (ctx : Context) (searchId : String) (f : Filter) (d : Direction) {o : Operand}
    {t : Trace} (hplan : (ctx.plan f).outcome t = .ok o) :
    Effect.Leaves (ctx.search searchId f d).run (ctx.Ends searchId f d o) := by
  have hholds : ∃ e, f.toEvaluator ctx.schema = .ok e ∧ Holds o.cursor (ctx.handedOut e) := by
    have hspec := (plan_spec ctx f).outcome t
    rw [hplan] at hspec
    obtain ⟨e, he, ho⟩ := hspec
    exact ⟨e, he, ho.holds⟩
  have hplanned :=
    (plan_prepares (fun _ _ hx ↦ reads_index (index?_of_sourceIndex? hx)) f).of_outcome hplan
  have hsearch : Attempt.Leaves (ctx.search searchId f d)
      (fun ids p ↦ ctx.Ends searchId f d o (.ok ids) p)
      fun e p ↦ ctx.Ends searchId f d o (.error e) p := by
    refine Attempt.leaves_bind (Attempt.leaves_effect (Effect.leaves_note ?_))
    have hstart : (Footprint.ofLine (.ofEvent .searchStart
      [("search_id", searchId), ("filter", f.display)])).Quiet := Footprint.quiet_ofLine rfl rfl rfl
    refine Attempt.leaves_bind (hplanned.mono ?_ fun _ _ hfalse ↦ hfalse.elim)
    rintro _ p ⟨rfl, hp⟩
    have hopen := List.forall_mem_singleton.1 hp.isOpen
    have hreads := List.forall_mem_singleton.1 hp.reads
    have hmade := hp.records
    rw [List.flatMap_singleton] at hmade
    have hcollect := (collect_stays (allows_aside _) ctx.reads_inReverse hreads d _ rfl).answer
      (.start .warn false)
    refine Attempt.leaves_bind (Attempt.leaves_effect (Effect.Leaves.mono hcollect ?_))
    rintro ⟨traversal, cursor⟩ q ⟨htraversal, hparts, hq⟩
    -- The parts are still those that were planned, whatever the traversal came to.
    have hbefore := hstart.followed (hmade.followed hq.records)
    cases traversal with
    | error e =>
      refine (abandon_leaves hopen hparts e).mono (fun _ _ hfalse ↦ hfalse.elim) ?_
      rintro _ q' ⟨rfl, hq'⟩
      refine .of_records hholds ?_ ?_ hq.releases
      · rw [Act.outcome, ← htraversal]
        rfl
      · simpa [completionLines] using hbefore.followed hq'
    | ok ids =>
      refine (conclude_leaves hopen hparts searchId f ids).mono ?_ ?_
      · rintro _ q' ⟨rfl, hclosing, hq'⟩
        refine .of_records hholds ?_ ?_ hq.releases
        · rw [Act.outcome, ← htraversal, hclosing]
          rfl
        · simpa [completionLines] using hbefore.followed hq'
      · rintro e q' ⟨hclosing, hq'⟩
        refine .of_records hholds ?_ ?_ hq.releases
        · rw [Act.outcome, ← htraversal, hclosing]
          rfl
        · simpa [completionLines] using hbefore.followed hq'
  refine Effect.Leaves.mono hsearch fun result p hp ↦ ?_
  cases result with
  | ok ids => exact hp
  | error e => exact hp

/-- The reel of all entries refuses the second move and refuses to be closed.  It is released
nevertheless, and the failure of the traversal is reported. -/
theorem search_ends_stiff :
    let every : Reel := ⟨.ofList [.bare 1, .bare 2], some ⟨"every", some 2, true, 0⟩⟩
    let ctx : Context := ⟨{ Store.empty.directory with everyEntry := .ok every }, .empty, .standard⟩
    Effect.Leaves (ctx.search "refused" (.not (.any [])) .forward).run fun result p ↦
      result = .error (.store (.backend "every move 2 refused")) ∧ p.releases = ["every"] ∧
      p.lines.countP LogLine.isCreation = 1 ∧ p.lines.countP LogLine.isClosing = 1 ∧
      p.lines.filter LogLine.isCompletion = [] := by
  intro every ctx
  have hplan : (ctx.plan (.not (.any []))).outcome (.start .warn false) = .ok
      ⟨.sieve (.fresh (.rejecting (.any [])) (.reel every) []), .not (.any []), some 0⟩ := rfl
  refine Effect.Leaves.mono (search_ends ctx "refused" _ .forward hplan) fun result p hp ↦ ?_
  have hresult : result = .error (.store (.backend "every move 2 refused")) := hp.outcome.trans rfl
  obtain ⟨reverses, hreleases, hreverses⟩ := hp.released
  have hnone : reverses = [] := by
    refine List.eq_nil_iff_forall_not_mem.2 fun label hlabel ↦ ?_
    obtain ⟨t, x, id, r, m, hx, -⟩ := hreverses label hlabel
    simp [ctx, Store.directory, Store.index?, Store.empty] at hx
  refine ⟨hresult, ?_, hp.made, hp.closed.trans hp.made, ?_⟩
  · rw [hreleases, hnone]
    rfl
  · rw [hp.completed, hresult]
    rfl

end Context
end DirectoryQuery
