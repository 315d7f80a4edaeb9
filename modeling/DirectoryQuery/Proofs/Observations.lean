import DirectoryQuery.Proofs.Endings
import DirectoryQuery.Proofs.Provenance
import DirectoryQuery.Proofs.Thrift

/-!
# Watching a search

A search may be watched more or less closely: under any identifier, with any level of logging in the
configuration, with any threshold for the lines that are written, and with counters or without.
None of this feeds back into the search.

What is done for the answer does not depend on the level of logging in the configuration, since it
is the same in two contexts that differ in nothing else (`Context.answer_logging`).  The rest is
known from the footprint: the answer leaves one that is the same whatever the trace is, and a search
puts the two lines with its identifier around it (`Context.search_surrounds`).  So the outcome and
the releases are the same for all observers, and what they find in the log are the lines of one list
that are severe enough for them (`Context.watched_alike`).
-/

set_option autoImplicit false

namespace DirectoryQuery

/-- How a search is watched. -/
structure Observer where
  /-- The identifier that the search is logged under. -/
  searchId : String
  /-- The level of logging in the configuration. -/
  logLevel : Severity
  /-- The lowest severity that is written. -/
  threshold : Severity
  /-- Whether the work is counted. -/
  counting : Bool

/-- The line without the identifier of a search. -/
def LogLine.anonymous (l : LogLine) : LogLine :=
  { l with fields := l.fields.filter fun field ↦ field.1 ≠ "search_id" }

theorem Trace.log_after_start (threshold : Severity) (counting : Bool) (p : Footprint) :
    ((start threshold counting).after p).log =
      p.lines.reverse.filter fun l ↦ l.severity.passes threshold := by
  simp [log, after, start]

namespace Context

/-- The context with another level of logging in its configuration. -/
def logging (ctx : Context) (level : Severity) : Context :=
  { ctx with config := { ctx.config with logLevel := level } }

/-- The outcome of a search and what the observer has of it. -/
def watched (ctx : Context) (f : Filter) (d : Direction) (o : Observer) :
    Except SearchError (List EntryId) × Trace :=
  StateT.run ((ctx.logging o.logLevel).search o.searchId f d).run (.start o.threshold o.counting)

/-! ## The level of logging in the configuration -/

/-- A context compared with the one that has another level of logging. -/
def levels (ctx : Context) (level : Severity) : Comparison :=
  { Comparison.alone ctx fun _ ↦ True with second := ctx.logging level }

/-- A test does not ask for the level of logging. -/
theorem evaluate_matches_logging (ctx : Context) (level : Severity) (t : Test) :
    Act.Matches [] (t.evaluate ctx) (t.evaluate (ctx.logging level)) (fun _ ↦ True)
      fun _ ↦ True := by
  refine fun c _ ↦ ⟨rfl, ?_⟩
  refine Effect.Leaves.mono (t.evaluate_stays Footprint.allows_true (ctx.reads_true c.id) c rfl) ?_
  exact fun _ _ _ ↦ ⟨⟨trivial, meets_true _⟩, nofun⟩

theorem answer_logging (ctx : Context) (level : Severity) (f : Filter) (d : Direction) :
    Attempt.Matches [] (ctx.answer f d) ((ctx.logging level).answer f d) fun _ ↦ True :=
  (ctx.levels level).answer_matches ⟨rfl, rfl, rfl, fun _ ↦ rfl⟩ (fun _ _ _ _ ↦ trivial)
    (fun _ _ t _ ↦ .of_evaluate (fun _ _ _ _ ↦ trivial)
      (fun _ _ ↦ ⟨List.not_mem_nil, fun _ ↦ trivial⟩) (ctx.evaluate_matches_logging level t)) d

/-! ## The lines with the identifier -/

/-- The log line about the begin of a search. -/
def startLine (searchId : String) (f : Filter) : LogLine :=
  .ofEvent .searchStart [("search_id", searchId), ("filter", f.display)]

/-- What a search under the identifier leaves behind, if its answer is the result and leaves the
footprint. -/
def surrounded (searchId : String) (f : Filter) (result : Except SearchError (List EntryId))
    (p : Footprint) : Footprint :=
  (Footprint.ofLine (startLine searchId f)).followed
    (p.followed ⟨completionLines searchId f result, [], []⟩)

/-- Whatever the identifier, a search puts the two lines with it around what its answer leaves. -/
theorem search_leaves_surrounded {ctx : Context} {f : Filter} {d : Direction}
    {result : Except SearchError (List EntryId)} {p : Footprint}
    (h : Effect.Leaves (ctx.answer f d).run fun a q ↦ a = result ∧ q = p) (searchId : String) :
    Effect.Leaves (ctx.search searchId f d).run fun a q ↦
      a = result ∧ q = surrounded searchId f result p := by
  have hsearch : Attempt.Leaves (ctx.search searchId f d)
      (fun ids q ↦ .ok ids = result ∧ q = surrounded searchId f result p)
      fun e q ↦ .error e = result ∧ q = surrounded searchId f result p := by
    rw [search_eq_answer]
    refine Attempt.leaves_bind (Attempt.leaves_effect (Effect.leaves_note ?_))
    refine Attempt.leaves_bind (Effect.Leaves.mono h ?_)
    rintro outcome q ⟨rfl, rfl⟩
    cases outcome with
    | error e => exact ⟨rfl, congrArg _ q.followed_nothing.symm⟩
    | ok ids =>
      refine Attempt.leaves_bind (Attempt.leaves_effect (Effect.leaves_note ?_))
      refine Attempt.leaves_pure ⟨rfl, ?_⟩
      rw [Footprint.followed_nothing]
      rfl
  refine Effect.Leaves.mono hsearch fun a q hq ↦ ?_
  cases a with
  | ok ids => exact hq
  | error e => exact hq

/-- **The identifier of a search is in its first and its last line.**  Besides, a search leaves the
footprint of its answer, at any level of logging. -/
theorem search_surrounds (ctx : Context) (f : Filter) (d : Direction) :
    ∃ result p, ∀ level searchId t,
      StateT.run ((ctx.logging level).search searchId f d).run t =
        (result, t.after (surrounded searchId f result p)) := by
  obtain ⟨result, p, hrun, -⟩ := (ctx.answer_logging .warn f d).2
  refine ⟨result, p, fun level searchId t ↦ ?_⟩
  have hanswer : Effect.Leaves ((ctx.logging level).answer f d).run fun a q ↦
      a = result ∧ q = p := by
    rw [← (ctx.answer_logging level f d).1]
    exact ⟨result, p, hrun, rfl, rfl⟩
  obtain ⟨_, _, hsearch, rfl, rfl⟩ := search_leaves_surrounded hanswer searchId
  exact hsearch t

/-! ## Observers -/

/-- The lines about a search whose answer is the result and writes the lines. -/
def linesAbout (f : Filter) (result : Except SearchError (List EntryId)) (lines : List LogLine)
    (searchId : String) : List LogLine :=
  startLine searchId f :: lines ++ completionLines searchId f result

theorem reverse_lines_surrounded (searchId : String) (f : Filter)
    (result : Except SearchError (List EntryId)) (p : Footprint) :
    (surrounded searchId f result p).lines.reverse =
      linesAbout f result p.lines.reverse searchId := by
  cases result <;> simp [surrounded, linesAbout, completionLines, Footprint.ofLine]

/-- **What there is for an observer**: the one outcome, the one list of releases, and those of the
lines that are severe enough. -/
theorem watched_spec (ctx : Context) (f : Filter) (d : Direction) :
    ∃ result lines releases, ∀ o : Observer,
      (ctx.watched f d o).1 = result ∧ (ctx.watched f d o).2.releases = releases ∧
      (ctx.watched f d o).2.log =
        (linesAbout f result lines o.searchId).filter fun l ↦ l.severity.passes o.threshold := by
  obtain ⟨result, p, hrun⟩ := ctx.search_surrounds f d
  refine ⟨result, p.lines.reverse, p.releases, fun o ↦ ?_⟩
  rw [watched, hrun, Trace.log_after_start, reverse_lines_surrounded]
  exact ⟨rfl, by simp [Trace.after, Trace.start, surrounded, Footprint.ofLine], rfl⟩

/-- Without the identifier the lines that are severe enough do not tell under which one they were
written. -/
theorem anonymous_linesAbout (f : Filter) (result : Except SearchError (List EntryId))
    (lines : List LogLine) (searchId searchId' : String) (threshold : Severity) :
    ((linesAbout f result lines searchId).filter fun l ↦ l.severity.passes threshold).map
        LogLine.anonymous =
      ((linesAbout f result lines searchId').filter fun l ↦ l.severity.passes threshold).map
        LogLine.anonymous := by
  have hfilter : ∀ ls : List LogLine,
      (ls.filter fun l ↦ l.severity.passes threshold).map LogLine.anonymous =
        (ls.map LogLine.anonymous).filter fun l ↦ l.severity.passes threshold := by
    simp [List.filter_map, Function.comp_def, LogLine.anonymous]
  have hstart : (startLine searchId f).anonymous = (startLine searchId' f).anonymous := by
    simp [startLine, LogLine.ofEvent, LogLine.anonymous]
  have hcompletion : (completionLines searchId f result).map LogLine.anonymous =
      (completionLines searchId' f result).map LogLine.anonymous := by
    cases result <;> simp [completionLines, completionLine, LogLine.ofEvent, LogLine.anonymous]
  simp only [hfilter, linesAbout, List.map_append, List.map_cons, hstart, hcompletion]

/-- **To watch a search makes no difference to it.**  Two observers of the same search have the same
outcome, and every cursor is released as often.  What the one finds in the log are the lines that
are severe enough for it among all that the other finds at the lowest threshold: the very lines if
both watch under one identifier, and the lines without the identifier otherwise. -/
theorem watched_alike (ctx : Context) (f : Filter) (d : Direction) (o o' : Observer) :
    let severe (l : LogLine) : Bool := l.severity.passes o.threshold
    (ctx.watched f d o).1 = (ctx.watched f d o').1 ∧
    (∀ label, (ctx.watched f d o).2.releasesOf label = (ctx.watched f d o').2.releasesOf label) ∧
    (ctx.watched f d o).2.log =
      (ctx.watched f d { o' with searchId := o.searchId, threshold := .trace }).2.log.filter
        severe ∧
    (ctx.watched f d o).2.log.map LogLine.anonymous =
      ((ctx.watched f d { o' with threshold := .trace }).2.log.filter severe).map
        LogLine.anonymous := by
  intro severe
  obtain ⟨result, lines, releases, hwatched⟩ := ctx.watched_spec f d
  have hall (searchId : String) :
      (ctx.watched f d { o' with searchId, threshold := .trace }).2.log =
        linesAbout f result lines searchId := by
    rw [(hwatched _).2.2]
    exact List.filter_eq_self.2 fun l _ ↦ decide_eq_true (Nat.zero_le _)
  obtain ⟨hresult, hreleases, hlog⟩ := hwatched o
  obtain ⟨hresult', hreleases', -⟩ := hwatched o'
  refine ⟨hresult.trans hresult'.symm, fun label ↦ ?_, ?_, ?_⟩
  · rw [Trace.releasesOf, Trace.releasesOf, hreleases, hreleases']
  · rw [hall o.searchId]
    exact hlog
  · rw [hall o'.searchId, hlog]
    exact anonymous_linesAbout f result lines o.searchId o'.searchId o.threshold

end Context
end DirectoryQuery
