import DirectoryQuery.Command.Run
import DirectoryQuery.Proofs.Outcome

/-!
# What a search command reports

A caller that reads what a search command prints expects one object, which tells of success, or of
failure with a code and a message (`Report.Answers`).  A search that is run is reported like that,
whether it succeeds or fails.  But a command may fail before: the configuration, the schema, the
entries or the indexes may be no good, or the input is not a filter.  Then it prints nothing at all.
So a failure is told in what is printed exactly if it is the failure of a search
(`Command.answers_iff`).
-/

set_option autoImplicit false

namespace DirectoryQuery

namespace Report

/-- One object is printed, and it tells success or failure as it is; a failure has a code and a
message. -/
def Answers (r : Report) : Prop :=
  (r.failure = none ∧ ∃ data, r.output = [.object [("data", data), ("status", .string "ok")]]) ∨
    ((∃ e, r.failure = some e) ∧ ∃ code message, r.output =
      [.object [("code", .string code), ("message", .string message), ("status", .string "error")]])

theorem answers_success (data : Json) : (success data).Answers := .inl ⟨rfl, data, rfl⟩

theorem answers_searchFailure (e : SearchError) : (searchFailure e).Answers :=
  .inr ⟨⟨_, rfl⟩, e.code, e.message, rfl⟩

/-- Who prints nothing does not answer. -/
theorem not_answers_silent (e : CommandError) : ¬ (Report.mk [] (some e)).Answers := by
  rintro (⟨-, data, h⟩ | ⟨-, code, message, h⟩) <;> exact absurd h.symm (List.cons_ne_nil _ _)

variable {step : CommandStep Report} {t : Trace}

theorem ofStep_of_ok {report : Report} {t' : Trace} (h : StateT.run step.run t = (.ok report, t')) :
    StateT.run (ofStep step) t = (report, t') := by
  rw [ofStep, StateT.run_bind, h]
  rfl

theorem ofStep_of_error {e : CommandError} {t' : Trace}
    (h : StateT.run step.run t = (.error e, t')) :
    StateT.run (ofStep step) t = (⟨[], some e⟩, t') := by
  rw [ofStep, StateT.run_bind, h]
  rfl

/-- The report of a search, with the counters that it leaves. -/
def ofSearch (counters : Counters) : Except SearchError (List EntryId) → Report
  | .ok ids => success (.object [("ids", .list (fun id ↦ .ofNat id.toNat) ids),
      ("stats", counters.toJson)])
  | .error e => searchFailure e

theorem answers_ofSearch (counters : Counters) (outcome : Except SearchError (List EntryId)) :
    (ofSearch counters outcome).Answers := by
  cases outcome with
  | ok ids => exact answers_success _
  | error e => exact answers_searchFailure e

/-- The report of a search tells of no failure but that of the search. -/
theorem stage_of_ofSearch {counters : Counters} {outcome : Except SearchError (List EntryId)}
    {e : CommandError} (h : (ofSearch counters outcome).failure = some e) : e.stage = .search := by
  cases outcome with
  | ok ids => exact nomatch h
  | error e' => exact Option.some.inj h ▸ rfl

end Report

/-! ## Failures before a search -/

/-- No failure of the step is that of a search. -/
def CommandStep.Unsearched {α : Type} (step : CommandStep α) : Prop :=
  ∀ t e, (StateT.run step.run t).1 = .error e → e.stage ≠ .search

namespace CommandStep
variable {α β : Type}

theorem unsearched_bind {x : CommandStep α} {f : α → CommandStep β} (hx : x.Unsearched)
    (hf : ∀ a, (f a).Unsearched) : (x >>= f).Unsearched := by
  intro t e h
  cases hrun : StateT.run x.run t with
  | mk outcome t' =>
    cases outcome with
    | ok a =>
      rw [run_bind_ok hrun] at h
      exact hf a t' e h
    | error e' =>
      rw [run_bind_error hrun] at h
      obtain rfl := Except.error.inj h
      exact hx t _ (congrArg Prod.fst hrun)

theorem unsearched_pure (a : α) : (pure a : CommandStep α).Unsearched := by
  intro t e h
  exact nomatch h

theorem unsearched_liftM {x : Except CommandError α} (h : ∀ e, x = .error e → e.stage ≠ .search) :
    CommandStep.Unsearched (liftM x : CommandStep α) := by
  intro t e he
  refine h e ?_
  cases x with
  | ok a => exact nomatch he
  | error e' => exact he

theorem unsearched_foldlM {f : β → α → CommandStep β} (h : ∀ b a, (f b a).Unsearched)
    (l : List α) (b : β) : (l.foldlM f b).Unsearched := by
  induction l generalizing b with
  | nil => exact unsearched_pure b
  | cons a l ih => exact unsearched_bind (h b a) ih

end CommandStep

open CommandStep

/-! Each part of opening a session has failures of one stage: reading the configuration has its own,
and the schema, the entries and the indexes turn what went wrong into a failure of theirs. -/

theorem CommandConfig.stage_of_validate {c : CommandConfig} {e : CommandError}
    (h : c.validate = .error e) : e.stage = .configuration := by
  unfold validate at h
  split at h
  · exact Except.error.inj h ▸ rfl
  · obtain ⟨e', rfl⟩ := exists_of_mapError h
    rfl

theorem CommandConfig.stage_of_ofText {text : String} {e : CommandError}
    (h : CommandConfig.ofText text = .error e) : e.stage = .configuration := by
  unfold CommandConfig.ofText at h
  cases hjson : (Json.read? text).bind ofJson? with
  | none =>
    rw [hjson] at h
    exact Except.error.inj h ▸ rfl
  | some c =>
    rw [hjson] at h
    cases hvalid : c.validate with
    | ok _ => simp [hvalid, bind, Except.bind, pure, Except.pure] at h
    | error e' =>
      simp only [hvalid, bind, Except.bind] at h
      obtain rfl := Except.error.inj h
      exact stage_of_validate hvalid

theorem CommandConfig.stage_of_load {files : Files} {path : String} {t : Trace} {e : CommandError}
    (h : (StateT.run (CommandConfig.load files path) t).1 = .error e) :
    e.stage = .configuration := by
  unfold CommandConfig.load at h
  cases hread : files path with
  | error reason =>
    rw [hread] at h
    exact Except.error.inj h ▸ rfl
  | ok text =>
    simp only [hread] at h
    cases htext : ofText text with
    | error e' =>
      simp only [htext] at h
      obtain rfl := Except.error.inj h
      exact stage_of_ofText htext
    | ok c =>
      simp only [htext] at h
      exact nomatch h

theorem Session.unsearched_schemaOf (files : Files) (path : String) (c : CommandConfig) :
    CommandStep.Unsearched (ExceptT.mk (Session.schemaOf files path c)) := by
  intro t e h
  unfold Session.schemaOf at h
  cases hfile : c.schemaFile with
  | none =>
    simp only [hfile] at h
    exact nomatch h
  | some file =>
    simp only [hfile] at h
    obtain ⟨e', rfl⟩ := exists_of_mapError h
    exact nofun

/-- What keeps a session from opening is not the failure of a search. -/
theorem Session.unsearched_open (files : Files) (path : String) :
    (Session.open files path).Unsearched := by
  refine unsearched_bind (fun t e h ↦ ?_) fun c ↦ ?_
  · rw [CommandConfig.stage_of_load h]
    exact nofun
  refine unsearched_bind (fun t e h ↦ nomatch h) fun _ ↦ ?_
  refine unsearched_bind (unsearched_schemaOf files path c) fun schema ↦ ?_
  refine unsearched_bind (unsearched_liftM fun e h ↦ ?_) fun store ↦ ?_
  · obtain ⟨e', rfl⟩ := exists_of_mapError h
    exact nofun
  refine unsearched_bind
    (unsearched_foldlM (fun store name ↦ unsearched_liftM fun e h ↦ ?_) _ store) fun _ ↦
    unsearched_pure _
  obtain ⟨e', rfl⟩ := exists_of_mapError h
  exact nofun

theorem Command.stage_of_filterOf {input : Except String String} {e : CommandError}
    (h : filterOf input = .error e) : e.stage = .inputOutput := by
  unfold filterOf at h
  cases input with
  | error reason => exact Except.error.inj h ▸ rfl
  | ok text =>
    simp only at h
    split at h
    · exact Except.error.inj h ▸ rfl
    · split at h
      · exact nomatch h
      · exact Except.error.inj h ▸ rfl

/-! ## The report of a search command -/

namespace Command

variable {files : Files} {input : Except String String} {searchId config : String}
  {inReverse : Bool} {t t' : Trace} {session : Session} {f : Filter} {e : CommandError}

/-- The report of a search command. -/
def searchReport (files : Files) (input : Except String String) (searchId config : String)
    (inReverse : Bool) (t : Trace) : Report :=
  (StateT.run (run files input searchId (.search config inReverse)) t).1

/-- What opening the session of a command comes to, and the trace afterwards. -/
def opened (files : Files) (config : String) (t : Trace) : Except CommandError Session × Trace :=
  StateT.run (Session.open files config).run t

/-- What the search of a session comes to, and the trace afterwards. -/
def ended (session : Session) (searchId : String) (f : Filter) (inReverse : Bool) (t : Trace) :
    Except SearchError (List EntryId) × Trace :=
  StateT.run (session.context.search searchId f (if inReverse then .backward else .forward)).run
    { t with counters := some .zero }

/-- A session that does not come about fails the command. -/
theorem searchReport_of_unopened (h : opened files config t = (.error e, t')) :
    searchReport files input searchId config inReverse t = ⟨[], some e⟩ :=
  congrArg Prod.fst (Report.ofStep_of_error (run_bind_error h))

/-- Input that is no filter fails the command. -/
theorem searchReport_of_unread (h : opened files config t = (.ok session, t'))
    (hf : filterOf input = .error e) :
    searchReport files input searchId config inReverse t = ⟨[], some e⟩ := by
  have hread : StateT.run (liftM (filterOf input) : CommandStep Filter).run t' =
      (.error e, t') := by
    rw [hf]
    rfl
  exact congrArg Prod.fst (Report.ofStep_of_error ((run_bind_ok h).trans (run_bind_error hread)))

/-- A search that is run is reported, however it ends. -/
theorem searchReport_of_read {outcome : Except SearchError (List EntryId)} {t'' : Trace}
    (h : opened files config t = (.ok session, t')) (hf : filterOf input = .ok f)
    (hended : ended session searchId f inReverse t' = (outcome, t'')) :
    searchReport files input searchId config inReverse t =
      .ofSearch (t''.counters.getD .zero) outcome := by
  let d : Direction := if inReverse then .backward else .forward
  have hread : StateT.run (liftM (filterOf input) : CommandStep Filter).run t' = (.ok f, t') := by
    rw [hf]
    rfl
  have hstart : StateT.run (liftM startCounting : CommandStep Unit).run t' =
    (.ok (), { t' with counters := some .zero }) := rfl
  have hsearch : StateT.run (liftM (session.context.search searchId f d).run :
      CommandStep (Except SearchError (List EntryId))).run { t' with counters := some .zero } =
      (.ok outcome, t'') := congrArg (Prod.map Except.ok id) hended
  have hanswer : StateT.run (answer files input searchId config d).run t =
      (.ok (.ofSearch (t''.counters.getD .zero) outcome), t'') := by
    refine (run_bind_ok h).trans ((run_bind_ok hread).trans ((run_bind_ok hstart).trans
      ((run_bind_ok hsearch).trans ?_)))
    cases outcome with
    | ok ids => rfl
    | error e => rfl
  exact congrArg Prod.fst (Report.ofStep_of_ok hanswer)

/-- **A search command answers if and only if its session opens and its input is a filter;** that is
to say, it does not fail, or fails in the search.  Else it prints nothing, and fails with what is
wrong with either, the session first.  If it answers, it answers with what the search comes to. -/
theorem answers_iff (files : Files) (input : Except String String) (searchId config : String)
    (inReverse : Bool) (t : Trace) :
    let report := searchReport files input searchId config inReverse t
    (report.Answers ↔ (∃ session, (opened files config t).1 = .ok session) ∧
      ∃ f, filterOf input = .ok f) ∧
    (report.Answers ↔ ∀ e, report.failure = some e → e.stage = .search) ∧
    (∀ e, (opened files config t).1 = .error e → report = ⟨[], some e⟩) ∧
    (∀ session e, (opened files config t).1 = .ok session → filterOf input = .error e →
      report = ⟨[], some e⟩) ∧
    ∀ session f, (opened files config t).1 = .ok session → filterOf input = .ok f →
      let outcome := ended session searchId f inReverse (opened files config t).2
      report = .ofSearch (outcome.2.counters.getD .zero) outcome.1 := by
  intro report
  have hunopened : ∀ e, (opened files config t).1 = .error e → report = ⟨[], some e⟩ :=
    fun _ h ↦ searchReport_of_unopened (Prod.ext h rfl)
  have hunread : ∀ session e, (opened files config t).1 = .ok session →
      filterOf input = .error e → report = ⟨[], some e⟩ :=
    fun _ _ h hf ↦ searchReport_of_unread (Prod.ext h rfl) hf
  have hread : ∀ session f, (opened files config t).1 = .ok session → filterOf input = .ok f →
      let outcome := ended session searchId f inReverse (opened files config t).2
      report = .ofSearch (outcome.2.counters.getD .zero) outcome.1 :=
    fun _ _ h hf ↦ searchReport_of_read (Prod.ext h rfl) hf rfl
  rw [← and_assoc]
  refine ⟨?_, hunopened, hunread, hread⟩
  cases hopened : (opened files config t).1 with
  | error e =>
    have hstage : e.stage ≠ .search := Session.unsearched_open files config t e hopened
    rw [hunopened e hopened]
    simp [Report.not_answers_silent, hstage]
  | ok session =>
    cases hfilter : filterOf input with
    | error e =>
      have hstage : e.stage ≠ .search := by
        rw [stage_of_filterOf hfilter]
        exact nofun
      rw [hunread session e hopened hfilter]
      simp [Report.not_answers_silent, hstage]
    | ok f =>
      rw [hread session f hopened hfilter]
      exact ⟨iff_of_true (Report.answers_ofSearch ..) ⟨⟨session, rfl⟩, f, rfl⟩,
        iff_of_true (Report.answers_ofSearch ..) fun _ ↦ Report.stage_of_ofSearch⟩

/-- A search command that is given no input prints nothing: it does not answer. -/
theorem silent_without_input :
    let files := (FileTree.ofList [("dirsearch.json", "\x7b\"entries_file\": \"entries.json\"\x7d"),
      ("entries.json", "[]")]).read
    let report := searchReport files (.ok "") "" "dirsearch.json" false (.start .info false)
    report.output = [] ∧ ¬ report.Answers := by
  intro files report
  have hinput : filterOf (.ok "") = .error ⟨.inputOutput, "Empty input"⟩ := rfl
  suffices hsilent : ∃ e, report = ⟨[], some e⟩ by
    obtain ⟨e, he⟩ := hsilent
    rw [he]
    exact ⟨rfl, Report.not_answers_silent e⟩
  cases h : (opened files "dirsearch.json" (.start .info false)).1 with
  | error e => exact ⟨e, searchReport_of_unopened (Prod.ext h rfl)⟩
  | ok session => exact ⟨_, searchReport_of_unread (Prod.ext h rfl) hinput⟩

end Command
end DirectoryQuery
