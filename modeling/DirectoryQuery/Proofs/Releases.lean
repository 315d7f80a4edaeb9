import DirectoryQuery.Proofs.Parts
import DirectoryQuery.Proofs.Passes

/-!
# What the release of a cursor does

The release of a cursor goes through all its parts, whatever fails on the way: each monitor is
released once, each sieve and relay is closed and logged once, and the first failure is the outcome
(`Cursor.releaseTree_leaves`).  This holds of every cursor in which no sieve or relay was closed
before.
-/

set_option autoImplicit false

namespace DirectoryQuery

/-! ## Failures and footprints of a release -/

/-- The first of the failures, if there is one. -/
def firstFailure : List SearchError → Except SearchError Unit
  | [] => .ok ()
  | e :: _ => .error e

@[simp] theorem firstFailure_append (es es' : List SearchError) :
    firstFailure (es ++ es') = (do firstFailure es; firstFailure es') := by
  cases es <;> rfl

/-- The failure of a monitor that does not let itself be released. -/
def Monitor.failure? (m : Monitor) : Option SearchError :=
  if m.failsToClose then some (.evaluation m.label "refused to close" none) else none

theorem Monitor.released_firstFailure (m : Monitor) (es : List SearchError) :
    m.released (firstFailure es) = firstFailure (es ++ m.failure?.toList) := by
  by_cases h : m.failsToClose <;> cases es <;> simp [released, failure?, firstFailure, h]

/-- The failure of a reel that does not let itself be released. -/
def Reel.failure? (r : Reel) : Option SearchError := r.monitor.bind Monitor.failure?

@[simp] theorem Monitor.failure?_rested (m : Monitor) : m.rested.failure? = m.failure? := rfl

theorem Reel.closing_eq (r : Reel) : r.closing = firstFailure r.failure?.toList := by
  cases h : r.monitor with
  | none => simp [closing, failure?, firstFailure, h]
  | some m =>
    have hreleased : m.released (.ok ()) = firstFailure m.failure?.toList :=
      m.released_firstFailure []
    simp [closing, failure?, h, hreleased]

namespace Part

/-- The failure of a monitor that is left. -/
def failure? : Part → Option SearchError
  | left m => m.failure?
  | _ => none

variable {part : Part} {kind : String}

theorem label?_of_kind? (h : part.kind? = some kind) : part.label? = none := by
  cases part <;> simp_all [kind?, label?]

theorem failure?_of_kind? (h : part.kind? = some kind) : part.failure? = none := by
  cases part <;> simp_all [kind?, failure?]

theorem kind_ne_list (h : part.kind? = some kind) : kind ≠ "list" := by
  cases part with
  | entered | left => simp [kind?] at h
  | sieve x =>
    rw [← Option.some.inj h]
    cases x <;> simp [Acceptance.kind]
  | relay =>
    rw [← Option.some.inj h]
    decide

end Part

/-- The line about the closing of a sieve or relay. -/
def closingLine (cause : Option SearchError) (kind : String) : LogLine :=
  .ofEvent .cursorClosed (Listing.closedFields kind cause)

/-- The footprint of releasing parts: each monitor is released once, each sieve and relay is logged
once, and all other lines are asides. -/
structure Footprint.Clears (cause : Option SearchError) (ps : List Part) (p : Footprint) :
    Prop where
  releases : p.releases = (ps.filterMap Part.label?).reverse
  lines : p.lines.filter (fun l ↦ !l.isAside) =
    ((ps.filterMap Part.kind?).map (closingLine cause)).reverse

section Clears

variable {cause : Option SearchError} {ps qs : List Part} {p q : Footprint}

theorem Footprint.Aside.clears (h : p.Aside fun _ ↦ False) : p.Clears cause [] := by
  refine ⟨List.eq_nil_iff_forall_not_mem.2 h.releases, ?_⟩
  simpa using h.lines

theorem Footprint.clears_nothing : Footprint.nothing.Clears cause [] :=
  (Footprint.Aside.nothing _).clears

theorem Footprint.Clears.followed (hp : p.Clears cause ps) (hq : q.Clears cause qs) :
    (p.followed q).Clears cause (ps ++ qs) := by
  constructor
  · simp [hp.releases, hq.releases]
  · simp [hp.lines, hq.lines]

theorem isAside_closingLine {kind : String} (h : kind ≠ "list") :
    (closingLine cause kind).isAside = false := by
  have hname : (Event.cursorClosed.name == Event.cursorCloseFailed.name) = false := rfl
  have hkind : (Listing.closedFields kind cause).lookup "kind" = some kind := by cases cause <;> rfl
  simp [closingLine, LogLine.isAside, LogLine.ofEvent, hkind, h, beq_eq_false_iff_ne.1 hname]

end Clears

/-- The release of the parts has the outcome and the footprint. -/
structure Released (cause : Option SearchError) (ps : List Part) (o : Except SearchError Unit)
    (p : Footprint) : Prop where
  outcome : o = firstFailure (ps.filterMap Part.failure?)
  clears : p.Clears cause ps

theorem Released.append {cause : Option SearchError} {ps qs : List Part}
    {o o' : Except SearchError Unit} {p q : Footprint} (h : Released cause ps o p)
    (h' : Released cause qs o' q) : Released cause (ps ++ qs) (do o; o') (p.followed q) where
  outcome := by simp [h.outcome, h'.outcome]
  clears := h.clears.followed h'.clears

/-- Asides in between do not matter. -/
theorem Released.followed {cause : Option SearchError} {ps : List Part}
    {o : Except SearchError Unit} {p q : Footprint} (h : Released cause ps o p)
    (hq : q.Clears cause []) : Released cause ps o (p.followed q) :=
  ⟨h.outcome, by simpa using h.clears.followed hq⟩

/-- A sieve or relay is closed, and that is logged. -/
theorem released_composite (cause : Option SearchError) {part : Part} {kind : String}
    (h : part.kind? = some kind) :
    Released cause [part] (.ok ()) (.ofLine (closingLine cause kind)) where
  outcome := by simp [Part.failure?_of_kind? h, firstFailure]
  clears := by
    constructor
    · simp [Footprint.ofLine, Part.label?_of_kind? h]
    · simp [Footprint.ofLine, h, isAside_closingLine (Part.kind_ne_list h)]

namespace Cursor

/-! ## The release of a cursor -/

/-- No cursor with others within it is closed. -/
def IsOpen (c : Cursor) : Prop := ∀ part ∈ c.parts, part.isClosed = false

theorem isOpen_reel (r : Reel) : (reel r).IsOpen := by
  cases hm : r.monitor <;> simp [IsOpen, parts, Reel.parts, Reel.rested, Part.isClosed, hm]

theorem isOpen_monitored {m : Monitor} {c : Cursor} : (monitored m c).IsOpen ↔ c.IsOpen := by
  simp [IsOpen, parts, Part.isClosed, or_imp, forall_and]

mutual
/-- The cursor and every cursor within it is closed. -/
def ClosedThroughout : Cursor → Prop
  | reel r => r.listing.standing.position.isClosed = true
  | monitored _ inner => ClosedThroughout inner
  | sieve ⟨_, source, idle, standing⟩ =>
    standing.position.isClosed = true ∧ ClosedThroughout source ∧ EachClosed idle
  | relay ⟨sources, _, _, standing⟩ => standing.position.isClosed = true ∧ EachClosed sources
/-- The cursors and all cursors within them are closed. -/
def EachClosed : List Cursor → Prop
  | [] => True
  | c :: cs => ClosedThroughout c ∧ EachClosed cs
end

theorem Reel.release_released (cause : Option SearchError) (r : Reel) :
    Effect.Leaves ((Reel.release cause).perform r) fun o p ↦
      Released cause r.parts o.1 p ∧ o.2.listing.standing.position.isClosed = true := by
  refine Effect.Leaves.mono (r.release_leaves cause) fun o p hpost ↦ ?_
  obtain ⟨houtcome, -, hclosed, honly⟩ := hpost
  have hlines : p.lines.filter (fun l ↦ !l.isAside) = [] := by simpa using honly.lines
  rw [r.closing_eq] at houtcome
  refine ⟨⟨houtcome.trans (congrArg firstFailure ?_), honly.releases.trans ?_, hlines.trans ?_⟩,
    hclosed⟩
  all_goals cases hm : r.monitor with
    | none => simp [Reel.failure?, Reel.labels, Reel.parts, Reel.rested, hm]
    | some m =>
      cases hfail : m.failure? <;>
        simp [Reel.failure?, Reel.labels, Reel.parts, Reel.rested, hm, hfail, List.filterMap_cons,
          Part.failure?, Part.label?, Part.kind?]

theorem clears_entered (cause : Option SearchError) (m : Monitor) :
    (Footprint.ofRelease m.label).Clears cause [.entered m.rested] := by
  constructor
  · simp [Footprint.ofRelease, Part.label?]
  · simp [Footprint.ofRelease, Part.kind?]

mutual
/-- **The release of an open cursor goes through all its parts**, and closes every cursor. -/
theorem releaseTree_leaves (cause : Option SearchError) : ∀ c : Cursor, c.IsOpen →
    Effect.Leaves (releaseTree cause c) fun o p ↦
      Released cause c.parts o.1 p ∧ o.2.ClosedThroughout
  | reel r, _ => by
    refine Effect.leaves_bind (Effect.Leaves.mono (Reel.release_released cause r) fun o p hp ↦ ?_)
    refine Effect.leaves_pure ?_
    rw [Footprint.followed_nothing]
    exact hp
  | monitored m inner, hopen => by
    refine Effect.leaves_bind (Effect.leaves_noteRelease ?_)
    have hinner := releaseTree_leaves cause inner (isOpen_monitored.1 hopen)
    refine Effect.leaves_bind (Effect.Leaves.mono hinner ?_)
    rintro ⟨o, inner'⟩ p ⟨⟨rfl, hp⟩, hclosed⟩
    refine Effect.leaves_pure ⟨⟨?_, ?_⟩, hclosed⟩
    · rw [m.released_firstFailure]
      cases hfail : m.failure? <;> simp [parts, List.filterMap_cons, Part.failure?, hfail]
    · have hleft : Footprint.nothing.Clears cause [.left m.rested] := by
        constructor <;> simp [Footprint.nothing, Part.label?, Part.kind?]
      exact (clears_entered cause m).followed (hp.followed hleft)
  | sieve ⟨x, source, idle, standing⟩, hopen => by
    obtain ⟨hstanding, hsource, hidle⟩ : standing.position.isClosed = false ∧ source.IsOpen ∧
        ∀ part ∈ partsOf idle, part.isClosed = false := by
      simpa [IsOpen, parts, Part.isClosed, or_imp, forall_and] using hopen
    rw [releaseTree, if_neg (by simp [hstanding])]
    refine Effect.leaves_bind (Effect.leaves_note ?_)
    refine Effect.leaves_bind (Effect.Leaves.mono (releaseTree_leaves cause source hsource) ?_)
    rintro ⟨o, source'⟩ p ⟨hp, hsource'⟩
    have hrest : ∀ q : Footprint, q.Clears cause [] → Effect.Leaves
        (releaseTrees cause idle >>= fun r ↦
          pure (do o; r.1, sieve ⟨x, source', r.2, standing.close cause⟩))
        fun r p' ↦ Released cause (parts (sieve ⟨x, source, idle, standing⟩)) r.1
          ((Footprint.ofLine (closingLine cause x.kind)).followed (p.followed (q.followed p'))) ∧
            r.2.ClosedThroughout := by
      intro q hq
      refine Effect.leaves_bind (Effect.Leaves.mono (releaseTrees_leaves cause idle hidle) ?_)
      rintro ⟨others, idle'⟩ p' ⟨hp', hidle'⟩
      refine Effect.leaves_pure ⟨?_, standing.isClosed_close cause, hsource', hidle'⟩
      have hself : Released cause [.sieve x standing.position.isClosed] _ _ :=
        released_composite cause rfl
      have hall := hself.append ((hp.followed hq).append hp')
      rw [Footprint.followed_assoc] at hall
      rw [Footprint.followed_nothing]
      exact hall
    -- A sieve over an index is silent about a failure of its source, any other logs an aside.
    cases x.readsIndex with
    | true =>
      have hnone := hrest _ Footprint.clears_nothing
      simp only [Footprint.nothing_followed] at hnone
      exact hnone
    | false =>
      refine Effect.leaves_bind (Effect.Leaves.mono (Index.noteFailure_leaves o) fun _ q hq ↦ ?_)
      exact hrest q hq.clears
  | relay ⟨sources, lanes, active, standing⟩, hopen => by
    obtain ⟨hstanding, hsources⟩ : standing.position.isClosed = false ∧
        ∀ part ∈ partsOf sources, part.isClosed = false := by
      simpa [IsOpen, parts, Part.isClosed] using hopen
    rw [releaseTree, if_neg (by simp [hstanding])]
    refine Effect.leaves_bind (Effect.leaves_note ?_)
    refine Effect.leaves_bind (Effect.Leaves.mono (releaseTrees_leaves cause sources hsources) ?_)
    rintro ⟨o, sources'⟩ p ⟨hp, hsources'⟩
    refine Effect.leaves_pure ⟨?_, standing.isClosed_close cause, hsources'⟩
    have hself : Released cause [.relay standing.position.isClosed] _ _ :=
      released_composite cause rfl
    rw [Footprint.followed_nothing]
    exact hself.append hp
theorem releaseTrees_leaves (cause : Option SearchError) : ∀ cs : List Cursor,
    (∀ part ∈ partsOf cs, part.isClosed = false) →
    Effect.Leaves (releaseTrees cause cs) fun o p ↦
      Released cause (partsOf cs) o.1 p ∧ EachClosed o.2
  | [], _ => Effect.leaves_pure ⟨⟨rfl, Footprint.clears_nothing⟩, trivial⟩
  | c :: cs, hopen => by
    have hc : c.IsOpen := fun part hpart ↦ hopen part (by simp [partsOf, hpart])
    have hcs : ∀ part ∈ partsOf cs, part.isClosed = false :=
      fun part hpart ↦ hopen part (by simp [partsOf, hpart])
    rw [releaseTrees]
    refine Effect.leaves_bind (Effect.Leaves.mono (releaseTree_leaves cause c hc) ?_)
    rintro ⟨o, c'⟩ p ⟨hp, hc'⟩
    refine Effect.leaves_bind (Effect.Leaves.mono (Index.noteFailure_leaves o) fun _ q hq ↦ ?_)
    refine Effect.leaves_bind (Effect.Leaves.mono (releaseTrees_leaves cause cs hcs) ?_)
    rintro ⟨others, cs'⟩ p' ⟨hp', hcs'⟩
    refine Effect.leaves_pure ⟨?_, hc', hcs'⟩
    have hboth := (hp.followed hq.clears).append hp'
    rw [Footprint.followed_assoc] at hboth
    rw [Footprint.followed_nothing]
    exact hboth
end

end Cursor
end DirectoryQuery
