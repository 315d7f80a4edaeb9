import DirectoryQuery.Directory.Reverse
import DirectoryQuery.Proofs.Footprints

/-!
# What reading a list leaves behind

To move over a list leaves nothing.  To close a list is logged, and a monitor on it is released;
that this may fail is logged too.  Such lines are asides: they say nothing of the cursors that a
search is made of.

An index read in reverse for one entry is a list that is opened and closed again, whatever happens
in between.  What such a `Lookup` comes to and what it leaves behind is determined by the list that
is handed out (`Lookup.leaves`): asides, and one release if the list is monitored.
-/

set_option autoImplicit false

namespace DirectoryQuery

/-- Whether a line is about the closing of a list, or about something that could not be closed. -/
def LogLine.isAside (l : LogLine) : Bool :=
  l.event == Event.cursorCloseFailed.name ||
    (l.event == Event.cursorClosed.name && l.fields.lookup "kind" == some "list")

/-- Only asides are logged, and only monitors of such labels are released. -/
structure Footprint.Aside (L : String → Prop) (p : Footprint) : Prop where
  lines (l : LogLine) : l ∈ p.lines → l.isAside = true
  releases (label : String) : label ∈ p.releases → L label

variable {L : String → Prop} {A : Option SearchError → Footprint → Prop} {p : Footprint}

theorem Footprint.Aside.nothing (L : String → Prop) : Footprint.nothing.Aside L :=
  ⟨by simp [Footprint.nothing], by simp [Footprint.nothing]⟩

theorem Footprint.Aside.followed {q : Footprint} (hp : p.Aside L) (hq : q.Aside L) :
    (p.followed q).Aside L := by
  refine ⟨fun l hl ↦ ?_, fun label hlabel ↦ ?_⟩
  · rcases List.mem_append.1 hl with hl | hl
    · exact hq.lines l hl
    · exact hp.lines l hl
  · rcases List.mem_append.1 hlabel with hlabel | hlabel
    · exact hq.releases label hlabel
    · exact hp.releases label hlabel

theorem allows_aside (L : String → Prop) : Footprint.Allows fun _ ↦ Footprint.Aside L where
  nothing _ := .nothing L
  tally _ := ⟨by simp [Footprint.ofTally], by simp [Footprint.ofTally]⟩
  followed := .followed

/-- Only asides are logged, exactly these monitors are released, the last one first, and nothing is
read in reverse. -/
structure Footprint.Only (labels : List String) (p : Footprint) : Prop where
  lines (l : LogLine) : l ∈ p.lines → l.isAside = true
  releases : p.releases = labels
  counts : Tally.reverseLookup ∉ p.counts

theorem Footprint.Only.aside {labels : List String} (h : p.Only labels)
    (hL : ∀ label ∈ labels, L label) : p.Aside L :=
  ⟨h.lines, fun label hlabel ↦ hL label (h.releases ▸ hlabel)⟩

theorem Footprint.Only.followed {labels labels' : List String} {q : Footprint}
    (hp : p.Only labels) (hq : q.Only labels') : (p.followed q).Only (labels' ++ labels) where
  lines l hl := by
    rcases List.mem_append.1 hl with hl | hl
    · exact hq.lines l hl
    · exact hp.lines l hl
  releases := by rw [releases_followed, hp.releases, hq.releases]
  counts := by simp [hp.counts, hq.counts]

theorem Footprint.Only.ofLine {l : LogLine} (h : l.isAside = true) : (Footprint.ofLine l).Only [] :=
  ⟨by simp [Footprint.ofLine, h], rfl, by simp [Footprint.ofLine]⟩

theorem allows_only : Footprint.Allows fun _ ↦ Footprint.Only [] where
  nothing _ := ⟨by simp [Footprint.nothing], rfl, by simp [Footprint.nothing]⟩
  tally h := ⟨by simp [Footprint.ofTally], rfl, by simpa [Footprint.ofTally] using h.symm⟩
  followed := .followed

/-- To log that something could not be closed is an aside. -/
theorem Index.noteFailure_only (outcome : Except SearchError Unit) :
    Effect.Leaves (noteFailure outcome) fun _ p ↦ p.Only [] := by
  cases outcome with
  | ok => exact Effect.leaves_pure (allows_only.nothing none)
  | error e =>
    refine Effect.leaves_note (Footprint.Only.ofLine ?_)
    simp [LogLine.isAside, LogLine.ofEvent]

theorem Index.noteFailure_leaves (outcome : Except SearchError Unit) :
    Effect.Leaves (noteFailure outcome) fun _ p ↦ p.Aside fun _ ↦ False :=
  Effect.Leaves.mono (noteFailure_only outcome) fun _ _ hp ↦ hp.aside nofun

/-- What was closed once is closed. -/
theorem Standing.isClosed_close {α : Type} (s : Standing α) (cause : Option SearchError) :
    (s.close cause).position.isClosed = true := by
  unfold Standing.close
  split
  · assumption
  · rfl

/-! ## Monitors -/

/-- The monitor as it was before any move. -/
def Monitor.rested (m : Monitor) : Monitor := { m with moves := 0 }

@[simp] theorem Monitor.label_rested (m : Monitor) : m.rested.label = m.label := rfl

@[simp] theorem Monitor.rested_counted (m : Monitor) : m.counted.rested = m.rested := rfl

namespace Reel

/-- The monitor of a reel as it was before any move. -/
def rested (r : Reel) : Option Monitor := r.monitor.map Monitor.rested

/-- The reel has the list and the monitor of the first one, whatever moves were made. -/
structure Alike (r₀ r : Reel) : Prop where
  rested : r.rested = r₀.rested
  candidates : r.listing.candidates = r₀.listing.candidates

variable {r₀ : Reel}

theorem Alike.refl (r : Reel) : Alike r r := ⟨rfl, rfl⟩

theorem onListing_stays {α : Type} {act : Act Listing α}
    (h : act.Stays (fun l ↦ l.candidates = r₀.listing.candidates) A) :
    (onListing act).Stays (Alike r₀) A :=
  .within fun r hr ↦ Effect.Leaves.mono (h r.listing hr.candidates) fun _ _ hp ↦
    ⟨⟨hr.rested, hp.1⟩, hp.2⟩

section Moves

variable (hA : Footprint.Allows A)

include hA

theorem rewind_stays (d : Direction) : (rewind d).Stays (Alike r₀) A :=
  onListing_stays (.get_bind hA fun _ hl ↦ .bind hA (.except hA _) fun _ ↦ .set hA hl)

theorem advance_stays (d : Direction) : (advance d).Stays (Alike r₀) A := by
  refine .get_bind hA fun r hr ↦ .bind hA (.set hA ⟨?_, hr.candidates⟩) fun _ ↦ ?_
  · rw [← hr.rested]
    simp [rested, Function.comp_def]
  · cases r.monitor.bind Monitor.refusal? with
    | some e => exact .throw hA e
    | none =>
      exact onListing_stays (.get_bind hA fun _ hl ↦ .bind hA (.except hA _) fun _ ↦
        .bind hA (.set hA hl) fun _ ↦ .pure hA _)

theorem findKey_stays (p : Value → Bool) (moves : Nat) :
    (findKey p moves).Stays (Alike r₀) A := by
  induction moves with
  | zero => exact .pure hA none
  | succ moves ih =>
    refine .bind hA (advance_stays hA .forward) fun found ↦ ?_
    cases found with
    | false => exact .pure hA none
    | true =>
      refine .bind hA (.get hA) fun r ↦ .bind hA (.except hA _) fun c ↦ ?_
      cases c.value.filter p with
      | some key => exact .pure hA _
      | none => exact ih

end Moves

/-- What the release of a reel comes to. -/
def closing (r : Reel) : Except SearchError Unit :=
  match r.monitor with
  | some m => m.released (.ok ())
  | none => .ok ()

/-- To close a list is logged as an aside, the first time only. -/
theorem listing_leaves (cause : Option SearchError) (l : Listing) :
    (Listing.release cause).Leaves l
      (fun _ l' p ↦ l'.standing.position.isClosed = true ∧ p.Only [])
      fun _ _ _ ↦ False := by
  refine Act.leaves_bind (Act.leaves_get ?_)
  cases hclosed : l.standing.position.isClosed with
  | true => exact Act.leaves_pure ⟨hclosed, allows_only.nothing none⟩
  | false =>
    refine Act.leaves_bind (Act.leaves_set (Act.leaves_effect (Effect.leaves_note ?_)))
    refine ⟨l.standing.isClosed_close cause, Footprint.Only.ofLine ?_⟩
    cases cause <;> rfl

/-- The label of the monitor, if there is one. -/
def labels (r : Reel) : List String := (r.monitor.map Monitor.label).toList

theorem labels_eq_rested (r : Reel) : r.labels = (r.rested.map Monitor.label).toList := by
  rw [labels, rested, Option.map_map]
  rfl

theorem closing_eq_rested (r : Reel) :
    r.closing = (r.rested.map fun m ↦ m.released (.ok ())).getD (.ok ()) := by
  rw [closing, rested]
  cases r.monitor <;> rfl

theorem Alike.labels_eq {r : Reel} (h : Alike r₀ r) : r.labels = r₀.labels := by
  rw [labels_eq_rested, labels_eq_rested, h.rested]

theorem Alike.closing_eq {r : Reel} (h : Alike r₀ r) : r.closing = r₀.closing := by
  rw [closing_eq_rested, closing_eq_rested, h.rested]

/-- The release of a reel closes the list, whatever the monitor does. -/
theorem release_leaves (cause : Option SearchError) (r : Reel) :
    Effect.Leaves ((release cause).perform r) fun o p ↦ o.1 = r.closing ∧
      o.2.monitor = r.monitor ∧ o.2.listing.standing.position.isClosed = true ∧
      p.Only r.labels := by
  have hlisting : Effect.Leaves ((onListing (Listing.release cause)).perform r) fun o p ↦
      o.1 = .ok () ∧ o.2.monitor = r.monitor ∧ o.2.listing.standing.position.isClosed = true ∧
        p.Only [] := by
    refine Effect.leaves_bind (Effect.Leaves.mono (listing_leaves cause r.listing) ?_)
    rintro ⟨_ | _, l⟩ p hpost
    · exact hpost.elim
    · obtain ⟨hclosed, honly⟩ := hpost
      exact Effect.leaves_pure ⟨rfl, rfl, hclosed, by rwa [Footprint.followed_nothing]⟩
  rw [release, Act.perform_of]
  cases hm : r.monitor with
  | none =>
    refine Effect.Leaves.mono hlisting fun o p hpost ↦ ?_
    obtain ⟨houtcome, hmonitor, hclosed, honly⟩ := hpost
    exact ⟨by simp [closing, hm, houtcome], hmonitor.trans hm, hclosed, by simpa [labels, hm]⟩
  | some m =>
    have hself : (Footprint.ofRelease m.label).Only [m.label] :=
      ⟨by simp [Footprint.ofRelease], rfl, by simp [Footprint.ofRelease]⟩
    refine Effect.leaves_bind (Effect.leaves_noteRelease ?_)
    refine Effect.leaves_bind (Effect.Leaves.mono hlisting ?_)
    rintro ⟨o, r'⟩ p ⟨rfl, hmonitor, hclosed, honly⟩
    refine Effect.leaves_pure ⟨by simp [closing, hm], hmonitor.trans hm, hclosed, ?_⟩
    simpa [labels, hm] using hself.followed honly

/-- What it comes to to look for a wanted key from where the reel stands. -/
def scan (wanted : Value → Bool) (r : Reel) : Except SearchError (Option Value) :=
  ((findKey wanted (r.listing.size + 1)).outcome r).1

end Reel

/-! ## Reading in reverse -/

/-- A reading of an index in reverse: of the keys of one entry, for one that is wanted. -/
structure Lookup where
  index : Index
  id : EntryId
  wanted : Value → Bool

namespace Lookup

/-- What the reading comes to.  The failure of the scan counts before that of the release. -/
def outcome (q : Lookup) : Except SearchError (Option Value) := do
  let r ← ofStore (q.index.reverse q.id)
  let found ← r.scan q.wanted
  r.closing
  return found

/-- The label of the cursor that is opened, if one is and it is monitored. -/
def labels (q : Lookup) : List String := (q.index.reverse q.id).toOption.toList.flatMap Reel.labels

variable {q : Lookup} {r : Reel}

theorem outcome_of_closed {cause : StoreError} (h : q.index.reverse q.id = .error cause) :
    q.outcome = .error (.store cause) ∧ q.labels = [] := by
  rw [outcome, labels, h]
  exact ⟨rfl, rfl⟩

theorem outcome_of_opened (h : q.index.reverse q.id = .ok r) :
    (q.outcome = do let found ← r.scan q.wanted; r.closing; return found) ∧
      q.labels = r.labels := by
  rw [outcome, labels, h]
  exact ⟨rfl, List.append_nil _⟩

/-- **A reading releases what it has opened, once and at the end**, and its outcome is that of the
scan, or else that of the release. -/
theorem leaves (q : Lookup) : Effect.Leaves (q.index.firstKey? q.id q.wanted).run fun o p ↦
    o = q.outcome ∧ p.Only q.labels := by
  unfold Index.firstKey?
  rw [Attempt.run_bind]
  refine Effect.leaves_bind (Effect.leaves_pure ?_)
  cases hopened : q.index.reverse q.id with
  | error cause =>
    obtain ⟨houtcome, hlabels⟩ := outcome_of_closed hopened
    rw [houtcome, hlabels]
    exact Effect.leaves_pure ⟨rfl, allows_only.nothing none⟩
  | ok r =>
    obtain ⟨houtcome, hlabels⟩ := outcome_of_opened hopened
    rw [houtcome, hlabels]
    have hfind := (Reel.findKey_stays allows_only q.wanted (r.listing.size + 1) r (.refl r)).answer
      (.start .warn false)
    refine Effect.leaves_bind (Effect.Leaves.mono hfind ?_)
    rintro ⟨o, r'⟩ p ⟨hscan, hr', hp⟩
    have hscan : r.scan q.wanted = o := congrArg Prod.fst hscan.symm
    have hrelease (cause : Option SearchError) := r'.release_leaves cause
    rw [hr'.labels_eq, hr'.closing_eq] at hrelease
    rw [hscan]
    cases o with
    | ok found =>
      refine Effect.leaves_bind (Effect.Leaves.mono (hrelease none) ?_)
      rintro ⟨_, _⟩ p' ⟨rfl, -, -, hp'⟩
      refine Effect.leaves_pure ⟨?_, ?_⟩
      · cases r.closing <;> rfl
      · simpa using hp.followed hp'
    | error e =>
      refine Effect.leaves_bind (Effect.Leaves.mono (hrelease (some e)) ?_)
      rintro ⟨closing, _⟩ p' ⟨-, -, -, hp'⟩
      refine Effect.leaves_bind (Effect.Leaves.mono (Index.noteFailure_only closing) ?_)
      intro _ p'' hp''
      refine Effect.leaves_pure ⟨rfl, ?_⟩
      simpa using (hp.followed hp').followed hp''

end Lookup

/-- The footprints of reading the index in reverse for the entry are allowed.  That it is read is
counted first. -/
def Index.ReadsOf (A : Option SearchError → Footprint → Prop) (x : Index) (id : EntryId) : Prop :=
  ∀ p, Effect.Leaves (x.firstKey? id p).run fun o q ↦
    A (failureOf o) ((Footprint.ofTally .reverseLookup).followed q)

/-- The footprints of reading the index in reverse are allowed. -/
def Index.Reads (A : Option SearchError → Footprint → Prop) (x : Index) : Prop :=
  ∀ id, x.ReadsOf A id

/-- **To read an index in reverse leaves asides and releases of the reverse readings.** -/
theorem Index.reads_aside {x : Index}
    (h : ∀ id r m, x.reverse id = .ok r → r.monitor = some m → L m.label) :
    x.Reads fun _ ↦ Footprint.Aside L := by
  intro id p
  refine Effect.Leaves.mono (Lookup.leaves ⟨x, id, p⟩) fun o q hq ↦ ?_
  have hself : (Footprint.ofTally .reverseLookup).Aside L :=
    ⟨by simp [Footprint.ofTally], by simp [Footprint.ofTally]⟩
  refine hself.followed (hq.2.aside fun label hlabel ↦ ?_)
  cases hopened : x.reverse id with
  | error cause => simp [Lookup.labels, hopened, Except.toOption] at hlabel
  | ok r =>
    obtain ⟨m, hm, rfl⟩ : ∃ m, r.monitor = some m ∧ m.label = label := by
      simpa [Lookup.labels, hopened, Except.toOption, Reel.labels] using hlabel
    exact h id r m hopened hm

/-- Every index can be read in reverse, whatever the trace is. -/
theorem Index.reads_true (x : Index) : x.Reads fun _ _ ↦ True :=
  fun id p ↦ Effect.Leaves.mono (Lookup.leaves ⟨x, id, p⟩) fun _ _ _ ↦ trivial

end DirectoryQuery
