import DirectoryQuery.Proofs.Calls
import DirectoryQuery.Proofs.Shares

/-!
# Relays that settle

What the operands of a relay have to skip grows while it is moved, so at first the order in which
entries come up depends on the moves.  Here the operands move as cursors over lists without
repetition, and none of them fails or rejects an entry of its own list.  Then every entry that comes
up in a pass goes from all shares but one, so what has been passed does not come up again in it
(`Relay.Underway.advance`).

Once a pass is complete the shares have no entry in common, so to tell the operands of an entry
changes nothing.  From then on the relay moves as a cursor over the shares, one after the other
(`Relay.tracks_settled`).
-/

set_option autoImplicit false

namespace DirectoryQuery
namespace Relay

variable {σ : Type} {w : Walker σ} {ctx : Context} {d : Direction} {K : Candidate → Prop}
  {ids : Nat → List EntryId} {T : Nat → Position Nat → σ → Prop} {r r' : Relay σ}
  {skips skips' : Nat → EntryId → Bool} {n i j : Nat} {p q : Position Nat} {x : EntryId}
  {l out L : List EntryId}

/-! ## Where the operands stand -/

/-- Every operand stands for some position in its list, which has no entry twice, and accepts the
entries of the list. -/
structure Spread (ctx : Context) (K : Candidate → Prop) (ids : Nat → List EntryId)
    (T : Nat → Position Nat → σ → Prop) (r : Relay σ) : Prop where
  answering : Answering ctx K (fun _ ↦ False) ids (fun _ _ ↦ true) r
  lanes : r.lanes.length = r.size
  active : r.active < r.size
  nodup (j : Nat) : j < r.size → (ids j).Nodup
  stands (j : Nat) (s : σ) : r.sources[j]? = some s → ∃ p, T j p s

/-- The relay has so many operands, which have to skip entries as given; the one that is active
stands for the position. -/
structure At (ctx : Context) (K : Candidate → Prop) (ids : Nat → List EntryId)
    (T : Nat → Position Nat → σ → Prop) (skips : Nat → EntryId → Bool) (n j : Nat)
    (p : Position Nat) (r : Relay σ) : Prop extends Spread ctx K ids T r where
  skips_eq : r.skips = skips
  size_eq : r.size = n
  active_eq : r.active = j
  source : ∃ s, r.sources[j]? = some s ∧ T j p s

theorem Spread.stand (h : Spread ctx K ids T r) (standing : Standing Candidate) :
    Spread ctx K ids T { r with standing } :=
  ⟨h.answering, h.lanes, h.active, h.nodup, h.stands⟩

theorem At.stand (h : At ctx K ids T skips n j p r) (standing : Standing Candidate) :
    At ctx K ids T skips n j p { r with standing } :=
  ⟨h.toSpread.stand standing, h.skips_eq, h.size_eq, h.active_eq, h.source⟩

theorem At.active_lt (h : At ctx K ids T skips n j p r) : j < n := by
  rw [← h.active_eq, ← h.size_eq]
  exact h.active

theorem At.self (h : At ctx K ids T skips n j p r) :
    At ctx K ids T r.skips r.size r.active p r := by
  obtain ⟨hspread, rfl, rfl, rfl, hsource⟩ := h
  exact ⟨hspread, rfl, rfl, rfl, hsource⟩

/-- The active operand stands for some position. -/
theorem Spread.exists_at (h : Spread ctx K ids T r) :
    ∃ p, At ctx K ids T r.skips r.size r.active p r := by
  have hsource := List.getElem?_eq_getElem (l := r.sources) h.active
  obtain ⟨p, hp⟩ := h.stands _ _ hsource
  exact ⟨p, h, rfl, rfl, rfl, _, hsource, hp⟩

/-- The active operand moves. -/
theorem Spread.moved {s : σ} (h : Spread ctx K ids T r) (hs : T r.active p s) :
    At ctx K ids T r.skips r.size r.active p (r.moved s) := by
  have hself : (r.moved s).sources[r.active]? = some s := List.getElem?_set_self h.active
  refine ⟨⟨h.answering, h.lanes.trans (size_moved r s).symm, ?_, ?_, fun j s' hs' ↦ ?_⟩, rfl,
    size_moved r s, rfl, s, hself, hs⟩
  · rw [size_moved]
    exact h.active
  · rw [size_moved]
    exact h.nodup
  · by_cases hj : r.active = j
    · subst hj
      obtain rfl := Option.some.inj (hself.symm.trans hs')
      exact ⟨p, hs⟩
    · exact h.stands j s' ((List.getElem?_set_ne hj).symm.trans hs')

/-- Another operand becomes the active one. -/
theorem Spread.turned (h : Spread ctx K ids T r) (hj : j < r.size) :
    Spread ctx K ids T (r.turned j) :=
  ⟨h.answering, h.lanes, hj, h.nodup, h.stands⟩

/-- Other operands are told of an entry. -/
theorem At.told {js : List Nat} (h : At ctx K ids T skips n j p r) (ht : Told js x r r') :
    At ctx K ids T r'.skips n j p r' := by
  have hsize : r'.size = r.size := congrArg List.length ht.sources
  refine ⟨⟨h.answering.told ht, ?_, ?_, ?_, ?_⟩, rfl, hsize.trans h.size_eq,
    ht.active.trans h.active_eq, ?_⟩
  · rw [ht.length_lanes, hsize, h.lanes]
  · rw [ht.active, hsize]
    exact h.active
  · rw [hsize]
    exact h.nodup
  · rw [ht.sources]
    exact h.stands
  · rw [ht.sources]
    exact h.source

/-- An operand that has the entry in its list accepts it, and so will skip it. -/
theorem tells_of_heard (hlanes : r.lanes.length = r.size) (ht : Told r.inactive x r r')
    (hheard : Heard ids (fun _ _ ↦ true) r.inactive x r r') :
    Tells ids r.size r.active x r.skips r'.skips := by
  intro k hk i hi
  by_cases hactive : k = r.active
  · subst hactive
    rcases ht.skips r.active i with hsame | ⟨hin, -⟩
    · simp [hsame]
    · exact absurd (List.mem_filter.1 hin).2 (by simp)
  · have hin : k ∈ r.inactive :=
      List.mem_filter.2 ⟨List.mem_range.2 (hlanes ▸ hk), bne_iff_ne.2 hactive⟩
    by_cases hx : i = x
    · subst hx
      simp [hheard k hin (hlanes ▸ hk) hi, hactive]
    · rcases ht.skips k i with hsame | ⟨-, heq, -⟩
      · simp [hsame, hx]
      · exact absurd heq hx

/-! ## Every move -/

/-- At the edge where a traversal in the direction begins, the first operand is active. -/
def AtEdge (ctx : Context) (K : Candidate → Prop) (ids : Nat → List EntryId)
    (T : Nat → Position Nat → σ → Prop) (skips : Nat → EntryId → Bool) (n : Nat) (d : Direction)
    (r : Relay σ) : Prop :=
  ∃ j, At ctx K ids T skips n j (.start d) r ∧
    Listing.upcoming (List.range n) d.opposite (.onElement j) = []

/-- What a move has come to if `l` was ahead. -/
def Arrived (ctx : Context) (K : Candidate → Prop) (ids : Nat → List EntryId)
    (T : Nat → Position Nat → σ → Prop) (skips : Nat → EntryId → Bool) (n : Nat) (d : Direction)
    (l : List EntryId) : Option Candidate → Relay σ → Prop
  | none, r => l = [] ∧ AtEdge ctx K ids T skips n d.opposite r
  | some c, r => ∃ x i j skips', Stands K x c ∧ At ctx K ids T skips' n j (.onElement i) r ∧
      (ids j)[i]? = some x ∧ skips j x = false ∧ Tells ids n j x skips skips' ∧
      l = x :: sharesAhead ids skips n d j (.onElement i)

theorem AtEdge.spread (h : AtEdge ctx K ids T skips n d r) : Spread ctx K ids T r := by
  obtain ⟨j, hj, -⟩ := h
  exact hj.toSpread

theorem AtEdge.skips_eq (h : AtEdge ctx K ids T skips n d r) : r.skips = skips := by
  obtain ⟨j, hj, -⟩ := h
  exact hj.skips_eq

theorem AtEdge.size_eq (h : AtEdge ctx K ids T skips n d r) : r.size = n := by
  obtain ⟨j, hj, -⟩ := h
  exact hj.size_eq

theorem AtEdge.stand (h : AtEdge ctx K ids T skips n d r) (standing : Standing Candidate) :
    AtEdge ctx K ids T skips n d { r with standing } := by
  obtain ⟨j, hj, hedge⟩ := h
  exact ⟨j, hj.stand standing, hedge⟩

theorem Arrived.stand {found : Option Candidate} (h : Arrived ctx K ids T skips n d l found r)
    (standing : Standing Candidate) :
    Arrived ctx K ids T skips n d l found { r with standing } := by
  cases found with
  | none => exact ⟨h.1, h.2.stand standing⟩
  | some c =>
    obtain ⟨x, i, j, skips', hc, hr, hrest⟩ := h
    exact ⟨x, i, j, skips', hc, hr.stand standing, hrest⟩

/-- In the direction `l` is ahead; for a relay that was never moved this is everything. -/
structure Poised (ctx : Context) (K : Candidate → Prop) (ids : Nat → List EntryId)
    (T : Nat → Position Nat → σ → Prop) (d : Direction) (l : List EntryId) (r : Relay σ) :
    Prop extends Spread ctx K ids T r where
  isOpen : r.standing.position.isClosed = false
  fresh : r.standing.position.isUnpositioned = true → l = d.arrange (shares ids r.skips r.size)
  moved : r.standing.position.isUnpositioned = false →
    ∃ p, At ctx K ids T r.skips r.size r.active p r ∧
      l = sharesAhead ids r.skips r.size d r.active p

theorem Spread.exists_poised (h : Spread ctx K ids T r)
    (hopen : r.standing.position.isClosed = false) (d : Direction) :
    ∃ l, Poised ctx K ids T d l r := by
  obtain ⟨p, hp⟩ := h.exists_at
  cases hfresh : r.standing.position.isUnpositioned with
  | true => exact ⟨_, h, hopen, fun _ ↦ rfl, fun hmoved ↦ absurd (hfresh.symm.trans hmoved) nofun⟩
  | false => exact ⟨_, h, hopen, fun hfresh' ↦ absurd (hfresh.symm.trans hfresh') nofun,
      fun _ ↦ ⟨p, hp, rfl⟩⟩

section Moves

variable (htracks : ∀ j, w.Tracks (Stands K) (ids j) (T j))

include htracks

theorem Spread.activate (h : Spread ctx K ids T r) (d : Direction) (hj : j < r.size) :
    (activate w d j).Ensures r (fun _ r' ↦ At ctx K ids T r.skips r.size j (.start d) r')
      fun _ _ ↦ False := by
  have hturned := h.turned hj
  obtain ⟨p, hp⟩ := hturned.exists_at
  obtain ⟨source, hsource, hs⟩ := hp.source
  refine Act.ensures_bind (Act.ensures_modify (ensures_onActive (r := r.turned j) hsource ?_))
  exact ((htracks j).rewind d hs).imp fun _ s hs' ↦ hturned.moved hs'

/-- The active operand goes to the next entry of its share, and the others are told of it. -/
theorem At.seekActive (h : At ctx K ids T skips n j p r) (d : Direction) :
    (seekActive w ctx d).Ensures r
      (fun found r' ↦ match found with
        | none => At ctx K ids T skips n j (.finish d) r' ∧
            sharesAhead ids skips n d j p = sharesAfter ids skips n d j
        | some c => Arrived ctx K ids T skips n d (sharesAhead ids skips n d j p) (some c) r')
      fun _ _ ↦ False := by
  obtain ⟨hspread, rfl, rfl, rfl, source, hsource, hs⟩ := h
  refine Act.ensures_bind (Act.ensures_get (Act.ensures_bind (ensures_onActive hsource ?_)))
  refine ((htracks r.active).seek (fun i _ c hc ↦ unlessSkipped_active r hc) d hs).imp ?_
  intro found s hlanded
  cases found with
  | none =>
    obtain ⟨hs', hnil⟩ := hlanded
    refine Act.ensures_pure ⟨hspread.moved hs', ?_⟩
    rw [sharesAhead, hnil]
    rfl
  | some c =>
    obtain ⟨i, x, hs', hi, hx, ⟨hid, hc⟩, hcons⟩ := hlanded
    have hmoved := hspread.moved hs'
    refine Act.ensures_bind ((announce_spec r.nodup_inactive hmoved.answering hc).mono ?_
      fun _ _ hfalse ↦ hfalse.1)
    rintro c' r' ⟨hid', hc', ht, hheard⟩
    rw [hid] at hid' ht hheard
    refine Act.ensures_pure ⟨x, i, r.active, r'.skips, ⟨hid', hc'⟩, hmoved.told ht, hi,
      by simpa using hx, ?_, ?_⟩
    · have htells := tells_of_heard hmoved.lanes ht hheard
      rwa [size_moved] at htells
    · rw [sharesAhead, hcons]
      rfl

/-- Going through the operands goes to the next entry of all shares. -/
theorem At.sweep (h : At ctx K ids T skips n j p r) (d : Direction) {operands : Nat}
    (hlt : (Listing.upcoming (List.range n) d (.onElement j)).length < operands) :
    (sweep w ctx d operands).Ensures r
      (fun found r' ↦ Arrived ctx K ids T skips n d (sharesAhead ids skips n d j p) found r')
      fun _ _ ↦ False := by
  induction operands generalizing r j p with
  | zero => exact absurd hlt (Nat.not_lt_zero _)
  | succ operands ih =>
    refine Act.ensures_bind ((h.seekActive htracks d).imp ?_)
    intro found r' hfound
    cases found with
    | some c => exact Act.ensures_pure hfound
    | none =>
      obtain ⟨hr', hafter⟩ := hfound
      rw [hafter, sharesAfter]
      have hnext := nextOperand?_spec hr'.active d
      rw [upcoming, hr'.size_eq, hr'.active_eq] at hnext
      refine Act.ensures_bind (Act.ensures_get ?_)
      obtain ⟨hnone, hnil⟩ | ⟨k, hk, hkn, hcons⟩ := hnext
      · rw [hnone, hnil]
        refine Act.ensures_pure ⟨rfl, j, ?_, ?_⟩
        · rw [← Listing.finish_eq_start]
          exact hr'
        · cases d <;> exact hnil
      · rw [hk]
        have hactivate := hr'.toSpread.activate htracks d (hr'.size_eq.symm ▸ hkn)
        rw [hr'.skips_eq, hr'.size_eq] at hactivate
        refine Act.ensures_bind (hactivate.imp fun _ r'' hr'' ↦ ?_)
        rw [hcons, List.length_cons] at hlt
        rw [hcons, ← sharesAhead_start]
        exact ih hr'' (Nat.lt_of_succ_lt_succ hlt)

theorem Spread.rewind (h : Spread ctx K ids T r) (hopen : r.standing.position.isClosed = false)
    (d : Direction) :
    (rewind w d).Ensures r
      (fun _ r' ↦ AtEdge ctx K ids T r.skips r.size d r' ∧ r'.standing.position = .start d)
      fun _ _ ↦ False := by
  have hpos : 0 < r.size := Nat.zero_lt_of_lt h.active
  have hfirst := firstOperand_lt hpos d
  have hedge : Listing.upcoming (List.range r.size) d.opposite
      (.onElement (r.firstOperand d)) = [] := by
    have hcourse := arrange_range hpos d
    rw [Listing.arrange_eq (List.getElem?_range hfirst) d] at hcourse
    exact List.reverse_eq_nil_iff.1 (List.append_left_eq_self.1 hcourse)
  refine Act.ensures_bind (Act.ensures_get ?_)
  refine Act.ensures_ok_bind (Standing.checkOpen_eq_ok hopen _) ?_
  refine Act.ensures_bind ((h.activate htracks d hfirst).imp fun _ r' hr' ↦ ?_)
  exact Act.ensures_modify ⟨⟨_, hr'.stand _, hedge⟩, rfl⟩

/-- A move goes to the first entry that is ahead. -/
theorem Poised.advance (h : Poised ctx K ids T d l r) :
    (advance w ctx d).Ensures r
      (fun b r' ↦ ∃ found, b = found.isSome ∧ r'.standing.position = .reached d found ∧
        Arrived ctx K ids T r.skips r.size d l found r')
      fun _ _ ↦ False := by
  refine ensures_advance (I := fun r₁ ↦ ∃ j p, At ctx K ids T r.skips r.size j p r₁ ∧
    l = sharesAhead ids r.skips r.size d j p) (fun hclosed ↦ ?_) (fun hfresh ↦ ?_)
    (fun hmoved ↦ ⟨r.active, h.moved hmoved⟩) ?_
  · exact absurd (hclosed.symm.trans h.isOpen) nofun
  · refine (h.toSpread.rewind htracks h.isOpen d).imp ?_
    rintro _ r₁ ⟨⟨j, hr₁, hedge⟩, -⟩
    refine ⟨j, .start d, hr₁, ?_⟩
    rw [h.fresh hfresh, sharesAhead_edge hr₁.active_lt hedge, Listing.upcoming_start]
  · rintro r₁ ⟨j, p, hr₁, rfl⟩
    have hlt := upcoming_lt hr₁.active d
    rw [upcoming, hr₁.size_eq, hr₁.active_eq] at hlt
    exact (hr₁.sweep htracks d hlt).imp fun found r' hfound ↦
      ⟨found, rfl, rfl, hfound.stand _⟩

end Moves

/-! ## After any moves -/

/-- What moves keep, whatever has been passed so far. -/
structure Sane (ctx : Context) (K : Candidate → Prop) (ids : Nat → List EntryId)
    (T : Nat → Position Nat → σ → Prop) (r : Relay σ) : Prop extends Spread ctx K ids T r where
  isOpen : r.standing.position.isClosed = false
  edge (d : Direction) : r.standing.position = .start d → AtEdge ctx K ids T r.skips r.size d r

theorem AtEdge.sane (h : AtEdge ctx K ids T skips n d r)
    (hp : r.standing.position = .start d) : Sane ctx K ids T r := by
  refine ⟨h.spread, by rw [hp]; cases d <;> rfl, fun e he ↦ ?_⟩
  obtain rfl : d = e := by
    rw [hp] at he
    cases d <;> cases e <;> first | rfl | cases he
  rw [h.skips_eq, h.size_eq]
  exact h

theorem Arrived.sane {found : Option Candidate} (h : Arrived ctx K ids T skips n d l found r)
    (hp : r.standing.position = .reached d found) : Sane ctx K ids T r := by
  cases found with
  | none =>
    refine h.2.sane ?_
    rw [hp, ← Listing.finish_eq_start]
    rfl
  | some c =>
    obtain ⟨x, i, j, skips', -, hr, -⟩ := h
    refine ⟨hr.toSpread, by rw [hp]; rfl, fun e he ↦ ?_⟩
    rw [hp] at he
    cases e <;> cases he

/-! ## While a pass is under way -/

/-- Where a move has found an entry, the entry comes after what was passed before.  From what is
ahead it goes, and there only. -/
theorem Arrived.split {c : Candidate} (h : Arrived ctx K ids T skips n d l (some c) r)
    (hall : d.arrange (shares ids skips n) = out ++ l) (hfresh : ∀ x ∈ out, x ∉ l) :
    ∃ x rest i, Stands K x c ∧ l = x :: rest ∧
      At ctx K ids T r.skips r.size r.active (.onElement i) r ∧
      sharesAhead ids r.skips r.size d r.active (.onElement i) = rest.filter (· != x) ∧
      sharesAhead ids r.skips r.size d.opposite r.active (.onElement i) = out.reverse ∧
      d.arrange (shares ids r.skips r.size) = out ++ x :: rest.filter (· != x) := by
  obtain ⟨x, i, j, skips', hc, hr, hi, hx, htells, rfl⟩ := h
  have hj := hr.active_lt
  have hself := hr.self
  have hnodup := hr.nodup r.active hr.active
  obtain ⟨-, rfl, rfl, rfl, -⟩ := hr
  have hbehind : (sharesAhead ids skips r.size d.opposite r.active (.onElement i)).reverse = out :=
    List.append_cancel_right ((arrange_shares hj hi hx d).symm.trans hall)
  have hsame : ∀ k ∈ out, (k != x) = true := fun k hk ↦
    bne_iff_ne.2 fun heq ↦ hfresh k hk (heq ▸ List.mem_cons_self)
  have hahead := htells.sharesAhead_eq hnodup hj hi d
  have hother : sharesAhead ids r.skips r.size d.opposite r.active (.onElement i) =
      out.reverse := by
    rw [htells.sharesAhead_eq hnodup hj hi d.opposite, ← hbehind, List.reverse_reverse,
      List.filter_eq_self]
    exact fun k hk ↦ hsame k (hbehind ▸ List.mem_reverse.2 hk)
  have hx' : r.skips r.active x = false :=
    (htells.skips_self hj (List.mem_of_getElem? hi)).trans hx
  refine ⟨x, _, i, hc, rfl, hself, hahead, hother, ?_⟩
  rw [arrange_shares hj hi hx' d, hother, hahead, List.reverse_reverse]

/-- Of a pass so much has been found, and the rest is ahead. -/
def Underway (ctx : Context) (K : Candidate → Prop) (ids : Nat → List EntryId)
    (T : Nat → Position Nat → σ → Prop) (d : Direction) (out : List EntryId) (r : Relay σ) : Prop :=
  ∃ l, Poised ctx K ids T d l r ∧ d.arrange (shares ids r.skips r.size) = out ++ l ∧ out.Nodup ∧
    ∀ x ∈ out, x ∉ l

theorem Sane.underway (h : Sane ctx K ids T r)
    (hp : r.standing.position = .unpositioned ∨ r.standing.position = .start d) :
    Underway ctx K ids T d [] r := by
  refine ⟨d.arrange (shares ids r.skips r.size), ⟨h.toSpread, h.isOpen, fun _ ↦ rfl, ?_⟩, rfl,
    List.nodup_nil, fun _ hx ↦ absurd hx List.not_mem_nil⟩
  intro hmoved
  have hstart : r.standing.position = .start d := by
    rcases hp with hp | hp
    · rw [hp] at hmoved
      exact absurd hmoved nofun
    · exact hp
  obtain ⟨j, hj, hedge⟩ := h.edge d hstart
  refine ⟨.start d, hj.self, ?_⟩
  rw [hj.active_eq, sharesAhead_edge hj.active_lt hedge, Listing.upcoming_start]

/-! ## Once a pass is complete -/

/-- The relay stands for the position in the list `L`, which the operands yield between them. -/
structure SettledAt (ctx : Context) (K : Candidate → Prop) (ids : Nat → List EntryId)
    (T : Nat → Position Nat → σ → Prop) (L : List EntryId) (q : Position Nat) (r : Relay σ) :
    Prop extends Spread ctx K ids T r where
  shares_eq : shares ids r.skips r.size = L
  shows : Shows (Stands K) L q r.standing.position
  moved : q.isUnpositioned = false
  source : ∃ p, At ctx K ids T r.skips r.size r.active p r ∧
    ∀ d, sharesAhead ids r.skips r.size d r.active p = Listing.upcoming L d q

theorem AtEdge.settled (h : AtEdge ctx K ids T skips n d r)
    (hp : r.standing.position = .start d) :
    SettledAt ctx K ids T (shares ids skips n) (.start d) r := by
  obtain ⟨j, hr, hedge⟩ := h
  have hlt := hr.active_lt
  obtain ⟨hspread, rfl, rfl, rfl, hsource⟩ := hr
  refine ⟨hspread, rfl, hp ▸ Shows.start _ _ d, by cases d <;> rfl, .start d,
    ⟨hspread, rfl, rfl, rfl, hsource⟩, fun e ↦ sharesAhead_edge hlt hedge e⟩

theorem SettledAt.poised (h : SettledAt ctx K ids T L q r) (d : Direction) :
    Poised ctx K ids T d (Listing.upcoming L d q) r := by
  obtain ⟨p, hp, hahead⟩ := h.source
  refine ⟨h.toSpread, h.shows.isClosed, fun hfresh ↦ ?_, fun _ ↦ ⟨p, hp, (hahead d).symm⟩⟩
  rw [h.shows.isUnpositioned_eq, h.moved] at hfresh
  exact absurd hfresh nofun

/-- What a move of a pass has come to: another entry, or the end of the pass. -/
def PassedOn (ctx : Context) (K : Candidate → Prop) (ids : Nat → List EntryId)
    (T : Nat → Position Nat → σ → Prop) (d : Direction) (out : List EntryId) :
    Bool → Relay σ → Prop
  | true, r => ∃ x c, r.current = .ok c ∧ Stands K x c ∧ Underway ctx K ids T d (out ++ [x]) r
  | false, r => out.Nodup ∧ SettledAt ctx K ids T (d.arrange out) (.finish d) r

/-- A move takes a relay that has settled where it takes a cursor over the list. -/
theorem SettledAt.arrived {found : Option Candidate} (hL : L.Nodup)
    (h : SettledAt ctx K ids T L q r) (hp : r'.standing.position = .reached d found)
    (hfound : Arrived ctx K ids T r.skips r.size d (Listing.upcoming L d q) found r') :
    found.isSome = (Listing.neighbour L.length d q).isSome ∧
      SettledAt ctx K ids T L (.reached d (Listing.neighbour L.length d q)) r' := by
  have hsound := h.shows.sound
  cases found with
  | none =>
    obtain ⟨hnil, hedge⟩ := hfound
    rw [Listing.neighbour_of_upcoming_nil hsound hnil]
    have hsettled := hedge.settled (hp.trans (Listing.finish_eq_start d))
    rw [h.shares_eq, ← Listing.finish_eq_start] at hsettled
    exact ⟨rfl, hsettled⟩
  | some c =>
    obtain ⟨out, hout⟩ := Listing.upcoming_suffix hsound d
    have hall : (out ++ Listing.upcoming L d q).Nodup :=
      hout ▸ (d.arrange_perm L).nodup_iff.2 hL
    obtain ⟨-, hahead, hfresh⟩ := List.nodup_append.1 hall
    obtain ⟨x, rest, i, hc, hcons, hr', hnext, hbehind, hall'⟩ :=
      hfound.split (h.shares_eq ▸ hout.symm) fun x hx hx' ↦ hfresh x hx x hx' rfl
    -- The entry was listed once, so to tell the others of it changes nothing.
    have hrest : rest.filter (· != x) = rest := by
      rw [hcons, List.nodup_cons] at hahead
      exact List.filter_eq_self.2 fun k hk ↦ bne_iff_ne.2 fun heq ↦ hahead.1 (heq ▸ hk)
    have hshares : shares ids r'.skips r'.size = L := by
      rw [← d.arrange_arrange (shares ids r'.skips r'.size), hall', hrest, ← hcons, hout,
        d.arrange_arrange]
    have hsplit : d.arrange L = out.reverse.reverse ++ x :: rest := by
      rw [List.reverse_reverse, ← hcons, hout]
    obtain ⟨k, hk, hget, hnext', hbehind'⟩ := Listing.neighbour_of_upcoming hsound hcons hsplit
    rw [hk]
    refine ⟨rfl, hr'.toSpread, hshares, ?_, rfl, .onElement i, hr', fun e ↦ ?_⟩
    · rw [hp]
      exact ⟨x, hget, hc⟩
    · show _ = Listing.upcoming L e (.onElement k)
      rcases d.eq_or_eq_opposite e with rfl | rfl
      · rw [hnext, hrest, hnext']
      · rw [hbehind, hbehind']

section Moves

variable (htracks : ∀ j, w.Tracks (Stands K) (ids j) (T j))

include htracks

/-- The operands have room for what they yield between them. -/
theorem SettledAt.room (h : SettledAt ctx K ids T L q r) : L.length ≤ extent w r := by
  rw [← h.shares_eq, shares, List.length_flatMap, ← room_arrange r .forward]
  refine List.sum_le_sum fun j hj ↦ ?_
  have hsource := List.getElem?_eq_getElem (l := r.sources) (List.mem_range.1 hj)
  obtain ⟨p, hp⟩ := h.stands j _ hsource
  rw [hsource]
  exact Nat.le_trans (List.length_filter_le _ _) ((htracks j).room hp)

/-- A pass goes on by an entry that has not been found before, or else it is complete and the relay
has settled. -/
theorem Underway.advance (h : Underway ctx K ids T d out r) :
    (advance w ctx d).Ensures r (fun found r' ↦ PassedOn ctx K ids T d out found r')
      fun _ _ ↦ False := by
  obtain ⟨l, hpoised, hall, hout, hfresh⟩ := h
  refine (hpoised.advance htracks).imp ?_
  rintro _ r' ⟨found, rfl, hp, hfound⟩
  cases found with
  | none =>
    obtain ⟨rfl, hedge⟩ := hfound
    have hstart : r'.standing.position = .start d.opposite := hp.trans (Listing.finish_eq_start d)
    have hshares : shares ids r.skips r.size = d.arrange out := by
      rw [← d.arrange_arrange (shares ids r.skips r.size), hall, List.append_nil]
    have hsettled := hedge.settled hstart
    rw [hshares, ← Listing.finish_eq_start] at hsettled
    exact ⟨hout, hsettled⟩
  | some c =>
    obtain ⟨x, rest, i, hc, rfl, hr', hahead, -, hall'⟩ := hfound.split hall hfresh
    have hx : x ∉ out := fun hx ↦ hfresh x hx List.mem_cons_self
    have hcurrent : r'.current = .ok c := by
      rw [current, Standing.element, hp]
      rfl
    refine ⟨x, c, hcurrent, hc, rest.filter (· != x), ⟨hr'.toSpread, by rw [hp]; rfl,
      fun hfresh' ↦ ?_, fun _ ↦ ⟨.onElement i, hr', hahead.symm⟩⟩, ?_, ?_, ?_⟩
    · rw [hp] at hfresh'
      exact absurd hfresh' Bool.false_ne_true
    · rw [hall', List.append_assoc, List.singleton_append]
    · exact List.nodup_append.2 ⟨hout, by simp, fun k hk _ hx' heq ↦
        hx (by rwa [← List.mem_singleton.1 hx', ← heq])⟩
    · intro k hk hk'
      obtain ⟨hrest, hne⟩ := List.mem_filter.1 hk'
      rcases List.mem_append.1 hk with hk | hk
      · exact hfresh k hk (List.mem_cons_of_mem x hrest)
      · exact bne_iff_ne.1 hne (List.mem_singleton.1 hk)

/-- **A relay that has settled moves as a cursor over what its operands yield between them.** -/
theorem tracks_settled (hL : L.Nodup) :
    (walker w ctx).Tracks (Stands K) L (SettledAt ctx K ids T L) := by
  refine ⟨fun hs ↦ hs.shows.sound, fun {p s} d hs ↦ ?_, fun {p s} d hs ↦ ?_,
    fun hs ↦ hs.shows.element, fun hs ↦ hs.room htracks⟩
  · refine (hs.toSpread.rewind htracks hs.shows.isClosed d).imp ?_
    rintro _ s' ⟨hedge, hp⟩
    rw [← hs.shares_eq]
    exact hedge.settled hp
  · refine ((hs.poised d).advance htracks).imp ?_
    rintro _ s' ⟨found, rfl, hp, hfound⟩
    exact hs.arrived hL hp hfound

end Moves

end Relay
end DirectoryQuery
