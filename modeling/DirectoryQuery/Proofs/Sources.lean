import DirectoryQuery.Cursor.Sieve
import DirectoryQuery.Proofs.Traversal

/-!
# Traversals of reels and sieves

A reel that is not monitored goes through its candidates in their order, or in the opposite one.  A
sieve goes through what of its source passes the condition: if the condition decides as `p` does,
then `List.filter p` of the list of the source is the list of the sieve (`Sieve.ready`).
-/

set_option autoImplicit false

namespace DirectoryQuery

/-! ## Reels -/

theorem Standing.checkOpen_eq_ok {α : Type} {s : Standing α} (h : s.position.isClosed = false)
    (operation : Operation) : s.checkOpen operation = .ok () := by
  rw [checkOpen, h]
  rfl

theorem Listing.current_eq {l : Listing} {i : Nat} {c : Candidate}
    (hp : l.standing.position = .onElement i) (hc : l.candidates[i]? = some c) :
    l.current = .ok c := by
  refine bind_eq_ok.2 ⟨i, ?_, ?_⟩
  · rw [Standing.element, hp]
  · rw [hc]

namespace Reel

/-- How to move a reel. -/
def walker : Walker Reel := ⟨rewind, advance, current, fun r ↦ r.listing.size⟩

/-- An open reel over the candidates, not monitored. -/
structure Over (cs : List Candidate) (r : Reel) : Prop where
  candidates : r.listing.candidates = cs
  monitor : r.monitor = none
  sound : Listing.Sound cs.length r.listing.standing.position

theorem over_ofList (cs : List Candidate) : Over cs (ofList cs) := ⟨rfl, rfl, trivial⟩

variable {cs : List Candidate} {r : Reel} {d : Direction} {E : SearchError → Prop}

theorem ensures_onListing {α : Type} {act : Act Listing α} {Q : α → Reel → Prop}
    {E : SearchError → Reel → Prop}
    (h : act.Ensures r.listing (fun a l ↦ Q a { r with listing := l })
      fun e l ↦ E e { r with listing := l }) :
    (onListing act).Ensures r Q E :=
  Act.ensures_within h

/-- Going to the edge. -/
theorem rewind_spec (h : Over cs r) (d : Direction) :
    (rewind d).Ensures r (fun _ r' ↦ Over cs r' ∧ r'.listing.standing.position = .start d)
      fun e _ ↦ E e := by
  have hlisting : (Listing.rewind d).Ensures r.listing
      (fun _ l ↦ l = { r.listing with standing := r.listing.standing.moveTo (.start d) })
      fun e _ ↦ E e := by
    refine Act.ensures_bind (Act.ensures_get ?_)
    exact Act.ensures_ok_bind (Standing.checkOpen_eq_ok h.sound.isClosed _) (Act.ensures_set rfl)
  refine ensures_onListing (hlisting.imp ?_)
  rintro - _ rfl
  exact ⟨⟨h.candidates, h.monitor, Listing.sound_start cs.length d⟩, rfl⟩

/-- A move either finds that nothing is to come, or goes to what comes first. -/
theorem advance_spec (h : Over cs r) (d : Direction) :
    (advance d).Ensures r
      (fun found r' ↦ Over cs r' ∧
        match Listing.upcoming cs d r.listing.standing.position with
        | [] => found = false
        | c :: rest => found = true ∧ r'.current = .ok c ∧
          Listing.upcoming cs d r'.listing.standing.position = rest)
      fun e _ ↦ E e := by
  refine Act.ensures_bind (Act.ensures_get (Act.ensures_bind (Act.ensures_set ?_)))
  rw [h.monitor]
  have hlisting : (Listing.advance d).Ensures r.listing
      (fun found l ↦ found = (Listing.neighbour cs.length d r.listing.standing.position).isSome ∧
        l = ⟨cs, r.listing.standing.moveTo
          (.reached d (Listing.neighbour cs.length d r.listing.standing.position))⟩)
      fun e _ ↦ E e := by
    refine Act.ensures_bind (Act.ensures_get ?_)
    refine Act.ensures_ok_bind (Standing.checkOpen_eq_ok h.sound.isClosed _) ?_
    refine Act.ensures_bind (Act.ensures_set (Act.ensures_pure ?_))
    rw [Listing.size, h.candidates]
    exact ⟨rfl, rfl⟩
  refine ensures_onListing (hlisting.imp ?_)
  intro _ _ hpost
  obtain ⟨rfl, rfl⟩ := hpost
  obtain ⟨hnone, hnil⟩ | ⟨i, c, hsome, hget, hcons⟩ := Listing.neighbour_spec (d := d) h.sound
  · rw [hnone, hnil]
    exact ⟨⟨rfl, rfl, Listing.sound_finish cs.length d⟩, rfl⟩
  · rw [hsome, hcons]
    obtain ⟨hi, -⟩ := List.getElem?_eq_some_iff.1 hget
    refine ⟨⟨rfl, rfl, hi⟩, rfl, ?_, rfl⟩
    exact Listing.current_eq rfl hget

theorem yields (h : Over cs r) {l : List Candidate}
    (hl : Listing.upcoming cs d r.listing.standing.position = l) :
    walker.Yields d E Eq l r := by
  induction l generalizing r with
  | nil =>
    refine (advance_spec h d).imp ?_
    intro found r' hpost
    obtain ⟨-, hfound⟩ := hpost
    rwa [hl] at hfound
  | cons c rest ih =>
    have hlen := Listing.length_upcoming_le cs d r.listing.standing.position
    rw [hl] at hlen
    refine ⟨?_, (advance_spec h d).imp ?_⟩
    · show rest.length < r.listing.candidates.length
      rwa [h.candidates]
    · intro found r' hpost
      obtain ⟨hover, hfound⟩ := hpost
      rw [hl] at hfound
      obtain ⟨hfound, hc, hrest⟩ := hfound
      exact ⟨hfound, ⟨c, hc, rfl⟩, ih hover hrest⟩

/-- **A reel goes through its candidates.** -/
theorem ready (h : Over cs r) : walker.Ready d E Eq (d.arrange cs) r := by
  refine ⟨?_, (rewind_spec h d).imp ?_⟩
  · rw [(d.arrange_perm cs).length_eq, ← h.candidates]
    exact Nat.le_refl _
  · intro _ r' hpost
    obtain ⟨hover, hpos⟩ := hpost
    exact yields hover (by rw [hpos, Listing.upcoming_start])

end Reel

/-! ## Sieves -/

namespace Sieve

variable {σ α : Type} {w : Walker σ} {ctx : Context} {d : Direction} {E : SearchError → Prop}
  {R S : α → Candidate → Prop} {p : α → Bool} {l : List α} {s : Sieve σ}

/-- How to move a sieve. -/
def walker (w : Walker σ) (ctx : Context) : Walker (Sieve σ) :=
  ⟨rewind w, advance w ctx, current, fun s ↦ w.extent s.source⟩

/-- Put to a candidate that matches an element, the condition decides as given, and a candidate that
passes matches the element as given. -/
def Decides (ctx : Context) (x : Acceptance) (E : SearchError → Prop)
    (R S : α → Candidate → Prop) (p : α → Bool) (l : List α) : Prop :=
  ∀ a ∈ l, ∀ c, R a c → (x.accept ctx).Ensures c
    (fun accepted c' ↦ accepted = p a ∧ (p a = true → S a c')) fun e _ ↦ E e

theorem ensures_onSource {β : Type} {act : Act σ β} {Q : β → Sieve σ → Prop}
    {F : SearchError → Sieve σ → Prop}
    (h : act.Ensures s.source (fun b source ↦ Q b { s with source })
      fun e source ↦ F e { s with source }) :
    (onSource act).Ensures s Q F :=
  Act.ensures_within h

/-- A move looks for a candidate from where the source stands, or from the edge if the sieve was
never moved. -/
theorem ensures_advance {I : σ → Prop} {Q : Bool → Sieve σ → Prop}
    {F : SearchError → Sieve σ → Prop}
    (hclosed : s.standing.position.isClosed = true → F (.closedCursor d.moving) s)
    (hfresh : s.standing.position.isUnpositioned = true →
      (w.rewind d).Ensures s.source (fun _ source ↦ I source) fun e source ↦ F e { s with source })
    (hmoved : s.standing.position.isUnpositioned = false → I s.source)
    (hseek : ∀ source, I source → (w.seek d (s.acceptance.accept ctx)).Ensures source
      (fun found source' ↦ Q found.isSome
        { s with source := source', standing := s.standing.moveTo (.reached d found) })
      fun e source' ↦ F e { s with source := source' }) :
    (advance w ctx d).Ensures s Q F := by
  -- What follows once the source stands where the search begins.
  have hrest : ∀ source, I source → (do
      let found ← onSource (w.seek d (s.acceptance.accept ctx))
      if found.isSome then tally .emitted
      moveTo (.reached d found)
      return found.isSome : Act (Sieve σ) Bool).Ensures { s with source } Q F := by
    intro source hsource
    refine Act.ensures_bind (ensures_onSource ((hseek source hsource).imp ?_))
    intro found source' hpost
    cases found with
    | none => exact Act.ensures_bind (Act.ensures_modify (Act.ensures_pure hpost))
    | some c =>
      refine Act.ensures_bind (Act.ensures_tally (Act.ensures_bind (Act.ensures_modify ?_)))
      exact Act.ensures_pure hpost
  refine Act.ensures_bind (Act.ensures_get ?_)
  by_cases hopen : s.standing.position.isClosed = true
  · exact Act.ensures_error_bind (if_pos hopen) (hclosed hopen)
  · refine Act.ensures_ok_bind (if_neg hopen) ?_
    cases hfirst : s.standing.position.isUnpositioned with
    | true => exact Act.ensures_bind (ensures_onSource ((hfresh hfirst).imp fun _ ↦ hrest))
    | false => exact hrest s.source (hmoved hfirst)

/-- A move goes to the first candidate of the source that passes. -/
theorem advance_spec (hs : w.Yields d E R l s.source)
    (hx : Decides ctx s.acceptance E R S p l) (hopen : s.standing.position.isClosed = false)
    (hmoved : s.standing.position.isUnpositioned = false) :
    (advance w ctx d).Ensures s
      (fun found s' ↦ found = s'.current.isOk ∧ s'.acceptance = s.acceptance ∧
        match s'.current with
        | .error _ => l.filter p = []
        | .ok c => s'.standing.position = .onElement c ∧ w.Sought d E R S p l (some c) s'.source)
      fun e _ ↦ E e := by
  refine ensures_advance (I := fun source ↦ w.Yields d E R l source) (fun hclosed ↦ ?_)
    (fun hfresh ↦ ?_) (fun _ ↦ hs) fun source hsource ↦ ?_
  · exact absurd (hclosed.symm.trans hopen) nofun
  · exact absurd (hfresh.symm.trans hmoved) nofun
  · refine (Walker.seek_spec hx hsource).imp fun found source' hsought ↦ ?_
    cases found with
    | none => cases d <;> exact ⟨rfl, rfl, hsought⟩
    | some c => exact ⟨rfl, rfl, rfl, hsought⟩

/-- What is left of the source yields what is left of the sieve. -/
theorem yields {l : List α} {s : Sieve σ} (hs : w.Yields d E R l s.source)
    (hx : Decides ctx s.acceptance E R S p l)
    (hopen : s.standing.position.isClosed = false)
    (hmoved : s.standing.position.isUnpositioned = false) :
    (walker w ctx).Yields d E S (l.filter p) s := by
  have hadv := advance_spec hs hx hopen hmoved
  cases hl : l.filter p with
  | nil =>
    refine hadv.imp ?_
    intro _ s' hpost
    obtain ⟨rfl, -, hcur⟩ := hpost
    cases hc : s'.current with
    | error e => rfl
    | ok c =>
      rw [hc] at hcur
      obtain ⟨-, a, rest, hrest, -⟩ := hcur
      exact absurd (hl.symm.trans hrest) (List.cons_ne_nil a _).symm
  | cons b bs =>
    have hlen : bs.length < w.extent s.source := by
      have hle := Nat.le_trans (List.length_filter_le p l) hs.length_le
      rwa [hl] at hle
    refine ⟨hlen, hadv.imp ?_⟩
    intro _ s' hpost
    obtain ⟨rfl, hacc, hcur⟩ := hpost
    cases hc : s'.current with
    | error e =>
      rw [hc] at hcur
      exact absurd (hl.symm.trans hcur) (List.cons_ne_nil b bs)
    | ok c =>
      rw [hc] at hcur
      obtain ⟨hpos, a, rest, hrest, hshorter, -, hsub, hS, hyields⟩ := hcur
      obtain ⟨rfl, rfl⟩ := List.cons.inj (hl.symm.trans hrest)
      refine ⟨rfl, ⟨c, hc, hS⟩, yields hyields ?_ (by rw [hpos]; rfl) (by rw [hpos]; rfl)⟩
      rw [hacc]
      exact fun x hmem ↦ hx x (hsub hmem)
termination_by l.length
decreasing_by exact hshorter

/-- **A sieve goes through what passes of its source.** -/
theorem ready (hs : w.Ready d E R l s.source) (hx : Decides ctx s.acceptance E R S p l)
    (hopen : s.standing.position.isClosed = false) :
    (walker w ctx).Ready d E S (l.filter p) s := by
  obtain ⟨hlen, hrew⟩ := hs
  refine ⟨Nat.le_trans (List.length_filter_le p l) hlen, ?_⟩
  refine Act.ensures_bind (Act.ensures_get ?_)
  refine Act.ensures_ok_bind (Standing.checkOpen_eq_ok hopen _) ?_
  refine Act.ensures_bind (ensures_onSource (hrew.imp ?_))
  intro _ source hyields
  refine Act.ensures_modify ?_
  cases d <;> exact yields hyields hx rfl rfl

end Sieve
end DirectoryQuery
