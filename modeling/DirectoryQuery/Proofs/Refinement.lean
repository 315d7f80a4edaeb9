import DirectoryQuery.Proofs.Calls
import DirectoryQuery.Proofs.Steadiness

/-!
# Sieves refine the cursor over a list

A sieve over a cursor that behaves as a cursor over a list behaves as a cursor over what passes of
the list, whatever calls are made (`Cursor.sieve_behaves`).  This goes for sieves of all five kinds.
The list of a sieve may be read in two ways: as the elements that pass, or as the candidates that
these become when the condition is put to them.  Read in the second way, the cursor again behaves as
a cursor over a list in the sense asked of the source, so sieves may stand on sieves.
-/

set_option autoImplicit false

namespace DirectoryQuery

namespace Cursor

variable {ctx : Context} {P : Call → Prop} {n : Nat} {x : Acceptance} {source : Cursor}
  {idle : List Cursor} {l : List Candidate}

/-! ## Closing a sieve -/

theorem releaseTrees_of_each {cause : Option SearchError} {cs : List Cursor}
    (h : ∀ c ∈ cs, (Cursor.release cause).Ensures c (fun _ _ ↦ True) fun _ _ ↦ False) :
    Effect.Ensures (releaseTrees cause cs) fun r ↦ r.1 = .ok () := by
  induction cs with
  | nil => exact Effect.ensures_pure rfl
  | cons c cs ih =>
    obtain ⟨hc, hcs⟩ := List.forall_mem_cons.1 h
    rw [releaseTrees]
    refine Effect.ensures_bind (Effect.Ensures.mono hc ?_)
    rintro ⟨outcome, c'⟩ houtcome
    cases outcome with
    | error e => exact houtcome.elim
    | ok =>
      refine Effect.ensures_bind (Effect.ensures_pure (a := ()) ?_)
      refine Effect.ensures_bind (Effect.Ensures.mono (ih hcs) ?_)
      rintro ⟨others, cs'⟩ rfl
      exact Effect.ensures_pure rfl

theorem release_sieve {cause : Option SearchError} {s : Sieve Cursor}
    (hopen : s.standing.position.isClosed = false)
    (hsource : (Cursor.release cause).Ensures s.source (fun _ _ ↦ True) fun _ _ ↦ False)
    (hidle : ∀ c ∈ s.idle, (Cursor.release cause).Ensures c (fun _ _ ↦ True) fun _ _ ↦ False) :
    (Cursor.release cause).Ensures (sieve s) (fun _ c ↦ Shut c) fun _ _ ↦ False := by
  have hclose := s.standing.isClosed_close cause
  refine Act.ensures_of ?_
  rw [releaseTree, if_neg (Bool.eq_false_iff.1 hopen)]
  refine Effect.ensures_bind (Effect.Ensures.mono (ensures_note _ _) fun _ _ ↦ ?_)
  refine Effect.ensures_bind (Effect.Ensures.mono hsource ?_)
  rintro ⟨outcome, source'⟩ houtcome
  cases outcome with
  | error e => exact houtcome.elim
  | ok =>
    have hrest : Effect.Ensures (releaseTrees cause s.idle >>= fun r ↦ pure
          (r.1, sieve ⟨s.acceptance, source', r.2, s.standing.close cause⟩))
        fun r ↦ Meets (fun _ ↦ Shut r.2) (fun _ ↦ False) r.1 := by
      refine Effect.ensures_bind (Effect.Ensures.mono (releaseTrees_of_each hidle) ?_)
      rintro ⟨others, idle'⟩ rfl
      exact Effect.ensures_pure hclose
    cases s.acceptance.readsIndex with
    | true => exact hrest
    | false => exact hrest

/-! ## Sieves -/

/-- A sieve over a cursor that behaves as one over a list moves over what passes of the list. -/
theorem follows_sieve (hP : ∀ call : Call, call.IsMove → P call)
    (hx : ∀ a ∈ l, ¬x.Fails ctx a) (hheight : ∀ c ∈ idle, c.height ≤ n)
    (hidle : ∀ cause, P (.release cause) → ∀ c ∈ idle,
      (Cursor.release cause).Ensures c (fun _ _ ↦ True) fun _ _ ↦ False) :
    Follows ctx P (fun a c ↦ x.kept? ctx a = some c) (n + 1) (l.filter (x.passes ctx))
      fun p c ↦ ∃ s, c = sieve s ∧ s.StandsAt
        (fun a c ↦ c.id = a.id ∧ x.kept? ctx a = some c) (x.passes ctx) l
        (fun i c ↦ c.height ≤ n ∧ Listing.Sound l.length i ∧ Behaves ctx P Eq c (listed l i))
        x idle p := by
  have hdecides : Sieve.Decides ctx x (fun _ ↦ False) (fun a c ↦ c.id = a.id ∧ a = c)
      (fun a c ↦ c.id = a.id ∧ x.kept? ctx a = some c) (x.passes ctx) l := by
    rintro a ha _ ⟨-, rfl⟩
    refine (Acceptance.accept_spec (hx a ha)).imp ?_
    rintro accepted c' ⟨rfl, hid, hkept⟩
    exact ⟨rfl, fun hpasses ↦ ⟨hid, hkept hpasses⟩⟩
  refine ⟨embeds_sieve.tracks (Sieve.tracks (Behaves.tracks hP l) hdecides), ?_, ?_, ?_⟩
  · rintro p _ ⟨s, rfl, hs⟩
    obtain ⟨i, hi, -⟩ := hs.source
    exact height_sieve_le_iff.2 ⟨hi.1, hs.idle ▸ hheight⟩
  · rintro p _ ⟨s, rfl, hs⟩
    exact hs.shows.map_eq
  · rintro p _ cause ⟨s, rfl, hs⟩ hcause
    obtain ⟨i, ⟨-, -, hi⟩, -⟩ := hs.source
    exact release_sieve hs.shows.isClosed (hi.release hcause) (hs.idle ▸ hidle cause hcause)

/-- The candidates that pass, as the condition leaves them. -/
theorem filterMap_kept? (x : Acceptance) (ctx : Context) (l : List Candidate) :
    l.filterMap (x.kept? ctx) =
      (l.filter (x.passes ctx)).map fun a ↦ (x.kept? ctx a).getD a := by
  induction l with
  | nil => rfl
  | cons a l ih =>
    cases ha : x.kept? ctx a with
    | none =>
      have hpasses : x.passes ctx a = false := by rw [Acceptance.passes, ha]; rfl
      rw [List.filterMap_cons_none ha, List.filter_cons_of_neg (by rw [hpasses]; decide), ih]
    | some c =>
      have hpasses : x.passes ctx a = true := by rw [Acceptance.passes, ha]; rfl
      rw [List.filterMap_cons_some ha, List.filter_cons_of_pos hpasses, List.map_cons, ih, ha]
      rfl

/-- **A sieve over a cursor that behaves as a cursor over a list behaves as a cursor over what
passes of the list.** -/
theorem sieve_behaves (hsource : Behaves ctx (fun _ ↦ True) Eq source (ofList l))
    (hx : ∀ a ∈ l, ¬x.Fails ctx a)
    (hidle : ∀ cause, ∀ c ∈ idle,
      (Cursor.release cause).Ensures c (fun _ _ ↦ True) fun _ _ ↦ False) :
    Behaves ctx (fun _ ↦ True) (fun a c ↦ x.kept? ctx a = some c)
        (sieve (.fresh x source idle)) (ofList (l.filter (x.passes ctx))) ∧
      Behaves ctx (fun _ ↦ True) Eq
        (sieve (.fresh x source idle)) (ofList (l.filterMap (x.kept? ctx))) := by
  have hfollows := follows_sieve (n := max source.height (heightOf idle)) (P := fun _ ↦ True)
    (fun _ _ ↦ trivial) hx
    (fun c hc ↦ Nat.le_trans (height_le_heightOf hc) (Nat.le_max_right _ _))
    fun cause _ ↦ hidle cause
  have hstands : Sieve.StandsAt (fun a c ↦ c.id = a.id ∧ x.kept? ctx a = some c) (x.passes ctx) l
      (fun i c ↦ c.height ≤ max source.height (heightOf idle) ∧ Listing.Sound l.length i ∧
        Behaves ctx (fun _ ↦ True) Eq c (listed l i))
      x idle .unpositioned (.fresh x source idle) :=
    ⟨rfl, rfl, trivial, .unpositioned, ⟨Nat.le_max_left _ _, trivial, hsource⟩, nofun⟩
  refine ⟨hfollows.behaves (follows_listed ctx _ _) ⟨_, rfl, hstands⟩ ⟨trivial, rfl⟩, ?_⟩
  have hmapped := hfollows.map (S := Eq) (f := fun a ↦ (x.kept? ctx a).getD a) (by
    rintro a - c hid hc
    rw [hc]
    exact ⟨rfl, rfl⟩)
  rw [filterMap_kept?]
  exact hmapped.behaves (follows_listed ctx _ _) ⟨_, rfl, hstands⟩ ⟨trivial, rfl⟩

/-- An index with two keys of the entry 1 and one of the entry 2: the sieve that goes through it
behaves as a cursor over the list without the greater key of the entry 1. -/
theorem sieve_behaves_two_keys :
    let ctx : Context := ⟨Store.empty.directory, .empty, .standard⟩
    let least : Value := .binary [1]
    let greater : Value := .binary [2]
    let keys : EntryId → List Value := fun id ↦ if id = 1 then [least, greater] else [greater]
    let postings : List Candidate := [.keyed least 1, .keyed greater 1, .keyed greater 2]
    let index : Index := ⟨"cn", true, .ok (.ofList postings), fun _ ↦ .ok (.ofList []),
      fun id ↦ .ok (.ofList ((keys id).map fun key ↦ .keyed key id)), 3, fun _ ↦ 0⟩
    let x : Acceptance := .indexed index .present
    postings.filter (x.passes ctx) = [.keyed least 1, .keyed greater 2] ∧
      Behaves ctx (fun _ ↦ True) (fun a c ↦ x.kept? ctx a = some c)
        (sieve (.fresh x (ofList postings) [])) (ofList (postings.filter (x.passes ctx))) ∧
      Behaves ctx (fun _ ↦ True) Eq
        (sieve (.fresh x (ofList postings) [])) (ofList (postings.filterMap (x.kept? ctx))) := by
  intro ctx least greater keys postings index x
  have houtcome : ∀ a ∈ postings, ∃ b, (x.accept ctx).outcome a = (.ok b, a) := by
    intro a ha
    rcases List.mem_cons.1 ha with rfl | ha
    · exact ⟨true, rfl⟩
    rcases List.mem_cons.1 ha with rfl | ha
    · exact ⟨false, rfl⟩
    · obtain rfl := List.mem_singleton.1 ha
      exact ⟨true, rfl⟩
  have hx : ∀ a ∈ postings, ¬x.Fails ctx a := by
    rintro a ha ⟨e, c', he⟩
    obtain ⟨b, hb⟩ := houtcome a ha
    rw [hb] at he
    exact absurd (congrArg Prod.fst he) nofun
  refine ⟨rfl, ?_⟩
  exact sieve_behaves (behaves_listed ctx _ trivial) hx fun _ c hc ↦ absurd hc List.not_mem_nil

end Cursor
end DirectoryQuery
