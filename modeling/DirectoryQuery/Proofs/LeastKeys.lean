import DirectoryQuery.Proofs.Leaves
import DirectoryQuery.Proofs.Passes
import DirectoryQuery.Proofs.Refinement

/-!
# The cursor over an index

The cursor that goes through an index keeps a posting when its key is the least of those under which
the entry is recorded and which satisfy the assertion.  The least key is looked up in the reverse
half, while the postings come from the forward half; both halves are in the order of keys, and have
the same pairs, whatever changes were made to the index (`ValueIndex.mem_changed`).

So the cursor behaves as one over a list, without any failure, and the list has one posting for each
entry that is found (`ValueIndex.isLeast_iff_leastUnder`).  Every pass over it, in either direction
and whatever moves were made before, visits that list (`Cursor.Lists`).
-/

set_option autoImplicit false

namespace DirectoryQuery

open Std

/-! ## The order of postings -/

/-- One posting comes before another: its key is less, or it has the same key and its identifier is
less. -/
def Posting.Before (p q : Posting) : Prop :=
  compare p.key q.key = .lt ∨ p.key = q.key ∧ p.id < q.id

theorem Groups.ordered_toList {κ ν : Type} [Ord κ] [TransOrd κ] [Ord ν] [TransOrd ν]
    (g : Groups κ ν) :
    g.toList.Pairwise fun a b ↦ compare a.1 b.1 = .lt ∨ a.1 = b.1 ∧ compare a.2 b.2 = .lt := by
  have hkeys : g.sets.toList.Pairwise fun a b ↦ compare a.1 b.1 = .lt :=
    ExtTreeMap.ordered_keys_toList
  refine List.pairwise_flatMap.2 ⟨fun ⟨key, set⟩ _ ↦ ?_, hkeys.imp ?_⟩
  · have hmembers : set.toList.Pairwise fun a b ↦ compare a b = .lt := ExtTreeSet.ordered_toList
    exact List.pairwise_map.2 (hmembers.imp fun hlt ↦ .inr ⟨rfl, hlt⟩)
  · rintro ⟨key, set⟩ ⟨key', set'⟩ hlt _ hpair _ hpair'
    obtain ⟨_, -, rfl⟩ := List.mem_map.1 hpair
    obtain ⟨_, -, rfl⟩ := List.mem_map.1 hpair'
    exact .inl hlt

/-- What is found first in an ascending list comes before everything else that is looked for. -/
theorem find?_eq_some_iff_of_pairwise {α : Type} {R : α → α → Prop} {l : List α}
    (hl : l.Pairwise R) (hasymm : ∀ a b, R a b → ¬R b a) {p : α → Bool} {a : α} :
    l.find? p = some a ↔ a ∈ l ∧ p a = true ∧ ∀ b ∈ l, p b = true → b = a ∨ R a b := by
  induction l with
  | nil => simp
  | cons b l ih =>
    obtain ⟨hb, hl⟩ := List.pairwise_cons.1 hl
    by_cases hpb : p b = true
    · rw [List.find?_cons_of_pos hpb, Option.some_inj]
      constructor
      · rintro rfl
        refine ⟨List.mem_cons_self, hpb, fun c hc _ ↦ ?_⟩
        exact (List.mem_cons.1 hc).imp_right (hb c)
      · rintro ⟨ha, -, hleast⟩
        obtain heq | hlt := hleast b List.mem_cons_self hpb
        · exact heq
        · obtain rfl | ha := List.mem_cons.1 ha
          · rfl
          · exact absurd hlt (hasymm b a (hb a ha))
    · rw [List.find?_cons_of_neg hpb, ih hl]
      grind

namespace ValueIndex

variable {x : ValueIndex} {a : Assertion} {p q : Posting}

/-- The postings are in order. -/
theorem ordered_toList (x : ValueIndex) : x.toList.Pairwise Posting.Before := by
  refine List.pairwise_map.2 (x.forwardHalf.ordered_toList.imp fun h ↦ ?_)
  exact h.imp_right fun ⟨hkey, hid⟩ ↦ ⟨hkey, compareOfLessAndEq_eq_lt.1 hid⟩

/-- The keys of an entry are in order. -/
theorem ordered_postingsAt (x : ValueIndex) (i : EntryId) :
    ((x.postingsAt i).map Posting.key).Pairwise fun v w ↦ compare v w = .lt := by
  unfold postingsAt
  cases x.reverseHalf? with
  | none => simp
  | some half =>
    have hkeys : (half.members i).toList.Pairwise fun v w ↦ compare v w = .lt :=
      ExtTreeSet.ordered_toList
    simpa [List.map_map, Function.comp_def] using hkeys

/-! ## Changes -/

/-- A change to an index. -/
inductive Change where
  | insert (key : Value) (id : EntryId)
  | erase (key : Value) (id : EntryId)
  | clear

/-- Makes the change. -/
def change (x : ValueIndex) : Change → ValueIndex
  | .insert key id => x.insert key id
  | .erase key id => x.erase key id
  | .clear => x.clear

/-- The index that was declared with a reverse half, after changes. -/
def changed (indexed : String) (changes : List Change) : ValueIndex :=
  changes.foldl change (empty indexed true)

/-- What is recorded after a change. -/
def Change.on (recorded : Posting → Prop) : Change → Posting → Prop
  | insert key id, p => recorded p ∨ p = ⟨key, id⟩
  | erase key id, p => recorded p ∧ p ≠ ⟨key, id⟩
  | clear, _ => False

/-- What is recorded after changes to an index without postings. -/
def Recorded (changes : List Change) : Posting → Prop :=
  changes.foldl Change.on fun _ ↦ False

@[simp]
theorem hasReverse_change (x : ValueIndex) (c : Change) :
    (x.change c).hasReverse = x.hasReverse := by
  cases c <;> simp [change, clear]

theorem mem_change {c : Change} : p ∈ x.change c ↔ c.on (· ∈ x) p := by
  have heq : ∀ key id, p = ⟨key, id⟩ ↔ p.id = id ∧ p.key = key := fun key id ↦
    eq_comm.trans posting_eq_iff
  cases c with
  | insert key id => rw [change, mem_insert, Change.on, heq]
  | erase key id => rw [change, mem_erase, Change.on, ne_eq, heq]
  | clear => exact iff_of_false (not_mem_empty _ _) id

theorem hasReverse_foldl_change (x : ValueIndex) (changes : List Change) :
    (changes.foldl change x).hasReverse = x.hasReverse :=
  foldl_keeps hasReverse hasReverse_change changes x

theorem mem_foldl_change {changes : List Change} {recorded : Posting → Prop}
    (hx : ∀ p, p ∈ x ↔ recorded p) : p ∈ changes.foldl change x ↔
      changes.foldl Change.on recorded p := by
  induction changes generalizing x recorded with
  | nil => exact hx p
  | cons c changes ih =>
    refine ih fun q ↦ mem_change.trans ?_
    rw [show (· ∈ x) = recorded from funext fun p ↦ propext (hx p)]

/-- An index that is changed can be read in reverse as before. -/
theorem hasReverse_changed (indexed : String) (changes : List Change) :
    (changed indexed changes).hasReverse = true := by
  rw [changed, hasReverse_foldl_change, hasReverse_empty]

/-- The index has what the changes have left. -/
theorem mem_changed {indexed : String} {changes : List Change} :
    p ∈ changed indexed changes ↔ Recorded changes p :=
  mem_foldl_change fun _ ↦ iff_of_false (not_mem_empty _ _) id

/-! ## Least keys -/

/-- Of what is recorded, the posting satisfies the assertion, and every other key of the same entry
that does is greater. -/
structure LeastUnder (records : Posting → Prop) (a : Assertion) (p : Posting) : Prop where
  recorded : records p
  holds : a.holds p.key = true
  least {q : Posting} : records q → q.id = p.id → a.holds q.key = true →
    q.key = p.key ∨ compare p.key q.key = .lt

/-- What the reverse half has as the least key is the least of the recorded ones. -/
theorem isLeast_iff_leastUnder (hx : x.hasReverse = true) (hp : p ∈ x) :
    x.isLeast a p = true ↔ LeastUnder (· ∈ x) a p := by
  have hasymm : ∀ v w : Value, compare v w = .lt → ¬compare w v = .lt := fun v w hlt hgt ↦ by
    rw [OrientedOrd.eq_swap, hlt] at hgt
    cases hgt
  have hmem : ∀ v, v ∈ (x.postingsAt p.id).map Posting.key ↔ (⟨v, p.id⟩ : Posting) ∈ x := by
    intro v
    simp only [List.mem_map, mem_postingsAt hx]
    refine ⟨?_, fun hv ↦ ⟨_, ⟨hv, rfl⟩, rfl⟩⟩
    rintro ⟨⟨_, _⟩, ⟨hq, rfl⟩, rfl⟩
    exact hq
  rw [isLeast_iff hx hp, leastKey?,
    find?_eq_some_iff_of_pairwise (x.ordered_postingsAt p.id) hasymm]
  constructor
  · rintro ⟨-, hholds, hleast⟩
    refine ⟨hp, hholds, fun {q} hq hid hq' ↦ hleast q.key ((hmem q.key).2 ?_) hq'⟩
    rwa [← hid]
  · rintro ⟨-, hholds, hleast⟩
    exact ⟨(hmem p.key).2 hp, hholds, fun v hv hv' ↦ hleast ((hmem v).1 hv) rfl hv'⟩

/-- The postings under the least keys. -/
def leastPostings (x : ValueIndex) (a : Assertion) : List Posting := x.toList.filter (x.isLeast a)

theorem mem_leastPostings (hx : x.hasReverse = true) :
    p ∈ x.leastPostings a ↔ LeastUnder (· ∈ x) a p := by
  rw [leastPostings, List.mem_filter, mem_toList]
  constructor
  · exact fun ⟨hp, hleast⟩ ↦ (isLeast_iff_leastUnder hx hp).1 hleast
  · exact fun h ↦ ⟨h.recorded, (isLeast_iff_leastUnder hx h.recorded).2 h⟩

end ValueIndex

namespace Cursor

variable {ctx : Context} {P : Call → Prop} {d : Direction} {c : Cursor} {l : List Candidate}
  {p : Position Nat}

/-! ## Passes that list candidates -/

/-- The move, and then single steps in the direction, take the cursor from one candidate to the next
and to the end, without any failure and whatever was logged before. -/
def Emits (ctx : Context) (d : Direction) : Act Cursor Bool → Cursor → List Candidate → Prop
  | move, c, [] => move.Ensures c (fun found _ ↦ found = false) fun _ _ ↦ False
  | move, c, x :: rest => move.Ensures c
      (fun found c' ↦ found = true ∧ c'.current = .ok x ∧ Emits ctx d (advance ctx d) c' rest)
      fun _ _ ↦ False

/-- In every pass, whatever moves were made before, the cursor lists the candidates, or in the
backward direction their reverse. -/
def Lists (ctx : Context) (c : Cursor) (l : List Candidate) : Prop :=
  ∀ (d : Direction) (c' : Cursor), Reached ctx c c' →
    Emits ctx d (begin ctx d) c' (d.arrange l) ∧
      (c'.position = .unpositioned ∨ c'.position = .start d →
        Emits ctx d (advance ctx d) c' (d.arrange l))

section Moves

variable (hP : ∀ call : Call, call.IsMove → P call)

include hP

/-- Single steps list what is ahead. -/
theorem Behaves.emits_upcoming (h : Behaves ctx P Eq c (listed l p))
    (hp : Listing.Sound l.length p) :
    Emits ctx d (Cursor.advance ctx d) c (Listing.upcoming l d p) := by
  generalize hahead : Listing.upcoming l d p = ahead
  induction ahead generalizing c p with
  | nil =>
    refine (h.advance (hP (.advance d) trivial) hp.isClosed).mono ?_ fun _ _ hfalse ↦ hfalse
    rintro _ c' ⟨rfl, -⟩
    rw [Listing.neighbour_of_upcoming_nil hp hahead]
    rfl
  | cons x rest ih =>
    refine (h.advance (hP (.advance d) trivial) hp.isClosed).mono ?_ fun _ _ hfalse ↦ hfalse
    rintro _ c' ⟨rfl, hc'⟩
    obtain ⟨-, hnil⟩ | ⟨i, y, hi, hget, hcons⟩ := Listing.neighbour_spec (d := d) hp
    · rw [hahead] at hnil
      exact absurd hnil (List.cons_ne_nil x rest)
    · rw [hahead] at hcons
      obtain ⟨rfl, rfl⟩ := List.cons.inj hcons
      rw [hi] at hc' ⊢
      obtain ⟨y, hy, -, rfl⟩ := hc'.current (hP .get trivial) hget
      exact ⟨rfl, hy, ih hc' (List.getElem?_eq_some_iff.1 hget).1 rfl⟩

/-- To begin, and then single steps, lists everything. -/
theorem Behaves.emits (h : Behaves ctx P Eq c (listed l p)) (hp : Listing.Sound l.length p) :
    Emits ctx d (begin ctx d) c (d.arrange l) := by
  have hrewind := h.rewind (hP (.rewind d) trivial) hp.isClosed
  have hahead : ∀ c', Behaves ctx P Eq c' (listed l (.start d)) →
      Emits ctx d (Cursor.advance ctx d) c' (d.arrange l) := by
    intro c' hc'
    rw [← Listing.upcoming_start]
    exact hc'.emits_upcoming hP (Listing.sound_start _ d)
  -- What is ensured of the move is said by cases on the list, in the same words here.
  cases hl : d.arrange l with
  | nil | cons =>
    rw [hl] at hahead
    exact Act.ensures_bind (hrewind.mono (fun _ c' hc' ↦ hahead c' hc') fun _ _ hfalse ↦ hfalse)

end Moves

theorem Behaves.lists (h : Behaves ctx (fun _ ↦ True) Eq c (ofList l)) : Lists ctx c l := by
  intro d c' hc'
  have hmoves : ∀ call : Call, call.IsMove → True := fun _ _ ↦ trivial
  obtain ⟨p, hp, hbehaves⟩ := h.reached (p := .unpositioned) hmoves trivial hc'
  refine ⟨hbehaves.emits hmoves hp, fun hedge ↦ ?_⟩
  rw [← hbehaves.upcoming_of_edge hedge]
  exact hbehaves.emits_upcoming hmoves hp

theorem lists_ofList (ctx : Context) (l : List Candidate) : Lists ctx (ofList l) l :=
  (behaves_listed ctx _ (p := .unpositioned) trivial).lists

/-! ## The cursor over an index -/

variable {x : ValueIndex} {a : Assertion} {q : Posting}

/-- To go through an index never fails on a posting, and keeps those under least keys as they
are. -/
theorem kept?_indexed (ctx : Context) (hx : x.hasReverse = true) (a : Assertion) (q : Posting) :
    ¬(Acceptance.indexed x.index a).Fails ctx q.candidate ∧
      (Acceptance.indexed x.index a).kept? ctx q.candidate =
        if x.isLeast a q then some q.candidate else none := by
  have haccept := (Operand.accept_indexed hx a q).and
    (((Acceptance.indexed x.index a).steady_accept ctx).ensures q.candidate)
  obtain ⟨accepted, _, ⟨rfl, rfl⟩, houtcome⟩ := (haccept.mono (fun _ _ hpost ↦ hpost)
    fun _ _ hpost ↦ hpost.1).exists
  constructor
  · rintro ⟨e, c', he⟩
    rw [houtcome] at he
    cases he
  · rw [Acceptance.kept?, houtcome]
    cases x.isLeast a q <;> rfl

/-- The candidates that are kept are those of the postings under least keys. -/
theorem filterMap_kept?_indexed (ctx : Context) (hx : x.hasReverse = true) (a : Assertion) :
    x.forward.filterMap ((Acceptance.indexed x.index a).kept? ctx) =
      (x.leastPostings a).map Posting.candidate := by
  rw [ValueIndex.forward, List.filterMap_map, ValueIndex.leastPostings, ← List.filterMap_eq_map,
    List.filterMap_filter]
  refine List.filterMap_congr fun q _ ↦ ?_
  rw [Function.comp_apply, (kept?_indexed ctx hx a q).2]
  rfl

/-- The cursor over an index that can be read in reverse is made without failure. -/
theorem outcome_ofIndex (hx : x.hasReverse = true) (a : Assertion) (t : Trace) :
    (ofIndex x.index a).outcome t =
      .ok (sieve (.fresh (.indexed x.index a) (ofList x.forward) [])) := by
  have hreverse : x.index.hasReverse = true := hx
  unfold ofIndex
  rw [hreverse]
  rfl

/-- The cursor over an index behaves as one over the postings under least keys. -/
theorem behaves_ofIndex (ctx : Context) (hx : x.hasReverse = true) (a : Assertion) :
    Behaves ctx (fun _ ↦ True) Eq (sieve (.fresh (.indexed x.index a) (ofList x.forward) []))
      (ofList ((x.leastPostings a).map Posting.candidate)) := by
  rw [← filterMap_kept?_indexed ctx hx a]
  refine (sieve_behaves (behaves_listed ctx _ trivial) ?_ ?_).2
  · intro c hc
    obtain ⟨q, -, rfl⟩ := List.mem_map.1 hc
    exact (kept?_indexed ctx hx a q).1
  · exact fun _ c hc ↦ absurd hc List.not_mem_nil

/-- **The cursor over an index lists each entry once, under its least key.**  The changes may be any
that an index with a reverse half can go through.  What is listed are the postings under the least
of the keys that satisfy the assertion, one for every entry that has such a key, in order; and the
cursor lists them, or in the backward direction their reverse, in every pass, whatever moves were
made before. -/
theorem ofIndex_lists_least (indexed : String) (changes : List ValueIndex.Change)
    (a : Assertion) : ∃ l : List Posting,
      (∀ p, p ∈ l ↔ ValueIndex.LeastUnder (ValueIndex.Recorded changes) a p) ∧
      (∀ i, i ∈ l.map Posting.id ↔
        ∃ p, ValueIndex.Recorded changes p ∧ p.id = i ∧ a.holds p.key = true) ∧
      (l.map Posting.id).Nodup ∧ l.Pairwise Posting.Before ∧
      ∃ c, (∀ t, (ofIndex (ValueIndex.changed indexed changes).index a).outcome t = .ok c) ∧
        ∀ ctx, Lists ctx c (l.map Posting.candidate) := by
  have hx := ValueIndex.hasReverse_changed indexed changes
  have hmem : ∀ p, p ∈ ValueIndex.changed indexed changes ↔ ValueIndex.Recorded changes p :=
    fun _ ↦ ValueIndex.mem_changed
  have hrecords : (· ∈ ValueIndex.changed indexed changes) = ValueIndex.Recorded changes :=
    funext fun p ↦ propext (hmem p)
  generalize ValueIndex.changed indexed changes = x at hx hmem hrecords
  refine ⟨x.leastPostings a, fun p ↦ ?_, fun i ↦ ?_, ValueIndex.nodup_least hx a,
    x.ordered_toList.filter _, _, outcome_ofIndex hx a, fun ctx ↦ (behaves_ofIndex ctx hx a).lists⟩
  · rw [ValueIndex.mem_leastPostings hx, hrecords]
  · simp only [← hmem]
    exact ValueIndex.mem_least hx

end Cursor
end DirectoryQuery
