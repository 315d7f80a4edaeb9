import DirectoryQuery.Cursor.Walker
import DirectoryQuery.Proofs.Outcome

/-!
# Traversals

A direction arranges the elements of a list (`Direction.arrange`), and from a position in the list
some of them are still to come (`Listing.upcoming`); a move goes to the first of those.

`Walker.Yields` describes the rest of a traversal by a list: moved again and again, the thing
stands on one candidate for each element of the list, in this order, and then finds no more.
`Walker.Ready` says that going to the edge starts such a traversal.  What follows of a traversal is
all about that list: to look for a candidate drops the elements before the first that is accepted
(`seek_spec`), and to collect reads the list off (`collect_spec`).

How a candidate matches its element of the list is left open.  The elements may be the candidates
themselves, or only identifiers.  Moves may fail with the failures that are allowed for, and after a
failure nothing more is said; with none allowed the traversal cannot fail.

Both conditions also say that the list is no longer than the walker's bound, since the walker looks
no further than that.
-/

set_option autoImplicit false

namespace DirectoryQuery
/-! ## Orders -/

/-- The elements in the order in which a traversal visits them. -/
def Direction.arrange {α : Type} : Direction → List α → List α
  | .forward, l => l
  | .backward, l => l.reverse

theorem Direction.arrange_perm {α : Type} (d : Direction) (l : List α) :
    (d.arrange l).Perm l := by
  cases d with
  | forward => exact List.Perm.refl l
  | backward => exact l.reverse_perm

theorem Direction.arrange_map {α β : Type} (d : Direction) (f : α → β) (l : List α) :
    d.arrange (l.map f) = (d.arrange l).map f := by
  cases d with
  | forward => rfl
  | backward => exact List.map_reverse.symm

theorem Direction.arrange_filter {α : Type} (d : Direction) (p : α → Bool) (l : List α) :
    d.arrange (l.filter p) = (d.arrange l).filter p := by
  cases d with
  | forward => rfl
  | backward => exact List.filter_reverse.symm

namespace Listing

variable {α : Type} {l : List α} {d : Direction} {p : Position Nat}

/-- The elements that are still to come in the direction. -/
def upcoming (l : List α) : Direction → Position Nat → List α
  | .forward, .unpositioned | .forward, .beforeFirst => l
  | .forward, .onElement i => l.drop (i + 1)
  | .backward, .unpositioned | .backward, .afterLast => l.reverse
  | .backward, .onElement i => (l.take i).reverse
  | _, _ => []

/-- The position is one that is possible among so many elements, and not closed. -/
def Sound (n : Nat) : Position Nat → Prop
  | .onElement i => i < n
  | .closed => False
  | _ => True

theorem Sound.isClosed {n : Nat} (hp : Sound n p) : p.isClosed = false := by
  cases p with
  | closed => exact hp.elim
  | _ => rfl

theorem sound_start (n : Nat) (d : Direction) : Sound n (.start d) := by
  cases d <;> exact trivial

theorem sound_finish (n : Nat) (d : Direction) : Sound n (.finish d) := by
  cases d <;> exact trivial

/-- At the edge everything is still to come. -/
theorem upcoming_start (l : List α) (d : Direction) : upcoming l d (.start d) = d.arrange l := by
  cases d <;> rfl

theorem length_upcoming_le (l : List α) (d : Direction) (p : Position Nat) :
    (upcoming l d p).length ≤ l.length := by
  cases d with
  | forward => cases p <;> simp [upcoming]
  | backward =>
    cases p with
    | onElement i =>
      show ((l.take i).reverse).length ≤ l.length
      rw [List.length_reverse, List.length_take]
      exact Nat.min_le_right i l.length
    | _ => simp [upcoming]

theorem upcoming_subset (l : List α) (d : Direction) (p : Position Nat) : upcoming l d p ⊆ l := by
  intro a ha
  cases d with
  | forward =>
    cases p with
    | unpositioned | beforeFirst => exact ha
    | onElement i => exact List.mem_of_mem_drop ha
    | afterLast | closed => exact absurd ha List.not_mem_nil
  | backward =>
    cases p with
    | unpositioned | afterLast => exact List.mem_reverse.1 ha
    | onElement i => exact List.mem_of_mem_take (List.mem_reverse.1 ha)
    | beforeFirst | closed => exact absurd ha List.not_mem_nil

/-- A move goes to the first element that is still to come. -/
theorem neighbour_spec (hp : Sound l.length p) :
    (neighbour l.length d p = none ∧ upcoming l d p = []) ∨
      ∃ i a, neighbour l.length d p = some i ∧ l[i]? = some a ∧
        upcoming l d p = a :: upcoming l d (.onElement i) := by
  have hfirst : l = [] ∨ ∃ a, 0 < l.length ∧ l[0]? = some a ∧ l = a :: l.drop 1 := by
    cases l with
    | nil => exact .inl rfl
    | cons a rest => exact .inr ⟨a, Nat.zero_lt_succ _, rfl, rfl⟩
  have hlast : ∀ i, i ≤ l.length → i = 0 ∨ ∃ a, 0 < i ∧ l[i - 1]? = some a ∧
      (l.take i).reverse = a :: (l.take (i - 1)).reverse := by
    intro i hi
    cases i with
    | zero => exact .inl rfl
    | succ i =>
      refine .inr ⟨l[i], Nat.zero_lt_succ _, List.getElem?_eq_getElem hi, ?_⟩
      rw [Nat.add_sub_cancel, List.take_succ_eq_append_getElem hi, List.reverse_concat]
  have hwhole := hlast l.length (Nat.le_refl _)
  rw [List.take_length] at hwhole
  cases d with
  | forward =>
    cases p with
    | closed => exact hp.elim
    | afterLast => exact .inl ⟨rfl, rfl⟩
    | unpositioned | beforeFirst =>
      obtain h | ⟨a, hlen, hget, hcons⟩ := hfirst
      · exact .inl ⟨by rw [h]; rfl, h⟩
      · exact .inr ⟨0, a, if_pos hlen, hget, hcons⟩
    | onElement i =>
      rcases Nat.lt_or_ge (i + 1) l.length with hi | hi
      · exact .inr ⟨i + 1, l[i + 1], if_pos hi, List.getElem?_eq_getElem hi,
          List.drop_eq_getElem_cons hi⟩
      · exact .inl ⟨if_neg (Nat.not_lt.2 hi), List.drop_eq_nil_of_le hi⟩
  | backward =>
    cases p with
    | closed => exact hp.elim
    | beforeFirst => exact .inl ⟨rfl, rfl⟩
    | unpositioned | afterLast =>
      obtain h | ⟨a, hlen, hget, hcons⟩ := hwhole
      · rw [List.length_eq_zero_iff] at h
        exact .inl ⟨by rw [h]; rfl, by rw [h]; rfl⟩
      · exact .inr ⟨l.length - 1, a, if_pos hlen, hget, hcons⟩
    | onElement i =>
      obtain rfl | ⟨a, hlen, hget, hcons⟩ := hlast i (Nat.le_of_lt hp)
      · exact .inl ⟨rfl, rfl⟩
      · exact .inr ⟨i - 1, a, if_pos hlen, hget, hcons⟩

end Listing

/-! ## What a traversal visits -/

/-- An identifier stands for every candidate of an allowed kind that has it. -/
def Stands (K : Candidate → Prop) (i : EntryId) (c : Candidate) : Prop := c.id = i ∧ K c

namespace Walker

variable {σ τ α β : Type} {w : Walker σ} {d : Direction} {E : SearchError → Prop}
  {R : α → Candidate → Prop} {l : List α} {s : σ}

/-- The rest of the traversal visits candidates that match the elements of the list, one by one. -/
def Yields (w : Walker σ) (d : Direction) (E : SearchError → Prop) (R : α → Candidate → Prop) :
    List α → σ → Prop
  | [], s => (w.advance d).Ensures s (fun found _ ↦ found = false) fun e _ ↦ E e
  | a :: rest, s => rest.length < w.extent s ∧ (w.advance d).Ensures s
      (fun found s' ↦ found = true ∧ (∃ c, w.current s' = .ok c ∧ R a c) ∧
        w.Yields d E R rest s')
      fun e _ ↦ E e

/-- From the edge, a traversal visits candidates that match the elements of the list, one by
one. -/
def Ready (w : Walker σ) (d : Direction) (E : SearchError → Prop) (R : α → Candidate → Prop)
    (l : List α) (s : σ) : Prop :=
  l.length ≤ w.extent s ∧ (w.rewind d).Ensures s (fun _ s' ↦ w.Yields d E R l s') fun e _ ↦ E e

theorem Yields.length_le (h : w.Yields d E R l s) : l.length ≤ w.extent s := by
  cases l with
  | nil => exact Nat.zero_le _
  | cons a rest => exact h.1

/-- The same traversal read as one over other elements. -/
theorem Yields.map {S : β → Candidate → Prop} {f : α → β} (h : w.Yields d E R l s)
    (hf : ∀ a ∈ l, ∀ c, R a c → S (f a) c) : w.Yields d E S (l.map f) s := by
  induction l generalizing s with
  | nil => exact h
  | cons a rest ih =>
    obtain ⟨hlen, hadv⟩ := h
    refine ⟨by rwa [List.length_map], hadv.imp ?_⟩
    intro found s' hpost
    obtain ⟨hfound, ⟨c, hc, hac⟩, hrest⟩ := hpost
    have hfc : S (f a) c := hf a List.mem_cons_self c hac
    exact ⟨hfound, ⟨c, hc, hfc⟩, ih hrest fun b hb ↦ hf b (List.mem_cons_of_mem a hb)⟩

theorem Ready.map {S : β → Candidate → Prop} {f : α → β} (h : w.Ready d E R l s)
    (hf : ∀ a ∈ l, ∀ c, R a c → S (f a) c) : w.Ready d E S (l.map f) s := by
  obtain ⟨hlen, hrew⟩ := h
  exact ⟨by rwa [List.length_map], hrew.imp fun _ _ hyields ↦ hyields.map hf⟩

/-- The same traversal read as one over what the elements come from. -/
theorem Yields.comap {f : β → α} {l : List β} (h : w.Yields d E R (l.map f) s) :
    w.Yields d E (fun b c ↦ R (f b) c) l s := by
  induction l generalizing s with
  | nil => exact h
  | cons b rest ih =>
    obtain ⟨hlen, hadv⟩ := h
    refine ⟨by rwa [List.length_map] at hlen, hadv.imp ?_⟩
    intro found s' hpost
    obtain ⟨hfound, hc, hrest⟩ := hpost
    exact ⟨hfound, hc, ih hrest⟩

theorem Ready.comap {f : β → α} {l : List β} (h : w.Ready d E R (l.map f) s) :
    w.Ready d E (fun b c ↦ R (f b) c) l s := by
  obtain ⟨hlen, hrew⟩ := h
  exact ⟨by rwa [List.length_map] at hlen, hrew.imp fun _ _ hyields ↦ hyields.comap⟩

/-! ## Looking for a candidate -/

/-- What looking for an element has come to, `p` telling which elements are accepted: either there
was none, or it is the first one, and what comes after it is still to be visited. -/
def Sought (w : Walker σ) (d : Direction) (E : SearchError → Prop) (R S : α → Candidate → Prop)
    (p : α → Bool) (l : List α) : Option Candidate → σ → Prop
  | none, _ => l.filter p = []
  | some c, s => ∃ a rest, l.filter p = a :: rest.filter p ∧ rest.length < l.length ∧ a ∈ l ∧
      rest ⊆ l ∧ S a c ∧ w.Yields d E R rest s

variable {S : α → Candidate → Prop} {p : α → Bool} {accept : Act Candidate Bool}

theorem Sought.cons_of_not {a : α} {found : Option Candidate} (ha : p a = false)
    (h : w.Sought d E R S p l found s) : w.Sought d E R S p (a :: l) found s := by
  have hfilter : (a :: l).filter p = l.filter p := List.filter_cons_of_neg (by rw [ha]; decide)
  cases found with
  | none => exact hfilter.trans h
  | some c =>
    obtain ⟨b, rest, hrest, hlen, hmem, hsub, hb, hyields⟩ := h
    exact ⟨b, rest, hfilter.trans hrest, Nat.lt_succ_of_lt hlen, List.mem_cons_of_mem a hmem,
      List.subset_cons_of_subset a hsub, hb, hyields⟩

/-- Within as many moves as there are elements, the first element is found that is accepted. -/
theorem seekWithin_spec
    (haccept : ∀ a ∈ l, ∀ c, R a c → accept.Ensures c
      (fun accepted c' ↦ accepted = p a ∧ (p a = true → S a c')) fun e _ ↦ E e)
    {moves : Nat} (hmoves : l.length < moves) (h : w.Yields d E R l s) :
    (w.seekWithin d accept moves).Ensures s (w.Sought d E R S p l) fun e _ ↦ E e := by
  induction l generalizing s moves with
  | nil =>
    obtain ⟨moves, rfl⟩ := Nat.exists_eq_succ_of_ne_zero (n := moves) (by omega)
    refine Act.ensures_bind (h.imp ?_)
    rintro _ s' rfl
    exact Act.ensures_pure rfl
  | cons a rest ih =>
    obtain ⟨moves, rfl⟩ := Nat.exists_eq_succ_of_ne_zero (n := moves) (by omega)
    refine Act.ensures_bind (h.2.imp ?_)
    intro _ s' hpost
    obtain ⟨rfl, ⟨c, hc, hac⟩, hrest⟩ := hpost
    refine Act.ensures_bind (Act.ensures_tally ?_)
    refine Act.ensures_bind (Act.ensures_get (Act.ensures_ok_bind hc ?_))
    refine Act.ensures_bind (Act.ensures_attempt (Act.ensures_on ?_))
    refine (haccept a List.mem_cons_self c hac).imp ?_
    intro _ c' hpost
    obtain ⟨rfl, hS⟩ := hpost
    cases hp : p a with
    | true =>
      refine Act.ensures_pure ⟨a, rest, List.filter_cons_of_pos hp, Nat.lt_succ_self _,
        List.mem_cons_self, List.subset_cons_self a rest, hS hp, hrest⟩
    | false =>
      have hlater := ih (fun b hb ↦ haccept b (List.mem_cons_of_mem a hb))
        (Nat.lt_of_succ_lt_succ hmoves) hrest
      exact hlater.imp fun _ _ hs ↦ hs.cons_of_not hp

/-- Looking for a candidate finds the first element that is accepted. -/
theorem seek_spec
    (haccept : ∀ a ∈ l, ∀ c, R a c → accept.Ensures c
      (fun accepted c' ↦ accepted = p a ∧ (p a = true → S a c')) fun e _ ↦ E e)
    (h : w.Yields d E R l s) :
    (w.seek d accept).Ensures s (w.Sought d E R S p l) fun e _ ↦ E e := by
  refine Act.ensures_bind (Act.ensures_get ?_)
  exact seekWithin_spec haccept (Nat.lt_succ_of_le h.length_le) h

/-! ## Collecting -/

/-- Within as many moves as there are elements, the identifiers are those of the elements. -/
theorem collectWithin_spec {ident : α → EntryId} (hident : ∀ a c, R a c → c.id = ident a)
    {moves : Nat} (hmoves : l.length < moves) (h : w.Yields d E R l s) :
    (w.collectWithin d moves).Ensures s (fun ids _ ↦ ids = l.map ident) fun e _ ↦ E e := by
  induction l generalizing s moves with
  | nil =>
    obtain ⟨moves, rfl⟩ := Nat.exists_eq_succ_of_ne_zero (n := moves) (by omega)
    refine Act.ensures_bind (h.imp ?_)
    rintro _ s' rfl
    exact Act.ensures_pure rfl
  | cons a rest ih =>
    obtain ⟨moves, rfl⟩ := Nat.exists_eq_succ_of_ne_zero (n := moves) (by omega)
    refine Act.ensures_bind (h.2.imp ?_)
    intro _ s' hpost
    obtain ⟨rfl, ⟨c, hc, hac⟩, hrest⟩ := hpost
    refine Act.ensures_bind (Act.ensures_get (Act.ensures_ok_bind hc ?_))
    refine Act.ensures_bind ((ih (Nat.lt_of_succ_lt_succ hmoves) hrest).imp ?_)
    rintro _ s'' rfl
    exact Act.ensures_pure (by rw [List.map_cons, hident a c hac])

/-- **Collecting reads the traversal off.** -/
theorem collect_spec {ident : α → EntryId} (hident : ∀ a c, R a c → c.id = ident a)
    (h : w.Ready d E R l s) :
    (w.collect d).Ensures s (fun ids _ ↦ ids = l.map ident) fun e _ ↦ E e := by
  refine Act.ensures_bind (h.2.imp ?_)
  intro _ s' hyields
  refine Act.ensures_bind (Act.ensures_get ?_)
  exact collectWithin_spec hident (Nat.lt_succ_of_le hyields.length_le) hyields

/-! ## Things within a type of things -/

/-- Things of one type are things of another, and are moved alike. -/
structure Embeds (f : σ → τ) (w : Walker σ) (w' : Walker τ) : Prop where
  rewind (d : Direction) (s : σ) : (w'.rewind d).perform (f s) = do
    let (outcome, s') ← (w.rewind d).perform s
    return (outcome, f s')
  advance (d : Direction) (s : σ) : (w'.advance d).perform (f s) = do
    let (outcome, s') ← (w.advance d).perform s
    return (outcome, f s')
  current (s : σ) : w'.current (f s) = w.current s
  extent (s : σ) : w.extent s ≤ w'.extent (f s)

theorem Embeds.ensures_rewind {f : σ → τ} {w' : Walker τ} (hf : Embeds f w w')
    {Q : Unit → τ → Prop} {F : SearchError → τ → Prop}
    (h : (w.rewind d).Ensures s (fun a s' ↦ Q a (f s')) fun e s' ↦ F e (f s')) :
    (w'.rewind d).Ensures (f s) Q F := by
  rw [Act.Ensures, hf.rewind]
  exact h

theorem Embeds.ensures_advance {f : σ → τ} {w' : Walker τ} (hf : Embeds f w w')
    {Q : Bool → τ → Prop} {F : SearchError → τ → Prop}
    (h : (w.advance d).Ensures s (fun found s' ↦ Q found (f s')) fun e s' ↦ F e (f s')) :
    (w'.advance d).Ensures (f s) Q F := by
  rw [Act.Ensures, hf.advance]
  exact h

theorem Embeds.yields {f : σ → τ} {w' : Walker τ} (hf : Embeds f w w')
    (h : w.Yields d E R l s) : w'.Yields d E R l (f s) := by
  induction l generalizing s with
  | nil => exact hf.ensures_advance h
  | cons a rest ih =>
    obtain ⟨hlen, hadv⟩ := h
    refine ⟨Nat.lt_of_lt_of_le hlen (hf.extent s), hf.ensures_advance (hadv.imp ?_)⟩
    intro found s' hpost
    obtain ⟨hfound, ⟨c, hc, hac⟩, hrest⟩ := hpost
    exact ⟨hfound, ⟨c, (hf.current s').trans hc, hac⟩, ih hrest⟩

theorem Embeds.ready {f : σ → τ} {w' : Walker τ} (hf : Embeds f w w')
    (h : w.Ready d E R l s) : w'.Ready d E R l (f s) := by
  obtain ⟨hlen, hrew⟩ := h
  refine ⟨Nat.le_trans hlen (hf.extent s), hf.ensures_rewind (hrew.imp ?_)⟩
  exact fun _ _ hyields ↦ hf.yields hyields

end Walker
end DirectoryQuery
