import Mathlib.Data.List.Shortlex
import DirectoryQuery.Proofs.Descendants

/-!
# The order of descendants

The walk down from a type looks at the children of one parent after another, and finds the children
of one parent in the order of their identifiers.  So types of one level that have the same superior
come in the order of their identifiers.  Types with different superiors do not: they come in the
order in which their superiors came.

The *lineage* of a type is the list of the identifiers on the way down to it (`Registry.Lineage`).
The walk finds the shorter lineages first, and those of one length as the words of a dictionary
(`Registry.Precedes`).  Two things are kept by every turn (`Registry.Ranked`): the queue is in this
order, and the superiors of the types in the queue, whose turns are over, come before all of them.

So the types of each level are in the order of their identifiers exactly if identifiers never
compare otherwise than those of the superiors (`Registry.descendants_precede`).
-/

set_option autoImplicit false

namespace DirectoryQuery

open Relation Std

/-! ## Dictionaries -/

/-- What words have in front decides first, their last letters decide next. -/
theorem shortlex_concat {α : Type} {lt : α → α → Prop} [Irrefl lt] {s s' : List α} {a a' : α} :
    (s ++ [a]).Shortlex lt (s' ++ [a']) ↔ s.Shortlex lt s' ∨ s = s' ∧ lt a a' := by
  have hlex : ∀ {s s' : List α}, s.length = s'.length →
      (List.Lex lt (s ++ [a]) (s' ++ [a']) ↔ List.Lex lt s s' ∨ s = s' ∧ lt a a') := by
    intro s
    induction s with
    | nil =>
      intro s' hlength
      obtain rfl := List.length_eq_zero_iff.1 hlength.symm
      simp
    | cons b s ih =>
      intro s' hlength
      obtain ⟨b', s', rfl⟩ := List.exists_cons_of_length_eq_add_one hlength.symm
      have hrest := ih (Nat.succ.inj hlength)
      simp only [List.cons_append, List.cons_lex_cons_iff, hrest, List.cons.injEq]
      tauto
  simp only [List.shortlex_def, List.length_append, List.length_singleton, Nat.add_lt_add_iff_right,
    Nat.add_right_cancel_iff]
  constructor
  · rintro (hlt | ⟨hlength, h⟩)
    · exact .inl (.inl hlt)
    · exact ((hlex hlength).1 h).imp_left fun h ↦ .inr ⟨hlength, h⟩
  · rintro ((hlt | ⟨hlength, h⟩) | ⟨rfl, h⟩)
    · exact .inl hlt
    · exact .inr ⟨hlength, (hlex hlength).2 (.inl h)⟩
    · exact .inr ⟨rfl, (hlex rfl).2 (.inr ⟨rfl, h⟩)⟩

namespace Registry

variable {r : Registry} {t u v p q : AttributeType} {oids oids' visited : List String}
  {queue found : List AttributeType}

/-! ## Lineages -/

/-- The identifiers of the types on the way down from a type, around no circle. -/
inductive Lineage (r : Registry) (t : AttributeType) : AttributeType → List String → Prop
  | self : Lineage r t t []
  | child {u p : AttributeType} {oids : List String} (hne : u ≠ t) (h : r.Inherits u p)
      (hp : Lineage r t p oids) : Lineage r t u (oids ++ [u.oid])

theorem Lineage.unique (h : r.Lineage t u oids) (h' : r.Lineage t u oids') : oids = oids' := by
  induction h generalizing oids' with
  | self =>
    cases h' with
    | self => rfl
    | child hne => exact absurd rfl hne
  | child hne hup _ ih =>
    cases h' with
    | self => exact absurd rfl hne
    | child _ hup' hp' =>
      obtain rfl := hup.unique hup'
      rw [ih hp']

theorem Lineage.reaches (h : r.Lineage t u oids) : ReflTransGen r.Inherits u t := by
  induction h with
  | self => exact .refl
  | child _ hup _ ih => exact ih.head hup

theorem Lineage.length_eq (h : r.Lineage t u oids) : oids.length = r.linksTo t u := by
  induction h with
  | self => exact (Nat.le_zero.1 (Nat.sInf_le (rfl : r.Leads 0 t t))).symm
  | child hne hup hp ih => rw [linksTo_child hup hp.reaches hne, ← ih, List.length_append]; rfl

theorem exists_lineage (h : ReflTransGen r.Inherits u t) : ∃ oids, r.Lineage t u oids := by
  induction h using ReflTransGen.head_induction_on with
  | refl => exact ⟨[], .self⟩
  | @head u p hup _ ih =>
    by_cases hne : u = t
    · exact ⟨[], hne ▸ .self⟩
    · obtain ⟨oids, hp⟩ := ih
      exact ⟨oids ++ [u.oid], .child hne hup hp⟩

/-- Another type below a type has a superior, which is the type or below it. -/
theorem exists_superior (h : ReflTransGen r.Inherits u t) (hne : u ≠ t) :
    ∃ p, r.Inherits u p ∧ ReflTransGen r.Inherits p t :=
  (ReflTransGen.cases_head h).resolve_left hne

theorem linksTo_eq_zero (h : ReflTransGen r.Inherits u t) : r.linksTo t u = 0 ↔ u = t := by
  refine ⟨fun hzero ↦ ?_, ?_⟩
  · have hleads := leads_linksTo h
    rwa [hzero] at hleads
  · rintro rfl
    exact Lineage.self.length_eq.symm

/-- Registered types with one lineage are the same. -/
theorem Lineage.eq (hr : r.Reachable) (hu : u ∈ r.typeList) (hv : v ∈ r.typeList)
    (h : r.Lineage t u oids) (h' : r.Lineage t v oids) : u = v := by
  cases h with
  | self =>
    generalize hnil : ([] : List String) = oids at h'
    cases h' with
    | self => rfl
    | child => simp at hnil
  | @child _ _ oids =>
    generalize hconcat : oids ++ [u.oid] = oids' at h'
    cases h' with
    | self => simp at hconcat
    | child =>
      have hlast := List.append_inj_right' hconcat rfl
      exact hr.eq_of_oid_eq hu hv (List.singleton_inj.1 hlast)

/-! ## The order of lineages -/

/-- Both types are below the type or the type itself, and the first one has the shorter lineage or
one of the same length that comes first in a dictionary. -/
def Precedes (r : Registry) (t u v : AttributeType) : Prop :=
  ∃ oids oids', r.Lineage t u oids ∧ r.Lineage t v oids' ∧ oids.Shortlex (· < ·) oids'

theorem Precedes.asymm (h : r.Precedes t u v) : ¬ r.Precedes t v u := by
  rintro ⟨oids', oids, hv', hu', hlt'⟩
  obtain ⟨_, _, hu, hv, hlt⟩ := h
  rw [hu.unique hu', hv.unique hv'] at hlt
  exact Asymm.asymm _ _ hlt hlt'

/-- No type comes before the one where the lineages begin. -/
theorem Precedes.ne (h : r.Precedes t p u) : u ≠ t := by
  rintro rfl
  obtain ⟨_, oids, -, hu, hlt⟩ := h
  rw [hu.unique .self] at hlt
  exact List.not_shortlex_nil_right hlt

theorem Precedes.reaches (h : r.Precedes t u v) :
    ReflTransGen r.Inherits u t ∧ ReflTransGen r.Inherits v t := by
  obtain ⟨_, _, hu, hv, -⟩ := h
  exact ⟨hu.reaches, hv.reaches⟩

/-- A type precedes those that have it as their superior. -/
theorem precedes_child (hp : ReflTransGen r.Inherits p t) (hne : u ≠ t) (hup : r.Inherits u p) :
    r.Precedes t p u := by
  obtain ⟨oids, hp⟩ := exists_lineage hp
  exact ⟨oids, _, hp, .child hne hup hp, .of_length_lt (by simp)⟩

/-- What precedes a type precedes those that have it as their superior. -/
theorem Precedes.child (h : r.Precedes t p q) (hne : u ≠ t) (huq : r.Inherits u q) :
    r.Precedes t p u := by
  obtain ⟨oids, oids', hp, hq, hlt⟩ := h
  exact ⟨oids, _, hp, .child hne huq hq, hlt.append_right _⟩

/-- **Types come in the order of their superiors; those with one superior, in the order of their
identifiers.** -/
theorem precedes_iff (hr : r.Reachable) (hu : u ∈ r.typeList) (hv : v ∈ r.typeList) (hne : u ≠ t)
    (hne' : v ≠ t) (hup : r.Inherits u p) (hvq : r.Inherits v q)
    (hp : ReflTransGen r.Inherits p t) (hq : ReflTransGen r.Inherits q t) :
    r.Precedes t u v ↔ r.Precedes t p q ∨ p = q ∧ u.oid < v.oid := by
  obtain ⟨oids, hp⟩ := exists_lineage hp
  obtain ⟨oids', hq⟩ := exists_lineage hq
  have hlistp : p ∈ r.typeList := mem_typeList_of_inherits (.single hup) hu
  have hlistq : q ∈ r.typeList := mem_typeList_of_inherits (.single hvq) hv
  have hsame : oids = oids' ↔ p = q :=
    ⟨fun h ↦ hp.eq hr hlistp hlistq (h ▸ hq), fun h ↦ hp.unique (h ▸ hq)⟩
  have hsuperiors : r.Precedes t p q ↔ oids.Shortlex (· < ·) oids' := by
    refine ⟨?_, fun hlt ↦ ⟨_, _, hp, hq, hlt⟩⟩
    rintro ⟨_, _, hp', hq', hlt⟩
    rwa [hp.unique hp', hq.unique hq']
  rw [hsuperiors, ← hsame, ← shortlex_concat]
  refine ⟨?_, fun hlt ↦ ⟨_, _, .child hne hup hp, .child hne' hvq hq, hlt⟩⟩
  rintro ⟨_, _, hu', hv', hlt⟩
  rwa [(hp.child hne hup).unique hu', (hq.child hne' hvq).unique hv']

/-! ## The walk down -/

theorem Reachable.ascending_typeList (hr : r.Reachable) :
    r.typeList.Pairwise fun u v ↦ u.oid < v.oid := by
  have hordered : r.types.toList.Pairwise fun a b ↦ compare a.1 b.1 = .lt :=
    ExtTreeMap.ordered_keys_toList
  rw [typeList, values_eq_map_toList, List.pairwise_map]
  refine hordered.imp_of_mem fun {a b} ha hb hlt ↦ ?_
  rw [hr.oid_eq (ExtTreeMap.mem_toList_iff_getElem?_eq_some.1 ha),
    hr.oid_eq (ExtTreeMap.mem_toList_iff_getElem?_eq_some.1 hb)]
  exact compareOfLessAndEq_eq_lt.1 hlt

/-- The queue is in order, and the superiors of the types in the queue come before all of them. -/
structure Ranked (r : Registry) (t : AttributeType) (queue : List AttributeType) : Prop where
  ascending : queue.Pairwise (r.Precedes t)
  led : ∀ u ∈ queue, u ≠ t → ∀ p, r.Inherits u p → ∀ v ∈ queue, r.Precedes t p v

section Walks

variable (hr : r.Reachable)

include hr

/-- The children that a turn adds have the parent as their superior, and the type where the walk
began is none of them. -/
theorem of_mem_children (hp : p ∈ r.typeList) (ht : t.oid ∈ visited)
    (hu : u ∈ r.children visited p.oid) : u ∈ r.typeList ∧ u ≠ t ∧ r.Inherits u p := by
  obtain ⟨hu, hnew, hup⟩ := (hr.mem_children hp).1 hu
  refine ⟨hu, ?_, hup⟩
  rintro rfl
  exact hnew ht

theorem Ranked.turn (h : r.Ranked t (p :: queue)) (hlist : p :: queue ⊆ r.typeList)
    (ht : t.oid ∈ visited) (hreaches : ReflTransGen r.Inherits p t) :
    r.Ranked t (queue ++ r.children visited p.oid) := by
  obtain ⟨hp, hlist⟩ := List.cons_subset.1 hlist
  obtain ⟨hhead, hqueue⟩ := List.pairwise_cons.1 h.ascending
  have hchild : ∀ u ∈ r.children visited p.oid, u ∈ r.typeList ∧ u ≠ t ∧ r.Inherits u p :=
    fun u hu ↦ of_mem_children hr hp ht hu
  constructor
  · refine List.pairwise_append.2 ⟨hqueue, ?_, ?_⟩
    · -- Children of one parent are in the order of their identifiers.
      refine (hr.ascending_typeList.filter _).imp_of_mem fun {u v} hu hv hlt ↦ ?_
      obtain ⟨hu, hne, hup⟩ := hchild u hu
      obtain ⟨hv, hne', hvp⟩ := hchild v hv
      exact (precedes_iff hr hu hv hne hne' hup hvp hreaches hreaches).2 (.inr ⟨rfl, hlt⟩)
    · -- The superior of a type in the queue had its turn before the parent.
      intro q hq u hu
      obtain ⟨hu, hne, hup⟩ := hchild u hu
      have hpq := hhead q hq
      obtain ⟨p', hqp', hp'⟩ := exists_superior hpq.reaches.2 hpq.ne
      have hlead := h.led q (List.mem_cons_of_mem _ hq) hpq.ne p' hqp' p List.mem_cons_self
      exact (precedes_iff hr (hlist hq) hu hpq.ne hne hqp' hup hp' hreaches).2 (.inl hlead)
  · intro u hu hne p' hup' v hv
    obtain hu | hu := List.mem_append.1 hu
    · have hlead := h.led u (List.mem_cons_of_mem _ hu) hne p' hup'
      obtain hv | hv := List.mem_append.1 hv
      · exact hlead v (List.mem_cons_of_mem _ hv)
      · obtain ⟨-, hne', hvp⟩ := hchild v hv
        exact (hlead p List.mem_cons_self).child hne' hvp
    · obtain ⟨-, -, hup⟩ := hchild u hu
      obtain rfl := hup'.unique hup
      obtain hv | hv := List.mem_append.1 hv
      · exact hhead v hv
      · obtain ⟨-, hne', hvp⟩ := hchild v hv
        exact precedes_child hreaches hne' hvp

/-- The queue and what is found are in order, and whatever precedes the queue precedes what is
found. -/
theorem Spreads.ascending (h : r.Spreads visited queue found) (hlist : queue ⊆ r.typeList)
    (ht : t.oid ∈ visited) (hreaches : ∀ p ∈ queue, ReflTransGen r.Inherits p t)
    (hranked : r.Ranked t queue) :
    (queue ++ found).Pairwise (r.Precedes t) ∧
      ∀ p, (∀ q ∈ queue, r.Precedes t p q) → ∀ u ∈ found, r.Precedes t p u := by
  induction h with
  | done => exact ⟨.nil, fun _ _ _ hu ↦ absurd hu List.not_mem_nil⟩
  | @turn visited parent queue rest _ ih =>
    obtain ⟨hparent, hqueue⟩ := List.cons_subset.1 hlist
    obtain ⟨hreaches', hreaches⟩ := List.forall_mem_cons.1 hreaches
    have hchild : ∀ u ∈ r.children visited parent.oid, u ≠ t ∧ r.Inherits u parent :=
      fun u hu ↦ (of_mem_children hr hparent ht hu).2
    obtain ⟨hascending, hbehind⟩ :=
      ih (List.append_subset.2 ⟨hqueue, r.children_subset visited parent.oid⟩)
        (List.mem_append_right _ ht)
        (List.forall_mem_append.2 ⟨hreaches, fun u hu ↦ hreaches'.head (hchild u hu).2⟩)
        (hranked.turn hr hlist ht hreaches')
    have hfirst : ∀ v ∈ queue ++ r.children visited parent.oid, r.Precedes t parent v :=
      List.forall_mem_append.2 ⟨(List.pairwise_cons.1 hranked.ascending).1,
        fun u hu ↦ precedes_child hreaches' (hchild u hu).1 (hchild u hu).2⟩
    constructor
    · rw [List.cons_append, ← List.append_assoc]
      exact .cons (List.forall_mem_append.2 ⟨hfirst, hbehind parent hfirst⟩) hascending
    · intro p hp
      have hnext : ∀ v ∈ queue ++ r.children visited parent.oid, r.Precedes t p v :=
        List.forall_mem_append.2 ⟨fun v hv ↦ hp v (List.mem_cons_of_mem _ hv), fun u hu ↦
          (hp parent List.mem_cons_self).child (hchild u hu).1 (hchild u hu).2⟩
      exact List.forall_mem_append.2
        ⟨fun u hu ↦ hnext u (List.mem_append_right _ hu), hbehind p hnext⟩

end Walks

/-! ## Levels -/

/-- **Descendants come in the order of their lineages.** -/
theorem precedes_descendants (hr : r.Reachable) (ht : t ∈ r.typeList) :
    (r.descendants t).Pairwise (r.Precedes t) := by
  have hreaches : ∀ p ∈ [t], ReflTransGen r.Inherits p t := fun p hp ↦ by
    rw [List.mem_singleton.1 hp]
  have hranked : r.Ranked t [t] :=
    ⟨List.pairwise_singleton _ _, fun u hu hne ↦ absurd (List.mem_singleton.1 hu) hne⟩
  have hwalk := (r.spreads_descendants t).ascending hr (List.cons_subset.2 ⟨ht, List.nil_subset _⟩)
    List.mem_cons_self hreaches hranked
  exact (List.pairwise_append.1 hwalk.1).2.1

/-- In a list that is in order, a relation holds from front to back exactly if it holds wherever the
order does. -/
theorem pairwise_iff_of_ordered {α : Type} {before rel : α → α → Prop} {l : List α}
    (hl : l.Pairwise before) (hasymm : ∀ a b, before a b → ¬ before b a) :
    l.Pairwise rel ↔ ∀ a ∈ l, ∀ b ∈ l, before a b → rel a b := by
  constructor
  · intro h
    have hboth : l.Pairwise fun a b ↦ (before a b → rel a b) ∧ (before b a → rel b a) :=
      (hl.and h).imp fun {a b} ⟨hab, hrel⟩ ↦ ⟨fun _ ↦ hrel, fun hba ↦ absurd hba (hasymm a b hab)⟩
    have : Symm fun a b ↦ (before a b → rel a b) ∧ (before b a → rel b a) := ⟨fun _ _ h ↦ h.symm⟩
    intro a ha b hb hab
    refine (hboth.forall_of_forall ?_ ha hb).1 hab
    exact fun c _ ↦ ⟨fun hc ↦ absurd hc (hasymm c c hc), fun hc ↦ absurd hc (hasymm c c hc)⟩
  · exact fun h ↦ hl.imp_of_mem fun {a b} ha hb hab ↦ h a ha b hb hab

/-- Of two elements of a list that is in order, one comes first. -/
theorem total_of_ordered {α : Type} {before : α → α → Prop} {l : List α} (hl : l.Pairwise before)
    {a b : α} (ha : a ∈ l) (hb : b ∈ l) (hne : a ≠ b) : before a b ∨ before b a := by
  have : Symm fun a b ↦ before a b ∨ before b a := ⟨fun _ _ h ↦ h.symm⟩
  exact (hl.imp Or.inl : l.Pairwise fun a b ↦ before a b ∨ before b a).forall ha hb hne

/-- Among the types of each level, identifiers compare as those of the superiors do. -/
def Aligned (r : Registry) (t : AttributeType) : Prop :=
  ∀ u ∈ r.descendants t, ∀ v ∈ r.descendants t, ∀ p ∈ r.descendants t, ∀ q ∈ r.descendants t,
    r.Inherits u p → r.Inherits v q → r.linksTo t p = r.linksTo t q → p.oid < q.oid →
      u.oid < v.oid

section Levels

variable (hr : r.Reachable) (ht : t ∈ r.typeList)

include hr ht

/-- A descendant has a superior, one level up. -/
theorem exists_superior_descendant (hu : u ∈ r.descendants t) : ∃ p, r.Inherits u p ∧
    ReflTransGen r.Inherits p t ∧ r.linksTo t u = r.linksTo t p + 1 := by
  obtain ⟨-, hne, hreaches⟩ := (mem_descendants hr ht).1 hu
  obtain ⟨p, hup, hp⟩ := exists_superior hreaches hne
  exact ⟨p, hup, hp, linksTo_child hup hp hne⟩

theorem superior_mem_descendants (hu : u ∈ r.descendants t) (hup : r.Inherits u p)
    (hp : ReflTransGen r.Inherits p t) (hne : p ≠ t) : p ∈ r.descendants t :=
  (mem_descendants hr ht).2
    ⟨mem_typeList_of_inherits (.single hup) ((mem_descendants hr ht).1 hu).1, hne, hp⟩

theorem precedes_descendant_iff (hu : u ∈ r.descendants t) (hv : v ∈ r.descendants t)
    (hup : r.Inherits u p) (hvq : r.Inherits v q) (hp : ReflTransGen r.Inherits p t)
    (hq : ReflTransGen r.Inherits q t) :
    r.Precedes t u v ↔ r.Precedes t p q ∨ p = q ∧ u.oid < v.oid := by
  obtain ⟨hu, hne, -⟩ := (mem_descendants hr ht).1 hu
  obtain ⟨hv, hne', -⟩ := (mem_descendants hr ht).1 hv
  exact precedes_iff hr hu hv hne hne' hup hvq hp hq

/-- From level to level, what precedes has the lesser identifier. -/
theorem Aligned.oid_lt (h : r.Aligned t) {n : Nat} (hu : u ∈ r.descendants t)
    (hv : v ∈ r.descendants t) (hlinks : r.linksTo t u = n) (hlinks' : r.linksTo t v = n)
    (huv : r.Precedes t u v) : u.oid < v.oid := by
  induction n generalizing u v with
  | zero =>
    obtain ⟨p, -, -, hp⟩ := exists_superior_descendant hr ht hu
    omega
  | succ n ih =>
    obtain ⟨p, hup, hp, hlinksp⟩ := exists_superior_descendant hr ht hu
    obtain ⟨q, hvq, hq, hlinksq⟩ := exists_superior_descendant hr ht hv
    obtain hpq | ⟨-, hlt⟩ := (precedes_descendant_iff hr ht hu hv hup hvq hp hq).1 huv
    · have hlevel : r.linksTo t p = r.linksTo t q := by omega
      have hne : p ≠ t := by
        rw [ne_eq, ← linksTo_eq_zero hp, hlevel, linksTo_eq_zero hq]
        exact hpq.ne
      have hp' := superior_mem_descendants hr ht hu hup hp hne
      have hq' := superior_mem_descendants hr ht hv hvq hq hpq.ne
      exact h u hu v hv p hp' q hq' hup hvq hlevel (ih hp' hq' (by omega) (by omega) hpq)
    · exact hlt

/-- **The types of each level are in the order of their identifiers exactly if identifiers compare
as those of the superiors do.** -/
theorem ascending_levels_iff :
    ((r.descendants t).Pairwise fun u v ↦ r.linksTo t u = r.linksTo t v → u.oid < v.oid) ↔
      r.Aligned t := by
  have hordered := precedes_descendants hr ht
  rw [pairwise_iff_of_ordered hordered fun _ _ h ↦ h.asymm]
  refine ⟨fun h u hu v hv p hp q hq hup hvq hlevel hlt ↦ ?_,
    fun h u hu v hv huv hlevel ↦ h.oid_lt hr ht hu hv hlevel rfl huv⟩
  obtain ⟨-, hne, hreaches⟩ := (mem_descendants hr ht).1 hp
  obtain ⟨-, hne', hreaches'⟩ := (mem_descendants hr ht).1 hq
  have hpq : r.Precedes t p q := by
    have hdiffer : p ≠ q := fun heq ↦ absurd (heq ▸ hlt) (String.lt_irrefl _)
    refine (total_of_ordered hordered hp hq hdiffer).resolve_right fun hqp ↦ ?_
    exact String.lt_asymm hlt (h q hq p hp hqp hlevel.symm)
  refine h u hu v hv
    ((precedes_descendant_iff hr ht hu hv hup hvq hreaches hreaches').2 (.inl hpq)) ?_
  obtain ⟨-, hneu, -⟩ := (mem_descendants hr ht).1 hu
  obtain ⟨-, hnev, -⟩ := (mem_descendants hr ht).1 hv
  rw [linksTo_child hup hreaches hneu, linksTo_child hvq hreaches' hnev, hlevel]

/-- **In what order the descendants of a type are found.**  Each has a lineage, which is as long as
there are links.  They come by the length of their lineages, and those of one length as the words of
a dictionary.  So the types of each level are in the order of their identifiers exactly if
identifiers compare as those of the superiors do; children of different parents may break it. -/
theorem descendants_precede :
    (∀ u ∈ r.descendants t, ∃ oids, r.Lineage t u oids ∧ oids.length = r.linksTo t u) ∧
      (r.descendants t).Pairwise (r.Precedes t) ∧
      (((r.descendants t).Pairwise fun u v ↦ r.linksTo t u = r.linksTo t v → u.oid < v.oid) ↔
        r.Aligned t) := by
  refine ⟨fun u hu ↦ ?_, precedes_descendants hr ht, ascending_levels_iff hr ht⟩
  obtain ⟨oids, hoids⟩ := exists_lineage ((mem_descendants hr ht).1 hu).2.2
  exact ⟨oids, hoids, hoids.length_eq⟩

end Levels

end Registry

/-! ## Cousins -/

namespace AttributeType

/-- Names of persons. -/
def personName : AttributeType :=
  ⟨"4.1", ["personName"], some "name", none, none, none, none, none⟩

/-- Names of places. -/
def placeName : AttributeType :=
  ⟨"4.2", ["placeName"], some "name", none, none, none, none, none⟩

/-- Nicknames, which are names of persons. -/
def nickName : AttributeType :=
  ⟨"5.2", ["nickName"], some "personName", none, none, none, none, none⟩

/-- Names of streets, which are names of places. -/
def streetName : AttributeType :=
  ⟨"5.1", ["streetName"], some "placeName", none, none, none, none, none⟩

end AttributeType

namespace Registry

/-- A schema of names of persons and of places, with one kind of each. -/
def cousins : Registry :=
  (ofDefinition { SchemaDefinition.names with
    types := [.fullName, .personName, .placeName, .nickName, .streetName] }).toOption.getD .empty

theorem reachable_cousins : cousins.Reachable := reachable_getD _

theorem descendants_cousins : cousins.descendants .fullName =
    [.personName, .placeName, .nickName, .streetName] := by
  decide +kernel

theorem inherits_cousins : cousins.Inherits .personName .fullName ∧
    cousins.Inherits .placeName .fullName ∧ cousins.Inherits .nickName .personName ∧
    cousins.Inherits .streetName .placeName :=
  ⟨⟨"name", rfl, by decide +kernel⟩, ⟨"name", rfl, by decide +kernel⟩,
    ⟨"personName", rfl, by decide +kernel⟩, ⟨"placeName", rfl, by decide +kernel⟩⟩

theorem linksTo_cousins : cousins.linksTo .fullName .personName = 1 ∧
    cousins.linksTo .fullName .placeName = 1 := by
  obtain ⟨hperson, hplace, -, -⟩ := inherits_cousins
  rw [linksTo_child hperson .refl (by decide), linksTo_child hplace .refl (by decide),
    (linksTo_eq_zero .refl).2 rfl]
  exact ⟨rfl, rfl⟩

/-- The lineage of nicknames leads through the names of persons, whose identifier is lesser than
that of the names of places.  So nicknames come before names of streets, and the identifiers of
these two compare the other way. -/
theorem descendants_precede_cousins :
    cousins.Reachable ∧ .fullName ∈ cousins.typeList ∧
      cousins.Precedes .fullName .nickName .streetName ∧ ¬ cousins.Aligned .fullName ∧
      ¬ (cousins.descendants .fullName).Pairwise fun u v ↦
        cousins.linksTo .fullName u = cousins.linksTo .fullName v → u.oid < v.oid := by
  have hname : .fullName ∈ cousins.typeList := by decide +kernel
  obtain ⟨-, hordered, hiff⟩ := descendants_precede reachable_cousins hname
  obtain ⟨-, -, hnick, hstreet⟩ := inherits_cousins
  have hlevel : cousins.linksTo .fullName .personName = cousins.linksTo .fullName .placeName :=
    linksTo_cousins.1.trans linksTo_cousins.2.symm
  have hcrossed : ¬ cousins.Aligned .fullName := by
    intro h
    have hlt := h .nickName (by simp [descendants_cousins]) .streetName
      (by simp [descendants_cousins]) .personName (by simp [descendants_cousins]) .placeName
      (by simp [descendants_cousins]) hnick hstreet hlevel (by decide)
    exact absurd hlt (by decide)
  refine ⟨reachable_cousins, hname, ?_, hcrossed, fun h ↦ hcrossed (hiff.1 h)⟩
  rw [descendants_cousins] at hordered
  simp only [List.pairwise_cons, List.forall_mem_cons] at hordered
  exact hordered.2.2.1.1

/-- **Descendants of one level do not always come in the order of their identifiers.**  Nicknames
and names of streets are both two links below names, in a schema that passes the check.  Nicknames
come first, and have the greater identifier. -/
theorem descendants_not_ascending :
    cousins.Reachable ∧ cousins.validate = .ok () ∧ .fullName ∈ cousins.typeList ∧
      (cousins.descendants .fullName).map AttributeType.oid = ["4.1", "4.2", "5.2", "5.1"] ∧
      cousins.linksTo .fullName .nickName = 2 ∧ cousins.linksTo .fullName .streetName = 2 ∧
      ¬ (cousins.descendants .fullName).Pairwise fun u v ↦
        cousins.linksTo .fullName u = cousins.linksTo .fullName v → u.oid < v.oid := by
  obtain ⟨hperson, hplace, hnick, hstreet⟩ := inherits_cousins
  have hlinks : cousins.linksTo .fullName .nickName = 2 := by
    rw [linksTo_child hnick (.single hperson) (by decide), linksTo_cousins.1]
  have hlinks' : cousins.linksTo .fullName .streetName = 2 := by
    rw [linksTo_child hstreet (.single hplace) (by decide), linksTo_cousins.2]
  refine ⟨reachable_cousins, by decide +kernel, by decide +kernel,
    by rw [descendants_cousins]; rfl, hlinks, hlinks', fun h ↦ ?_⟩
  rw [descendants_cousins] at h
  simp only [List.pairwise_cons, List.forall_mem_cons] at h
  have hlt := h.2.2.1.1 (hlinks.trans hlinks'.symm)
  exact absurd hlt (by decide)

end Registry
end DirectoryQuery
