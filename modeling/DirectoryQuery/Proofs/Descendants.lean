import Mathlib.Order.Lattice.Nat
import DirectoryQuery.Proofs.References

/-!
# What is below a type

The walk down from a type takes one parent after another from a queue, and puts the types that name
this parent as their superior, and have not been seen, into the queue again.  `Registry.Spreads` is
the walk without a bound on its turns; it comes to an end (`Registry.spreads_descendants`), even
where superiors lead around in a circle.

What is found is new and is below a type of the queue.  Two things are kept by every turn.  No child
of a seen type is passed over (`Registry.Attends`), so that nothing is missing when the queue is
empty.  And along the queue the distance to the type where the walk began never goes down, and goes
up by one at the most (`Registry.Levelled`), because no type has two superiors.  So in the end the
walk has found everything below the type, once each, by distance
(`Registry.descendants_lists_inheritors`).

In a registry that was checked the same is told by the chains of superiors, which then have no
circles (`Registry.not_mem_above`).
-/

set_option autoImplicit false

namespace DirectoryQuery

open Relation Std

namespace Registry

variable {r : Registry} {t u v p : AttributeType} {origin origin' : String} {links links' n : Nat}
  {chain chain' above : List AttributeType} {visited : List String}
  {queue found : List AttributeType}

/-! ## Links -/

/-- A superior may be named by its identifier or by any of its names, in whatever case. -/
theorem Reachable.inherits_iff (hr : r.Reachable) : r.Inherits t u ↔
    u ∈ r.typeList ∧ ∃ superior, t.superior = some superior ∧ u.Carries superior := by
  simp only [Inherits, hr.sound.resolve_iff]
  rw [← exists_and_left]
  exact exists_congr fun _ ↦ and_left_comm

/-- So many links lead from the one type up to the other. -/
def Leads (r : Registry) : Nat → AttributeType → AttributeType → Prop
  | 0, u, t => u = t
  | n + 1, u, t => ∃ v, r.Inherits u v ∧ r.Leads n v t

/-- The number of links from a type up to the other, around no circle. -/
noncomputable def linksTo (r : Registry) (t u : AttributeType) : Nat := sInf {n | r.Leads n u t}

theorem exists_leads (h : ReflTransGen r.Inherits u t) : ∃ n, r.Leads n u t := by
  induction h using ReflTransGen.head_induction_on with
  | refl => exact ⟨0, rfl⟩
  | head hfirst _ ih =>
    obtain ⟨n, hn⟩ := ih
    exact ⟨n + 1, _, hfirst, hn⟩

theorem leads_linksTo (h : ReflTransGen r.Inherits u t) : r.Leads (r.linksTo t u) u t :=
  Nat.sInf_mem (exists_leads h)

/-- A type is one link further away than its superior, which is the only one it has. -/
theorem linksTo_child (h : r.Inherits u p) (hp : ReflTransGen r.Inherits p t) (hne : u ≠ t) :
    r.linksTo t u = r.linksTo t p + 1 := by
  refine Nat.le_antisymm (Nat.sInf_le ⟨p, h, leads_linksTo hp⟩) ?_
  have hleads := leads_linksTo (hp.head h)
  cases hlinks : r.linksTo t u with
  | zero =>
    rw [hlinks] at hleads
    exact absurd hleads hne
  | succ n =>
    rw [hlinks] at hleads
    obtain ⟨p', hp', hn⟩ := hleads
    obtain rfl := h.unique hp'
    exact Nat.succ_le_succ (Nat.sInf_le hn)

/-! ## Identifiers -/

/-- A registered type is kept under its identifier. -/
theorem Reachable.getElem?_oid (hr : r.Reachable) (ht : t ∈ r.typeList) :
    r.types[t.oid]? = some t := by
  obtain ⟨oid, ht⟩ := mem_typeList.1 ht
  rwa [hr.oid_eq ht]

/-- Registered types with one identifier are the same. -/
theorem Reachable.eq_of_oid_eq (hr : r.Reachable) (ht : t ∈ r.typeList) (hu : u ∈ r.typeList)
    (h : t.oid = u.oid) : t = u := by
  have hget := hr.getElem?_oid ht
  rw [h, hr.getElem?_oid hu] at hget
  exact (Option.some.inj hget).symm

theorem Reachable.nodup_oids (hr : r.Reachable) : (r.typeList.map AttributeType.oid).Nodup :=
  nodup_map_values fun _ _ ↦ hr.oid_eq

/-- The identifier of the superior is that of the type above. -/
theorem Reachable.superiorOid?_eq_some (hr : r.Reachable) (hp : p ∈ r.typeList) :
    r.superiorOid? u = some p.oid ↔ r.Inherits u p := by
  rw [superiorOid?, Option.bind_eq_some_iff]
  refine exists_congr fun superior ↦ and_congr_right fun _ ↦ ?_
  rw [resolve_eq_ok, find?, Option.bind_eq_some_iff]
  constructor
  · exact fun hspelling ↦ ⟨p.oid, hspelling, hr.getElem?_oid hp⟩
  · rintro ⟨oid, hspelling, hget⟩
    rwa [hr.oid_eq hget]

theorem Reachable.mem_children (hr : r.Reachable) (hp : p ∈ r.typeList) :
    u ∈ r.children visited p.oid ↔ u ∈ r.typeList ∧ u.oid ∉ visited ∧ r.Inherits u p := by
  rw [children, List.mem_filter, Bool.and_eq_true, beq_iff_eq, hr.superiorOid?_eq_some hp]
  simp

theorem children_subset (r : Registry) (visited : List String) (oid : String) :
    r.children visited oid ⊆ r.typeList :=
  List.filter_sublist.subset

/-! ## The walk down -/

/-- The walk down from the types in the queue, turn after turn until none is left, finds these
types.  The queue has types where `spread` has their identifiers. -/
inductive Spreads (r : Registry) :
    List String → List AttributeType → List AttributeType → Prop
  | done (visited : List String) : Spreads r visited [] []
  | turn {visited : List String} {parent : AttributeType} {queue rest : List AttributeType}
      (h : Spreads r ((r.children visited parent.oid).map AttributeType.oid ++ visited)
        (queue ++ r.children visited parent.oid) rest) :
      Spreads r visited (parent :: queue) (r.children visited parent.oid ++ rest)

/-- With one turn for each type in the queue and each type not visited, the walk comes to an end. -/
theorem spreads_spread {turns : Nat} (h : queue.length + (r.unvisited visited).length ≤ turns) :
    r.Spreads visited queue (r.spread turns visited (queue.map AttributeType.oid)) := by
  induction turns generalizing visited queue with
  | zero =>
    obtain rfl := List.length_eq_zero_iff.1 (by omega : queue.length = 0)
    exact .done visited
  | succ turns ih =>
    cases queue with
    | nil => exact .done visited
    | cons parent queue =>
      have hfewer := r.length_unvisited_children visited parent.oid
      rw [List.map_cons, spread, ← List.map_append]
      refine .turn (ih ?_)
      rw [List.length_append]
      simp only [List.length_cons] at h hfewer
      omega

/-- **The walk down from a type comes to an end, circles or not.** -/
theorem spreads_descendants (r : Registry) (t : AttributeType) :
    r.Spreads [t.oid] [t] (r.descendants t) := by
  have hsublist : (r.unvisited [t.oid]).length ≤ r.typeList.length := List.length_filter_le ..
  have hturns : [t].length + (r.unvisited [t.oid]).length ≤ r.typeCount + 1 := by
    rw [length_typeList] at hsublist
    rw [List.length_singleton]
    omega
  exact spreads_spread hturns

/-! ### What a turn keeps -/

/-- No child of a seen type is passed over: it has been seen itself, or its parent is in the queue
yet. -/
def Attends (r : Registry) (visited : List String) (queue : List AttributeType) : Prop :=
  ∀ u ∈ r.typeList, ∀ p, r.Inherits u p → p.oid ∈ visited → p ∈ queue ∨ u.oid ∈ visited

/-- Along the list the distance to the type never goes down, and it goes up by one at the most. -/
def Levelled (r : Registry) (t : AttributeType) (queue : List AttributeType) : Prop :=
  queue.Pairwise fun p q ↦
    r.linksTo t p ≤ r.linksTo t q ∧ r.linksTo t q ≤ r.linksTo t p + 1

section Walks

variable (hr : r.Reachable)

include hr

theorem Attends.turn (h : r.Attends visited (p :: queue)) (hp : p ∈ r.typeList) :
    r.Attends ((r.children visited p.oid).map AttributeType.oid ++ visited)
      (queue ++ r.children visited p.oid) := by
  intro u hu v huv hv
  obtain hv | hv := List.mem_append.1 hv
  · -- The parent is one of the children that were found in this turn.
    obtain ⟨v', hv', hoid⟩ := List.mem_map.1 hv
    have hlist : v ∈ r.typeList := mem_typeList_of_inherits (.single huv) hu
    obtain rfl := hr.eq_of_oid_eq (r.children_subset visited p.oid hv') hlist hoid
    exact .inl (List.mem_append_right _ hv')
  · obtain hv | hseen := h u hu v huv hv
    · obtain rfl | hv := List.mem_cons.1 hv
      · by_cases hseen : u.oid ∈ visited
        · exact .inr (List.mem_append_right _ hseen)
        · have hmem := (hr.mem_children hp).2 ⟨hu, hseen, huv⟩
          exact .inr (List.mem_append_left _ (List.mem_map_of_mem hmem))
      · exact .inl (List.mem_append_left _ hv)
    · exact .inr (List.mem_append_right _ hseen)

/-- Children come one level below their parent. -/
theorem linksTo_of_mem_children (hp : p ∈ r.typeList) (ht : t.oid ∈ visited)
    (hreaches : ReflTransGen r.Inherits p t) (hu : u ∈ r.children visited p.oid) :
    r.linksTo t u = r.linksTo t p + 1 := by
  obtain ⟨-, hnew, hinherits⟩ := (hr.mem_children hp).1 hu
  refine linksTo_child hinherits hreaches ?_
  rintro rfl
  exact hnew ht

theorem Levelled.turn (h : r.Levelled t (p :: queue)) (hp : p ∈ r.typeList)
    (ht : t.oid ∈ visited) (hreaches : ReflTransGen r.Inherits p t) :
    r.Levelled t (queue ++ r.children visited p.oid) := by
  obtain ⟨hhead, hqueue⟩ := List.pairwise_cons.1 h
  refine List.pairwise_append.2 ⟨hqueue, List.pairwise_of_forall_mem_list ?_, ?_⟩
  · intro u hu v hv
    rw [linksTo_of_mem_children hr hp ht hreaches hu, linksTo_of_mem_children hr hp ht hreaches hv]
    exact ⟨Nat.le_refl _, Nat.le_succ _⟩
  · -- The queue may have come to the level of the children already.
    intro q hq u hu
    rw [linksTo_of_mem_children hr hp ht hreaches hu]
    exact ⟨(hhead q hq).2, Nat.succ_le_succ (hhead q hq).1⟩

/-! ### What the walk keeps -/

/-- What is found is below the queue. -/
theorem Spreads.reaches (h : r.Spreads visited queue found) (hqueue : queue ⊆ r.typeList) :
    ∀ u ∈ found, u ∈ r.typeList ∧ ∃ p ∈ queue, ReflTransGen r.Inherits u p := by
  induction h with
  | done => exact fun _ hu ↦ absurd hu List.not_mem_nil
  | @turn visited parent queue rest _ ih =>
    obtain ⟨hparent, hqueue⟩ := List.cons_subset.1 hqueue
    have hchildren := r.children_subset visited parent.oid
    have hinherits : ∀ u ∈ r.children visited parent.oid, r.Inherits u parent :=
      fun u hu ↦ ((hr.mem_children hparent).1 hu).2.2
    refine List.forall_mem_append.2 ⟨fun u hu ↦ ?_, fun u hu ↦ ?_⟩
    · exact ⟨hchildren hu, parent, List.mem_cons_self, .single (hinherits u hu)⟩
    · obtain ⟨hlist, p, hp, hup⟩ := ih (List.append_subset.2 ⟨hqueue, hchildren⟩) u hu
      refine ⟨hlist, ?_⟩
      obtain hp | hp := List.mem_append.1 hp
      · exact ⟨p, List.mem_cons_of_mem _ hp, hup⟩
      · exact ⟨parent, List.mem_cons_self, hup.tail (hinherits p hp)⟩

/-- What is found is new, and found once. -/
theorem Spreads.nodup (h : r.Spreads visited queue found) (hqueue : queue ⊆ r.typeList) :
    (found.map AttributeType.oid).Nodup ∧ ∀ u ∈ found, u.oid ∉ visited := by
  induction h with
  | done => exact ⟨List.nodup_nil, fun _ hu ↦ absurd hu List.not_mem_nil⟩
  | @turn visited parent queue rest _ ih =>
    obtain ⟨hparent, hqueue⟩ := List.cons_subset.1 hqueue
    have hchildren := r.children_subset visited parent.oid
    obtain ⟨hnodup, hnew⟩ := ih (List.append_subset.2 ⟨hqueue, hchildren⟩)
    have hfound : ((r.children visited parent.oid).map AttributeType.oid).Nodup :=
      hr.nodup_oids.sublist (List.filter_sublist.map _)
    have hfree : ∀ u ∈ r.children visited parent.oid, u.oid ∉ visited :=
      fun u hu ↦ ((hr.mem_children hparent).1 hu).2.1
    constructor
    · rw [List.map_append, List.nodup_append']
      refine ⟨hfound, hnodup, fun oid hoid hoid' ↦ ?_⟩
      obtain ⟨u, hu, rfl⟩ := List.mem_map.1 hoid'
      exact hnew u hu (List.mem_append_left _ hoid)
    · refine List.forall_mem_append.2 ⟨hfree, fun u hu hmem ↦ ?_⟩
      exact hnew u hu (List.mem_append_right _ hmem)

/-- In the end no child of a seen type was passed over. -/
theorem Spreads.attends (h : r.Spreads visited queue found) (hqueue : queue ⊆ r.typeList)
    (hattends : r.Attends visited queue) :
    r.Attends (found.map AttributeType.oid ++ visited) [] := by
  induction h with
  | done => exact hattends
  | @turn visited parent queue rest _ ih =>
    obtain ⟨hparent, hqueue⟩ := List.cons_subset.1 hqueue
    have hrest := ih (List.append_subset.2 ⟨hqueue, r.children_subset visited parent.oid⟩)
      (hattends.turn hr hparent)
    have hseen : ∀ oid, oid ∈ (r.children visited parent.oid ++ rest).map AttributeType.oid ++
        visited ↔ oid ∈ rest.map AttributeType.oid ++
          ((r.children visited parent.oid).map AttributeType.oid ++ visited) := fun oid ↦ by
      simp only [List.map_append, List.mem_append]
      tauto
    simpa only [Attends, hseen] using hrest

/-- What is found comes by distance, and further away than the nearest type of the queue. -/
theorem Spreads.ordered (h : r.Spreads visited queue found) (hqueue : queue ⊆ r.typeList)
    (ht : t.oid ∈ visited) (hreaches : ∀ p ∈ queue, ReflTransGen r.Inherits p t)
    (hlevelled : r.Levelled t queue) :
    (found.Pairwise fun u v ↦ r.linksTo t u ≤ r.linksTo t v) ∧
      ∀ n, (∀ p ∈ queue, n ≤ r.linksTo t p) → ∀ u ∈ found, n < r.linksTo t u := by
  induction h with
  | done => exact ⟨.nil, fun _ _ _ hu ↦ absurd hu List.not_mem_nil⟩
  | @turn visited parent queue rest _ ih =>
    obtain ⟨hparent, hqueue⟩ := List.cons_subset.1 hqueue
    obtain ⟨hparent', hreaches⟩ := List.forall_mem_cons.1 hreaches
    have hlinks : ∀ u ∈ r.children visited parent.oid, r.linksTo t u = r.linksTo t parent + 1 :=
      fun u hu ↦ linksTo_of_mem_children hr hparent ht hparent' hu
    have hchildren : ∀ u ∈ r.children visited parent.oid, ReflTransGen r.Inherits u t :=
      fun u hu ↦ hparent'.head ((hr.mem_children hparent).1 hu).2.2
    obtain ⟨hrest, hbeyond⟩ :=
      ih (List.append_subset.2 ⟨hqueue, r.children_subset visited parent.oid⟩)
        (List.mem_append_right _ ht) (List.forall_mem_append.2 ⟨hreaches, hchildren⟩)
        (hlevelled.turn hr hparent ht hparent')
    have hfurther : ∀ u ∈ rest, r.linksTo t parent < r.linksTo t u := by
      refine hbeyond _ (List.forall_mem_append.2 ⟨fun p hp ↦ ?_, fun u hu ↦ ?_⟩)
      · exact ((List.pairwise_cons.1 hlevelled).1 p hp).1
      · rw [hlinks u hu]
        exact Nat.le_succ _
    constructor
    · refine List.pairwise_append.2 ⟨List.pairwise_of_forall_mem_list ?_, hrest, ?_⟩
      · intro u hu v hv
        rw [hlinks u hu, hlinks v hv]
      · intro u hu v hv
        rw [hlinks u hu]
        exact hfurther v hv
    · intro n hn
      have hle : n ≤ r.linksTo t parent := hn parent List.mem_cons_self
      refine List.forall_mem_append.2 ⟨fun u hu ↦ ?_, fun u hu ↦ ?_⟩
      · rw [hlinks u hu]
        exact Nat.lt_succ_of_le hle
      · exact Nat.lt_of_le_of_lt hle (hfurther u hu)

end Walks

/-! ## Chains without circles -/

/-- A type has one chain, if it has any, however many links are allowed. -/
theorem climb_unique (h : r.climb origin links t = .ok chain)
    (h' : r.climb origin' links' t = .ok chain') : chain = chain' := by
  induction chain generalizing t links links' chain' with
  | nil =>
    obtain ⟨above, hchain, -⟩ := exists_of_climb h
    exact nomatch hchain
  | cons _ above ih =>
    obtain ⟨_, heq, hrest⟩ := exists_of_climb h
    obtain ⟨rfl, rfl⟩ := List.cons.inj heq
    obtain ⟨above', rfl, hrest'⟩ := exists_of_climb h'
    obtain ⟨rfl, htop⟩ | ⟨_, v, hv, habove⟩ := hrest
    · obtain ⟨rfl, -⟩ | ⟨_, v', ⟨superior, hsuperior, -⟩, -⟩ := hrest'
      · rfl
      · exact nomatch htop.symm.trans hsuperior
    · obtain ⟨-, htop⟩ | ⟨_, v', hv', habove'⟩ := hrest'
      · obtain ⟨superior, hsuperior, -⟩ := hv
        exact nomatch htop.symm.trans hsuperior
      · obtain rfl := hv.unique hv'
        rw [ih habove habove']

/-- Whatever is in a chain has a chain itself, which is no longer. -/
theorem exists_climb_of_mem (h : r.climb origin links t = .ok chain) (hu : u ∈ chain) :
    ∃ links chain', r.climb origin links u = .ok chain' ∧ chain'.length ≤ chain.length := by
  induction chain generalizing t links with
  | nil => exact absurd hu List.not_mem_nil
  | cons _ above ih =>
    obtain ⟨_, heq, hrest⟩ := exists_of_climb h
    obtain ⟨rfl, rfl⟩ := List.cons.inj heq
    obtain rfl | hu := List.mem_cons.1 hu
    · exact ⟨links, _, h, Nat.le_refl _⟩
    · obtain ⟨rfl, -⟩ | ⟨links, v, -, habove⟩ := hrest
      · exact absurd hu List.not_mem_nil
      · obtain ⟨links', chain', hchain', hle⟩ := ih habove hu
        exact ⟨links', chain', hchain', Nat.le_succ_of_le hle⟩

/-- **A type with a chain of superiors is not above itself.** -/
theorem not_mem_above (h : r.climb origin links t = .ok (t :: above)) : t ∉ above := by
  intro ht
  obtain ⟨_, heq, hrest⟩ := exists_of_climb h
  obtain ⟨-, rfl⟩ := List.cons.inj heq
  obtain ⟨rfl, -⟩ | ⟨_, v, -, habove⟩ := hrest
  · exact absurd ht List.not_mem_nil
  · obtain ⟨_, chain, hchain, hle⟩ := exists_climb_of_mem habove ht
    rw [← climb_unique h hchain] at hle
    exact absurd hle (Nat.not_succ_le_self _)

/-! ## What is found -/

/-- The walk down does not miss anything below the type. -/
theorem oid_mem_of_reaches (hr : r.Reachable) (ht : t ∈ r.typeList)
    (h : ReflTransGen r.Inherits u t) (hu : u ∈ r.typeList) :
    u.oid ∈ (r.descendants t).map AttributeType.oid ++ [t.oid] := by
  have hstart : r.Attends [t.oid] [t] := fun v hv p hvp hp ↦ by
    have hlist : p ∈ r.typeList := mem_typeList_of_inherits (.single hvp) hv
    exact .inl (List.mem_singleton.2 (hr.eq_of_oid_eq hlist ht (List.mem_singleton.1 hp)))
  have hattends := (r.spreads_descendants t).attends hr
    (List.cons_subset.2 ⟨ht, List.nil_subset _⟩) hstart
  induction h using ReflTransGen.head_induction_on with
  | refl => exact List.mem_append_right _ List.mem_cons_self
  | head hfirst _ ih =>
    have hseen := ih (mem_typeList_of_inherits (.single hfirst) hu)
    exact (hattends _ hu _ hfirst hseen).resolve_left List.not_mem_nil

theorem mem_descendants (hr : r.Reachable) (ht : t ∈ r.typeList) :
    u ∈ r.descendants t ↔ u ∈ r.typeList ∧ u ≠ t ∧ ReflTransGen r.Inherits u t := by
  have hspreads := r.spreads_descendants t
  have hqueue : [t] ⊆ r.typeList := List.cons_subset.2 ⟨ht, List.nil_subset _⟩
  constructor
  · intro hu
    obtain ⟨hlist, p, hp, hup⟩ := hspreads.reaches hr hqueue u hu
    obtain rfl := List.mem_singleton.1 hp
    refine ⟨hlist, ?_, hup⟩
    rintro rfl
    exact (hspreads.nodup hr hqueue).2 u hu List.mem_cons_self
  · rintro ⟨hu, hne, hreaches⟩
    obtain hoid | hoid := List.mem_append.1 (oid_mem_of_reaches hr ht hreaches hu)
    · obtain ⟨v, hv, hoid⟩ := List.mem_map.1 hoid
      obtain ⟨hlist, -⟩ := hspreads.reaches hr hqueue v hv
      obtain rfl := hr.eq_of_oid_eq hlist hu hoid
      exact hv
    · exact absurd (hr.eq_of_oid_eq hu ht (List.mem_singleton.1 hoid)) hne

/-- In a checked registry a type is below another one if the other one is above it in its chain. -/
theorem mem_descendants_iff_above (hr : r.Reachable) (ht : t ∈ r.typeList) (hu : u ∈ r.typeList)
    (hchain : r.superiorChain u = .ok (u :: above)) : u ∈ r.descendants t ↔ t ∈ above := by
  have hreaches : t ∈ u :: above ↔ ReflTransGen r.Inherits u t := mem_climb hchain
  rw [mem_descendants hr ht, ← hreaches, List.mem_cons]
  constructor
  · rintro ⟨-, hne, rfl | habove⟩
    · exact absurd rfl hne
    · exact habove
  · intro habove
    refine ⟨hu, ?_, .inr habove⟩
    rintro rfl
    exact not_mem_above hchain habove

/-- **The descendants of a type are the types below it.**  The registry may be any that
registrations lead to; it need not have been checked, and superiors may lead around in a circle.
The walk comes to an end, and it finds every other type from which following superiors leads to the
type, once each and never the type itself, by the number of links.  In a checked registry a type is
found exactly if the type where the walk began is among its superiors. -/
theorem descendants_lists_inheritors (hr : r.Reachable) (ht : t ∈ r.typeList) :
    r.Spreads [t.oid] [t] (r.descendants t) ∧
      (∀ u v, r.Inherits u v ↔
        v ∈ r.typeList ∧ ∃ superior, u.superior = some superior ∧ v.Carries superior) ∧
      (r.descendants t).Nodup ∧
      (∀ u, u ∈ r.descendants t ↔ u ∈ r.typeList ∧ u ≠ t ∧ ReflTransGen r.Inherits u t) ∧
      ((r.descendants t).Pairwise fun u v ↦ r.linksTo t u ≤ r.linksTo t v) ∧
      (r.validate = .ok () → ∀ u ∈ r.typeList, ∃ above,
        r.superiorChain u = .ok (u :: above) ∧ (u ∈ r.descendants t ↔ t ∈ above)) := by
  have hspreads := r.spreads_descendants t
  have hqueue : [t] ⊆ r.typeList := List.cons_subset.2 ⟨ht, List.nil_subset _⟩
  refine ⟨hspreads, fun _ _ ↦ hr.inherits_iff, (hspreads.nodup hr hqueue).1.of_map _,
    fun _ ↦ mem_descendants hr ht, ?_, fun hvalid u hu ↦ ?_⟩
  · refine (hspreads.ordered hr hqueue List.mem_cons_self ?_ (List.pairwise_singleton _ _)).1
    intro p hp
    rw [List.mem_singleton.1 hp]
  · obtain ⟨chain, hchain⟩ := (refers_of_validate hvalid hu).chain
    obtain ⟨above, rfl, -⟩ := exists_of_climb hchain
    exact ⟨above, hchain, mem_descendants_iff_above hr ht hu hchain⟩

/-- Two types are above each other, and one more is below the second.  In the schema of names, which
passes the check, names are above common names. -/
theorem descendants_lists_inheritors_circle :
    let one : AttributeType := ⟨"1.1", ["one"], some "TWO", none, none, none, none, none⟩
    let two : AttributeType := ⟨"1.2", ["two"], some "1.1", none, none, none, none, none⟩
    let three : AttributeType := ⟨"1.3", ["three"], some "Two", none, none, none, none, none⟩
    let r := after [.type one, .type two, .type three]
    (r.Reachable ∧ one ∈ r.typeList ∧ r.descendants one = [two, three] ∧
      r.Spreads [one.oid] [one] [two, three] ∧ ReflTransGen r.Inherits three one ∧
      r.linksTo one two ≤ r.linksTo one three) ∧
    names.Reachable ∧ .fullName ∈ names.typeList ∧ names.validate = .ok () ∧
      .commonName ∈ names.typeList ∧ .commonName ∈ names.descendants .fullName ∧
      ∃ above, names.superiorChain .commonName = .ok (.commonName :: above) ∧
        .fullName ∈ above := by
  intro one two three r
  have hr : r.Reachable := reachable_after _
  have hone : one ∈ r.typeList := by decide +kernel
  have hfound : r.descendants one = [two, three] := by decide +kernel
  have hname : .fullName ∈ names.typeList := by decide +kernel
  have hvalid : names.validate = .ok () := by decide +kernel
  have hcommon : .commonName ∈ names.typeList := by decide +kernel
  have hbelow : .commonName ∈ names.descendants .fullName := by decide +kernel
  obtain ⟨hspreads, -, -, hmem, hordered, -⟩ := descendants_lists_inheritors hr hone
  obtain ⟨-, -, -, -, -, hchains⟩ := descendants_lists_inheritors reachable_names hname
  obtain ⟨above, hchain, hiff⟩ := hchains hvalid _ hcommon
  rw [hfound] at hspreads hmem hordered
  refine ⟨⟨hr, hone, hfound, hspreads, ?_, ?_⟩, reachable_names, hname, hvalid, hcommon, hbelow,
    above, hchain, hiff.1 hbelow⟩
  · exact ((hmem three).1 (List.mem_cons_of_mem _ List.mem_cons_self)).2.2
  · exact (List.pairwise_cons.1 hordered).1 three List.mem_cons_self

end Registry
end DirectoryQuery
