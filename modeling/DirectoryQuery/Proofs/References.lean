import Mathlib.Logic.Relation
import DirectoryQuery.Proofs.Leaves
import DirectoryQuery.Proofs.Registrations

/-!
# References that resolve

A registry is checked type by type, and of each type only the references that it makes itself are
looked at (`Registry.validate`).  Making a clause ready for use follows inherited references too:
the syntax and the rules of a type are those of the nearest type above it that declares one.

The check is enough nevertheless.  Whatever is above a registered type is registered and was checked
as well, so of a checked registry every reference that is ever followed resolves.  What may be
missing is a syntax, which no type of a chain has to declare; and that is the one thing that a
clause on a registered type can fail for (`Registry.resolves_of_validate`).
-/

set_option autoImplicit false

namespace DirectoryQuery

open Relation Std

namespace Registry

variable {r : Registry} {t u v : AttributeType} {origin reference : String} {links : Nat}
  {slot : RuleSlot} {chain : List AttributeType}

/-! ## Upwards -/

/-- The second type is the one that the first names as its superior. -/
def Inherits (r : Registry) (t u : AttributeType) : Prop :=
  ∃ superior, t.superior = some superior ∧ r.resolve superior = .ok u

theorem Inherits.unique (h : r.Inherits t u) (h' : r.Inherits t v) : u = v := by
  obtain ⟨superior, hsuperior, hu⟩ := h
  obtain ⟨superior', hsuperior', hv⟩ := h'
  obtain rfl := Option.some.inj (hsuperior.symm.trans hsuperior')
  exact Except.ok.inj (hu.symm.trans hv)

/-- Neither the type nor any type above it declares a syntax. -/
def LacksSyntax (r : Registry) (t : AttributeType) : Prop :=
  ∀ u, ReflTransGen r.Inherits t u → u.syntaxOid = none

theorem climb_top (h : t.superior = none) : r.climb origin links t = .ok [t] := by
  unfold climb
  rw [h]

theorem climb_stuck {superior : String} (h : t.superior = some superior) :
    r.climb origin 0 t = .error (.malformed origin "superior chain is cyclic or too deep") := by
  unfold climb
  rw [h]

theorem climb_on {superior : String} (h : t.superior = some superior) :
    r.climb origin (links + 1) t =
      r.resolve superior >>= fun u ↦ r.climb origin links u >>= fun above ↦ .ok (t :: above) := by
  conv => lhs; unfold climb
  rw [h]
  rfl

/-- Nothing is above a type that names no superior. -/
theorem inherits_top (h : t.superior = none) : ReflTransGen r.Inherits t u ↔ u = t := by
  rw [ReflTransGen.cases_head_iff]
  constructor
  · rintro (rfl | ⟨v, ⟨superior, hsuperior, -⟩, -⟩)
    · rfl
    · simp [h] at hsuperior
  · rintro rfl
    exact .inl rfl

/-- A chain begins with its type and goes on with the chain of the superior, if there is one. -/
theorem exists_of_climb (h : r.climb origin links t = .ok chain) : ∃ above, chain = t :: above ∧
    (above = [] ∧ t.superior = none ∨
      ∃ links v, r.Inherits t v ∧ r.climb origin links v = .ok above) := by
  cases hsuperior : t.superior with
  | none =>
    rw [climb_top hsuperior] at h
    exact ⟨[], (Except.ok.inj h).symm, .inl ⟨rfl, rfl⟩⟩
  | some superior =>
    cases links with
    | zero =>
      rw [climb_stuck hsuperior] at h
      exact nomatch h
    | succ links =>
      rw [climb_on hsuperior] at h
      obtain ⟨v, hv, hrest⟩ := bind_eq_ok.1 h
      obtain ⟨above, habove, hchain⟩ := bind_eq_ok.1 hrest
      exact ⟨above, (Except.ok.inj hchain).symm, .inr ⟨links, v, ⟨superior, hsuperior, hv⟩, habove⟩⟩

/-- The chain of a type has the type and everything above it. -/
theorem mem_climb (h : r.climb origin links t = .ok chain) :
    u ∈ chain ↔ ReflTransGen r.Inherits t u := by
  induction chain generalizing t links with
  | nil =>
    obtain ⟨above, hchain, -⟩ := exists_of_climb h
    exact absurd hchain.symm (List.cons_ne_nil t above)
  | cons _ above ih =>
    obtain ⟨_, heq, hrest⟩ := exists_of_climb h
    obtain ⟨rfl, rfl⟩ := List.cons.inj heq
    obtain ⟨rfl, htop⟩ | ⟨_, v, hv, habove⟩ := hrest
    · rw [List.mem_singleton, inherits_top htop]
    · rw [List.mem_cons, ih habove]
      refine (or_congr eq_comm ⟨fun hvu ↦ ⟨v, hv, hvu⟩, ?_⟩).trans ReflTransGen.cases_head_iff.symm
      rintro ⟨w, hw, hwu⟩
      rwa [hv.unique hw]

theorem mem_typeList_of_resolve {name : String} (h : r.resolve name = .ok t) : t ∈ r.typeList :=
  mem_typeList.2 (types_of_resolve h)

/-- What is above a registered type is registered. -/
theorem mem_typeList_of_inherits (h : ReflTransGen r.Inherits t u) (ht : t ∈ r.typeList) :
    u ∈ r.typeList := by
  cases h with
  | refl => exact ht
  | tail _ hlast =>
    obtain ⟨superior, -, hu⟩ := hlast
    exact mem_typeList_of_resolve hu

/-! ## Checked references -/

/-- Every reference that the type makes resolves, and its chain of superiors ends. -/
structure Refers (r : Registry) (t : AttributeType) : Prop where
  chain : ∃ chain, r.superiorChain t = .ok chain
  valueSyntax : ∀ oid, t.syntaxOid = some oid → ∃ s, r.syntaxes[oid]? = some s
  rule : ∀ slot reference, t.declaredRule slot = some reference →
    ∃ m, r.rules[Text.lower reference]? = some m

theorem forM_eq_ok {α ε : Type} {f : α → Except ε Unit} {l : List α} :
    l.forM f = .ok () ↔ ∀ a ∈ l, f a = .ok () := by
  induction l with
  | nil => exact ⟨fun _ ↦ nofun, fun _ ↦ rfl⟩
  | cons a l ih =>
    have hcons : (a :: l).forM f = f a >>= fun _ ↦ l.forM f := rfl
    rw [hcons, bind_eq_ok, List.forall_mem_cons, ← ih]
    exact ⟨fun ⟨_, ha, hl⟩ ↦ ⟨ha, hl⟩, fun ⟨ha, hl⟩ ↦ ⟨(), ha, hl⟩⟩

theorem rule_of_getElem? {m : MatchingRule} (h : r.rules[Text.lower reference]? = some m) :
    r.rule t reference = .ok m := by
  rw [Registry.rule, h]

/-- The part of the check of a type that is about its rules. -/
def checkRules (r : Registry) (t : AttributeType) : Except SchemaError Unit :=
  RuleSlot.all.forM fun slot ↦
    match t.declaredRule slot with
    | some reference => do let _ ← r.rule t reference
    | none => pure ()

theorem checkRules_eq_ok (h : r.checkRules t = .ok ())
    (hrule : t.declaredRule slot = some reference) :
    ∃ m, r.rules[Text.lower reference]? = some m := by
  have hslot := forM_eq_ok.1 h slot (by cases slot <;> decide)
  simp only [hrule] at hslot
  obtain ⟨m, hm, -⟩ := bind_eq_ok.1 hslot
  unfold Registry.rule at hm
  split at hm
  · exact ⟨_, ‹_›⟩
  · exact nomatch hm

theorem validateType_eq_ok (h : r.validateType t = .ok ()) :
    (∃ chain, r.superiorChain t = .ok chain) ∧
      (∀ oid, t.syntaxOid = some oid → r.syntaxes.contains oid = true) ∧
        r.checkRules t = .ok () := by
  obtain ⟨chain, hchain, hrest⟩ := bind_eq_ok.1 h
  refine ⟨⟨chain, hchain⟩, ?_⟩
  cases hoid : t.syntaxOid with
  | none =>
    simp only [hoid] at hrest
    exact ⟨nofun, hrest⟩
  | some oid =>
    simp only [hoid] at hrest
    by_cases hknown : r.syntaxes.contains oid
    · simp only [hknown] at hrest
      refine ⟨?_, hrest⟩
      rintro _ ⟨⟩
      exact hknown
    · simp only [hknown] at hrest
      exact nomatch hrest

theorem refers_of_validate (h : r.validate = .ok ()) (ht : t ∈ r.typeList) : r.Refers t := by
  obtain ⟨hchain, hsyntax, hrules⟩ := validateType_eq_ok (forM_eq_ok.1 h t ht)
  refine ⟨hchain, fun oid hoid ↦ ?_, fun slot reference ↦ checkRules_eq_ok hrules⟩
  have hknown := hsyntax oid hoid
  rw [ExtTreeMap.contains_iff_mem] at hknown
  exact ⟨_, ExtTreeMap.getElem?_eq_some_getElem hknown⟩

/-- Of a checked registry every type of a chain was checked. -/
theorem refers_of_mem_chain (h : r.validate = .ok ()) (ht : t ∈ r.typeList)
    (hchain : r.superiorChain t = .ok chain) (hu : u ∈ chain) : r.Refers u :=
  refers_of_validate h (mem_typeList_of_inherits ((mem_climb hchain).1 hu) ht)

/-- The rule of a type is there, or no type of its chain declares one. -/
theorem exists_ruleFor (h : r.validate = .ok ()) (ht : t ∈ r.typeList) (slot : RuleSlot) :
    ∃ rule, r.ruleFor t slot = .ok rule := by
  obtain ⟨chain, hchain⟩ := (refers_of_validate h ht).chain
  rw [ruleFor, hchain]
  simp only [bind, Except.bind]
  cases hfind : chain.findSome? fun u ↦ u.declaredRule slot with
  | none => exact ⟨none, rfl⟩
  | some reference =>
    obtain ⟨u, hu, hdeclared⟩ := List.exists_of_findSome?_eq_some hfind
    obtain ⟨m, hm⟩ := (refers_of_mem_chain h ht hchain hu).rule slot reference hdeclared
    have hrule : r.rule t reference = .ok m := rule_of_getElem? hm
    simp only [hrule]
    exact ⟨some m, rfl⟩

/-- Whatever uses are looked for, one of the rules is found or there is none. -/
theorem exists_firstRule (h : r.validate = .ok ()) (ht : t ∈ r.typeList) (slots : List RuleSlot) :
    ∃ rule, r.firstRule t slots = .ok rule := by
  induction slots with
  | nil => exact ⟨none, rfl⟩
  | cons slot slots ih =>
    obtain ⟨rule, hrule⟩ := exists_ruleFor h ht slot
    rw [firstRule, hrule]
    cases rule with
    | none => exact ih
    | some m => exact ⟨some m, rfl⟩

theorem lacksSyntax_iff (hchain : r.superiorChain t = .ok chain) :
    r.LacksSyntax t ↔ ∀ u ∈ chain, u.syntaxOid = none :=
  forall_congr' fun _ ↦ by rw [mem_climb hchain]

theorem syntaxOf_of_lacks (h : r.validate = .ok ()) (ht : t ∈ r.typeList)
    (hnone : r.LacksSyntax t) : r.syntaxOf t = .error (.missingSyntax t.name) := by
  obtain ⟨chain, hchain⟩ := (refers_of_validate h ht).chain
  have hfind : chain.findSome? AttributeType.syntaxOid = none :=
    List.findSome?_eq_none_iff.2 ((lacksSyntax_iff hchain).1 hnone)
  rw [syntaxOf, hchain]
  simp only [bind, Except.bind, hfind]

theorem exists_syntaxOf (h : r.validate = .ok ()) (ht : t ∈ r.typeList)
    (hsome : ¬ r.LacksSyntax t) : ∃ s, r.syntaxOf t = .ok s := by
  obtain ⟨chain, hchain⟩ := (refers_of_validate h ht).chain
  rw [lacksSyntax_iff hchain, ← List.findSome?_eq_none_iff] at hsome
  obtain ⟨oid, hfind⟩ := Option.ne_none_iff_exists'.1 hsome
  obtain ⟨u, hu, hdeclared⟩ := List.exists_of_findSome?_eq_some hfind
  obtain ⟨s, hs⟩ := (refers_of_mem_chain h ht hchain hu).valueSyntax oid hdeclared
  rw [syntaxOf, hchain]
  simp only [bind, Except.bind, hfind, hs]
  exact ⟨s, rfl⟩

/-- A checked registry fails to tell a syntax only if there is none to tell. -/
theorem syntaxOf_eq_error (h : r.validate = .ok ()) (ht : t ∈ r.typeList) (e : SchemaError) :
    r.syntaxOf t = .error e ↔ e = .missingSyntax t.name ∧ r.LacksSyntax t := by
  by_cases hlacks : r.LacksSyntax t
  · rw [syntaxOf_of_lacks h ht hlacks]
    simp [hlacks, eq_comm]
  · obtain ⟨s, hs⟩ := exists_syntaxOf h ht hlacks
    simp [hs, hlacks]

/-! ## Downwards -/

/-- The types that have not been visited. -/
def unvisited (r : Registry) (visited : List String) : List AttributeType :=
  r.typeList.filter fun t ↦ !visited.contains t.oid

theorem spread_nil (turns : Nat) (visited : List String) : r.spread turns visited [] = [] := by
  cases turns <;> rfl

/-- The children that are visited are no longer unvisited. -/
theorem length_unvisited_children (r : Registry) (visited : List String) (parent : String) :
    let found := r.children visited parent
    found.length + (r.unvisited (found.map AttributeType.oid ++ visited)).length ≤
      (r.unvisited visited).length := by
  intro found
  -- what is found is below the parent, and what stays unvisited is not
  let isBelow : AttributeType → Bool := fun t ↦ r.superiorOid? t == some parent
  have hfound : found.length = (r.unvisited visited).countP isBelow := by
    rw [List.countP_eq_length_filter, unvisited, List.filter_filter]
    simp only [found, children, isBelow, Bool.and_comm]
  have hrest : (r.unvisited (found.map AttributeType.oid ++ visited)).length ≤
      (r.unvisited visited).countP fun t ↦ !isBelow t := by
    rw [unvisited, ← List.countP_eq_length_filter, unvisited, List.countP_filter]
    refine List.countP_mono_left fun t ht hnew ↦ ?_
    obtain ⟨hfree, hnew⟩ : t.oid ∉ found.map AttributeType.oid ∧ t.oid ∉ visited := by
      simpa using hnew
    have habove : ¬ r.superiorOid? t = some parent := fun habove ↦
      hfree (List.mem_map_of_mem (List.mem_filter.2 ⟨ht, by simp [hnew, habove]⟩))
    simp [isBelow, habove, hnew]
  have hsplit : (r.unvisited visited).length = (r.unvisited visited).countP isBelow +
      (r.unvisited visited).countP fun t ↦ !isBelow t := by
    simpa using List.length_eq_countP_add_countP (l := r.unvisited visited) isBelow
  omega

/-- Turns beyond one for each parent in the queue and each type not visited find nothing. -/
theorem spread_of_le {turns turns' : Nat} {visited queue : List String}
    (h : queue.length + (r.unvisited visited).length ≤ turns) (hle : turns ≤ turns') :
    r.spread turns' visited queue = r.spread turns visited queue := by
  induction turns generalizing turns' visited queue with
  | zero =>
    obtain rfl := List.length_eq_zero_iff.1 (by omega : queue.length = 0)
    rw [spread_nil, spread_nil]
  | succ turns ih =>
    cases queue with
    | nil => rw [spread_nil, spread_nil]
    | cons parent queue =>
      obtain ⟨turns', rfl⟩ : ∃ n, turns' = n + 1 := ⟨turns' - 1, by omega⟩
      have hfewer := r.length_unvisited_children visited parent
      simp only [spread]
      rw [ih _ (by omega)]
      simp at h hfewer ⊢
      omega

theorem length_typeList (r : Registry) : r.typeList.length = r.typeCount := by
  rw [typeList, values_eq_map_toList, List.length_map, ExtTreeMap.length_toList, typeCount]

/-- The walk down from a type has come to an end when its turns are used up. -/
theorem descendants_complete (t : AttributeType) {turns : Nat} (h : r.typeCount < turns) :
    r.spread turns [t.oid] [t.oid] = r.descendants t := by
  refine spread_of_le ?_ h
  have hsublist : (r.unvisited [t.oid]).length ≤ r.typeList.length := List.length_filter_le ..
  rw [length_typeList] at hsublist
  simp only [List.length_singleton]
  omega

end Registry

/-! ## Clauses on registered types -/

/-- The failure of a clause on a type whose chain declares no syntax. -/
def Clause.untyped (c : Clause) (t : AttributeType) : SearchError :=
  Subject.unresolved c.name "cannot resolve syntax" (.missingSyntax t.name)

namespace Registry

variable {r : Registry} {t : AttributeType}

theorem subject_of_error {name : String} {slots : List RuleSlot} {e : SchemaError}
    (hname : r.resolve name = .ok t) (hs : r.syntaxOf t = .error e) :
    Subject.resolve r name slots =
      .error (Subject.unresolved name "cannot resolve syntax" e) := by
  rw [Subject.resolve, hname]
  simp [Except.mapError, hs, bind, Except.bind]

theorem subject_of_ok {name : String} {slots : List RuleSlot} {s : ValueSyntax}
    {rule : Option MatchingRule} (hname : r.resolve name = .ok t) (hs : r.syntaxOf t = .ok s)
    (hrule : r.firstRule t slots = .ok rule) :
    Subject.resolve r name slots = .ok ⟨t, r.descendants t, s, rule⟩ := by
  rw [Subject.resolve, hname]
  simp [Except.mapError, hs, hrule, bind, Except.bind, pure, Except.pure]

theorem toTest_eq_error (h : r.validate = .ok ()) (ht : t ∈ r.typeList) {c : Clause}
    (hname : r.resolve c.name = .ok t) (e : SearchError) :
    c.toTest r = .error e ↔ e = c.untyped t ∧ r.LacksSyntax t := by
  by_cases hlacks : r.LacksSyntax t
  · rw [Clause.toTest, subject_of_error hname (syntaxOf_of_lacks h ht hlacks)]
    simp only [hlacks, and_true]
    exact ⟨fun herror ↦ (Except.error.inj herror).symm, fun herror ↦ herror ▸ rfl⟩
  · obtain ⟨s, hs⟩ := exists_syntaxOf h ht hlacks
    obtain ⟨rule, hrule⟩ := exists_firstRule h ht c.condition.slots
    rw [Clause.toTest, subject_of_ok hname hs hrule]
    simp only [hlacks, and_false, iff_false]
    exact nofun

/-- **Of a checked registry nothing that a registered type refers to, or inherits, is missing,** but
a syntax that no type of the chain declares.  A clause on the type, under any of its names, fails
for that reason and for no other. -/
theorem resolves_of_validate (hr : r.Reachable) (h : r.validate = .ok ()) (ht : t ∈ r.typeList) :
    (∀ slot, ∃ rule, r.ruleFor t slot = .ok rule) ∧
      (∀ turns, r.typeCount < turns → r.spread turns [t.oid] [t.oid] = r.descendants t) ∧
      (∀ e, r.syntaxOf t = .error e ↔ e = .missingSyntax t.name ∧ r.LacksSyntax t) ∧
      ∀ c : Clause, t.Carries c.name → ∀ trace e,
        (c.resolve r).outcome trace = .error e ↔ e = c.untyped t ∧ r.LacksSyntax t := by
  refine ⟨exists_ruleFor h ht, fun turns ↦ descendants_complete t, syntaxOf_eq_error h ht, ?_⟩
  intro c hc trace e
  rw [(Clause.resolve_follows r c).outcome_eq]
  exact toTest_eq_error h ht (hr.sound.resolve_iff.2 ⟨ht, hc⟩) e

/-- Memos have no syntax, and nothing above them has one.  A registry that has them passes the
check, and asking for memos fails. -/
theorem resolves_of_validate_memo :
    let memo : AttributeType := ⟨"3.3", ["memo"], none, none, some "2.1", none, none, none⟩
    let r := after [.rule ⟨"2.1", "caseIgnoreMatch", .squeezedLower, .lexical⟩, .type memo,
      .type { memo with oid := "3.4", names := ["note"], superior := some "Memo" }]
    let c : Clause := ⟨"MEMO", .present⟩
    r.Reachable ∧ r.validate = .ok () ∧ memo ∈ r.typeList ∧ r.LacksSyntax memo ∧
      (c.resolve r).outcome (.start .warn false) = .error (c.untyped memo) := by
  intro memo r c
  have hr : r.Reachable := reachable_after _
  have hvalid : r.validate = .ok () := by decide +kernel
  have hmemo : memo ∈ r.typeList := by decide +kernel
  have hlacks : r.LacksSyntax memo := fun u hu ↦ by
    rw [(inherits_top rfl).1 hu]
  have hcarries : memo.Carries c.name := ⟨"memo", by decide, by decide +kernel⟩
  obtain ⟨-, -, -, hclause⟩ := resolves_of_validate hr hvalid hmemo
  exact ⟨hr, hvalid, hmemo, hlacks, (hclause c hcarries _ _).2 ⟨rfl, hlacks⟩⟩

end Registry
end DirectoryQuery
