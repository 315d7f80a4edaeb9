import DirectoryQuery.Proofs.Descendants

/-!
# How chains of superiors end

The walk up from a type follows one reference after another and keeps the types it has met
(`Registry.Climbs`).  It looks for circles only by counting: before it follows a reference it fails
if it has met more than `maxLinks` types.  So it comes to an end, and it ends in one of three ways.
Among the first types it meets is one without a superior (`Registry.Tops`); or one of the first
references leads to no type (`Registry.Loses`); or there is one reference more than may be followed.
The last is so wherever superiors lead around in a circle, from whatever distance the walk comes to
it.

What a type does not declare itself it has from its superior, with the same outcome as there
(`Registry.superiorChain_ends`).
-/

set_option autoImplicit false

namespace DirectoryQuery

open Relation

/-- The failure, as one of another attribute type. -/
def SchemaError.renamed (typeName : String) : SchemaError → SchemaError
  | missingSyntax _ => missingSyntax typeName
  | unknownSyntax _ reference => unknownSyntax typeName reference
  | unknownMatchingRule _ reference => unknownMatchingRule typeName reference
  | e => e

/-- The failure of a walk up that has followed as many links as it may, from the type of that
name. -/
def SchemaError.endless (origin : String) : SchemaError :=
  malformed origin "superior chain is cyclic or too deep"

namespace Registry

variable {r : Registry} {t u v : AttributeType} {origin name superior : String} {links n : Nat}
  {chain above met : List AttributeType}
  {outcome outcome' : Except SchemaError (List AttributeType)}

/-! ## The walk up -/

/-- The walk up from the type behind those met, turn after turn until it ends.  The types are
counted before a reference is followed. -/
inductive Climbs (r : Registry) (origin : String) :
    List AttributeType → AttributeType → Except SchemaError (List AttributeType) → Prop
  | top {met : List AttributeType} {t : AttributeType} (h : t.superior = none) :
      Climbs r origin met t (.ok (met ++ [t]))
  | stopped {met : List AttributeType} {t : AttributeType} {superior : String}
      (h : t.superior = some superior) (hmany : maxLinks < (met ++ [t]).length) :
      Climbs r origin met t (.error (.endless origin))
  | lost {met : List AttributeType} {t : AttributeType} {superior : String} {e : SchemaError}
      (h : t.superior = some superior) (hfew : (met ++ [t]).length ≤ maxLinks)
      (he : r.resolve superior = .error e) : Climbs r origin met t (.error e)
  | link {met : List AttributeType} {t u : AttributeType} {superior : String}
      {outcome : Except SchemaError (List AttributeType)}
      (h : t.superior = some superior) (hfew : (met ++ [t]).length ≤ maxLinks)
      (hu : r.resolve superior = .ok u) (hrest : Climbs r origin (met ++ [t]) u outcome) :
      Climbs r origin met t outcome

theorem climb_lost {e : SchemaError} (h : t.superior = some superior)
    (he : r.resolve superior = .error e) : r.climb origin (links + 1) t = .error e := by
  rw [climb_on h, he]
  rfl

theorem climb_link (h : t.superior = some superior) (hu : r.resolve superior = .ok u) :
    r.climb origin (links + 1) t = (r.climb origin links u).map (t :: ·) := by
  rw [climb_on h, hu]
  show (r.climb origin links u >>= fun above ↦ .ok (t :: above)) = _
  cases r.climb origin links u <;> rfl

/-- What was met before stands in front of what the rest of the walk meets. -/
theorem map_climb_link (h : t.superior = some superior) (hu : r.resolve superior = .ok u) :
    (r.climb origin (links + 1) t).map (met ++ ·) =
      (r.climb origin links u).map (met ++ [t] ++ ·) := by
  rw [climb_link h hu]
  cases r.climb origin links u <;> simp [Except.map]

theorem climbs_climb (h : met.length + links = maxLinks) :
    r.Climbs origin met t ((r.climb origin links t).map (met ++ ·)) := by
  induction links generalizing met t with
  | zero =>
    cases hsuperior : t.superior with
    | none =>
      rw [climb_top hsuperior]
      exact .top hsuperior
    | some superior =>
      rw [climb_stuck hsuperior]
      exact .stopped hsuperior (by simp; omega)
  | succ links ih =>
    have hfew : (met ++ [t]).length + links = maxLinks := by
      rw [List.length_append, List.length_singleton]
      omega
    cases hsuperior : t.superior with
    | none =>
      rw [climb_top hsuperior]
      exact .top hsuperior
    | some superior =>
      cases hu : r.resolve superior with
      | error e =>
        rw [climb_lost hsuperior hu]
        exact .lost hsuperior (by omega) hu
      | ok u =>
        rw [map_climb_link hsuperior hu]
        exact .link hsuperior (by omega) hu (ih hfew)

theorem Climbs.eq_climb (h : r.Climbs origin met t outcome)
    (hlinks : met.length + links = maxLinks) :
    outcome = (r.climb origin links t).map (met ++ ·) := by
  induction h generalizing links with
  | top h =>
    rw [climb_top h]
    rfl
  | stopped h hmany =>
    obtain rfl : links = 0 := by
      rw [List.length_append, List.length_singleton] at hmany
      omega
    rw [climb_stuck h]
    rfl
  | lost h hfew he =>
    rw [List.length_append, List.length_singleton] at hfew
    obtain ⟨links, rfl⟩ := Nat.exists_eq_add_one_of_ne_zero (by omega : links ≠ 0)
    rw [climb_lost h he]
    rfl
  | link h hfew hu _ ih =>
    rw [List.length_append, List.length_singleton] at hfew
    obtain ⟨links, rfl⟩ := Nat.exists_eq_add_one_of_ne_zero (by omega : links ≠ 0)
    rw [map_climb_link h hu]
    exact ih (by simp; omega)

/-- **The walk comes to an end, and to this one.** -/
theorem climbs_iff : r.Climbs t.name [] t outcome ↔ outcome = r.superiorChain t := by
  have hmap : (r.climb t.name maxLinks t).map ([] ++ ·) = r.superiorChain t := by
    rw [superiorChain]
    cases r.climb t.name maxLinks t <;> rfl
  rw [← hmap]
  refine ⟨fun h ↦ h.eq_climb (Nat.zero_add _), ?_⟩
  rintro rfl
  exact climbs_climb (Nat.zero_add _)

/-! ## How it ends -/

/-- So many links lead up to a type without a superior, or fewer. -/
def Tops (r : Registry) (links : Nat) (t : AttributeType) : Prop :=
  ∃ n ≤ links, ∃ top, r.Leads n t top ∧ top.superior = none

/-- Fewer links lead up to a type whose superior has that name, and no type has it. -/
def Loses (r : Registry) (links : Nat) (t : AttributeType) (name : String) : Prop :=
  ∃ n < links, ∃ u, r.Leads n t u ∧ u.superior = some name ∧ ¬ ∃ v, r.resolve name = .ok v

/-- So many links lead up to a type that has a superior yet. -/
def Lasts (r : Registry) (links : Nat) (t : AttributeType) : Prop :=
  ∃ u superior, r.Leads links t u ∧ u.superior = some superior

theorem resolve_eq_error {e : SchemaError} (h : r.resolve name = .error e) :
    e = .unknownAttributeType name := by
  unfold resolve at h
  split at h
  · exact nomatch h
  · exact (Except.error.inj h).symm

/-- The walk goes on from every type on the way as it would from there. -/
theorem climb_of_leads (origin : String) (h : r.Leads n t u) : ∃ met : List AttributeType,
    ∀ links, r.climb origin (n + links) t = (r.climb origin links u).map (met ++ ·) := by
  induction n generalizing t with
  | zero =>
    obtain rfl : t = u := h
    refine ⟨[], fun links ↦ ?_⟩
    rw [Nat.zero_add]
    cases r.climb origin links t <;> rfl
  | succ n ih =>
    obtain ⟨v, ⟨superior, hsuperior, hv⟩, hleads⟩ := h
    obtain ⟨met, hmet⟩ := ih hleads
    refine ⟨t :: met, fun links ↦ ?_⟩
    rw [Nat.add_right_comm, climb_link hsuperior hv, hmet]
    cases r.climb origin links u <;> rfl

theorem climb_of_tops (origin : String) (h : r.Tops links t) :
    ∃ chain, r.climb origin links t = .ok chain := by
  obtain ⟨n, hn, top, hleads, htop⟩ := h
  obtain ⟨met, hmet⟩ := climb_of_leads origin hleads
  obtain ⟨rest, rfl⟩ := Nat.exists_eq_add_of_le hn
  rw [hmet, climb_top htop]
  exact ⟨met ++ [top], rfl⟩

theorem climb_of_loses (h : r.Loses links t name) :
    r.climb origin links t = .error (.unknownAttributeType name) := by
  obtain ⟨n, hn, u, hleads, hsuperior, hlost⟩ := h
  obtain ⟨met, hmet⟩ := climb_of_leads origin hleads
  obtain ⟨rest, rfl⟩ := Nat.exists_eq_add_of_lt hn
  cases he : r.resolve name with
  | ok v => exact absurd ⟨v, he⟩ hlost
  | error e =>
    rw [Nat.add_assoc, hmet, climb_lost hsuperior he, resolve_eq_error he]
    rfl

theorem climb_of_lasts (origin : String) (h : r.Lasts links t) :
    r.climb origin links t = .error (.endless origin) := by
  obtain ⟨u, superior, hleads, hsuperior⟩ := h
  obtain ⟨met, hmet⟩ := climb_of_leads origin hleads
  have hstop := hmet 0
  rwa [climb_stuck hsuperior] at hstop

/-- One of the three is so. -/
theorem ascent_cases (r : Registry) (links : Nat) (t : AttributeType) :
    r.Tops links t ∨ (∃ name, r.Loses links t name) ∨ r.Lasts links t := by
  induction links generalizing t with
  | zero =>
    cases hsuperior : t.superior with
    | none => exact .inl ⟨0, Nat.le_refl _, t, rfl, hsuperior⟩
    | some superior => exact .inr (.inr ⟨t, superior, rfl, hsuperior⟩)
  | succ links ih =>
    cases hsuperior : t.superior with
    | none => exact .inl ⟨0, Nat.zero_le _, t, rfl, hsuperior⟩
    | some superior =>
      by_cases hfound : ∃ v, r.resolve superior = .ok v
      · obtain ⟨v, hv⟩ := hfound
        have hup : r.Inherits t v := ⟨superior, hsuperior, hv⟩
        obtain ⟨n, hn, top, hleads, htop⟩ | ⟨name, n, hn, u, hleads, hlost⟩ | hlasts := ih v
        · exact .inl ⟨n + 1, Nat.succ_le_succ hn, top, ⟨v, hup, hleads⟩, htop⟩
        · exact .inr (.inl ⟨name, n + 1, Nat.succ_lt_succ hn, u, ⟨v, hup, hleads⟩, hlost⟩)
        · obtain ⟨u, name, hleads, hname⟩ := hlasts
          exact .inr (.inr ⟨u, name, ⟨v, hup, hleads⟩, hname⟩)
      · exact .inr (.inl ⟨superior, 0, Nat.succ_pos _, t, rfl, hsuperior, hfound⟩)

theorem climb_eq_ok_iff : (∃ chain, r.climb origin links t = .ok chain) ↔ r.Tops links t := by
  refine ⟨fun ⟨chain, h⟩ ↦ ?_, climb_of_tops origin⟩
  obtain htops | ⟨name, hloses⟩ | hlasts := r.ascent_cases links t
  · exact htops
  · exact nomatch h.symm.trans (climb_of_loses hloses)
  · exact nomatch h.symm.trans (climb_of_lasts origin hlasts)

theorem climb_eq_unknown_iff :
    r.climb origin links t = .error (.unknownAttributeType name) ↔ r.Loses links t name := by
  refine ⟨fun h ↦ ?_, climb_of_loses⟩
  obtain htops | ⟨name', hloses⟩ | hlasts := r.ascent_cases links t
  · obtain ⟨chain, hchain⟩ := climb_of_tops origin htops
    exact nomatch h.symm.trans hchain
  · obtain ⟨⟩ := h.symm.trans (climb_of_loses hloses)
    exact hloses
  · exact nomatch h.symm.trans (climb_of_lasts origin hlasts)

theorem climb_eq_endless_iff :
    r.climb origin links t = .error (.endless origin) ↔ r.Lasts links t := by
  refine ⟨fun h ↦ ?_, climb_of_lasts origin⟩
  obtain htops | ⟨name, hloses⟩ | hlasts := r.ascent_cases links t
  · obtain ⟨chain, hchain⟩ := climb_of_tops origin htops
    exact nomatch h.symm.trans hchain
  · exact nomatch h.symm.trans (climb_of_loses hloses)
  · exact hlasts

/-- There is a reference too many exactly if neither of the other two ends comes first. -/
theorem lasts_iff : r.Lasts links t ↔ ¬ r.Tops links t ∧ ∀ name, ¬ r.Loses links t name := by
  constructor
  · intro h
    have herror := climb_of_lasts t.name h
    refine ⟨fun htops ↦ ?_, fun name hloses ↦ ?_⟩
    · obtain ⟨chain, hchain⟩ := climb_of_tops t.name htops
      exact nomatch herror.symm.trans hchain
    · exact nomatch herror.symm.trans (climb_of_loses hloses)
  · rintro ⟨htops, hloses⟩
    obtain h | ⟨name, h⟩ | h := r.ascent_cases links t
    · exact absurd h htops
    · exact absurd h (hloses name)
    · exact h

/-! ### Circles and long chains -/

/-- More links than may be followed are a reference too many. -/
theorem lasts_of_leads (h : r.Leads n t u) (hn : links < n) : r.Lasts links t := by
  induction links generalizing n t with
  | zero =>
    obtain ⟨n, rfl⟩ := Nat.exists_eq_add_one_of_ne_zero (Nat.ne_of_gt hn)
    obtain ⟨v, ⟨superior, hsuperior, -⟩, -⟩ := h
    exact ⟨t, superior, rfl, hsuperior⟩
  | succ links ih =>
    obtain ⟨n, rfl⟩ := Nat.exists_eq_add_one_of_ne_zero (Nat.ne_zero_of_lt hn)
    obtain ⟨v, hv, hleads⟩ := h
    obtain ⟨w, superior, hw, hsuperior⟩ := ih hleads (Nat.lt_of_succ_lt_succ hn)
    exact ⟨w, superior, ⟨v, hv, hw⟩, hsuperior⟩

/-- From a type that leads to a circle, one can go on without end. -/
theorem exists_leads_of_circle (h : ReflTransGen r.Inherits t u) (hu : TransGen r.Inherits u u)
    (n : Nat) : ∃ v, r.Leads n t v := by
  induction n generalizing t u with
  | zero => exact ⟨t, rfl⟩
  | succ n ih =>
    have hstep : ∃ v, r.Inherits t v ∧ ReflTransGen r.Inherits v u := by
      obtain rfl | hstep := ReflTransGen.cases_head h
      · exact TransGen.head'_iff.1 hu
      · exact hstep
    obtain ⟨v, hv, hvu⟩ := hstep
    obtain ⟨w, hw⟩ := ih hvu hu
    exact ⟨w, v, hv, hw⟩

/-! ### The chain -/

/-- The list begins with the type, each next one is the superior of the one before, and the last has
none. -/
structure Ascends (r : Registry) (t : AttributeType) (chain : List AttributeType) : Prop where
  first : chain.head? = some t
  linked : chain.IsChain r.Inherits
  last : ∃ top, chain.getLast? = some top ∧ top.superior = none

theorem ascends_of_climb (h : r.climb origin links t = .ok chain) :
    r.Ascends t chain ∧ chain.Nodup := by
  induction chain generalizing t links with
  | nil =>
    obtain ⟨above, hchain, -⟩ := exists_of_climb h
    exact nomatch hchain
  | cons _ above ih =>
    have hnew := h
    obtain ⟨_, heq, hrest⟩ := exists_of_climb h
    obtain ⟨rfl, rfl⟩ := List.cons.inj heq
    obtain ⟨rfl, htop⟩ | ⟨links, v, hv, habove⟩ := hrest
    · exact ⟨⟨rfl, .singleton _, _, rfl, htop⟩, List.nodup_singleton _⟩
    · obtain ⟨⟨hfirst, hlinked, top, hlast, htop⟩, hnodup⟩ := ih habove
      obtain ⟨rest, rfl⟩ := List.head?_eq_some_iff.1 hfirst
      refine ⟨⟨rfl, .cons_cons hv hlinked, top, ?_, htop⟩,
        List.nodup_cons.2 ⟨not_mem_above hnew, hnodup⟩⟩
      rwa [List.getLast?_cons_cons]

/-! ## What is inherited -/

/-- The chain of the superior is the rest of the chain. -/
theorem exists_superiorChain (h : r.superiorChain t = .ok chain)
    (hsuperior : t.superior = some superior) : ∃ u above, r.resolve superior = .ok u ∧
      chain = t :: above ∧ r.superiorChain u = .ok above := by
  obtain ⟨above, rfl, ⟨-, hnone⟩ | ⟨links, u, hu, habove⟩⟩ := exists_of_climb h
  · exact nomatch hnone.symm.trans hsuperior
  · have htops : r.Tops maxLinks u := by
      obtain ⟨n, hn, top, hleads, htop⟩ := climb_eq_ok_iff.1 ⟨_, h⟩
      cases n with
      | zero =>
        obtain rfl : t = top := hleads
        exact nomatch htop.symm.trans hsuperior
      | succ n =>
        obtain ⟨v, hv, hleads⟩ := hleads
        obtain rfl := hu.unique hv
        exact ⟨n, Nat.le_of_succ_le hn, top, hleads, htop⟩
    obtain ⟨chain, hchain⟩ := climb_of_tops u.name htops
    obtain ⟨_, hname, hresolve⟩ := hu
    obtain rfl := Option.some.inj (hsuperior.symm.trans hname)
    exact ⟨u, above, hresolve, rfl, hchain.trans (congrArg _ (climb_unique hchain habove))⟩

theorem syntaxOf_inherited (h : r.superiorChain t = .ok (t :: above))
    (habove : r.superiorChain u = .ok above) (hnone : t.syntaxOid = none) :
    r.syntaxOf t = (r.syntaxOf u).mapError (.renamed t.name) := by
  rw [syntaxOf, syntaxOf, h, habove]
  simp only [bind, Except.bind, List.findSome?_cons, hnone]
  cases above.findSome? AttributeType.syntaxOid with
  | none => rfl
  | some oid => cases hs : r.syntaxes[oid]? <;> simp only [hs] <;> rfl

theorem ruleFor_inherited {slot : RuleSlot} (h : r.superiorChain t = .ok (t :: above))
    (habove : r.superiorChain u = .ok above) (hnone : t.declaredRule slot = none) :
    r.ruleFor t slot = (r.ruleFor u slot).mapError (.renamed t.name) := by
  rw [ruleFor, ruleFor, h, habove]
  simp only [bind, Except.bind, List.findSome?_cons, hnone]
  cases above.findSome? fun v ↦ v.declaredRule slot with
  | none => rfl
  | some reference =>
    simp only [Registry.rule]
    cases r.rules[Text.lower reference]? <;> rfl

/-- **How the chain of superiors of a type ends.**  The registry need not have been checked.  The
walk up comes to an end.  There is a chain exactly if the walk comes to a type without a superior
along at most `maxLinks` references, and the chain then lists the type and what is above it, nearest
first and without repetition.  A name that leads to no type is the failure exactly if it is one of
the first `maxLinks` references.  Otherwise the chain has no end in reach, as always if superiors
lead around in a circle or on beyond the bound.  A type that has a chain and a superior has the
syntax and the rules of the superior, or fails in the same way, wherever it declares none. -/
theorem superiorChain_ends (r : Registry) (t : AttributeType) :
    (∀ outcome, r.Climbs t.name [] t outcome ↔ outcome = r.superiorChain t) ∧
      ((∃ chain, r.superiorChain t = .ok chain) ↔ r.Tops maxLinks t) ∧
      (∀ chain, r.superiorChain t = .ok chain → r.Ascends t chain ∧ chain.Nodup) ∧
      (∀ name, r.superiorChain t = .error (.unknownAttributeType name) ↔
        r.Loses maxLinks t name) ∧
      (r.superiorChain t = .error (.endless t.name) ↔
        ¬ r.Tops maxLinks t ∧ ∀ name, ¬ r.Loses maxLinks t name) ∧
      (∀ u, ReflTransGen r.Inherits t u → TransGen r.Inherits u u →
        r.superiorChain t = .error (.endless t.name)) ∧
      (∀ n u, maxLinks < n → r.Leads n t u → r.superiorChain t = .error (.endless t.name)) ∧
      (∀ chain superior, r.superiorChain t = .ok chain → t.superior = some superior →
        ∃ u, r.resolve superior = .ok u ∧
          (t.syntaxOid = none → r.syntaxOf t = (r.syntaxOf u).mapError (.renamed t.name)) ∧
          ∀ slot, t.declaredRule slot = none →
            r.ruleFor t slot = (r.ruleFor u slot).mapError (.renamed t.name)) := by
  have hlong : ∀ n u, maxLinks < n → r.Leads n t u →
      r.superiorChain t = .error (.endless t.name) :=
    fun n u hn hleads ↦ climb_of_lasts t.name (lasts_of_leads hleads hn)
  refine ⟨fun outcome ↦ climbs_iff, climb_eq_ok_iff, fun chain ↦ ascends_of_climb,
    fun name ↦ climb_eq_unknown_iff, climb_eq_endless_iff.trans lasts_iff, ?_, hlong, ?_⟩
  · intro u hreaches hcircle
    obtain ⟨v, hv⟩ := exists_leads_of_circle hreaches hcircle (maxLinks + 1)
    exact hlong _ v (Nat.lt_succ_self _) hv
  · intro chain superior hchain hsuperior
    obtain ⟨u, above, hu, rfl, habove⟩ := exists_superiorChain hchain hsuperior
    exact ⟨u, hu, syntaxOf_inherited hchain habove, fun slot ↦ ruleFor_inherited hchain habove⟩

/-- Common names have the syntax of names, which is unknown here, and fail in their own name.  The
third type leads to a circle of the first two, and the fourth one to nowhere. -/
theorem superiorChain_ends_strays :
    let one : AttributeType := ⟨"1.1", ["one"], some "TWO", none, none, none, none, none⟩
    let two : AttributeType := ⟨"1.2", ["two"], some "1.1", none, none, none, none, none⟩
    let three : AttributeType := ⟨"1.3", ["three"], some "Two", none, none, none, none, none⟩
    let four : AttributeType := ⟨"1.4", ["four"], some "ghost", none, none, none, none, none⟩
    let r := after [.type .fullName, .type .commonName, .type one, .type two, .type three,
      .type four]
    (r.Tops maxLinks .commonName ∧
      r.Ascends .commonName [.commonName, .fullName] ∧
      r.syntaxOf .commonName = .error (.unknownSyntax "cn" "1.1")) ∧
    (ReflTransGen r.Inherits three two ∧ TransGen r.Inherits two two ∧
      r.superiorChain three = .error (.endless "three")) ∧
    r.Loses maxLinks four "ghost" ∧
      r.superiorChain four = .error (.unknownAttributeType "ghost") := by
  intro one two three four r
  have hchain : r.superiorChain .commonName = .ok [.commonName, .fullName] := by decide +kernel
  obtain ⟨-, htops, hlists, -, -, -, -, hinherited⟩ := superiorChain_ends r .commonName
  obtain ⟨-, -, -, -, -, hcircle, -⟩ := superiorChain_ends r three
  obtain ⟨-, -, -, hlost, -⟩ := superiorChain_ends r four
  have hfirst : r.Inherits one two := ⟨"TWO", rfl, by decide +kernel⟩
  have hsecond : r.Inherits two one := ⟨"1.1", rfl, by decide +kernel⟩
  have hthird : r.Inherits three two := ⟨"Two", rfl, by decide +kernel⟩
  have hturn : TransGen r.Inherits two two := .tail (.single hsecond) hfirst
  have hghost : r.superiorChain four = .error (.unknownAttributeType "ghost") := by decide +kernel
  refine ⟨⟨htops.1 ⟨_, hchain⟩, (hlists _ hchain).1, ?_⟩, ⟨.single hthird, hturn,
    hcircle two (.single hthird) hturn⟩, (hlost _).1 hghost, hghost⟩
  obtain ⟨u, hu, hsame, -⟩ := hinherited _ "name" hchain rfl
  have hname : r.resolve "name" = .ok .fullName := by decide +kernel
  obtain rfl := Except.ok.inj (hu.symm.trans hname)
  have hunknown : r.syntaxOf .fullName = .error (.unknownSyntax "name" "1.1") := by decide +kernel
  rw [hsame rfl, hunknown]
  rfl

/-- A type of a ladder, which has the next one as its superior unless it is the last. -/
def rung (last i : Nat) : AttributeType :=
  ⟨toString i, [], if i < last then some (toString (i + 1)) else none, none, none, none, none, none⟩

/-- A ladder of types with so many links. -/
def ladder (last : Nat) : Registry := after ((List.range (last + 1)).map (.type <| rung last ·))

/-- The bound is not off by one. -/
example : ((ladder 32).superiorChain (rung 32 0)).map List.length = .ok 33 ∧
    (ladder 33).superiorChain (rung 33 0) = .error (.endless "0") := by
  decide +kernel

end Registry
end DirectoryQuery
