import DirectoryQuery.Proofs.Registrations

/-!
# Definitions in another order

Elements are registered one by one, and the first one to take a key keeps it.  Nevertheless the
order in which a definition lists its elements makes no difference.  Two elements of one kind can
be registered the one after the other exactly if they have no key in common and none of their keys
is taken, and then the tables are the same whichever comes first (`Registry.enter_comm`).  What
holds of two neighbours holds of every permutation (`Registry.foldlM_perm`).  References are checked
when everything is registered, so it makes no difference either if a superior is defined after the
types that name it.

Only of two definitions that are both refused because a key is taken the failures may differ: they
name the first key that was found taken (`Registry.ofDefinition_rearranged`).
-/

set_option autoImplicit false

namespace DirectoryQuery

open Std

/-- The definitions list the same elements, each kind in some order of its own. -/
structure SchemaDefinition.Rearranges (d d' : SchemaDefinition) : Prop where
  syntaxes : d.syntaxes.Perm d'.syntaxes
  rules : d.rules.Perm d'.rules
  types : d.types.Perm d'.types

theorem SchemaDefinition.Rearranges.symm {d d' : SchemaDefinition} (h : d.Rearranges d') :
    d'.Rearranges d :=
  ⟨h.syntaxes.symm, h.rules.symm, h.types.symm⟩

/-- The spellings under which a schema knows the rule. -/
def MatchingRule.keys (m : MatchingRule) : List String := [Text.lower m.oid, Text.lower m.name]

namespace Registry

variable {r r' : Registry} {d d' : SchemaDefinition}

/-! ## Tables -/

section Tables

variable {α : Type} {keys keys' : List String} {a a' : α} {m : ExtTreeMap String α}

/-- None of the keys is taken. -/
def Free (m : ExtTreeMap String α) (keys : List String) : Prop := ∀ key ∈ keys, m[key]? = none

/-- The table with one more element under its keys. -/
def enter (m : ExtTreeMap String α) (keys : List String) (a : α) : ExtTreeMap String α :=
  keys.foldl (fun m key ↦ m.insert key a) m

theorem free_iff : keys.find? m.contains = none ↔ Free m keys := by
  simp [List.find?_eq_none, Free]

theorem getElem?_enter (key : String) :
    (enter m keys a)[key]? = if key ∈ keys then some a else m[key]? :=
  getElem?_foldl_insert keys m a key

theorem free_enter : Free (enter m keys a) keys' ↔ Free m keys' ∧ keys.Disjoint keys' := by
  constructor
  · intro h
    have hkeys : ∀ key ∈ keys', key ∉ keys ∧ m[key]? = none := by
      intro key hkey
      have hnone := h key hkey
      rw [getElem?_enter] at hnone
      split at hnone
      · cases hnone
      · exact ⟨‹_›, hnone⟩
    exact ⟨fun key hkey ↦ (hkeys key hkey).2, fun key hkey hkey' ↦ (hkeys key hkey').1 hkey⟩
  · rintro ⟨hfree, hdisjoint⟩ key hkey
    rw [getElem?_enter, if_neg fun hmem ↦ hdisjoint hmem hkey, hfree key hkey]

/-- Elements without common keys may be entered in either order. -/
theorem enter_comm (h : keys.Disjoint keys') :
    enter (enter m keys a) keys' a' = enter (enter m keys' a') keys a := by
  refine ExtTreeMap.ext_getElem? fun key ↦ ?_
  simp only [getElem?_enter]
  by_cases hkey : key ∈ keys
  · have hkey' : key ∉ keys' := h hkey
    simp [hkey, hkey']
  · simp [hkey]

/-- If one element can be entered after the other, so can the other after the one. -/
theorem free_comm (a' : α) (hfree : Free m keys) (hfree' : Free (enter m keys a) keys') :
    Free m keys' ∧ Free (enter m keys' a') keys ∧ keys.Disjoint keys' := by
  have ⟨hother, hdisjoint⟩ := free_enter.1 hfree'
  exact ⟨hother, free_enter.2 ⟨hfree, fun _ h h' ↦ hdisjoint h' h⟩, hdisjoint⟩

end Tables

/-! ## One element after another -/

theorem addSyntax_eq_ok_iff {s : ValueSyntax} : r.addSyntax s = .ok r' ↔
    Free r.syntaxes [s.oid] ∧ r' = { r with syntaxes := enter r.syntaxes [s.oid] s } := by
  rw [← free_iff, addSyntax]
  by_cases htaken : r.syntaxes.contains s.oid
  · simp [htaken]
  · simp [htaken, enter, eq_comm]

theorem addRule_eq_ok_iff {m : MatchingRule} : r.addRule m = .ok r' ↔
    Free r.rules m.keys ∧ r' = { r with rules := enter r.rules m.keys m } := by
  have hkeys : [Text.lower m.oid, Text.lower m.name] = m.keys := rfl
  simp only [addRule, hkeys]
  rw [← free_iff]
  cases m.keys.find? r.rules.contains with
  | some taken => simp
  | none => simp [enter, eq_comm]

theorem addType_eq_ok_iff {t : AttributeType} : r.addType t = .ok r' ↔
    Free r.spellings t.keys ∧ r' = { r with
      types := enter r.types [t.oid] t
      spellings := enter r.spellings t.keys t.oid } := by
  rw [← free_iff, addType]
  cases t.keys.find? r.spellings.contains with
  | some taken => simp
  | none => simp [enter, eq_comm]

/-- Whatever can be registered in one order can be registered in the other, with the same result. -/
def Commutes {α : Type} (add : Registry → α → Except SchemaError Registry) : Prop :=
  ∀ r r' a a', (add r a >>= (add · a')) = .ok r' → (add r a' >>= (add · a)) = .ok r'

theorem commutes_addSyntax : Commutes addSyntax := by
  intro r r' s s' h
  obtain ⟨_, hs, hs'⟩ := bind_eq_ok.1 h
  obtain ⟨hfree, rfl⟩ := addSyntax_eq_ok_iff.1 hs
  obtain ⟨hfree', rfl⟩ := addSyntax_eq_ok_iff.1 hs'
  obtain ⟨hother, hone, hdisjoint⟩ := free_comm s' hfree hfree'
  refine bind_eq_ok.2 ⟨_, addSyntax_eq_ok_iff.2 ⟨hother, rfl⟩, addSyntax_eq_ok_iff.2 ⟨hone, ?_⟩⟩
  simp only [enter_comm hdisjoint]

theorem commutes_addRule : Commutes addRule := by
  intro r r' m m' h
  obtain ⟨_, hm, hm'⟩ := bind_eq_ok.1 h
  obtain ⟨hfree, rfl⟩ := addRule_eq_ok_iff.1 hm
  obtain ⟨hfree', rfl⟩ := addRule_eq_ok_iff.1 hm'
  obtain ⟨hother, hone, hdisjoint⟩ := free_comm m' hfree hfree'
  refine bind_eq_ok.2 ⟨_, addRule_eq_ok_iff.2 ⟨hother, rfl⟩, addRule_eq_ok_iff.2 ⟨hone, ?_⟩⟩
  simp only [enter_comm hdisjoint]

theorem commutes_addType : Commutes addType := by
  intro r r' t t' h
  obtain ⟨_, ht, ht'⟩ := bind_eq_ok.1 h
  obtain ⟨hfree, rfl⟩ := addType_eq_ok_iff.1 ht
  obtain ⟨hfree', rfl⟩ := addType_eq_ok_iff.1 ht'
  obtain ⟨hother, hone, hdisjoint⟩ := free_comm t'.oid hfree hfree'
  -- The identifiers differ, for they would be a common key otherwise.
  have hoids : [t.oid].Disjoint [t'.oid] := by
    intro oid h h'
    rw [List.mem_singleton] at h h'
    have hsame : t.oid = t'.oid := h.symm.trans h'
    exact hdisjoint t.lower_oid_mem_keys (hsame ▸ t'.lower_oid_mem_keys)
  refine bind_eq_ok.2 ⟨_, addType_eq_ok_iff.2 ⟨hother, rfl⟩, addType_eq_ok_iff.2 ⟨hone, ?_⟩⟩
  simp only [enter_comm hdisjoint, enter_comm hoids]

/-- **If neighbours may change places, so may all elements.** -/
theorem foldlM_perm {α : Type} {add : Registry → α → Except SchemaError Registry}
    (hadd : Commutes add) {l l' : List α} (h : l.Perm l') (hl : l.foldlM add r = .ok r') :
    l'.foldlM add r = .ok r' := by
  induction h generalizing r with
  | nil => exact hl
  | cons a _ ih =>
    rw [List.foldlM_cons] at hl ⊢
    obtain ⟨r₁, hr₁, hl⟩ := bind_eq_ok.1 hl
    exact bind_eq_ok.2 ⟨r₁, hr₁, ih hl⟩
  | swap a a' l =>
    simp only [List.foldlM_cons, ← bind_assoc] at hl ⊢
    obtain ⟨r₁, hr₁, hl⟩ := bind_eq_ok.1 hl
    exact bind_eq_ok.2 ⟨r₁, hadd _ _ _ _ hr₁, hl⟩
  | trans _ _ ih ih' => exact ih' (ih hl)

/-- An element is refused only because a key is taken. -/
def Refuses {α : Type} (add : Registry → α → Except SchemaError Registry) : Prop :=
  ∀ r a e, add r a = .error e → ∃ key, e = .duplicate key

theorem refuses_addSyntax : Refuses addSyntax := by
  intro r s e h
  unfold addSyntax at h
  by_cases htaken : r.syntaxes.contains s.oid
  · rw [if_pos htaken] at h
    exact ⟨s.oid, (Except.error.inj h).symm⟩
  · rw [if_neg htaken] at h
    cases h

theorem refuses_addRule : Refuses addRule := by
  intro r m e h
  simp only [addRule] at h
  cases hfound : [Text.lower m.oid, Text.lower m.name].find? r.rules.contains with
  | some taken =>
    rw [hfound] at h
    exact ⟨taken, (Except.error.inj h).symm⟩
  | none =>
    rw [hfound] at h
    cases h

theorem refuses_addType : Refuses addType := by
  intro r t e h
  unfold addType at h
  cases hfound : t.keys.find? r.spellings.contains with
  | some taken =>
    rw [hfound] at h
    exact ⟨taken, (Except.error.inj h).symm⟩
  | none =>
    rw [hfound] at h
    cases h

theorem foldlM_eq_error {α : Type} {add : Registry → α → Except SchemaError Registry}
    (hadd : Refuses add) {l : List α} {e : SchemaError} (h : l.foldlM add r = .error e) :
    ∃ key, e = .duplicate key := by
  induction l generalizing r with
  | nil => exact nomatch h
  | cons a l ih =>
    rw [List.foldlM_cons] at h
    cases hr : add r a with
    | ok r₁ =>
      rw [hr] at h
      exact ih h
    | error e' =>
      rw [hr] at h
      exact hadd r a e (hr.trans h)

/-! ## Definitions -/

theorem addAll_rearranged (h : d.Rearranges d') (hd : r.addAll d = .ok r') :
    r.addAll d' = .ok r' := by
  obtain ⟨r₁, h₁, hrest⟩ := bind_eq_ok.1 hd
  obtain ⟨r₂, h₂, h₃⟩ := bind_eq_ok.1 hrest
  exact bind_eq_ok.2 ⟨r₁, foldlM_perm commutes_addSyntax h.syntaxes h₁, bind_eq_ok.2
    ⟨r₂, foldlM_perm commutes_addRule h.rules h₂, foldlM_perm commutes_addType h.types h₃⟩⟩

theorem addAll_eq_error {e : SchemaError} (h : r.addAll d = .error e) :
    ∃ key, e = .duplicate key := by
  unfold addAll at h
  cases h₁ : d.syntaxes.foldlM addSyntax r with
  | error e' =>
    rw [h₁] at h
    exact foldlM_eq_error refuses_addSyntax (h₁.trans h)
  | ok r₁ =>
    rw [h₁] at h
    cases h₂ : d.rules.foldlM addRule r₁ with
    | error e' =>
      simp only [bind, Except.bind, h₂] at h
      exact foldlM_eq_error refuses_addRule (h₂.trans h)
    | ok r₂ =>
      simp only [bind, Except.bind, h₂] at h
      exact foldlM_eq_error refuses_addType h

/-- All is the same, or a key is taken in both orders. -/
theorem ofDefinition_cases (h : d.Rearranges d') : ofDefinition d = ofDefinition d' ∨
    ∃ key key', ofDefinition d = .error (.duplicate key) ∧
      ofDefinition d' = .error (.duplicate key') := by
  unfold ofDefinition
  cases hd : empty.addAll d with
  | ok r => exact .inl (by rw [addAll_rearranged h hd])
  | error e =>
    cases hd' : empty.addAll d' with
    | ok r => exact nomatch hd.symm.trans (addAll_rearranged h.symm hd')
    | error e' =>
      obtain ⟨key, rfl⟩ := addAll_eq_error hd
      obtain ⟨key', rfl⟩ := addAll_eq_error hd'
      exact .inr ⟨key, key', rfl, rfl⟩

/-- The registries answer alike whatever they are asked. -/
structure AnswersAs (r r' : Registry) : Prop where
  resolve (name : String) : r.resolve name = r'.resolve name
  syntaxOf (t : AttributeType) : r.syntaxOf t = r'.syntaxOf t
  ruleFor (t : AttributeType) (slot : RuleSlot) : r.ruleFor t slot = r'.ruleFor t slot
  descendants (t : AttributeType) : r.descendants t = r'.descendants t
  typeCount : r.typeCount = r'.typeCount

/-- **The order in which a definition lists its elements makes no difference.**  Definitions that
list the same elements are both accepted or both refused.  If they are accepted, they make one
registry, which gives the same answer to every question.  If they are refused, it is for the same
reason, unless in both a key is taken, where the reasons may name different keys. -/
theorem ofDefinition_rearranged (h : d.Rearranges d') :
    ((∃ r, ofDefinition d = .ok r) ↔ ∃ r, ofDefinition d' = .ok r) ∧
      (∀ r r', ofDefinition d = .ok r → ofDefinition d' = .ok r' → r = r' ∧ r.AnswersAs r') ∧
      ∀ e, ofDefinition d = .error e → ofDefinition d' = .error e ∨
        ∃ key key', e = .duplicate key ∧ ofDefinition d' = .error (.duplicate key') := by
  obtain heq | ⟨key, key', hd, hd'⟩ := ofDefinition_cases h
  · rw [heq]
    refine ⟨Iff.rfl, fun r r' hr hr' ↦ ?_, fun e he ↦ .inl he⟩
    obtain rfl := Except.ok.inj (hr.symm.trans hr')
    exact ⟨rfl, fun _ ↦ rfl, fun _ ↦ rfl, fun _ _ ↦ rfl, fun _ ↦ rfl, rfl⟩
  · rw [hd, hd']
    refine ⟨iff_of_false nofun nofun, nofun, fun e he ↦ .inr ⟨key, key', ?_, rfl⟩⟩
    exact (Except.error.inj he).symm

/-- Two types that share two names are refused in either order, the one that comes second by the
first name it lists. -/
example :
    let mail : AttributeType := ⟨"3.5", ["mail", "email"], none, none, none, none, none, none⟩
    let address : AttributeType := ⟨"3.6", ["email", "mail"], none, none, none, none, none, none⟩
    (ofDefinition ⟨[], [], [mail, address]⟩).map typeCount = .error (.duplicate "email") ∧
      (ofDefinition ⟨[], [], [address, mail]⟩).map typeCount = .error (.duplicate "mail") := by
  intro mail address
  decide +kernel

/-- Common names may be defined before the names that are above them. -/
theorem ofDefinition_rearranged_names :
    let d : SchemaDefinition := { SchemaDefinition.names with
      rules := SchemaDefinition.names.rules.reverse
      types := [.commonName, .fullName] }
    SchemaDefinition.names.Rearranges d ∧
      ∃ r r', ofDefinition .names = .ok r ∧ ofDefinition d = .ok r' ∧ r.AnswersAs r' ∧
        r'.descendants .fullName = [.commonName] := by
  intro d
  have h : SchemaDefinition.names.Rearranges d :=
    ⟨.refl _, (List.reverse_perm _).symm, .swap _ _ _⟩
  obtain ⟨haccepts, hsame, -⟩ := ofDefinition_rearranged h
  have hnames : ofDefinition .names = .ok names := by
    rw [names]
    cases hd : ofDefinition .names with
    | ok r => rfl
    | error e =>
      have hsome : (ofDefinition .names).toOption.isSome = true := by decide +kernel
      rw [hd] at hsome
      cases hsome
  obtain ⟨r', hr'⟩ := haccepts.1 ⟨_, hnames⟩
  obtain ⟨-, hanswers⟩ := hsame _ _ hnames hr'
  exact ⟨h, names, r', hnames, hr', hanswers,
    (hanswers.descendants .fullName).symm.trans (by decide +kernel)⟩

end Registry
end DirectoryQuery
