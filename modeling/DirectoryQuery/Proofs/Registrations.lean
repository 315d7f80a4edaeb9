import Mathlib.Data.List.Induction
import DirectoryQuery.Proofs.Stores

/-!
# What registrations leave behind

A registry is built in place.  Registering an element first asks whether one of its keys is taken
and then makes its entries one after another (`Element.enter`), so that a failure halfway would
leave the first of them behind.  There is no such failure: an element is entered as a whole, or the
registry stays as it was (`Registry.trial_eq`).

An attribute type has an entry for each of its spellings and one for itself.  The two tables always
go together (`Registry.Sound`), so a name leads to a type exactly if the type was registered and
carries that name, whatever else was tried before, in between or afterwards
(`Registry.resolve_after`).
-/

set_option autoImplicit false

namespace DirectoryQuery

open Std

/-! ## Names of types -/

namespace AttributeType

/-- The type is called so, by its identifier or by one of its names, in whatever case. -/
def Carries (t : AttributeType) (name : String) : Prop :=
  ∃ spelling ∈ t.oid :: t.names, Text.lower spelling = Text.lower name

theorem lower_mem_keys {t : AttributeType} {name : String} :
    Text.lower name ∈ t.keys ↔ t.Carries name := by
  simp [keys, Carries, eq_comm]

theorem lower_oid_mem_keys (t : AttributeType) : Text.lower t.oid ∈ t.keys := by
  simp [keys]

end AttributeType

/-! ## Registering in place -/

/-- An element of a schema. -/
inductive Element where
  | valueSyntax (s : ValueSyntax)
  | rule (m : MatchingRule)
  | type (t : AttributeType)
deriving DecidableEq, Repr

namespace Registry

/-- Work on a registry in place.  What was entered before a failure stays. -/
abbrev Work := ExceptT SchemaError (StateM Registry)

/-- Fails if a key is taken. -/
def refuse : Option String → Work Unit
  | some taken => throw (.duplicate taken)
  | none => return ()

/-- The registry with a matching rule under one more key. -/
def withRule (m : MatchingRule) (r : Registry) (key : String) : Registry :=
  { r with rules := r.rules.insert key m }

/-- The registry with one more spelling of the attribute type with that identifier. -/
def withSpelling (oid : String) (r : Registry) (key : String) : Registry :=
  { r with spellings := r.spellings.insert key oid }

/-- Makes one entry for each key. -/
def enterEach (entered : Registry → String → Registry) (keys : List String) : Work Unit :=
  keys.forM fun key ↦ modify (entered · key)

end Registry

/-- Registers an element, entry by entry. -/
def Element.enter : Element → Registry.Work Unit
  | .valueSyntax s => do
    Registry.refuse ([s.oid].find? (← get).syntaxes.contains)
    modify fun r ↦ { r with syntaxes := r.syntaxes.insert s.oid s }
  | .rule m => do
    let keys := [Text.lower m.oid, Text.lower m.name]
    Registry.refuse (keys.find? (← get).rules.contains)
    Registry.enterEach (Registry.withRule m) keys
  | .type t => do
    Registry.refuse (t.keys.find? (← get).spellings.contains)
    Registry.enterEach (Registry.withSpelling t.oid) t.keys
    modify fun r ↦ { r with types := r.types.insert t.oid t }

namespace Registry

variable {r r' : Registry} {t t' : AttributeType} {e : Element} {name : String}

/-- Registers an element. -/
def register (r : Registry) : Element → Except SchemaError Registry
  | .valueSyntax s => r.addSyntax s
  | .rule m => r.addRule m
  | .type t => r.addType t

/-- How the registration of an element ends, and the registry afterwards. -/
def trial (r : Registry) (e : Element) : Except SchemaError Unit × Registry :=
  StateT.run e.enter.run r

/-- The registry after registrations, those that failed included. -/
def after (elements : List Element) : Registry :=
  elements.foldl (fun r e ↦ (r.trial e).2) empty

/-- The registration of the type was one of the registrations, and it succeeded. -/
def Registered (elements : List Element) (t : AttributeType) : Prop :=
  ∃ before later, elements = before ++ .type t :: later ∧
    ((after before).trial (.type t)).1 = .ok ()

/-- What an outcome makes of a registry. -/
def settle (r : Registry) : Except SchemaError Registry → Except SchemaError Unit × Registry
  | .ok r' => (.ok (), r')
  | .error e => (.error e, r)

theorem run_enterEach (entered : Registry → String → Registry) (keys : List String)
    (r : Registry) :
    StateT.run (enterEach entered keys).run r = (.ok (), keys.foldl entered r) := by
  induction keys generalizing r with
  | nil => rfl
  | cons key keys ih => exact ih (entered r key)

theorem foldl_withSpelling (oid : String) (keys : List String) (r : Registry) :
    keys.foldl (withSpelling oid) r = { r with
      spellings := keys.foldl (fun spellings key ↦ spellings.insert key oid) r.spellings } :=
  List.foldl_hom (fun spellings ↦ { r with spellings }) fun _ _ ↦ rfl

theorem run_refuse_some (key : String) (work : Work Unit) (r : Registry) :
    StateT.run (refuse (some key) >>= fun _ ↦ work).run r = (.error (.duplicate key), r) := rfl

theorem run_refuse_none (work : Work Unit) (r : Registry) :
    StateT.run (refuse none >>= fun _ ↦ work).run r = StateT.run work.run r := rfl

/-- **An element is registered as a whole, or the registry stays as it was.** -/
theorem trial_eq (r : Registry) (e : Element) : r.trial e = r.settle (r.register e) := by
  cases e with
  | valueSyntax s =>
    show StateT.run (refuse ([s.oid].find? r.syntaxes.contains) >>= fun _ ↦
      modify fun r ↦ { r with syntaxes := r.syntaxes.insert s.oid s }).run r =
        r.settle (r.addSyntax s)
    rw [addSyntax]
    by_cases htaken : r.syntaxes.contains s.oid
    · simp only [htaken, List.find?_cons, if_true, run_refuse_some, settle]
    · simp only [htaken, List.find?_cons, List.find?_nil, run_refuse_none, settle]
      rfl
  | rule m =>
    let keys := [Text.lower m.oid, Text.lower m.name]
    show StateT.run (refuse (keys.find? r.rules.contains) >>= fun _ ↦
      enterEach (withRule m) keys).run r = r.settle (r.addRule m)
    simp only [addRule]
    cases keys.find? r.rules.contains with
    | some taken => rfl
    | none => rfl
  | type t =>
    show StateT.run (refuse (t.keys.find? r.spellings.contains) >>= fun _ ↦
      enterEach (withSpelling t.oid) t.keys >>= fun _ ↦
        modify fun r ↦ { r with types := r.types.insert t.oid t }).run r = r.settle (r.addType t)
    simp only [addType]
    cases t.keys.find? r.spellings.contains with
    | some taken => rfl
    | none =>
      have hspelled := run_enterEach (withSpelling t.oid) t.keys r
      rw [foldl_withSpelling] at hspelled
      rw [run_refuse_none, run_bind_ok hspelled]
      rfl

/-! ## The two tables of types -/

/-- The tables go together: a type is spelled by its keys, and no key is left without its type. -/
structure Sound (r : Registry) : Prop where
  spelled : ∀ {oid key : String} {t}, r.types[oid]? = some t → key ∈ t.keys →
    r.spellings[key]? = some oid
  known : ∀ {key oid : String}, r.spellings[key]? = some oid →
    ∃ t, r.types[oid]? = some t ∧ key ∈ t.keys

theorem getElem?_foldl_insert {α : Type} (keys : List String) (m : ExtTreeMap String α) (a : α)
    (key : String) : (keys.foldl (fun m key ↦ m.insert key a) m)[key]? =
      if key ∈ keys then some a else m[key]? := by
  induction keys generalizing m with
  | nil => simp
  | cons first keys ih =>
    rw [List.foldl_cons, ih, ExtTreeMap.getElem?_insert]
    simp only [Std.compare_eq_iff_eq]
    by_cases hkey : key ∈ keys <;> by_cases hfirst : first = key <;>
      simp [hkey, hfirst, Ne.symm]

theorem sound_empty : Sound .empty where
  spelled h := absurd h (by simp [empty])
  known h := absurd h (by simp [empty])

theorem spelling_of_free (hfree : t.keys.find? r.spellings.contains = none) {key : String}
    (hkey : key ∈ t.keys) : r.spellings[key]? = none := by
  simpa using List.find?_eq_none.1 hfree key hkey

/-- No type is kept under the identifier of a type that can be registered, for the identifier is one
of its spellings. -/
theorem Sound.types_of_free (h : r.Sound) (hr : r.Reachable)
    (hfree : t.keys.find? r.spellings.contains = none) : r.types[t.oid]? = none := by
  rw [Option.eq_none_iff_forall_ne_some]
  intro u hu
  have htaken := h.spelled hu u.lower_oid_mem_keys
  rw [hr.oid_eq hu, spelling_of_free hfree t.lower_oid_mem_keys] at htaken
  exact nomatch htaken

theorem Sound.addType (h : r.Sound) (hr : r.Reachable) (ht : r.addType t = .ok r') :
    r'.Sound := by
  obtain ⟨hfree, rfl⟩ := addType_eq_ok ht
  have hnone := h.types_of_free hr hfree
  constructor
  · intro oid key u hu hkey
    simp only [ExtTreeMap.getElem?_insert, Std.compare_eq_iff_eq] at hu
    rw [getElem?_foldl_insert]
    split at hu
    · rename_i hoid
      obtain rfl := Option.some.inj hu
      rw [if_pos hkey, hoid]
    · -- none of the new keys was taken, so an older type keeps all of its own
      have hold := h.spelled hu hkey
      rw [if_neg fun hmem ↦ by simp [spelling_of_free hfree hmem] at hold, hold]
  · intro key oid hkey
    rw [getElem?_foldl_insert] at hkey
    split at hkey
    · rename_i hmem
      obtain rfl := Option.some.inj hkey
      exact ⟨t, ExtTreeMap.getElem?_insert_self, hmem⟩
    · obtain ⟨u, hu, hmem⟩ := h.known hkey
      refine ⟨u, ?_, hmem⟩
      -- the new type takes nobody's place
      rw [ExtTreeMap.getElem?_insert, if_neg, hu]
      simp only [Std.compare_eq_iff_eq]
      rintro rfl
      simp [hnone] at hu

theorem Reachable.sound (h : Reachable r) : r.Sound := by
  induction h with
  | empty => exact sound_empty
  | addSyntax _ s hs ih =>
    rw [addSyntax_eq_ok hs]
    exact ⟨ih.spelled, ih.known⟩
  | addRule _ m hm ih =>
    obtain ⟨rules, rfl⟩ := addRule_eq_ok hm
    exact ⟨ih.spelled, ih.known⟩
  | addType h t ht ih => exact ih.addType h ht

theorem mem_typeList : t ∈ r.typeList ↔ ∃ oid : String, r.types[oid]? = some t := by
  rw [typeList, values_eq_map_toList, List.mem_map]
  constructor
  · rintro ⟨⟨oid, u⟩, hmem, rfl⟩
    exact ⟨oid, ExtTreeMap.mem_toList_iff_getElem?_eq_some.1 hmem⟩
  · rintro ⟨oid, hget⟩
    exact ⟨(oid, t), ExtTreeMap.mem_toList_iff_getElem?_eq_some.2 hget, rfl⟩

theorem resolve_eq_ok : r.resolve name = .ok t ↔ r.find? name = some t := by
  unfold resolve
  cases r.find? name with
  | none => exact ⟨nofun, nofun⟩
  | some u => exact ⟨fun h ↦ congrArg _ (Except.ok.inj h), fun h ↦ congrArg _ (Option.some.inj h)⟩

/-- A name leads to a type exactly if the registry has the type and the type carries the name. -/
theorem Sound.resolve_iff (h : r.Sound) :
    r.resolve name = .ok t ↔ t ∈ r.typeList ∧ t.Carries name := by
  rw [resolve_eq_ok, find?, Option.bind_eq_some_iff, mem_typeList, ← AttributeType.lower_mem_keys]
  constructor
  · rintro ⟨oid, hoid, ht⟩
    obtain ⟨u, hu, hmem⟩ := h.known hoid
    obtain rfl := Option.some.inj (ht.symm.trans hu)
    exact ⟨⟨oid, ht⟩, hmem⟩
  · rintro ⟨⟨oid, ht⟩, hmem⟩
    exact ⟨oid, h.spelled ht hmem, ht⟩

/-! ## Histories of registrations -/

theorem after_concat (elements : List Element) (e : Element) :
    after (elements ++ [e]) = ((after elements).trial e).2 := by
  simp [after]

theorem trial_of_error {x : SchemaError} (h : (r.trial e).1 = .error x) : (r.trial e).2 = r := by
  rw [trial_eq] at h ⊢
  cases hr : r.register e with
  | ok r' => simp [hr, settle] at h
  | error y => rfl

theorem trial_of_ok (h : (r.trial e).1 = .ok ()) : r.register e = .ok (r.trial e).2 := by
  rw [trial_eq] at h ⊢
  cases hr : r.register e with
  | ok r' => rfl
  | error y => simp [hr, settle] at h

theorem Reachable.register (h : Reachable r) (he : r.register e = .ok r') : Reachable r' := by
  cases e with
  | valueSyntax s => exact h.addSyntax s he
  | rule m => exact h.addRule m he
  | type t => exact h.addType t he

/-- Registrations lead to a registry that successful registrations alone lead to. -/
theorem reachable_after (elements : List Element) : Reachable (after elements) := by
  induction elements using List.reverseRecOn with
  | nil => exact .empty
  | append_singleton elements e ih =>
    rw [after_concat]
    cases h : ((after elements).trial e).1 with
    | ok => exact ih.register (trial_of_ok h)
    | error x => rwa [trial_of_error h]

/-- One registration adds a type to the registry exactly if it registers it and succeeds. -/
theorem Reachable.mem_typeList_trial (h : Reachable r) :
    t ∈ (r.trial e).2.typeList ↔ t ∈ r.typeList ∨ e = .type t ∧ (r.trial e).1 = .ok () := by
  cases hend : (r.trial e).1 with
  | error x =>
    rw [trial_of_error hend]
    simp
  | ok =>
    have hr := trial_of_ok hend
    generalize (r.trial e).2 = r' at hr
    cases e with
    | valueSyntax s =>
      rw [addSyntax_eq_ok hr]
      simp [typeList]
    | rule m =>
      obtain ⟨rules, rfl⟩ := addRule_eq_ok hr
      simp [typeList]
    | type u =>
      obtain ⟨hfree, rfl⟩ := addType_eq_ok hr
      have hnone := h.sound.types_of_free h hfree
      simp only [mem_typeList, ExtTreeMap.getElem?_insert, Std.compare_eq_iff_eq]
      constructor
      · rintro ⟨oid, hget⟩
        split at hget
        · exact .inr ⟨congrArg _ (Option.some.inj hget), trivial⟩
        · exact .inl ⟨oid, hget⟩
      · rintro (⟨oid, hget⟩ | ⟨heq, -⟩)
        · refine ⟨oid, ?_⟩
          rwa [if_neg]
          rintro rfl
          simp [hnone] at hget
        · exact ⟨u.oid, by rw [if_pos rfl, Element.type.inj heq]⟩

theorem registered_concat {elements : List Element} :
    Registered (elements ++ [e]) t ↔
      Registered elements t ∨ e = .type t ∧ ((after elements).trial e).1 = .ok () := by
  constructor
  · rintro ⟨before, later, heq, hend⟩
    cases later using List.reverseRecOn with
    | nil =>
      obtain ⟨rfl, he⟩ := List.append_inj' heq rfl
      obtain rfl := List.head_eq_of_cons_eq he
      exact .inr ⟨rfl, hend⟩
    | append_singleton later last =>
      rw [← List.cons_append, ← List.append_assoc] at heq
      obtain ⟨rfl, -⟩ := List.append_inj' heq rfl
      exact .inl ⟨before, later, rfl, hend⟩
  · rintro (⟨before, later, rfl, hend⟩ | ⟨rfl, hend⟩)
    · exact ⟨before, later ++ [e], by simp, hend⟩
    · exact ⟨elements, [], rfl, hend⟩

theorem mem_typeList_after {elements : List Element} :
    t ∈ (after elements).typeList ↔ Registered elements t := by
  induction elements using List.reverseRecOn with
  | nil => simp [after, Registered, mem_typeList, empty]
  | append_singleton elements e ih =>
    rw [after_concat, (reachable_after elements).mem_typeList_trial, registered_concat, ih]

theorem Registered.append {elements : List Element} (h : Registered elements t)
    (later : List Element) : Registered (elements ++ later) t := by
  obtain ⟨before, between, rfl, hend⟩ := h
  exact ⟨before, between ++ later, by simp, hend⟩

/-- **What a name leads to after registrations of any kind, in any order, failures included.**  It
leads to a type exactly if that type was registered and carries the name.  An element that is
refused might as well never have been tried, and a name that leads to a type will always lead to
it. -/
theorem resolve_after (elements : List Element) :
    (∀ t name, (after elements).resolve name = .ok t ↔ Registered elements t ∧ t.Carries name) ∧
    (∀ e x, ((after elements).trial e).1 = .error x →
      ∀ later, after (elements ++ e :: later) = after (elements ++ later)) ∧
    ∀ later t name, (after elements).resolve name = .ok t →
      (after (elements ++ later)).resolve name = .ok t := by
  have hresolve : ∀ elements t name,
      (after elements).resolve name = .ok t ↔ Registered elements t ∧ t.Carries name := by
    intro elements t name
    rw [(reachable_after elements).sound.resolve_iff, mem_typeList_after]
  refine ⟨hresolve elements, ?_, ?_⟩
  · intro e x hx later
    have hsame : ((after elements).trial e).2 = after elements := trial_of_error hx
    simp only [after, List.foldl_append, List.foldl_cons] at hsame ⊢
    rw [hsame]
  · intro later t name ht
    rw [hresolve] at ht ⊢
    exact ⟨ht.1.append later, ht.2⟩

/-- A type that clashes with common names in its second name leaves no trace of its first one. -/
theorem resolve_after_clash :
    let clash : AttributeType := ⟨"3.3", ["surname", "CN"], none, none, none, none, none, none⟩
    let elements : List Element := [.type .fullName, .type .commonName]
    ((after elements).trial (.type clash)).1 = .error (.duplicate "cn") ∧
      after (elements ++ [.type clash]) = after elements ∧
      (after (elements ++ [.type clash])).resolve "Cn" = .ok .commonName := by
  intro clash elements
  obtain ⟨hresolve, hrefused, hlater⟩ := resolve_after elements
  have hclash : ((after elements).trial (.type clash)).1 = .error (.duplicate "cn") := by
    decide +kernel
  have hregistered : Registered elements .commonName :=
    ⟨[.type .fullName], [], rfl, by decide +kernel⟩
  have hcarries : AttributeType.commonName.Carries "Cn" := ⟨"cn", by decide, by decide +kernel⟩
  exact ⟨hclash, (hrefused _ _ hclash []).trans (by simp),
    hlater _ _ _ ((hresolve _ _).2 ⟨hregistered, hcarries⟩)⟩

end Registry
end DirectoryQuery
