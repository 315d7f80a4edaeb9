import DirectoryQuery.Evaluator.Subject
import DirectoryQuery.Proofs.Outcome
import DirectoryQuery.Schema.Definition

/-!
# Registries that registration leads to

A registry is made by registering elements, starting from none.  Whatever was registered, and in
whatever order, an attribute type is kept under its own identifier.  So a type that a registry finds
is known by its identifier (`Registry.Reachable.type_unique`), which is what a store has to rely on
when it keeps its indexes by the identifiers of attribute types.
-/

set_option autoImplicit false

namespace DirectoryQuery

open Std

namespace Registry

/-- The registries that registration leads to. -/
inductive Reachable : Registry → Prop
  | empty : Reachable .empty
  | addSyntax {r r' : Registry} (h : Reachable r) (s : ValueSyntax) (hs : r.addSyntax s = .ok r') :
      Reachable r'
  | addRule {r r' : Registry} (h : Reachable r) (rule : MatchingRule)
      (hrule : r.addRule rule = .ok r') : Reachable r'
  | addType {r r' : Registry} (h : Reachable r) (t : AttributeType) (ht : r.addType t = .ok r') :
      Reachable r'

variable {r r' : Registry} {t t' : AttributeType}

theorem addSyntax_eq_ok {s : ValueSyntax} (h : r.addSyntax s = .ok r') :
    r' = { r with syntaxes := r.syntaxes.insert s.oid s } := by
  unfold addSyntax at h
  split at h
  · exact nomatch h
  · exact (Except.ok.inj h).symm

theorem addRule_eq_ok {rule : MatchingRule} (h : r.addRule rule = .ok r') :
    ∃ rules, r' = { r with rules } := by
  simp only [addRule] at h
  split at h
  · exact nomatch h
  · exact ⟨_, (Except.ok.inj h).symm⟩

theorem addType_eq_ok (h : r.addType t = .ok r') :
    t.keys.find? r.spellings.contains = none ∧
      r' = { r with
        types := r.types.insert t.oid t
        spellings := t.keys.foldl (fun spellings key ↦ spellings.insert key t.oid)
          r.spellings } := by
  unfold addType at h
  split at h
  · exact nomatch h
  · rename_i hfree
    exact ⟨hfree, (Except.ok.inj h).symm⟩

/-- An attribute type is kept under its own identifier. -/
theorem Reachable.oid_eq (h : Reachable r) {oid : String} (ht : r.types[oid]? = some t) :
    t.oid = oid := by
  induction h with
  | empty => exact absurd ht (by simp [Registry.empty])
  | addSyntax _ s hs ih =>
    rw [addSyntax_eq_ok hs] at ht
    exact ih ht
  | addRule _ rule hrule ih =>
    obtain ⟨rules, rfl⟩ := addRule_eq_ok hrule
    exact ih ht
  | addType _ u hu ih =>
    obtain ⟨-, rfl⟩ := addType_eq_ok hu
    rw [ExtTreeMap.getElem?_insert] at ht
    split at ht
    · rename_i hcompare
      rw [← Option.some.inj ht]
      exact Std.compare_eq_iff_eq.1 hcompare
    · exact ih ht

theorem types_of_resolve {name : String} (h : r.resolve name = .ok t) :
    ∃ oid : String, r.types[oid]? = some t := by
  unfold resolve at h
  split at h
  · rename_i u hfind
    obtain rfl := Except.ok.inj h
    obtain ⟨oid, -, hoid⟩ := Option.bind_eq_some_iff.1 hfind
    exact ⟨oid, hoid⟩
  · exact nomatch h

/-- **Types that are found under any names and have one identifier are the same.** -/
theorem Reachable.type_unique (h : Reachable r) {name name' : String}
    (ht : r.resolve name = .ok t) (ht' : r.resolve name' = .ok t') (hoid : t.oid = t'.oid) :
    t = t' := by
  obtain ⟨oid, hget⟩ := types_of_resolve ht
  obtain ⟨oid', hget'⟩ := types_of_resolve ht'
  rw [← h.oid_eq hget] at hget
  rw [← h.oid_eq hget', ← hoid] at hget'
  exact Option.some.inj (hget.symm.trans hget')

/-! ## Registries of definitions -/

theorem Reachable.addEach {α : Type} {add : Registry → α → Except SchemaError Registry}
    (hadd : ∀ r r' a, Reachable r → add r a = .ok r' → Reachable r') {l : List α}
    (h : Reachable r) (hl : l.foldlM add r = .ok r') : Reachable r' := by
  induction l generalizing r with
  | nil => exact Except.ok.inj hl ▸ h
  | cons a l ih =>
    rw [List.foldlM_cons] at hl
    obtain ⟨r₁, hr₁, hl⟩ := bind_eq_ok.1 hl
    exact ih (hadd r r₁ a h hr₁) hl

/-- The registry of a definition is one that registration leads to. -/
theorem reachable_ofDefinition {d : SchemaDefinition} (h : ofDefinition d = .ok r) :
    Reachable r := by
  obtain ⟨r₀, h₀, hrest⟩ := bind_eq_ok.1 h
  obtain ⟨-, -, hr⟩ := bind_eq_ok.1 hrest
  obtain rfl := Except.ok.inj hr
  obtain ⟨r₁, h₁, hrest⟩ := bind_eq_ok.1 h₀
  obtain ⟨r₂, h₂, h₃⟩ := bind_eq_ok.1 hrest
  have hsyntaxes := Reachable.empty.addEach (fun _ _ s hr hs ↦ hr.addSyntax s hs) h₁
  have hrules := hsyntaxes.addEach (fun _ _ rule hr hrule ↦ hr.addRule rule hrule) h₂
  exact hrules.addEach (fun _ _ t hr ht ↦ hr.addType t ht) h₃

/-- The registry of a definition, or an empty one if the definition is refused. -/
theorem reachable_getD (d : SchemaDefinition) :
    Reachable ((ofDefinition d).toOption.getD .empty) := by
  cases h : ofDefinition d with
  | ok r => exact reachable_ofDefinition h
  | error e => exact .empty

end Registry

/-! ## A small schema -/

/-- Names, whose equality ignores case while their order does not. -/
def AttributeType.fullName : AttributeType :=
  ⟨"3.1", ["name"], none, some "1.1", some "2.1", some "2.2", none, none⟩

/-- Common names, which are names. -/
def AttributeType.commonName : AttributeType :=
  ⟨"3.2", ["cn"], some "name", none, none, none, none, none⟩

/-- A schema of names and common names. -/
def SchemaDefinition.names : SchemaDefinition where
  syntaxes := [⟨"1.1", "text", true⟩]
  rules := [⟨"2.1", "caseIgnoreMatch", .squeezedLower, .lexical⟩,
    ⟨"2.2", "codePointOrderingMatch", .identity, .lexical⟩]
  types := [.fullName, .commonName]

namespace Registry

/-- The registry of names and common names. -/
def names : Registry := (ofDefinition .names).toOption.getD .empty

theorem reachable_names : names.Reachable := reachable_getD _

end Registry

/-! ## Subjects -/

/-- A clause is about a type that the registry finds under the name in the clause. -/
theorem Subject.resolve_eq_ok {r : Registry} {name : String} {slots : List RuleSlot} {s : Subject}
    (h : Subject.resolve r name slots = .ok s) :
    r.resolve name = .ok s.type ∧ s.descendants = r.descendants s.type ∧
      r.firstRule s.type slots = .ok s.rule := by
  obtain ⟨t, ht, hrest⟩ := bind_eq_ok.1 h
  obtain ⟨valueSyntax, -, hrest⟩ := bind_eq_ok.1 hrest
  obtain ⟨rule, hrule, hs⟩ := bind_eq_ok.1 hrest
  obtain rfl := Except.ok.inj hs
  exact ⟨mapError_eq_ok.1 ht, rfl, mapError_eq_ok.1 hrule⟩

end DirectoryQuery
