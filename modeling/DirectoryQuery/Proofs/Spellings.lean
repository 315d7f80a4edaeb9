import Mathlib.Algebra.BigOperators.Group.Finset.Piecewise
import Mathlib.Algebra.GroupWithZero.Nat
import DirectoryQuery.Proofs.Registrations

/-!
# Spellings of attributes in entries

An entry keeps values under names, a schema leads from names to attribute types, and both take names
in lower case.  Since no two types of a registry share a name, values that are added under a name
are values of the type that the name leads to, and of no other type (`Entry.get_add`).  Under which
of its names they were added makes no difference, and two names of a type that are the same in lower
case do not let its values count twice.
-/

set_option autoImplicit false

namespace DirectoryQuery

open Std

/-! ## Keys of types -/

theorem nodup_eraseDups (l : List String) : l.eraseDups.Nodup := by
  induction hlength : l.length using Nat.strong_induction_on generalizing l with
  | _ n ih =>
    cases l with
    | nil => simp
    | cons a l =>
      have hshorter : (l.filter fun b ↦ !b == a).length < n := by
        have hle := List.length_filter_le (fun b ↦ !b == a) l
        simp only [List.length_cons] at hlength
        omega
      rw [List.eraseDups_cons, List.nodup_cons]
      exact ⟨by simp, ih _ hshorter _ rfl⟩

namespace AttributeType

theorem mem_valueKeys {t : AttributeType} {key : String} : key ∈ t.valueKeys ↔ key ∈ t.keys := by
  simp [valueKeys, keys, or_comm]

theorem nodup_valueKeys (t : AttributeType) : t.valueKeys.Nodup := nodup_eraseDups _

end AttributeType

namespace Entry

/-! ## Values under one key -/

variable {r : Registry} {t u : AttributeType} {e : Entry} {name key : String} {v w : Value}

/-- The values held under exactly this key. -/
def held (e : Entry) (key : String) : List Value := e.attributes[key]?.getD []

theorem get_eq (e : Entry) (t : AttributeType) : e.get t = t.valueKeys.flatMap e.held := rfl

theorem held_add : (e.add name v).held key =
    if Text.lower name = key then e.held key ++ [v] else e.held key := by
  rw [held, add, extend, ExtTreeMap.getElem?_alter]
  simp only [Std.compare_eq_iff_eq]
  split
  · rename_i hkey
    rw [held, hkey]
    rfl
  · rfl

/-- Every value under a key of the type counts once. -/
theorem count_get (e : Entry) (t : AttributeType) (w : Value) :
    (e.get t).count w = ∑ key ∈ t.keys.toFinset, (e.held key).count w := by
  have hkeys : t.keys.toFinset = t.valueKeys.toFinset := by
    ext key
    simp [AttributeType.mem_valueKeys]
  rw [get_eq, List.count_flatMap, hkeys, List.sum_toFinset _ t.nodup_valueKeys]
  rfl

/-- One more value under one of the keys is one more value. -/
theorem perm_get_add (hkey : Text.lower name ∈ t.keys) :
    ((e.add name v).get t).Perm (v :: e.get t) := by
  rw [List.perm_iff_count]
  intro w
  have hadded : ∀ key, ((e.add name v).held key).count w =
      (e.held key).count w + if Text.lower name = key then [v].count w else 0 := by
    intro key
    rw [held_add]
    split <;> simp
  rw [count_get, List.count_cons, count_get]
  simp only [hadded, Finset.sum_add_distrib]
  simp [hkey, List.count_singleton]

/-- A value under no key of the type changes nothing. -/
theorem get_add_of_notMem (hkey : Text.lower name ∉ u.keys) : (e.add name v).get u = e.get u := by
  rw [get_eq, get_eq]
  refine List.flatMap_congr fun key hmem ↦ ?_
  rw [held_add, if_neg]
  rintro rfl
  exact hkey (AttributeType.mem_valueKeys.1 hmem)

/-- **A value that is added under a name is one more value of the type that the name leads to, and
changes nothing about any other type.**  The values of the type are those under its keys, each key
being looked at once. -/
theorem get_add (hr : r.Reachable) (ht : r.resolve name = .ok t) (e : Entry) (v : Value) :
    ((e.add name v).get t).Perm (v :: e.get t) ∧
      (∀ u ∈ r.typeList, u ≠ t → (e.add name v).get u = e.get u) ∧
      ∀ w, (e.get t).count w = ∑ key ∈ t.keys.toFinset, (e.held key).count w := by
  have hcarries := (hr.sound.resolve_iff.1 ht).2
  refine ⟨perm_get_add (AttributeType.lower_mem_keys.2 hcarries), fun u hu hne ↦ ?_, count_get e t⟩
  refine get_add_of_notMem fun hkey ↦ hne ?_
  have hother : r.resolve name = .ok u :=
    hr.sound.resolve_iff.2 ⟨hu, AttributeType.lower_mem_keys.1 hkey⟩
  exact Except.ok.inj (hother.symm.trans ht)

/-- Mail is called the same twice.  A value under its identifier is one more value of it. -/
theorem get_add_coinciding :
    let mail : AttributeType := ⟨"3.5", ["Mail", "mail"], none, none, none, none, none, none⟩
    let r := Registry.after [.type mail, .type .fullName]
    let e := ((Entry.empty 1).add "MAIL" (.text "a")).add "name" (.text "b")
    r.Reachable ∧ r.resolve "3.5" = .ok mail ∧
      ((e.add "3.5" (.text "c")).get mail).Perm [.text "c", .text "a"] ∧
      (e.add "3.5" (.text "c")).get .fullName = [.text "b"] := by
  intro mail r e
  have hr : r.Reachable := Registry.reachable_after _
  have hmail : r.resolve "3.5" = .ok mail := by decide +kernel
  have hname : AttributeType.fullName ∈ r.typeList := by decide +kernel
  have hone : e.get mail = [.text "a"] := by decide +kernel
  have hother : e.get .fullName = [.text "b"] := by decide +kernel
  obtain ⟨hperm, hrest, -⟩ := get_add hr hmail e (.text "c")
  exact ⟨hr, hmail, hone ▸ hperm, (hrest _ hname (by decide)).trans hother⟩

end Entry
end DirectoryQuery
