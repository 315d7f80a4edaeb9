import DirectoryQuery.Log.Line
import DirectoryQuery.Proofs.Renderings

/-!
# Log lines say what was logged

A log is read line by line, and each line on its own.  That needs two things of what is written for
a line: no end of line within it, whatever is in the texts that are logged, and a value in it that
is read back.  The first holds of all JSON that is written, since no control character stands for
itself (`Json.printable_chars`); for the second it matters that the end of line behind the value is
a space to a reader of JSON.

The fields of a line are sorted by their keys, and if these differ, then there is only one way to
sort them.  So the line does not depend on the order in which the fields were given
(`LogLine.render_perm`), and each key leads to its own text (`LogLine.decodes`).
-/

set_option autoImplicit false

namespace DirectoryQuery
namespace Json

/-! ## No control characters -/

/-- No character is a control character below U+0020. -/
def Printable (cs : List Char) : Prop := ∀ c ∈ cs, 0x20 ≤ c.toNat

instance : DecidablePred Printable := fun cs ↦
  decidable_of_iff (cs.all (0x20 ≤ ·.toNat) = true) (by simp [Printable])

variable {c : Char} {cs cs' : List Char}

theorem Printable.cons (hc : 0x20 ≤ c.toNat) (h : Printable cs) : Printable (c :: cs) :=
  List.forall_mem_cons.2 ⟨hc, h⟩

theorem Printable.append (h : Printable cs) (h' : Printable cs') : Printable (cs ++ cs') :=
  List.forall_mem_append.2 ⟨h, h'⟩

theorem Printable.newline_not_mem (h : Printable cs) : '\n' ∉ cs :=
  fun hmem ↦ absurd (h _ hmem) (by decide)

theorem printable_escape (c : Char) : Printable (escape c) := by
  obtain ⟨d, -, hescaped, heq⟩ | ⟨hlow, heq⟩ | ⟨-, -, hhigh, heq⟩ := Scanner.escape_cases c
  · have hd : 0x20 ≤ d.toNat := by
      unfold escaped? at hescaped
      split at hescaped
      all_goals first | decide | cases hescaped
    rw [heq]
    exact .cons (by decide) (.cons hd nofun)
  · have hdigit : ∀ n < 16, 0x20 ≤ (hexChar n).toNat := by decide
    have hfirst := hdigit (c.toNat / 16) (by omega)
    have hlast := hdigit (c.toNat % 16) (by omega)
    have hlead : Printable ['\\', 'u', '0', '0'] := by decide
    rw [heq]
    exact hlead.append (.cons hfirst (.cons hlast nofun))
  · rw [heq]
    exact .cons hhigh nofun

theorem printable_stringChars (s : String) : Printable (stringChars s) := by
  refine .cons (by decide) (.append (fun c hc ↦ ?_) (.cons (by decide) nofun))
  obtain ⟨d, -, hd⟩ := List.mem_flatMap.1 hc
  exact printable_escape d c hd

theorem printable_numeralChars (n : Numeral) : Printable (numeralChars n) := by
  have hcontrol : ∀ m < 0x20, isBare (Char.ofNat m) = false := by decide
  intro c hc
  have hbare : isBare c = true := List.all_eq_true.1 (all_isBare_numeralChars n) c hc
  rcases Nat.lt_or_ge c.toNat 0x20 with hlow | hhigh
  · have hnot := hcontrol c.toNat hlow
    rw [Char.ofNat_toNat, hbare] at hnot
    cases hnot
  · exact hhigh

mutual
/-- **No control character is written**, whatever is in the texts of the value. -/
theorem printable_chars : ∀ j : Json, Printable j.chars
  | null | bool true | bool false | unreadable => by
    rw [chars]
    decide
  | number n => printable_numeralChars n
  | string s => printable_stringChars s
  | array items => .cons (by decide) ((printable_itemsChars items).append (.cons (by decide) nofun))
  | object members =>
    .cons (by decide) ((printable_membersChars members).append (.cons (by decide) nofun))
theorem printable_itemsChars : ∀ items : List Json, Printable (itemsChars items)
  | [] => nofun
  | item :: items => (printable_chars item).append (printable_moreItemsChars items)
theorem printable_moreItemsChars : ∀ items : List Json, Printable (moreItemsChars items)
  | [] => nofun
  | item :: items =>
    .cons (by decide) ((printable_chars item).append (printable_moreItemsChars items))
theorem printable_membersChars : ∀ members : List (String × Json),
    Printable (membersChars members)
  | [] => nofun
  | (key, value) :: members =>
    ((printable_stringChars key).append (.cons (by decide) (printable_chars value))).append
      (printable_moreMembersChars members)
theorem printable_moreMembersChars : ∀ members : List (String × Json),
    Printable (moreMembersChars members)
  | [] => nofun
  | (key, value) :: members => .cons (by decide)
      (((printable_stringChars key).append (.cons (by decide) (printable_chars value))).append
        (printable_moreMembersChars members))
end

/-- A value on a line of its own is read as it was written. -/
theorem read?_line {j : Json} (h : j.Legible) (hdepth : j.depth ≤ maxDepth) :
    read? (j.render ++ "\n") = some j := by
  have htokens : tokens? (j.render ++ "\n").toList = some j.tokens := by
    rw [String.toList_append, render, String.toList_ofList]
    exact tokens?_chars_space h rfl
  rw [read?_of_tokens? htokens, clip_of_depth_le hdepth]

/-! ## Members whose keys differ -/

variable {members : List (String × Json)} {key : String} {value : Json}

theorem keepLast_of_nodup (h : (members.map Prod.fst).Nodup) : keepLast members = members := by
  induction members with
  | nil => rfl
  | cons m members ih =>
    obtain ⟨key, value⟩ := m
    rw [List.map_cons, List.nodup_cons] at h
    have hany : ¬(members.any fun m ↦ m.1 == key) = true := by
      rw [List.any_eq_true]
      rintro ⟨m, hm, hkey⟩
      exact h.1 (List.mem_map.2 ⟨m, hm, eq_of_beq hkey⟩)
    rw [keepLast, if_neg hany, ih h.2]

theorem mem_of_member? (h : member? key members = some value) : (key, value) ∈ members := by
  induction members with
  | nil => cases h
  | cons m members ih =>
    obtain ⟨key', value'⟩ := m
    rw [member?] at h
    split at h
    · cases h
      exact List.mem_cons_of_mem _ (ih (by assumption))
    · split at h
      · next hkey =>
        cases h
        exact hkey ▸ List.mem_cons_self
      · cases h

/-- Each key leads to the value it stands with. -/
theorem member?_eq_some_iff (h : (members.map Prod.fst).Nodup) :
    member? key members = some value ↔ (key, value) ∈ members := by
  refine ⟨mem_of_member?, fun hmem ↦ ?_⟩
  induction members with
  | nil => cases hmem
  | cons m members ih =>
    rw [List.map_cons, List.nodup_cons] at h
    cases hmem with
    | head =>
      cases hlater : member? key members with
      | none => rw [member?, hlater]; exact if_pos rfl
      | some later => exact absurd (List.mem_map.2 ⟨_, mem_of_member? hlater, rfl⟩) h.1
    | tail _ hmem => rw [member?, ih h.2 hmem]

/-- The members that are texts. -/
def textMembers (members : List (String × String)) : List (String × Json) :=
  members.map fun m ↦ (m.1, .string m.2)

theorem map_fst_textMembers (members : List (String × String)) :
    (textMembers members).map Prod.fst = members.map Prod.fst := List.map_map

theorem mem_textMembers {members : List (String × String)} :
    (key, value) ∈ textMembers members ↔ ∃ text, value = .string text ∧ (key, text) ∈ members := by
  rw [textMembers, List.mem_map]
  constructor
  · rintro ⟨⟨key, text⟩, hm, heq⟩
    cases heq
    exact ⟨text, rfl, hm⟩
  · rintro ⟨text, rfl, hm⟩
    exact ⟨_, hm, rfl⟩

theorem legible_textMembers (members : List (String × String)) :
    (object (textMembers members)).Legible := by
  refine legibleMembers_iff.2 fun m hm ↦ ?_
  obtain ⟨text, htext, -⟩ := mem_textMembers.1 hm
  rw [htext]
  trivial

theorem depth_textMembers_le (members : List (String × String)) :
    (object (textMembers members)).depth ≤ 1 := by
  refine Nat.succ_le_succ (depthMembers_le_iff.2 fun m hm ↦ ?_)
  obtain ⟨text, htext, -⟩ := mem_textMembers.1 hm
  rw [htext]
  exact Nat.zero_le 0

theorem memberValues?_textMembers (members : List (String × String)) :
    memberValues? (textMembers members) = some (textMembers members) := by
  induction members with
  | nil => rfl
  | cons m members ih =>
    rw [textMembers] at ih ⊢
    rw [List.map_cons, memberValues?, ih]
    rfl

end Json

/-! ## Lines -/

namespace LogLine

variable {l : LogLine}

theorem sortedFields_perm (l : LogLine) : l.sortedFields.Perm l.fields := List.mergeSort_perm _ _

/-- Fields with different keys are in strictly ascending order. -/
theorem pairwise_sortedFields (h : (l.fields.map Prod.fst).Nodup) :
    l.sortedFields.Pairwise fun f g ↦ f.1 < g.1 := by
  have htrans : ∀ f g k : String × String, decide (f.1 ≤ g.1) = true →
      decide (g.1 ≤ k.1) = true → decide (f.1 ≤ k.1) = true := fun f g k hfg hgk ↦
    decide_eq_true (String.le_trans (of_decide_eq_true hfg) (of_decide_eq_true hgk))
  have htotal : ∀ f g : String × String, (decide (f.1 ≤ g.1) || decide (g.1 ≤ f.1)) = true := by
    intro f g
    rw [Bool.or_eq_true, decide_eq_true_iff, decide_eq_true_iff]
    exact String.le_total f.1 g.1
  have hsorted := List.pairwise_mergeSort htrans htotal l.fields
  have hdistinct : l.sortedFields.Pairwise fun f g ↦ f.1 ≠ g.1 :=
    List.pairwise_map.1 ((l.sortedFields_perm.map Prod.fst).nodup_iff.2 h)
  refine List.Pairwise.imp₂ (fun f g hle hne ↦ ?_) hsorted hdistinct
  exact String.not_le.1 fun hge ↦ hne (String.le_antisymm (of_decide_eq_true hle) hge)

/-- There is only one way to sort fields whose keys differ. -/
theorem sortedFields_eq (h : (l.fields.map Prod.fst).Nodup) (l' : LogLine)
    (hperm : l'.fields.Perm l.fields) : l'.sortedFields = l.sortedFields := by
  have h' : (l'.fields.map Prod.fst).Nodup := (hperm.map Prod.fst).nodup_iff.2 h
  refine List.Perm.eq_of_pairwise (fun f g _ _ hfg hgf ↦ ?_) (pairwise_sortedFields h')
    (pairwise_sortedFields h) ((l'.sortedFields_perm.trans hperm).trans l.sortedFields_perm.symm)
  exact absurd (String.lt_trans hfg hgf) (String.lt_irrefl _)

/-- The members of a line, in their order. -/
def members (l : LogLine) : List (String × String) :=
  ("event", l.event) :: ("severity", l.severity.label) :: l.sortedFields

theorem toJson_eq (l : LogLine) : l.toJson = .object (Json.textMembers l.members) := rfl

theorem read?_render (l : LogLine) :
    Json.read? l.render = some (.object (Json.textMembers l.members)) := by
  rw [render, toJson_eq]
  exact Json.read?_line (Json.legible_textMembers _)
    (Nat.le_trans (Json.depth_textMembers_le _) (by decide))

theorem nodup_members (h : ("event" :: "severity" :: l.fields.map Prod.fst).Nodup) :
    ((Json.textMembers l.members).map Prod.fst).Nodup := by
  rw [Json.map_fst_textMembers]
  exact (((l.sortedFields_perm.map Prod.fst).cons _).cons _).nodup_iff.2 h

theorem mem_members {key text : String} : (key, text) ∈ l.members ↔
    (key, text) ∈ ("event", l.event) :: ("severity", l.severity.label) :: l.fields :=
  ((l.sortedFields_perm.cons _).cons _).mem_iff

theorem readValue?_render (h : ("event" :: "severity" :: l.fields.map Prod.fst).Nodup) :
    Json.readValue? l.render = some (.object (Json.textMembers l.members)) := by
  rw [Json.readValue?, read?_render, Option.bind_some, Json.value?,
    Json.memberValues?_textMembers, Option.map_some, Json.keepLast_of_nodup (nodup_members h)]

/-- The line does not depend on the order in which the fields were given. -/
theorem render_perm (h : (l.fields.map Prod.fst).Nodup) {fields : List (String × String)}
    (hperm : fields.Perm l.fields) : render { l with fields } = l.render := by
  rw [render, render, toJson, toJson, sortedFields_eq h { l with fields } hperm]

/-- **A log line decodes to what was logged**, if the keys of the fields differ from each other and
from those of the event and the severity.  It is one line, and in it stands an object that begins
with the event and the severity and goes on with the fields in ascending order of their keys.  Each
key leads to its own text there and to nothing else.  The line is the same for every order of the
fields. -/
theorem decodes (l : LogLine) (h : ("event" :: "severity" :: l.fields.map Prod.fst).Nodup) :
    (∃ body, l.render = body ++ "\n" ∧ '\n' ∉ body.toList) ∧
    (∃ fields : List (String × String), fields.Perm l.fields ∧
      (fields.Pairwise fun f g ↦ f.1 < g.1) ∧
      Json.read? l.render = some (.object (("event", .string l.event) ::
        ("severity", .string l.severity.label) :: fields.map fun f ↦ (f.1, .string f.2)))) ∧
    (∃ members, Json.readValue? l.render = some (.object members) ∧ ∀ key value,
      Json.member? key members = some value ↔ ∃ text, value = .string text ∧
        (key, text) ∈ ("event", l.event) :: ("severity", l.severity.label) :: l.fields) ∧
    ∀ fields : List (String × String), fields.Perm l.fields →
      render { l with fields } = l.render := by
  have hkeys : (l.fields.map Prod.fst).Nodup := (List.nodup_cons.1 (List.nodup_cons.1 h).2).2
  have hbody : '\n' ∉ l.toJson.render.toList := by
    rw [Json.render, String.toList_ofList]
    exact l.toJson.printable_chars.newline_not_mem
  have hmember : ∀ key value, Json.member? key (Json.textMembers l.members) = some value ↔
      ∃ text, value = .string text ∧
        (key, text) ∈ ("event", l.event) :: ("severity", l.severity.label) :: l.fields := by
    intro key value
    rw [Json.member?_eq_some_iff (nodup_members h), Json.mem_textMembers]
    exact exists_congr fun text ↦ and_congr_right fun _ ↦ mem_members
  refine ⟨⟨l.toJson.render, rfl, hbody⟩, ?_, ⟨_, readValue?_render h, hmember⟩, ?_⟩
  · exact ⟨l.sortedFields, l.sortedFields_perm, pairwise_sortedFields hkeys, l.read?_render⟩
  · exact fun fields ↦ render_perm hkeys

/-- A line about a failure whose text has quotes, a backslash and ends of line, with a key that has
one too, given in the one order and in the other. -/
theorem decodes_cause :
    let cause := ("cause", "bad \"value\"\r\n\\")
    let kind := ("kind\n", "\x00é😀")
    let l : LogLine := ⟨.warn, "CURSOR \"CLOSE\" FAILED", [kind, cause]⟩
    ("event" :: "severity" :: l.fields.map Prod.fst).Nodup ∧
    (∃ members, Json.readValue? l.render = some (.object members) ∧
      Json.member? cause.1 members = some (.string cause.2) ∧
      Json.member? kind.1 members = some (.string kind.2)) ∧
    render ⟨.warn, "CURSOR \"CLOSE\" FAILED", [cause, kind]⟩ = l.render := by
  intro cause kind l
  have hkeys : ("event" :: "severity" :: l.fields.map Prod.fst).Nodup := by decide
  obtain ⟨-, -, ⟨members, hread, hmember⟩, hperm⟩ := decodes l hkeys
  have hcause : Json.member? cause.1 members = some (.string cause.2) :=
    (hmember _ _).2 ⟨_, rfl, by simp [l]⟩
  have hkind : Json.member? kind.1 members = some (.string kind.2) :=
    (hmember _ _).2 ⟨_, rfl, by simp [l]⟩
  exact ⟨hkeys, ⟨members, hread, hcause, hkind⟩, hperm [cause, kind] (List.Perm.swap ..)⟩

end LogLine
end DirectoryQuery
