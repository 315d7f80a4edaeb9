import DirectoryQuery.Filter.Json
import DirectoryQuery.Proofs.Renderings

/-!
# Filters survive their JSON form

A filter is written in JSON part by part, and reading takes the parts apart in the same way.  The
members of a clause may come in any order (`Filter.Written`), since a record is read by the names of
its fields.

Taken as a value, what was written reads as the filter whatever its depth.  As text it does so if
and only if its depth is one that can be read: when a container is too deep, then it belongs to a
part that is needed, so nothing is read at all.
-/

set_option autoImplicit false

namespace DirectoryQuery

/-! ## Records -/

namespace Json

theorem field?_perm {members members' : List (String × Json)} (h : members'.Perm members)
    (name : String) : field? members' name = field? members name := by
  have hnamed := h.filter fun m ↦ m.1 == name
  unfold field?
  generalize members'.filter _ = named' at hnamed
  generalize members.filter _ = named at hnamed
  match named, hnamed with
  | [], hnamed => rw [hnamed.eq_nil]
  | [m], hnamed => rw [List.perm_singleton.1 hnamed]
  | _ :: _ :: _, hnamed =>
    have hlength := hnamed.length_eq
    match named' with
    | [] | [_] => simp at hlength
    | _ :: _ :: _ => rfl

/-- The order of members does not matter to a record. -/
theorem record?_perm {members members' : List (String × Json)} (h : members'.Perm members)
    (names : List String) : record? names (object members') = record? names (object members) :=
  congrArg (names.mapM ·) (funext (field?_perm h))

/-- A list is read as it was written if its items are. -/
theorem list?_list {α : Type} {write : α → Json} {item? : Json → Option α}
    (h : ∀ a, item? (write a) = some a) (l : List α) : list? item? (list write l) = some l := by
  simp only [list, list?]
  induction l with
  | nil => rfl
  | cons a l ih => simp [h, ih]

end Json

/-! ## Values -/

namespace Value

theorem ofJson?_toJson (v : Value) : ofJson? v.toJson = some v := by
  cases v with
  | text s => rfl
  | binary bs =>
    have hbyte : ∀ b : UInt8, byte? (Json.ofNat b.toNat) = some b := by
      intro b
      have hlt : b.toNat < 256 := b.toNat_lt
      simp [byte?, Json.ofNat, Json.natBelow?, Numeral.nat?, Numeral.ofNat, Option.filter, hlt]
    have hbytes : (bs.map fun b ↦ Json.ofNat b.toNat).mapM byte? = some bs :=
      Json.list?_list hbyte bs
    simp [toJson, Json.list, ofJson?, hbytes]

theorem legible_toJson (v : Value) : v.toJson.Legible := by
  cases v with
  | text s => trivial
  | binary bs =>
    have hbyte : ∀ b : UInt8, (Json.ofNat b.toNat).Legible := fun b ↦
      Numeral.legible_ofNat (Nat.lt_trans b.toNat_lt (by decide))
    exact Json.legible_list hbyte bs

end Value

/-! ## Clauses -/

namespace Clause

/-- A clause is read by the names of its fields. -/
theorem ofJson?_perm {members members' : List (String × Json)} (h : members'.Perm members)
    (reading : Reading) (kind : String) :
    ofJson? reading kind (.object members') = ofJson? reading kind (.object members) := by
  have hfields : ∀ names,
      fields? reading names (.object members') = fields? reading names (.object members) := by
    intro names
    cases reading <;> exact Json.record?_perm h names
  simp only [ofJson?, onValue?, present?, shaped?, hfields, Json.record?_perm h]

theorem ofJson?_unreadable (reading : Reading) (kind : String) :
    ofJson? reading kind .unreadable = none := by
  unfold ofJson?
  split <;> cases reading <;> rfl

theorem nullable?_orNull (s : Option String) :
    Json.nullable? Json.string? (Json.orNull .string s) = some s := by
  cases s <;> rfl

theorem ofJson?_members (reading : Reading) (c : Clause) :
    ofJson? reading c.condition.kind (.object c.members) = some c := by
  obtain ⟨name, condition⟩ := c
  cases condition with
  | present => cases reading <;> rfl
  | shaped shape =>
    obtain ⟨head, middles, tail⟩ := shape
    have hstring : ∀ s, Json.string? (.string s) = some s := fun _ ↦ rfl
    have hmiddles : Json.list? Json.string? (.list .string middles) = some middles :=
      Json.list?_list hstring middles
    simp [Condition.kind, ofJson?, shaped?, members, Json.record?, Json.field?, Json.required?,
      Json.optional?, nullable?_orNull, hmiddles, Json.string?]
  | equalTo v | atLeast v | atMost v | approximately v =>
    cases reading <;> simp [Condition.kind, ofJson?, onValue?, fields?, members, Json.record?,
      Json.field?, Json.required?, Value.ofJson?_toJson, Json.string?]

theorem legible_members (c : Clause) : Json.LegibleMembers c.members := by
  obtain ⟨name, condition⟩ := c
  cases condition with
  | present => simp [members, Json.LegibleMembers, Json.Legible]
  | shaped shape =>
    have hend : ∀ s : Option String, (Json.orNull .string s).Legible := fun s ↦ by
      cases s <;> trivial
    have hstring : ∀ s : String, (Json.string s).Legible := fun _ ↦ trivial
    have hmiddles := Json.legible_list hstring shape.middles
    simp [members, Json.LegibleMembers, Json.Legible, hend, hmiddles]
  | equalTo v | atLeast v | atMost v | approximately v =>
    simp [members, Json.LegibleMembers, Json.Legible, v.legible_toJson]

/-- If the fields of a clause are read after they were clipped, then nothing was lost. -/
theorem depth_members_le {c c' : Clause} {reading : Reading} {n : Nat}
    (h : ofJson? reading c.condition.kind (.object (Json.clipMembers c.members n)) = some c') :
    Json.depthMembers c.members ≤ n := by
  obtain ⟨name, condition⟩ := c
  have hend : ∀ s : Option String, (Json.orNull .string s).depth = 0 := fun s ↦ by
    cases s <;> rfl
  cases condition with
  | present => simp [members, Json.depthMembers, Json.depth]
  | shaped shape =>
    cases n with
    | zero =>
      simp [Condition.kind, ofJson?, shaped?, members, Json.clipMembers, Json.clip, Json.list,
        Json.record?, Json.field?, Json.required?, Json.optional?, Json.list?] at h
    | succ n =>
      have hmiddles : (Json.list .string shape.middles).depth ≤ n + 1 :=
        Json.depth_list_le (fun _ ↦ Nat.zero_le n) _
      simp [members, Json.depthMembers, Json.depth, hend, hmiddles]
  | equalTo v | atLeast v | atMost v | approximately v =>
    cases v with
    | text s => simp [members, Json.depthMembers, Json.depth, Value.toJson]
    | binary bs =>
      cases n with
      | zero =>
        cases reading <;> simp [Condition.kind, ofJson?, onValue?, fields?, members,
          Value.toJson, Value.ofJson?, Json.clipMembers, Json.clip, Json.list,
          Json.record?, Json.field?, Json.required?] at h
      | succ n =>
        have hbytes : (Value.binary bs).toJson.depth ≤ n + 1 :=
          Json.depth_list_le (fun _ ↦ Nat.zero_le n) _
        simp [members, Json.depthMembers, Json.depth, hbytes]

end Clause

/-! ## Filters -/

namespace Filter

mutual
/-- The value is the filter in JSON, except that clauses may have their members in any order. -/
def Written : Filter → Json → Prop
  | .all parts, j => ∃ js, WrittenEach parts js ∧ j = .object [("and", .array js)]
  | .any parts, j => ∃ js, WrittenEach parts js ∧ j = .object [("or", .array js)]
  | .not part, j => ∃ j', Written part j' ∧ j = .object [("not", j')]
  | .leaf c, j => ∃ members, members.Perm c.members ∧
      j = .object [(c.condition.kind, .object members)]
/-- The values are the filters in JSON, in the same way. -/
def WrittenEach : List Filter → List Json → Prop
  | [], js => js = []
  | part :: parts, js => ∃ j js', Written part j ∧ WrittenEach parts js' ∧ js = j :: js'
end

mutual
theorem written_toJson : ∀ f : Filter, f.Written f.toJson
  | .all parts => ⟨_, writtenEach_toJsonEach parts, rfl⟩
  | .any parts => ⟨_, writtenEach_toJsonEach parts, rfl⟩
  | .not part => ⟨_, written_toJson part, rfl⟩
  | .leaf c => ⟨c.members, .refl _, rfl⟩
theorem writtenEach_toJsonEach : ∀ fs : List Filter, WrittenEach fs (toJsonEach fs)
  | [] => rfl
  | part :: parts => ⟨_, _, written_toJson part, writtenEach_toJsonEach parts, rfl⟩
end

mutual
/-- No number is written that would not be read. -/
theorem Written.legible : ∀ {f : Filter} {j : Json}, f.Written j → j.Legible
  | .all _, _, ⟨_, hjs, hj⟩ | .any _, _, ⟨_, hjs, hj⟩ => by
    simp [hj, Json.Legible, Json.LegibleMembers, WrittenEach.legible hjs]
  | .not _, _, ⟨_, hj', hj⟩ => by
    simp [hj, Json.Legible, Json.LegibleMembers, hj'.legible]
  | .leaf c, _, ⟨members, hperm, hj⟩ => by
    have hmembers := Json.legibleMembers_iff.1 c.legible_members
    have hlegible : Json.LegibleMembers members :=
      Json.legibleMembers_iff.2 fun m hm ↦ hmembers m (hperm.subset hm)
    simp [hj, Json.Legible, Json.LegibleMembers, hlegible]
theorem WrittenEach.legible : ∀ {fs : List Filter} {js : List Json}, WrittenEach fs js →
    Json.LegibleEach js
  | [], _, h => by
    obtain rfl := h
    trivial
  | _ :: _, _, ⟨_, _, hj, hjs, heq⟩ => by
    subst heq
    exact ⟨hj.legible, WrittenEach.legible hjs⟩
end

/-- What is under the name of a clause is read as its fields. -/
theorem ofJson?_clause {kind : String} (hkind : kind ≠ "not") {fields : Json}
    (hfields : ∀ items, fields ≠ .array items) (reading : Reading) :
    ofJson? reading (.object [(kind, fields)]) =
      (Clause.ofJson? reading kind fields).map .leaf := by
  rw [ofJson?]
  · exact fun parts _ h ↦ hfields parts h
  · exact fun parts _ h ↦ hfields parts h
  · exact hkind

mutual
/-- A filter is read from the value that writes it. -/
theorem Written.ofJson? (reading : Reading) : ∀ {f : Filter} {j : Json}, f.Written j →
    Filter.ofJson? reading j = some f
  | .all _, _, ⟨_, hjs, hj⟩ | .any _, _, ⟨_, hjs, hj⟩ => by
    rw [hj, Filter.ofJson?, WrittenEach.ofJsonEach? reading hjs]
    rfl
  | .not _, _, ⟨_, hj', hj⟩ => by
    rw [hj, Filter.ofJson?, hj'.ofJson? reading]
    rfl
  | .leaf c, _, ⟨members, hperm, hj⟩ => by
    have hkind : c.condition.kind ≠ "not" := by
      cases c.condition <;> simp [Condition.kind]
    rw [hj, ofJson?_clause hkind (fun _ h ↦ by cases h), Clause.ofJson?_perm hperm,
      Clause.ofJson?_members]
    rfl

theorem WrittenEach.ofJsonEach? (reading : Reading) : ∀ {fs : List Filter} {js : List Json},
    WrittenEach fs js → Filter.ofJsonEach? reading js = some fs
  | [], _, h => by
    obtain rfl := h
    rfl
  | _ :: _, _, ⟨_, _, hj, hjs, heq⟩ => by
    rw [heq, Filter.ofJsonEach?, hj.ofJson? reading, hjs.ofJsonEach? reading]
end

mutual
/-- If something is read after the value was clipped, then nothing was lost. -/
theorem Written.depth_le {reading : Reading} : ∀ {f g : Filter} {j : Json} {n : Nat},
    f.Written j → Filter.ofJson? reading (j.clip n) = some g → j.depth ≤ n
  | .all _, _, _, n, ⟨js, hjs, hj⟩, h | .any _, _, _, n, ⟨js, hjs, hj⟩, h => by
    subst hj
    match n with
    | 0 => simp [Json.clip, Filter.ofJson?] at h
    | 1 => simp [Json.clip, Json.clipMembers, Filter.ofJson?, Clause.ofJson?] at h
    | n + 2 =>
      simp only [Json.clip, Json.clipMembers, Filter.ofJson?, Option.map_eq_some_iff] at h
      obtain ⟨gs, hgs, -⟩ := h
      have hdepth := WrittenEach.depth_le hjs hgs
      simp [Json.depth, Json.depthMembers, hdepth]
  | .not _, _, _, n, ⟨j', hj', hj⟩, h => by
    subst hj
    match n with
    | 0 => simp [Json.clip, Filter.ofJson?] at h
    | n + 1 =>
      simp only [Json.clip, Json.clipMembers, Filter.ofJson?, Option.map_eq_some_iff] at h
      obtain ⟨g', hg', -⟩ := h
      have hdepth := hj'.depth_le hg'
      simp [Json.depth, Json.depthMembers, hdepth]
  | .leaf c, _, _, n, ⟨members, hperm, hj⟩, h => by
    subst hj
    have hkind : c.condition.kind ≠ "not" := by
      cases c.condition <;> simp [Condition.kind]
    match n with
    | 0 => simp [Json.clip, Filter.ofJson?] at h
    | 1 =>
      simp only [Json.clip, Json.clipMembers] at h
      rw [ofJson?_clause hkind (fun _ heq ↦ by cases heq), Clause.ofJson?_unreadable] at h
      cases h
    | n + 2 =>
      simp only [Json.clip, Json.clipMembers] at h
      rw [ofJson?_clause hkind (fun _ heq ↦ by cases heq), Option.map_eq_some_iff] at h
      obtain ⟨c', hc', -⟩ := h
      have hclip : (Json.clipMembers members n).Perm (Json.clipMembers c.members n) := by
        rw [Json.clipMembers_eq_map, Json.clipMembers_eq_map]
        exact hperm.map _
      rw [Clause.ofJson?_perm hclip] at hc'
      have hdepth : Json.depthMembers members ≤ n := by
        have hall := Json.depthMembers_le_iff.1 (Clause.depth_members_le hc')
        exact Json.depthMembers_le_iff.2 fun m hm ↦ hall m (hperm.subset hm)
      simp [Json.depth, Json.depthMembers, hdepth]
theorem WrittenEach.depth_le {reading : Reading} : ∀ {fs gs : List Filter} {js : List Json}
    {n : Nat}, WrittenEach fs js → Filter.ofJsonEach? reading (Json.clipEach js n) = some gs →
      Json.depthEach js ≤ n
  | [], _, _, _, hjs, _ => by
    obtain rfl := hjs
    simp [Json.depthEach]
  | _ :: _, _, _, n, ⟨j, js, hj, hjs, heq⟩, h => by
    subst heq
    simp only [Json.clipEach, Filter.ofJsonEach?] at h
    split at h
    · rename_i g gs hg hgs
      rw [Json.depthEach, Nat.max_le]
      exact ⟨hj.depth_le hg, hjs.depth_le hgs⟩
    · cases h
end

/-- **A filter survives its JSON form.**  From the value that writes it the filter is read back,
whatever the order in which clauses have their members there; from the text of that value it is read
back if and only if no more containers stand within each other than can be read. -/
theorem written_iff_read (f : Filter) : f.Written f.toJson ∧ ∀ j, f.Written j →
    ofValue? j = some f ∧ (ofText? j.render = some f ↔ j.depth ≤ Json.maxDepth) := by
  refine ⟨f.written_toJson, fun j hj ↦ ⟨hj.ofJson? .value, ?_⟩⟩
  rw [ofText?, Json.read?_render hj.legible, Option.bind_some]
  constructor
  · exact hj.depth_le
  · intro hdepth
    rw [Json.clip_of_depth_le hdepth]
    exact hj.ofJson? .text

end Filter
end DirectoryQuery
