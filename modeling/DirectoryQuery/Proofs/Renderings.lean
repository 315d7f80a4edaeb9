import DirectoryQuery.Json.Reader
import DirectoryQuery.Proofs.Tokens

/-!
# Reading what was written

A value that is written as text and read again is the same, except that containers which stand
within too many others become unreadable (`Json.read?_render`).  The machine that puts tokens
together comes from a place where a value may begin to the place after the value, whatever
containers are under construction around it; how many these are decides how deep the value may go.
-/

set_option autoImplicit false

namespace DirectoryQuery
namespace Json

/-! ## Depth -/

mutual
/-- How many containers of the value stand within each other. -/
def depth : Json → Nat
  | array items => depthEach items + 1
  | object members => depthMembers members + 1
  | _ => 0
/-- The greatest depth of an item. -/
def depthEach : List Json → Nat
  | [] => 0
  | item :: items => max (depth item) (depthEach items)
/-- The greatest depth of a member. -/
def depthMembers : List (String × Json) → Nat
  | [] => 0
  | (_, value) :: members => max (depth value) (depthMembers members)
end

theorem depthEach_le_iff {items : List Json} {n : Nat} :
    depthEach items ≤ n ↔ ∀ j ∈ items, j.depth ≤ n := by
  induction items with
  | nil => simp [depthEach]
  | cons item items ih => rw [depthEach, Nat.max_le, ih, List.forall_mem_cons]

theorem depthMembers_le_iff {members : List (String × Json)} {n : Nat} :
    depthMembers members ≤ n ↔ ∀ m ∈ members, m.2.depth ≤ n := by
  induction members with
  | nil => simp [depthMembers]
  | cons m members ih => rw [depthMembers, Nat.max_le, ih, List.forall_mem_cons]

theorem depth_list_le {α : Type} {write : α → Json} {n : Nat} (h : ∀ a, (write a).depth ≤ n)
    (l : List α) : (list write l).depth ≤ n + 1 := by
  refine Nat.succ_le_succ (depthEach_le_iff.2 fun j hj ↦ ?_)
  obtain ⟨a, -, rfl⟩ := List.mem_map.1 hj
  exact h a

mutual
/-- The value without what is in the containers that stand within so many others. -/
def clip : Json → Nat → Json
  | array _, 0 | object _, 0 => unreadable
  | array items, n + 1 => array (clipEach items n)
  | object members, n + 1 => object (clipMembers members n)
  | j, _ => j
/-- The items clipped. -/
def clipEach : List Json → Nat → List Json
  | [], _ => []
  | item :: items, n => clip item n :: clipEach items n
/-- The members clipped. -/
def clipMembers : List (String × Json) → Nat → List (String × Json)
  | [], _ => []
  | (key, value) :: members, n => (key, clip value n) :: clipMembers members n
end

theorem clipMembers_eq_map (members : List (String × Json)) (n : Nat) :
    clipMembers members n = members.map fun m ↦ (m.1, m.2.clip n) := by
  induction members with
  | nil => rfl
  | cons m members ih => simp [clipMembers, ih]

mutual
/-- A value that is not too deep stays as it is. -/
theorem clip_of_depth_le : ∀ {j : Json} {n : Nat}, j.depth ≤ n → j.clip n = j
  | array _, 0, h => absurd h (by simp [depth])
  | object _, 0, h => absurd h (by simp [depth])
  | array _, n + 1, h => by
    rw [clip, clipEach_of_depth_le (Nat.le_of_succ_le_succ h)]
  | object _, n + 1, h => by
    rw [clip, clipMembers_of_depth_le (Nat.le_of_succ_le_succ h)]
  | null, _, _ | bool _, _, _ | number _, _, _ | string _, _, _ | unreadable, _, _ => by
    simp [clip]
theorem clipEach_of_depth_le : ∀ {items : List Json} {n : Nat}, depthEach items ≤ n →
    clipEach items n = items
  | [], _, _ => rfl
  | _ :: _, _, h => by
    rw [depthEach, Nat.max_le] at h
    rw [clipEach, clip_of_depth_le h.1, clipEach_of_depth_le h.2]
theorem clipMembers_of_depth_le : ∀ {members : List (String × Json)} {n : Nat},
    depthMembers members ≤ n → clipMembers members n = members
  | [], _, _ => rfl
  | _ :: _, _, h => by
    rw [depthMembers, Nat.max_le] at h
    rw [clipMembers, clip_of_depth_le h.1, clipMembers_of_depth_le h.2]
end

namespace Builder

variable {outer : List Frame} {a : Awaiting} {t : Token}

/-! ## Containers -/

/-- How many more containers may stand within those under construction. -/
def room (outer : List Frame) : Nat := maxDepth - outer.length

theorem room_cases (frame : Frame) (outer : List Frame) :
    (outer.length < maxDepth ∧ room outer = room (frame :: outer) + 1) ∨
      ¬outer.length < maxDepth ∧ room outer = 0 := by
  simp [room]
  omega

/-- A container is closed to its value if there was room for it. -/
theorem close_of_clip {j : Json} (inner : Nat → Json) (hnone : j.clip 0 = unreadable)
    (hsome : ∀ n, j.clip (n + 1) = inner n) (frame : Frame) :
    close outer (inner (room (frame :: outer))) = ⟨outer, .after (j.clip (room outer))⟩ := by
  obtain ⟨h, hroom⟩ | ⟨h, hroom⟩ := room_cases frame outer
  · rw [close, if_pos h, hroom, hsome]
  · rw [close, if_neg h, hroom, hnone]

theorem close_array (items : List Json) (frame : Frame) :
    close outer (array (clipEach items (room (frame :: outer)))) =
      ⟨outer, .after ((array items).clip (room outer))⟩ :=
  close_of_clip (fun n ↦ array (clipEach items n)) (by rw [clip]) (fun n ↦ by rw [clip]) frame

theorem close_object (members : List (String × Json)) (frame : Frame) :
    close outer (object (clipMembers members (room (frame :: outer)))) =
      ⟨outer, .after ((object members).clip (room outer))⟩ :=
  close_of_clip (fun n ↦ object (clipMembers members n)) (by rw [clip]) (fun n ↦ by rw [clip])
    frame

/-- Members whose keys are texts, as they stand in a container under construction. -/
def keyed (members : List (String × Json)) : List (Option String × Json) :=
  members.map fun m ↦ (some m.1, m.2)

theorem objectOf_keyed (earlier members : List (String × Json)) :
    objectOf (keyed earlier) members = object (earlier.reverse ++ members) := by
  induction earlier generalizing members with
  | nil => rfl
  | cons m earlier ih => simpa [keyed, objectOf] using ih (m :: members)

/-! ## Values -/

/-- Reading the tokens, the machine comes from the one state to the other. -/
def Builds (b : Builder) (ts : List Token) (b' : Builder) : Prop := ts.foldlM step b = some b'

theorem Builds.nil {b : Builder} : Builds b [] b := rfl

theorem Builds.cons {b b₁ b' : Builder} {ts : List Token} (h : b.step t = some b₁)
    (h' : Builds b₁ ts b') : Builds b (t :: ts) b' := by
  rw [Builds, List.foldlM_cons, h]
  exact h'

theorem Builds.append {b b₁ b' : Builder} {ts ts' : List Token} (h : Builds b ts b₁)
    (h' : Builds b₁ ts' b') : Builds b (ts ++ ts') b' := by
  rw [Builds, List.foldlM_append, h]
  exact h'

/-- The first item of an array begins as any value does. -/
theorem step_begin (ha : a = .value ∨ a = .item) (ht : t ≠ .bracketClose) :
    step ⟨outer, a⟩ t = beginValue outer t := by
  rcases ha with rfl | rfl
  · rfl
  · unfold step
    split <;> simp_all

theorem builds_tokens_bare {j : Json} (hj : j.tokens = [.word j]) (hclip : ∀ n, j.clip n = j)
    (ha : a = .value ∨ a = .item) :
    Builds ⟨outer, a⟩ j.tokens ⟨outer, .after (j.clip (room outer))⟩ := by
  rw [hj, hclip]
  exact .cons (step_begin ha nofun) .nil

mutual
/-- The tokens of a value are put together to the value, as far as there is room for it. -/
theorem builds_tokens : ∀ (j : Json) (outer : List Frame) (a : Awaiting), a = .value ∨ a = .item →
    Builds ⟨outer, a⟩ j.tokens ⟨outer, .after (j.clip (room outer))⟩
  | null, _, _, ha => builds_tokens_bare rfl (by simp [clip]) ha
  | bool _, _, _, ha => builds_tokens_bare rfl (by simp [clip]) ha
  | number _, _, _, ha => builds_tokens_bare rfl (by simp [clip]) ha
  | unreadable, _, _, ha => builds_tokens_bare rfl (by simp [clip]) ha
  | string s, outer, a, ha => by
    rw [show (string s).clip (room outer) = string s by simp [clip]]
    exact .cons (step_begin ha nofun) .nil
  | array [], outer, a, ha => by
    rw [← close_array [] (.array [])]
    exact .cons (step_begin ha nofun) (.cons rfl .nil)
  | array (item :: items), outer, a, ha => by
    have hfirst := builds_tokens item (.array [] :: outer) .item (.inr rfl)
    have hall := hfirst.append (builds_moreItems items outer [] _)
    rw [← close_array (item :: items) (.array []), tokens, itemsTokens]
    refine .cons (step_begin ha nofun) ?_
    rw [← List.append_assoc] at hall
    exact hall
  | object [], outer, a, ha => by
    rw [← close_object [] (.object [] none)]
    exact .cons (step_begin ha nofun) (.cons rfl .nil)
  | object ((key, value) :: members), outer, a, ha => by
    have hfirst := builds_tokens value (.object (keyed []) (some key) :: outer) .value (.inl rfl)
    have hall := hfirst.append (builds_moreMembers members outer [] key _)
    rw [← close_object ((key, value) :: members) (.object [] (some key)), tokens, membersTokens]
    refine .cons (step_begin ha nofun) (.cons rfl (.cons rfl ?_))
    rw [← List.append_assoc] at hall
    exact hall
/-- The tokens of further items complete an array. -/
theorem builds_moreItems : ∀ (items : List Json) (outer : List Frame) (earlier : List Json)
    (done : Json), Builds ⟨.array earlier :: outer, .after done⟩
      (moreItemsTokens items ++ [.bracketClose])
      (close outer (array (earlier.reverse ++ done ::
        clipEach items (room (.array earlier :: outer)))))
  | [], outer, earlier, done => by
    refine .cons rfl ?_
    rw [List.reverse_cons]
    exact .nil
  | item :: items, outer, earlier, done => by
    have hfirst := builds_tokens item (.array (done :: earlier) :: outer) .value (.inl rfl)
    have hall := hfirst.append (builds_moreItems items outer (done :: earlier) _)
    rw [List.append_cons earlier.reverse, ← List.reverse_cons]
    refine .cons rfl ?_
    rw [← List.append_assoc] at hall
    exact hall
/-- The tokens of further members complete an object. -/
theorem builds_moreMembers : ∀ (members : List (String × Json)) (outer : List Frame)
    (earlier : List (String × Json)) (key : String) (done : Json),
    Builds ⟨.object (keyed earlier) (some key) :: outer, .after done⟩
      (moreMembersTokens members ++ [.braceClose])
      (close outer (object (earlier.reverse ++ (key, done) ::
        clipMembers members (room (.object (keyed earlier) (some key) :: outer)))))
  | [], outer, earlier, key, done => by
    have hobject := objectOf_keyed ((key, done) :: earlier) []
    rw [List.append_nil, List.reverse_cons] at hobject
    refine .cons rfl ?_
    rw [clipMembers, ← hobject]
    exact .nil
  | (key', value) :: members, outer, earlier, key, done => by
    have hfirst := builds_tokens value
      (.object (keyed ((key, done) :: earlier)) (some key') :: outer) .value (.inl rfl)
    have hall := hfirst.append (builds_moreMembers members outer ((key, done) :: earlier) key' _)
    rw [List.append_cons earlier.reverse, ← List.reverse_cons]
    refine .cons rfl (.cons rfl (.cons rfl ?_))
    rw [← List.append_assoc] at hall
    exact hall
end

end Builder

/-- From its tokens a value is read, up to what is in containers that stand within too many
others. -/
theorem read?_of_tokens? {s : String} {j : Json} (h : tokens? s.toList = some j.tokens) :
    read? s = some (j.clip maxDepth) := by
  have hbuilds : j.tokens.foldlM Builder.step Builder.start = some ⟨[], .after (j.clip maxDepth)⟩ :=
    Builder.builds_tokens j [] .value (.inl rfl)
  rw [read?, h]
  simp [hbuilds, Builder.finish]

/-- **A value that is written and read again is the same, up to what is in containers that stand
within too many others.** -/
theorem read?_render {j : Json} (h : j.Legible) : read? j.render = some (j.clip maxDepth) := by
  refine read?_of_tokens? ?_
  rw [render, String.toList_ofList, tokens?_chars h]

/-- A value of no more than the greatest depth is read as it was written. -/
theorem read?_render_of_depth_le {j : Json} (h : j.Legible) (hdepth : j.depth ≤ maxDepth) :
    read? j.render = some j := by
  rw [read?_render h, clip_of_depth_le hdepth]

end Json
end DirectoryQuery
