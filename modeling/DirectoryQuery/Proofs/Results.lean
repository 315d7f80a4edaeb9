import DirectoryQuery.Cursor.Basic
import DirectoryQuery.Proofs.Plans
import DirectoryQuery.Proofs.Relays
import DirectoryQuery.Proofs.Verdicts

/-!
# The entries that a planned operand lists

The cursor of a planned operand lists entries of the store, and never fails.  Which ones is found by
going through the filter (`Store.Lists`).

* A leaf lists what its index has (`Test.found`), or else the entries of which its verdict is true.
* A negation lists the entries of which its part is not true.
* A conjunction lists, of what one of its parts lists, what the verdicts of the other parts are true
  of.  Which part that is depends on the estimates.
* A disjunction lists what `merge` makes of its parts.

So a conjunction or disjunction relies on the verdicts of a part in one place and on what the part
lists in another, and the two may differ where a leaf goes through an index.
-/

set_option autoImplicit false

namespace DirectoryQuery

/-! ## Cursors moved by the walker of their height -/

namespace Cursor

variable {ctx : Context} {n : Nat}

theorem embeds_reel : Walker.Embeds Cursor.reel Reel.walker (walker ctx (n + 1)) :=
  ⟨fun _ _ ↦ rfl, fun _ _ ↦ rfl, fun _ ↦ rfl, fun _ ↦ Nat.le_refl _⟩

theorem extent_walker_le (ctx : Context) (n : Nat) (c : Cursor) :
    (walker ctx n).extent c ≤ extent c := by
  cases n with
  | zero => exact Nat.zero_le _
  | succ n => exact Nat.le_refl _

theorem extentOf_eq_sum (cs : List Cursor) : extentOf cs = (cs.map extent).sum := by
  induction cs with
  | nil => rfl
  | cons c cs ih => rw [extentOf, List.map_cons, List.sum_cons, ih]

theorem embeds_sieve :
    Walker.Embeds Cursor.sieve (Sieve.walker (walker ctx n) ctx) (walker ctx (n + 1)) := by
  refine ⟨fun _ _ ↦ rfl, fun _ _ ↦ rfl, fun _ ↦ rfl, fun s ↦ ?_⟩
  exact extent_walker_le ctx n s.source

theorem embeds_relay :
    Walker.Embeds Cursor.relay (Relay.walker (walker ctx n) ctx) (walker ctx (n + 1)) := by
  refine ⟨fun _ _ ↦ rfl, fun _ _ ↦ rfl, fun _ ↦ rfl, fun r ↦ ?_⟩
  show (r.sources.map (walker ctx n).extent).sum ≤ extentOf r.sources
  rw [extentOf_eq_sum]
  exact List.sum_le_sum fun c _ ↦ extent_walker_le ctx n c

theorem rewind_monitored (d : Direction) (m : Monitor) (c : Cursor) :
    ((walker ctx (n + 1)).rewind d).perform (monitored m c) = do
      let (outcome, c) ← ((walker ctx n).rewind d).perform c
      return (outcome, monitored m c) :=
  rfl

theorem advance_monitored (d : Direction) (m : Monitor) (c : Cursor) :
    ((walker ctx (n + 1)).advance d).perform (monitored m c) =
      match m.refusal? with
      | some e => return (.error e, monitored m.counted c)
      | none => do
        let (outcome, c) ← ((walker ctx n).advance d).perform c
        return (outcome, monitored m.counted c) :=
  rfl

theorem height_le_heightOf {c : Cursor} {cs : List Cursor} (h : c ∈ cs) :
    height c ≤ heightOf cs := by
  induction cs with
  | nil => exact absurd h List.not_mem_nil
  | cons c' cs ih =>
    rw [heightOf]
    rcases List.mem_cons.1 h with rfl | h
    · exact Nat.le_max_left _ _
    · exact Nat.le_trans (ih h) (Nat.le_max_right _ _)

end Cursor

/-! ## What a leaf finds -/

variable {s : Store} {r : Registry} {config : SearchConfig} {d : Direction}

namespace Store

/-- The identifiers of the entries, ascending. -/
def ids (s : Store) : List EntryId := s.toList.map Entry.id

/-- The index from which candidates may come. -/
def sourceIndex? (s : Store) (config : SearchConfig) (t : AttributeType) : Option ValueIndex :=
  if config.preferIndexCursors then s.index? t else none

theorem sourceIndex?_context (s : Store) (r : Registry) (config : SearchConfig)
    (t : AttributeType) :
    (s.context r config).sourceIndex? t = (s.sourceIndex? config t).map ValueIndex.index := by
  show (if config.preferIndexCursors then (s.index? t).map ValueIndex.index else none) = _
  rw [sourceIndex?]
  split
  · rfl
  · rfl

theorem index?_of_sourceIndex? {t : AttributeType} {x : ValueIndex}
    (h : s.sourceIndex? config t = some x) : s.index? t = some x :=
  (Option.ite_none_right_eq_some.1 h).2

theorem Consistent.mem_ids (h : s.Consistent) {i : EntryId} :
    i ∈ s.ids ↔ ∃ e, s.entries[i]? = some e := by
  rw [ids, List.mem_map]
  constructor
  · rintro ⟨e, he, rfl⟩
    obtain ⟨id, hid⟩ := mem_toList.1 he
    exact ⟨e, by rwa [h.id_eq id e hid]⟩
  · rintro ⟨e, he⟩
    exact ⟨e, mem_toList.2 ⟨i, he⟩, h.id_eq i e he⟩

/-- The entry of a posting is one of the store. -/
theorem Consistent.mem_ids_of_posting (h : s.Consistent) {t : AttributeType} {x : ValueIndex}
    (hx : s.index? t = some x) {p : Posting} (hp : p ∈ x.toList) : p.id ∈ s.ids := by
  obtain ⟨x', hx', rfl⟩ := Option.map_eq_some_iff.1 hx
  obtain ⟨e, he, -⟩ := (h.records _ x' hx' p).1 (ValueIndex.mem_toList.1 hp)
  exact h.mem_ids.2 ⟨e, he⟩

end Store

/-- Whether a posting has the least of the keys of its entry that satisfy the assertion. -/
def ValueIndex.isLeast (x : ValueIndex) (a : Assertion) (p : Posting) : Bool :=
  a.holds p.key && (((x.postingsAt p.id).map Posting.key).find? a.holds).all (· == p.key)

/-- The entries that the cursor of a leaf goes through, in ascending order. -/
def Test.found (s : Store) (config : SearchConfig) (t : Test) : List EntryId :=
  match s.sourceIndex? config t.subject.type, t.lookupKey with
  | some x, some key => x.idsOf key
  | some x, none =>
    if x.hasReverse then (x.toList.filter (x.isLeast t.assertion)).map Posting.id
    else s.ids.filter (t.verdict s config)
  | none, _ => s.ids.filter (t.verdict s config)

/-! ## What an operand lists -/

namespace Store

/-- What a disjunction depends on in a part that lists the given entries. -/
def legOf (s : Store) (config : SearchConfig) (e : Evaluator) (l : List EntryId) : Leg :=
  ⟨l, fun _ ↦ false, fun i ↦ e.holds fun t ↦ t.verdict s config i⟩

mutual
/-- In the direction, the operand of a filter lists the entries, in this order. -/
def Lists (s : Store) (config : SearchConfig) (d : Direction) : Evaluator → List EntryId → Prop
  | .all [], l => l = d.arrange s.ids
  | .all [part], l => Lists s config d part l
  | .all (first :: second :: rest), l => ∃ (ls : List (List EntryId)) (j : Nat)
      (driven : List EntryId),
      ListsEach s config d (first :: second :: rest) ls ∧ ls[j]? = some driven ∧
      l = driven.filter fun i ↦
        Formula.allHold (fun t ↦ t.verdict s config i) ((first :: second :: rest).eraseIdx j)
  | .any [], l => l = []
  | .any [part], l => Lists s config d part l
  | .any (first :: second :: rest), l => ∃ ls, ListsEach s config d (first :: second :: rest) ls ∧
      l = merge [] (d.arrange (List.zipWith (s.legOf config) (first :: second :: rest) ls))
  | .not part, l => l = d.arrange (s.ids.filter fun i ↦ !part.holds fun t ↦ t.verdict s config i)
  | .leaf t, l => l = d.arrange (t.found s config)
/-- In the direction, the operands of filters list the entries. -/
def ListsEach (s : Store) (config : SearchConfig) (d : Direction) :
    List Evaluator → List (List EntryId) → Prop
  | [], ls => ls = []
  | part :: parts, ls => ∃ l rest, ls = l :: rest ∧ Lists s config d part l ∧
      ListsEach s config d parts rest
end

end Store

/-- In the direction, the cursor of an operand visits the entries, in this order, and never
fails. -/
def Operand.Serves (s : Store) (r : Registry) (config : SearchConfig) (d : Direction) (o : Operand)
    (l : List EntryId) : Prop :=
  ∀ n, o.cursor.height ≤ n →
    (Cursor.walker (s.context r config) n).Ready d (fun _ ↦ False) (Stands s.Genuine) l o.cursor

/-! ## Leaves and negations -/

namespace Operand

/-- A sieve visits what passes of what its source visits. -/
theorem ready_sieve {α : Type} {n : Nat} {ctx : Context} {R S : α → Candidate → Prop}
    {E : SearchError → Prop} {p : α → Bool} {l : List α} {acceptance : Acceptance}
    {source : Cursor} (idle : List Cursor)
    (hsource : (Cursor.walker ctx n).Ready d E R l source)
    (hx : Sieve.Decides ctx acceptance E R S p l) :
    (Cursor.walker ctx (n + 1)).Ready d E S (l.filter p)
      (.sieve (.fresh acceptance source idle)) :=
  Cursor.embeds_sieve.ready (Sieve.ready hsource hx rfl)

theorem ready_reel {n : Nat} (ctx : Context) {E : SearchError → Prop} (cs : List Candidate)
    (hn : 1 ≤ n) :
    (Cursor.walker ctx n).Ready d E Eq (d.arrange cs) (.reel (.ofList cs)) := by
  obtain ⟨n, rfl⟩ := Nat.exists_eq_succ_of_ne_zero (n := n) (by omega)
  exact Cursor.embeds_reel.ready (Reel.ready (Reel.over_ofList cs))

/-- The height of a sieve leaves room for its source. -/
theorem le_of_height_sieve {acceptance : Acceptance} {source : Cursor} {idle : List Cursor}
    {n : Nat} (hn : Cursor.height (.sieve (.fresh acceptance source idle)) ≤ n) :
    ∃ m, n = m + 1 ∧ source.height ≤ m := by
  have hheight : Cursor.height (.sieve (.fresh acceptance source idle)) =
      max source.height (Cursor.heightOf idle) + 1 := rfl
  refine ⟨n - 1, ?_, ?_⟩ <;> omega

theorem ready_everyEntry (h : s.Consistent) {n : Nat} {ctx : Context} {E : SearchError → Prop}
    (hn : 1 ≤ n) :
    (Cursor.walker ctx n).Ready d E (Stands s.Genuine) (d.arrange s.ids)
      (.reel (.ofList (s.toList.map .resolved))) := by
  have hids : s.ids = (s.toList.map Candidate.resolved).map Candidate.id := by
    rw [List.map_map]
    rfl
  rw [hids, d.arrange_map]
  refine (ready_reel ctx _ hn).map ?_
  rintro c hc _ rfl
  obtain ⟨e, he, rfl⟩ := List.mem_map.1 ((d.arrange_perm _).subset hc)
  obtain ⟨id, hid⟩ := Store.mem_toList.1 he
  obtain rfl := h.id_eq id e hid
  refine ⟨rfl, ⟨e, hid⟩, ?_⟩
  rintro e' ⟨⟩
  exact hid

/-- A sieve over all entries lists those that pass. -/
theorem serves_scan (h : s.Consistent) {acceptance : Acceptance} {e : Evaluator}
    {estimate : Option Nat} {p : EntryId → Bool}
    (hx : ∀ c, s.Genuine c → (acceptance.accept (s.context r config)).Ensures c
      (fun accepted c' ↦ accepted = p c.id ∧ c'.id = c.id ∧ s.Genuine c') fun _ _ ↦ False) :
    Serves s r config d
      ⟨.sieve (.fresh acceptance (.reel (.ofList (s.toList.map .resolved))) []), e, estimate⟩
      (d.arrange (s.ids.filter p)) := by
  intro n hn
  obtain ⟨m, rfl, hm⟩ := le_of_height_sieve hn
  rw [d.arrange_filter]
  refine ready_sieve [] (ready_everyEntry h hm) fun i _ c hc ↦ (hx c hc.2).imp ?_
  intro accepted c' hpost
  obtain ⟨haccepted, hid, hgenuine⟩ := hpost
  rw [hc.1] at haccepted hid
  exact ⟨haccepted, fun _ ↦ ⟨hid, hgenuine⟩⟩

/-- Nothing is listed where there is nothing. -/
theorem serves_nothing (e : Evaluator) (estimate : Option Nat) :
    Serves s r config d ⟨.ofList [], e, estimate⟩ [] := by
  intro n hn
  have hready := (ready_reel (d := d) (E := fun _ ↦ False) (s.context r config) [] hn).map
    (S := Stands s.Genuine) (f := Candidate.id) fun c hc ↦
      absurd ((d.arrange_perm _).subset hc) List.not_mem_nil
  cases d <;> exact hready

/-- An empty conjunction lists all entries. -/
theorem serves_every (h : s.Consistent) (e : Evaluator) (estimate : Option Nat) :
    Serves s r config d
      ⟨.sieve (.fresh (.matching (.all [])) (.reel (.ofList (s.toList.map .resolved))) []), e,
        estimate⟩ (d.arrange s.ids) := by
  have hids : s.ids = s.ids.filter fun _ ↦ true := (List.filter_true _).symm
  rw [hids]
  exact serves_scan h fun c hc ↦ Evaluator.evaluate_spec (.all []) hc

/-- A negation lists the entries of which its part is not true. -/
theorem serves_negation (h : s.Consistent) (part e : Evaluator) (estimate : Option Nat) :
    Serves s r config d
      ⟨.sieve (.fresh (.rejecting part) (.reel (.ofList (s.toList.map .resolved))) []), e, estimate⟩
      (d.arrange (s.ids.filter fun i ↦ !part.holds fun t ↦ t.verdict s config i)) := by
  refine serves_scan h fun c hc ↦ ?_
  refine Act.ensures_bind ((Evaluator.evaluate_spec part hc).imp ?_)
  intro accepted c' hpost
  obtain ⟨haccepted, hc'⟩ := hpost
  exact Act.ensures_pure ⟨congrArg _ haccepted, hc'⟩

/-- A sieve over postings lists the entries of those that pass. -/
theorem serves_postings (h : s.Consistent) {t : AttributeType} {x : ValueIndex}
    (hindex : s.index? t = some x) {ps : List Posting} (hps : ps ⊆ x.toList)
    {acceptance : Acceptance} {e : Evaluator} {estimate : Option Nat} {p : Posting → Bool}
    (hx : ∀ q ∈ ps, (acceptance.accept (s.context r config)).Ensures q.candidate
      (fun accepted c ↦ accepted = p q ∧ c = q.candidate) fun _ _ ↦ False) :
    Serves s r config d
      ⟨.sieve (.fresh acceptance (.reel (.ofList (ps.map Posting.candidate))) []), e, estimate⟩
      (d.arrange ((ps.filter p).map Posting.id)) := by
  intro n hn
  obtain ⟨m, rfl, hm⟩ := le_of_height_sieve hn
  have hreel : (Cursor.walker (s.context r config) m).Ready d (fun _ ↦ False)
      (fun q c ↦ q.candidate = c) (d.arrange ps) (.reel (.ofList (ps.map Posting.candidate))) := by
    have hready := ready_reel (d := d) (E := fun _ ↦ False) (s.context r config)
      (ps.map Posting.candidate) hm
    rw [d.arrange_map] at hready
    exact hready.comap
  have hmem : ∀ q ∈ d.arrange ps, q ∈ ps := fun q hq ↦ (d.arrange_perm ps).subset hq
  rw [d.arrange_map, d.arrange_filter]
  refine Walker.Ready.map (R := fun q c ↦ q.candidate = c) (ready_sieve [] hreel ?_) ?_
  · rintro q hq _ rfl
    refine (hx q (hmem q hq)).imp ?_
    intro accepted _ hpost
    obtain ⟨haccepted, rfl⟩ := hpost
    exact ⟨haccepted, fun _ ↦ rfl⟩
  · rintro q hq _ rfl
    have hstored := h.mem_ids_of_posting hindex (hps (hmem q (List.mem_filter.1 hq).1))
    exact ⟨rfl, h.mem_ids.1 hstored, nofun⟩

/-- Going through an index keeps a posting if it has the least key of its entry. -/
theorem accept_indexed {ctx : Context} {x : ValueIndex} (hx : x.hasReverse = true) (a : Assertion)
    (q : Posting) :
    ((Acceptance.indexed x.index a).accept ctx).Ensures q.candidate
      (fun accepted c ↦ accepted = x.isLeast a q ∧ c = q.candidate) fun _ _ ↦ False := by
  refine Act.ensures_bind (Act.ensures_get ?_)
  rw [ValueIndex.isLeast]
  cases hkey : a.holds q.key with
  | false =>
    have hnone : q.candidate.value.filter a.holds = none := Option.filter_some_neg hkey
    rw [hnone]
    exact Act.ensures_pure ⟨rfl, rfl⟩
  | true =>
    have hsome : q.candidate.value.filter a.holds = some q.key := Option.filter_some_pos hkey
    rw [hsome]
    refine Act.ensures_bind (Act.ensures_tally (Act.ensures_bind (Act.ensures_get ?_)))
    have hleast := ValueIndex.firstKey?_spec hx q.id a.holds
    refine Act.ensures_bind (Act.ensures_attempt (hleast.mono ?_ fun _ he ↦ he))
    rintro _ rfl
    exact Act.ensures_pure ⟨rfl, rfl⟩

/-- **A planned leaf lists what the leaf finds.** -/
theorem serves_leaf (h : s.Consistent) {t : Test} {o : Operand}
    (ho : (s.context r config).PlannedLeaf t o) :
    o.Serves s r config d (d.arrange (t.found s config)) := by
  cases ho with
  | @keyed _ key reel hx hkey hreel =>
    rw [Store.sourceIndex?_context, Option.map_eq_some_iff] at hx
    obtain ⟨x, hx, rfl⟩ := hx
    obtain rfl := Except.ok.inj hreel
    have hfound : t.found s config = ((x.postingsOf key).filter fun _ ↦ true).map Posting.id := by
      rw [Test.found, hx, hkey, List.filter_true, ValueIndex.map_id_postingsOf]
    rw [hfound]
    have hindex := Store.index?_of_sourceIndex? hx
    refine serves_postings h hindex (x.postingsOf_subset key) fun q _ ↦ ?_
    exact Act.ensures_bind (Act.ensures_get (Act.ensures_pure ⟨rfl, rfl⟩))
  | @indexed _ reel hx hkey hreverse hreel =>
    rw [Store.sourceIndex?_context, Option.map_eq_some_iff] at hx
    obtain ⟨x, hx, rfl⟩ := hx
    obtain rfl := Except.ok.inj hreel
    have hreverse' : x.hasReverse = true := hreverse
    have hfound : t.found s config = (x.toList.filter (x.isLeast t.assertion)).map Posting.id := by
      rw [Test.found, hx, hkey]
      exact if_pos hreverse'
    rw [hfound]
    exact serves_postings h (Store.index?_of_sourceIndex? hx) (List.Subset.refl _) fun q _ ↦
      accept_indexed hreverse' t.assertion q
  | @scanned reel hx hreel =>
    obtain rfl := Except.ok.inj hreel
    have hfound : t.found s config = s.ids.filter (t.verdict s config) := by
      rw [Test.found]
      cases hsource : s.sourceIndex? config t.subject.type with
      | none => rfl
      | some x =>
        have hindex := s.sourceIndex?_context r config t.subject.type
        rw [hsource] at hindex
        obtain ⟨hkey, hreverse⟩ := hx _ hindex
        rw [hkey]
        exact if_neg (by rw [show x.hasReverse = false from hreverse]; decide)
    rw [hfound]
    exact serves_scan h fun c hc ↦ t.evaluate_spec hc

/-! ## Filters -/

/-- The operands of a list visit the entries of a list of lists. -/
def ServesEach (s : Store) (r : Registry) (config : SearchConfig) (d : Direction)
    (operands : List Operand) (ls : List (List EntryId)) : Prop :=
  ∀ (j : Nat) (o : Operand), operands[j]? = some o → ∃ l, ls[j]? = some l ∧ o.Serves s r config d l

/-- A conjunction lists what its driver lists, as far as the others accept it. -/
theorem serves_joint {driver : Operand} {l : List EntryId} (hdriver : driver.Serves s r config d l)
    (position : Nat) (others : List (Operand × Nat)) (e : Evaluator) (estimate : Option Nat) :
    Serves s r config d
      ⟨.sieve (.fresh (.joint position (others.map fun o ↦ o.1.evaluator)) driver.cursor
        (others.map fun o ↦ o.1.cursor)), e, estimate⟩
      (l.filter fun i ↦
        Formula.allHold (fun t ↦ t.verdict s config i) (others.map fun o ↦ o.1.evaluator)) := by
  intro n hn
  obtain ⟨m, rfl, hm⟩ := le_of_height_sieve hn
  refine ready_sieve _ (hdriver m hm) fun i _ c hc ↦ ?_
  obtain ⟨rfl, hgenuine⟩ := hc
  have hleaf : ∀ t ∈ Formula.leavesOf (others.map fun o ↦ o.1.evaluator), ∀ c',
      c'.id = c.id ∧ s.Genuine c' → (t.evaluate (s.context r config)).Ensures c'
        (fun accepted c'' ↦ accepted = t.verdict s config c.id ∧ c''.id = c.id ∧ s.Genuine c'')
        fun _ _ ↦ False := by
    intro t _ c' hpost
    obtain ⟨hid, hc'⟩ := hpost
    rw [← hid]
    exact t.evaluate_spec hc'
  refine (Formula.judgeAll_spec _ ⟨rfl, hgenuine⟩ hleaf).imp ?_
  intro accepted c' hpost
  obtain ⟨haccepted, hid, hgenuine'⟩ := hpost
  exact ⟨haccepted, fun _ ↦ ⟨hid, hgenuine'⟩⟩

/-- The relay over the cursors of operands. -/
def relayOf (operands : List Operand) : Relay Cursor :=
  .fresh (operands.map fun o ↦ (o.cursor, o.evaluator))

/-- What is listed at a place. -/
def listedAt (ls : List (List EntryId)) (j : Nat) : List EntryId := ls[j]?.getD []

/-- Whether the verdict of the operand at a place is true of an entry. -/
def acceptsAt (s : Store) (config : SearchConfig) (operands : List Operand) (j : Nat)
    (i : EntryId) : Bool :=
  operands[j]?.any fun o ↦ o.evaluator.holds fun t ↦ t.verdict s config i

theorem size_relayOf (operands : List Operand) : (relayOf operands).size = operands.length :=
  (Relay.size_fresh _).trans (List.length_map _)

theorem length_lanes_relayOf (operands : List Operand) :
    (relayOf operands).lanes.length = operands.length :=
  (Relay.length_lanes_fresh _).trans (List.length_map _)

theorem height_le_relayOf {operands : List Operand} {o : Operand} (ho : o ∈ operands) :
    o.cursor.height + 1 ≤ Cursor.height (.relay (relayOf operands)) := by
  have hmem : o.cursor ∈ (operands.map fun o ↦ (o.cursor, o.evaluator)).map Prod.fst := by
    rw [List.map_map]
    exact List.mem_map_of_mem ho
  exact Nat.succ_le_succ (Cursor.height_le_heightOf hmem)

/-- The operands answer by their verdicts. -/
theorem answering_relayOf (s : Store) (r : Registry) (config : SearchConfig)
    (operands : List Operand) (ls : List (List EntryId)) :
    Relay.Answering (s.context r config) s.Genuine (fun _ ↦ False) (listedAt ls)
      (acceptsAt s config operands) (relayOf operands) := by
  intro j lane hlane c hc
  rw [relayOf, Relay.getElem?_lanes_fresh, List.getElem?_map, Option.map_map,
    Option.map_eq_some_iff] at hlane
  obtain ⟨o, ho, rfl⟩ := hlane
  refine (o.evaluator.evaluate_spec hc).imp ?_
  intro accepted c' hpost
  obtain ⟨haccepted, hid, hgenuine⟩ := hpost
  refine ⟨hid, hgenuine, fun _ ↦ ?_⟩
  rw [haccepted, acceptsAt, ho]
  rfl

/-- The operands are ready for what they list. -/
theorem waiting_relayOf {operands : List Operand} {ls : List (List EntryId)}
    (hls : ServesEach s r config d operands ls) {m : Nat}
    (hm : Cursor.height (.relay (relayOf operands)) ≤ m + 1) :
    Relay.Waiting (Cursor.walker (s.context r config) m) d s.Genuine (fun _ ↦ False) (listedAt ls)
      (relayOf operands) (List.range (relayOf operands).size) := by
  intro j hj
  rw [List.mem_range, size_relayOf] at hj
  have ho := List.getElem?_eq_getElem hj
  obtain ⟨l, hl, hserves⟩ := hls j _ ho
  refine ⟨operands[j].cursor, ?_, ?_⟩
  · rw [relayOf, Relay.getElem?_sources_fresh, List.getElem?_map, ho]
    rfl
  · have hheight := Nat.le_trans (height_le_relayOf (List.getElem_mem hj)) hm
    rw [listedAt, hl]
    exact hserves m (Nat.le_of_succ_le_succ hheight)

/-- What the relay depends on in its operands. -/
theorem legs_relayOf {operands : List Operand} {ls : List (List EntryId)}
    (hls : ServesEach s r config d operands ls) :
    (List.range (relayOf operands).size).map
        (Relay.leg (listedAt ls) (acceptsAt s config operands) (relayOf operands)) =
      List.zipWith (s.legOf config) (operands.map Operand.evaluator) ls := by
  refine List.ext_getElem? fun j ↦ ?_
  rw [List.getElem?_map, List.getElem?_zipWith, List.getElem?_map, size_relayOf]
  rcases Nat.lt_or_ge j operands.length with hj | hj
  · have ho := List.getElem?_eq_getElem hj
    obtain ⟨l, hl, -⟩ := hls j _ ho
    have hlisted : listedAt ls j = l := by
      rw [listedAt, hl]
      rfl
    have hskips : (relayOf operands).skips j = fun _ ↦ false :=
      funext fun i ↦ Relay.skips_fresh _ j i
    have haccepts : acceptsAt s config operands j =
        fun i ↦ operands[j].evaluator.holds fun t ↦ t.verdict s config i := by
      funext i
      rw [acceptsAt, ho]
      rfl
    rw [List.getElem?_range hj, ho, hl, Option.map_some, Relay.leg, hlisted, hskips, haccepts]
    rfl
  · rw [List.getElem?_eq_none (by rwa [List.length_range]), List.getElem?_eq_none hj]
    rfl

/-- A disjunction lists what its parts list one after the other. -/
theorem serves_relay {operands : List Operand} {ls : List (List EntryId)}
    (hpos : 0 < operands.length) (hls : ServesEach s r config d operands ls)
    (e : Evaluator) (estimate : Option Nat) :
    Serves s r config d ⟨.relay (relayOf operands), e, estimate⟩
      (merge [] (d.arrange
        (List.zipWith (s.legOf config) (operands.map Operand.evaluator) ls))) := by
  intro n hn
  obtain ⟨m, rfl⟩ := Nat.exists_eq_succ_of_ne_zero (Nat.ne_zero_of_lt hn)
  rw [← legs_relayOf hls, d.arrange_map]
  refine Cursor.embeds_relay.ready (Relay.ready (answering_relayOf s r config operands ls) ?_ ?_
    rfl (waiting_relayOf hls hn))
  · rw [length_lanes_relayOf, size_relayOf]
  · rwa [size_relayOf]

end Operand

namespace Context

/-- The operands that do not drive accept together what the parts but one accept together. -/
theorem allHold_others {ctx : Context} {p : Test → Bool} {parts : List Evaluator}
    {operands others : List Operand} {j : Nat} (hplanned : ctx.PlannedEach parts operands)
    (hothers : others.Perm (operands.eraseIdx j)) :
    Formula.allHold p (others.map Operand.evaluator) = Formula.allHold p (parts.eraseIdx j) := by
  have hparts := hplanned.holds_eq p
  calc Formula.allHold p (others.map Operand.evaluator)
      = others.all fun o ↦ o.evaluator.holds p := by rw [Formula.allHold_eq_all, List.all_map]; rfl
    _ = (operands.eraseIdx j).all fun o ↦ o.evaluator.holds p := hothers.all_eq
    _ = ((operands.map fun o ↦ o.evaluator.holds p).eraseIdx j).all id := by
      rw [List.eraseIdx_map, List.all_map]; rfl
    _ = ((parts.map (Formula.holds p)).eraseIdx j).all id := by rw [hparts]
    _ = Formula.allHold p (parts.eraseIdx j) := by
      rw [List.eraseIdx_map, List.all_map, Formula.allHold_eq_all]; rfl

/-- The others are all operands but the one that drives. -/
theorem others_perm {operands : List Operand} {driver : Operand} {position j : Nat}
    {others : List (Operand × Nat)}
    (h : Cursor.ranked (negationsLast operands) = (driver, position) :: others)
    (hj : operands[j]? = some driver) : (others.map Prod.fst).Perm (operands.eraseIdx j) := by
  have hperm := ranked_negationsLast_perm operands
  rw [h, List.map_cons] at hperm
  obtain ⟨hlt, hget⟩ := List.getElem?_eq_some_iff.1 hj
  have hrest := hperm.trans (List.getElem_cons_eraseIdx_perm hlt).symm
  rw [hget] at hrest
  exact hrest.cons_inv

/-- One of the operands drives, the others are all the rest. -/
theorem exists_driver {operands : List Operand} {driver : Operand} {position : Nat}
    {others : List (Operand × Nat)}
    (h : Cursor.ranked (negationsLast operands) = (driver, position) :: others) :
    ∃ j, operands[j]? = some driver ∧ (others.map Prod.fst).Perm (operands.eraseIdx j) := by
  have hmem : (driver, position) ∈ Cursor.ranked (negationsLast operands) := by
    rw [h]
    exact List.mem_cons_self
  obtain ⟨j, hj⟩ := List.mem_iff_getElem?.1 (mem_of_mem_ranked hmem)
  exact ⟨j, hj, others_perm h hj⟩

/-- To a disjunction it makes no difference whether a part is taken for its operand. -/
theorem PlannedEach.legs_eq : ∀ {parts : List Evaluator} {operands : List Operand}
    {ls : List (List EntryId)}, (s.context r config).PlannedEach parts operands →
      List.zipWith (s.legOf config) (operands.map Operand.evaluator) ls =
        List.zipWith (s.legOf config) parts ls
  | [], _, _, h => by
    rw [PlannedEach] at h
    rw [h]
    rfl
  | _ :: _, _, [], _ => by rw [List.zipWith_nil_right, List.zipWith_nil_right]
  | part :: _, _, l :: _, h => by
    rw [PlannedEach] at h
    obtain ⟨first, rest, rfl, hfirst, hrest⟩ := h
    have hleg : s.legOf config first.evaluator l = s.legOf config part l :=
      congrArg (Leg.mk l _) (funext fun i ↦ hfirst.holds_eq _)
    rw [List.map_cons, List.zipWith_cons_cons, List.zipWith_cons_cons, hleg, hrest.legs_eq]

mutual
/-- **The operand of a filter lists entries as the shape of the filter says.** -/
theorem Planned.serves (h : s.Consistent) : ∀ {e : Evaluator} {o : Operand},
    (s.context r config).Planned e o → ∃ l, o.Serves s r config d l ∧ s.Lists config d e l
  | .all [], _, ho => by
    rw [Planned] at ho
    obtain ⟨reel, hreel, rfl⟩ := ho
    obtain rfl := Except.ok.inj hreel
    exact ⟨_, Operand.serves_every h _ _, by rw [Store.Lists]⟩
  | .all [part], _, ho => by
    rw [Planned] at ho
    obtain ⟨l, hl, hlists⟩ := ho.serves h
    exact ⟨l, hl, by rwa [Store.Lists]⟩
  | .all (first :: second :: rest), _, ho => by
    rw [Planned] at ho
    obtain ⟨operands, driver, position, others, hplanned, hranked, rfl⟩ := ho
    obtain ⟨ls, hls, hlists⟩ := hplanned.serves h
    obtain ⟨j, hj, hothers⟩ := exists_driver hranked
    obtain ⟨driven, hdriven, hdriver⟩ := hls j driver hj
    refine ⟨_, Operand.serves_joint hdriver position others _ _, ?_⟩
    rw [Store.Lists]
    refine ⟨ls, j, driven, hlists, hdriven, List.filter_congr fun i _ ↦ ?_⟩
    have hall := allHold_others (p := fun t ↦ t.verdict s config i) hplanned hothers
    rw [List.map_map] at hall
    exact hall
  | .any [], _, ho => by
    rw [Planned] at ho
    subst ho
    exact ⟨[], Operand.serves_nothing _ _, by rw [Store.Lists]⟩
  | .any [part], _, ho => by
    rw [Planned] at ho
    obtain ⟨l, hl, hlists⟩ := ho.serves h
    exact ⟨l, hl, by rwa [Store.Lists]⟩
  | .any (first :: second :: rest), _, ho => by
    rw [Planned] at ho
    obtain ⟨operands, hplanned, rfl⟩ := ho
    obtain ⟨ls, hls, hlists⟩ := hplanned.serves h
    have hpos : 0 < operands.length := by
      rw [hplanned.length_eq]
      exact Nat.zero_lt_succ _
    refine ⟨_, Operand.serves_relay hpos hls _ _, ?_⟩
    rw [Store.Lists, hplanned.legs_eq]
    exact ⟨ls, hlists, rfl⟩
  | .not part, _, ho => by
    rw [Planned] at ho
    obtain ⟨reel, hreel, rfl⟩ := ho
    obtain rfl := Except.ok.inj hreel
    exact ⟨_, Operand.serves_negation h part _ _, by rw [Store.Lists]⟩
  | .leaf t, _, ho => by
    rw [Planned] at ho
    exact ⟨_, Operand.serves_leaf h ho, by rw [Store.Lists]⟩
theorem PlannedEach.serves (h : s.Consistent) :
    ∀ {parts : List Evaluator} {operands : List Operand},
      (s.context r config).PlannedEach parts operands →
        ∃ ls, Operand.ServesEach s r config d operands ls ∧ s.ListsEach config d parts ls
  | [], _, ho => by
    rw [PlannedEach] at ho
    subst ho
    exact ⟨[], fun j o hj ↦ absurd hj (by simp), by rw [Store.ListsEach]⟩
  | part :: parts, _, ho => by
    rw [PlannedEach] at ho
    obtain ⟨first, rest, rfl, hfirst, hrest⟩ := ho
    obtain ⟨l, hl, hlists⟩ := hfirst.serves h
    obtain ⟨ls, hls, hlistsEach⟩ := hrest.serves h
    refine ⟨l :: ls, fun j o hj ↦ ?_, ?_⟩
    · cases j with
      | zero => exact ⟨l, rfl, Option.some.inj hj ▸ hl⟩
      | succ j => exact hls j o hj
    · rw [Store.ListsEach]
      exact ⟨l, ls, rfl, hlists, hlistsEach⟩
end

end Context
end DirectoryQuery
