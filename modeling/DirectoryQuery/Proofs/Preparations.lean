import DirectoryQuery.Proofs.Assemblies
import DirectoryQuery.Proofs.Plans

/-!
# What planning leaves behind

Planning makes cursors and logs that it does.  It closes and releases none, and nothing that it logs
is about a search (`Context.plan_prepares`).  So the lines about cursors made are as many as there
are cursors with others within them in the cursor that is planned: no cursor is made and lost.
-/

set_option autoImplicit false

namespace DirectoryQuery

variable {α β : Type} {A : Option SearchError → Footprint → Prop}

/-! ## What is logged of cursors and searches -/

namespace LogLine

/-- The line is about the making of a cursor. -/
def isCreation (l : LogLine) : Bool := l.event == Event.cursorCreated.name

/-- The line is about the closing of a cursor that has others within it. -/
def isClosing (l : LogLine) : Bool :=
  l.event == Event.cursorClosed.name && l.fields.lookup "kind" != some "list"

/-- The line is about the completion of a search. -/
def isCompletion (l : LogLine) : Bool := l.event == Event.searchComplete.name

variable {l : LogLine}

theorem of_isAside (h : l.isAside = true) :
    l.isCreation = false ∧ l.isClosing = false ∧ l.isCompletion = false := by
  simp only [isAside, isCreation, isClosing, isCompletion] at *
  grind [Event.name]

theorem of_closingLine {cause : Option SearchError} {kind : String} (h : kind ≠ "list") :
    (closingLine cause kind).isCreation = false ∧ (closingLine cause kind).isClosing = true ∧
      (closingLine cause kind).isCompletion = false := by
  have hkind : (Listing.closedFields kind cause).lookup "kind" = some kind := by cases cause <;> rfl
  simp [isCreation, isClosing, isCompletion, closingLine, ofEvent, hkind, h, Event.name]

end LogLine

namespace Footprint

/-- What a footprint tells: how many cursors with others within them were made and closed, the lines
about completed searches, and what was released. -/
structure Records (made closed : Nat) (completed : List LogLine) (released : List String)
    (p : Footprint) : Prop where
  made : p.lines.countP LogLine.isCreation = made
  closed : p.lines.countP LogLine.isClosing = closed
  completed : p.lines.filter LogLine.isCompletion = completed
  released : p.releases = released

/-- The footprint has nothing to tell. -/
def Quiet (p : Footprint) : Prop := p.Records 0 0 [] []

variable {p q : Footprint} {m n m' n' : Nat} {ls ls' : List LogLine} {rs rs' : List String}

theorem Records.followed (hp : p.Records m n ls rs) (hq : q.Records m' n' ls' rs') :
    (p.followed q).Records (m + m') (n + n') (ls' ++ ls) (rs' ++ rs) := by
  constructor <;> simp [hp.made, hp.closed, hp.completed, hp.released, hq.made, hq.closed,
    hq.completed, hq.released, Nat.add_comm]

theorem quiet_nothing : nothing.Quiet := ⟨rfl, rfl, rfl, rfl⟩

theorem allows_quiet : Allows fun _ ↦ Quiet where
  nothing _ := quiet_nothing
  tally _ := ⟨rfl, rfl, rfl, rfl⟩
  followed hp hq := hp.followed hq

theorem quiet_ofLine {l : LogLine} (hcreation : l.isCreation = false)
    (hclosing : l.isClosing = false) (hcompletion : l.isCompletion = false) :
    (ofLine l).Quiet := by
  constructor <;> simp [ofLine, hcreation, hclosing, hcompletion]

/-- Asides tell of releases only. -/
theorem Aside.records {L : String → Prop} (h : p.Aside L) : p.Records 0 0 [] p.releases := by
  refine ⟨?_, ?_, ?_, rfl⟩
  · simpa using fun l hl ↦ (LogLine.of_isAside (h.lines l hl)).1
  · simpa using fun l hl ↦ (LogLine.of_isAside (h.lines l hl)).2.1
  · simpa using fun l hl ↦ (LogLine.of_isAside (h.lines l hl)).2.2

/-- A release tells of all closings and releases. -/
theorem Clears.records {cause : Option SearchError} {ps : List Part} (h : p.Clears cause ps) :
    p.Records 0 (ps.filterMap Part.kind?).length [] (ps.filterMap Part.label?).reverse := by
  have hfilter (f : LogLine → Bool) (hf : ∀ l, l.isAside = true → f l = false) :
      p.lines.filter f = ((ps.filterMap Part.kind?).map (closingLine cause)).reverse.filter f := by
    rw [← h.lines, List.filter_filter]
    refine List.filter_congr fun l _ ↦ ?_
    cases haside : l.isAside <;> simp [hf l, haside]
  have hline : ∀ l ∈ ((ps.filterMap Part.kind?).map (closingLine cause)).reverse,
      l.isCreation = false ∧ l.isClosing = true ∧ l.isCompletion = false := by
    intro l hl
    obtain ⟨kind, hmem, rfl⟩ := List.mem_map.1 (List.mem_reverse.1 hl)
    obtain ⟨part, -, hpart⟩ := List.mem_filterMap.1 hmem
    exact LogLine.of_closingLine (Part.kind_ne_list hpart)
  refine ⟨?_, ?_, ?_, h.releases⟩
  · rw [List.countP_eq_length_filter, hfilter _ fun l hl ↦ (LogLine.of_isAside hl).1,
      List.filter_eq_nil_iff.2 fun l hl ↦ by simp [hline l hl], List.length_nil]
  · rw [List.countP_eq_length_filter, hfilter _ fun l hl ↦ (LogLine.of_isAside hl).2.1,
      List.filter_eq_self.2 fun l hl ↦ (hline l hl).2.1, List.length_reverse, List.length_map]
  · rw [hfilter _ fun l hl ↦ (LogLine.of_isAside hl).2.2]
    exact List.filter_eq_nil_iff.2 fun l hl ↦ by simp [hline l hl]

end Footprint

/-! ## What making a filter ready for use leaves behind -/

namespace Attempt

/-- The attempt leaves a footprint that is allowed for what it comes to. -/
def Adds (x : Attempt α) (A : Option SearchError → Footprint → Prop) : Prop :=
  Attempt.Leaves x (fun _ p ↦ A none p) fun e p ↦ A (some e) p

theorem Adds.note {e : Event} {fields : List (String × String)}
    (h : A none (.ofLine (.ofEvent e fields))) :
    Attempt.Adds (liftM (note e fields) : Attempt Unit) A :=
  leaves_effect (Effect.leaves_note h)

variable (hA : Footprint.Allows A)

include hA

theorem Adds.pure (a : α) : Attempt.Adds (pure a) A := leaves_pure (hA.nothing _)

theorem Adds.except (o : Except SearchError α) : Attempt.Adds (liftM o : Attempt α) A := by
  cases o with
  | ok a => exact leaves_except (hA.nothing _)
  | error e => exact leaves_except (hA.nothing _)

theorem Adds.bind {x : Attempt β} {f : β → Attempt α} (hx : Attempt.Adds x A)
    (hf : ∀ b, Attempt.Adds (f b) A) : Attempt.Adds (x >>= f) A := by
  refine leaves_bind (Leaves.mono hx (fun b p hp ↦ ?_) fun _ _ hp ↦ hp)
  exact (hf b).mono (fun _ _ hq ↦ hA.followed hp hq) fun _ _ hq ↦ hA.followed hp hq

end Attempt

namespace Formula

variable {g : α → Attempt β}

mutual
/-- To replace all leaves leaves behind what replacing each of them does. -/
theorem traverse_adds (hA : Footprint.Allows A) (hg : ∀ a, Attempt.Adds (g a) A) :
    ∀ f : Formula α, Attempt.Adds (f.traverse g) A
  | all parts => .bind hA (traverseEach_adds hA hg parts) fun _ ↦ .pure hA _
  | any parts => .bind hA (traverseEach_adds hA hg parts) fun _ ↦ .pure hA _
  | not part => .bind hA (traverse_adds hA hg part) fun _ ↦ .pure hA _
  | leaf a => .bind hA (hg a) fun _ ↦ .pure hA _
theorem traverseEach_adds (hA : Footprint.Allows A) (hg : ∀ a, Attempt.Adds (g a) A) :
    ∀ fs : List (Formula α), Attempt.Adds (traverseEach g fs) A
  | [] => .pure hA _
  | part :: parts =>
    .bind hA (traverse_adds hA hg part) fun _ ↦
      .bind hA (traverseEach_adds hA hg parts) fun _ ↦ .pure hA _
end

end Formula

theorem Clause.resolve_quiet (r : Registry) (c : Clause) :
    Attempt.Adds (c.resolve r) fun _ ↦ Footprint.Quiet := by
  have hA := Footprint.allows_quiet
  refine .bind hA (.except hA _) fun subject ↦ .bind hA (.note ?_) fun _ ↦ ?_
  · exact Footprint.quiet_ofLine rfl rfl rfl
  · by_cases hpattern : subject.assertion c.condition = .pattern none
    · simp only [hpattern, if_true]
      exact .bind hA (.note (Footprint.quiet_ofLine rfl rfl rfl)) fun _ ↦ .pure hA _
    · simp only [hpattern, if_false]
      exact .pure hA _

theorem Filter.resolve_quiet (r : Registry) (f : Filter) :
    Attempt.Adds (f.resolve r) fun _ ↦ Footprint.Quiet :=
  Formula.traverse_adds Footprint.allows_quiet (Clause.resolve_quiet r) f

/-! ## What planning leaves behind -/

namespace Cursor

/-- The cursors were made, and nothing in them is closed. -/
structure Prepared (A : Option SearchError → Footprint → Prop) (cs : List Cursor) (p : Footprint) :
    Prop where
  records : p.Records (cs.flatMap fun c ↦ c.roll.kinds).length 0 [] []
  isOpen : ∀ c ∈ cs, c.IsOpen
  reads : ∀ c ∈ cs, c.Reads A

variable {cs cs' : List Cursor} {p q : Footprint}

theorem Prepared.nil : Prepared A [] .nothing := ⟨Footprint.quiet_nothing, nofun, nofun⟩

theorem prepared_reel (r : Reel) : Prepared A [reel r] .nothing where
  records := by
    rw [List.flatMap_singleton, roll_reel]
    exact Footprint.quiet_nothing
  isOpen := List.forall_mem_singleton.2 (isOpen_reel r)
  reads := by
    cases hm : r.monitor <;> simp [Reads, parts, Reel.parts, Reel.rested, Part.Reads, hm]

theorem Prepared.append (h : Prepared A cs p) (h' : Prepared A cs' q) :
    Prepared A (cs ++ cs') (p.followed q) where
  records := by
    rw [List.flatMap_append, List.length_append]
    exact h.records.followed h'.records
  isOpen := List.forall_mem_append.2 ⟨h.isOpen, h'.isOpen⟩
  reads := List.forall_mem_append.2 ⟨h.reads, h'.reads⟩

/-- The order of the cursors does not matter. -/
theorem Prepared.perm (h : Prepared A cs p) (hperm : cs'.Perm cs) : Prepared A cs' p where
  records := by
    rw [(hperm.flatMap_right _).length_eq]
    exact h.records
  isOpen c hc := h.isOpen c (hperm.mem_iff.1 hc)
  reads c hc := h.reads c (hperm.mem_iff.1 hc)

theorem Prepared.followed (h : Prepared A cs p) (hq : q.Quiet) : Prepared A cs (p.followed q) :=
  ⟨h.records.followed hq, h.isOpen, h.reads⟩

theorem Prepared.after (h : Prepared A cs p) (hq : q.Quiet) : Prepared A cs (q.followed p) where
  records := by simpa using hq.followed h.records
  isOpen := h.isOpen
  reads := h.reads

/-- A cursor that is made of others is one more that was made. -/
theorem Prepared.made (h : Prepared A cs p) {part : Part} {kind : String} {c : Cursor}
    (hmade : MadeOf part cs c q) (hkind : part.kind? = some kind) (hpart : part.Reads A) :
    Prepared A [c] (p.followed q) := by
  have hopen : c.OpenWith _ :=
    MadeOf.openWith_map (l := cs) (f := id) (g := roll) hkind (by simpa using hmade) fun c hc ↦
      ⟨h.isOpen c hc, rfl⟩
  refine ⟨?_, List.forall_mem_singleton.2 hopen.isOpen, List.forall_mem_singleton.2 ?_⟩
  · obtain ⟨kind, operands, rfl⟩ := hmade.footprint
    have hline : (Footprint.ofLine (creationLine kind operands)).Records 1 0 [] [] :=
      ⟨rfl, rfl, rfl, rfl⟩
    have hboth := h.records.followed hline
    rw [List.flatMap_singleton, hopen.roll]
    simpa [Roll.headed, List.flatMap_map] using hboth
  · intro part' hpart'
    rw [hmade.parts, List.mem_cons, List.mem_flatMap] at hpart'
    rcases hpart' with rfl | ⟨c', hc', hpart'⟩
    · exact hpart
    · exact h.reads c' hc' part' hpart'

theorem prepared_of_reel {r : Reel} {part : Part} {kind : String} {c : Cursor}
    (hmade : MadeOf part [reel r] c q) (hkind : part.kind? = some kind) (hpart : part.Reads A) :
    Prepared A [c] q := by
  have h := (prepared_reel r).made hmade hkind hpart
  rwa [Footprint.nothing_followed] at h

end Cursor

namespace Context

open Cursor

variable {ctx : Context}

/-- The answer of the attempt comes with cursors that were made by it and are open. -/
def Prepares (A : Option SearchError → Footprint → Prop) (x : Attempt α)
    (cursors : α → List Cursor) : Prop :=
  Attempt.Leaves x (fun a p ↦ Prepared A (cursors a) p) fun _ _ ↦ True

/-- The last thing that is done is to put the answer together. -/
theorem Prepares.map {x : Attempt α} {f : α → β} {cs : α → List Cursor} {cs' : β → List Cursor}
    (hx : Prepares A x cs) (hf : ∀ a, cs' (f a) = cs a) :
    Prepares A (x >>= fun a ↦ pure (f a)) cs' := by
  refine Attempt.leaves_bind_ok hx fun a p ha ↦ Attempt.leaves_pure ?_
  rw [Footprint.followed_nothing, hf]
  exact ha

/-- What is quiet may come first. -/
theorem Prepares.after {x : Attempt α} {f : α → Attempt β} {cs : β → List Cursor}
    (hx : Attempt.Adds x fun _ ↦ Footprint.Quiet) (hf : ∀ a, Prepares A (f a) cs) :
    Prepares A (x >>= f) cs :=
  Attempt.leaves_bind_ok hx fun a _ hp ↦
    Attempt.Leaves.mono (hf a) (fun _ _ hq ↦ hq.after hp) fun _ _ _ ↦ trivial

theorem everyEntry_prepares (ctx : Context) : Prepares A ctx.everyEntry fun c ↦ [c] := by
  refine Attempt.leaves_bind (Attempt.leaves_except ?_)
  cases ctx.directory.everyEntry with
  | error e => trivial
  | ok r => exact Attempt.leaves_pure (prepared_reel r)

theorem scanAll_prepares (ctx : Context) (e : Evaluator) :
    Prepares A (ctx.scanAll e) fun c ↦ [c] := by
  refine Attempt.leaves_bind_ok (ctx.everyEntry_prepares (A := A)) fun c p hc ↦ ?_
  refine Attempt.leaves_effect ?_
  exact Effect.Leaves.mono (scan_madeOf c e) fun c' q hmade ↦ hc.made hmade rfl trivial

theorem ofKey_prepares (x : Index) (key : Value) : Prepares A (ofKey x key) fun c ↦ [c] := by
  refine (ofKey_madeOf x key).mono (fun c p hc ↦ ?_) fun _ _ _ ↦ trivial
  obtain ⟨r, -, hmade⟩ := hc
  exact prepared_of_reel hmade rfl trivial

theorem ofIndex_prepares {x : Index} (hx : x.Reads A) (a : Assertion) :
    Prepares A (ofIndex x a) fun c ↦ [c] := by
  refine (ofIndex_madeOf x a).mono (fun c p hc ↦ ?_) fun _ _ _ ↦ trivial
  obtain ⟨r, -, hmade⟩ := hc
  exact prepared_of_reel hmade rfl hx

theorem planIndexed?_prepares {x : Index} (hx : x.Reads A) (t : Test) :
    ∀ planning ∈ planIndexed? x t, Prepares A planning fun o ↦ [o.cursor] := by
  intro planning hplanning
  unfold planIndexed? at hplanning
  cases hkey : t.lookupKey with
  | some key =>
    rw [hkey] at hplanning
    obtain rfl := Option.some.inj hplanning
    exact (ofKey_prepares x key).map fun _ ↦ rfl
  | none =>
    rw [hkey] at hplanning
    cases hreverse : x.hasReverse with
    | false => simp [hreverse] at hplanning
    | true =>
      simp only [hreverse, if_true] at hplanning
      obtain rfl := Option.some.inj hplanning
      exact (ofIndex_prepares hx _).map fun _ ↦ rfl

theorem planClause_prepares (hctx : ∀ t x, ctx.sourceIndex? t = some x → x.Reads A) (c : Clause) :
    Prepares A (ctx.planClause c) fun o ↦ [o.cursor] := by
  refine .after (c.resolve_quiet ctx.schema) fun t ↦ ?_
  cases hplanning : (ctx.sourceIndex? t.subject.type).bind fun x ↦ planIndexed? x t with
  | none => exact (ctx.scanAll_prepares _).map fun _ ↦ rfl
  | some planning =>
    obtain ⟨x, hx, hplanning⟩ := Option.bind_eq_some_iff.1 hplanning
    exact planIndexed?_prepares (hctx _ x hx) t planning hplanning

/-- Making the filter ready for use may come last. -/
theorem resolve_leaves {cs : List Cursor} {p q : Footprint} (h : Prepared A cs (p.followed q))
    (f : Filter) {make : Evaluator → Operand} (hmake : ∀ e, [(make e).cursor] = cs) :
    Attempt.Leaves (f.resolve ctx.schema >>= fun e ↦ pure (make e))
      (fun o q' ↦ Prepared A [o.cursor] (p.followed (q.followed q'))) fun _ _ ↦ True := by
  refine Attempt.leaves_bind_ok (f.resolve_quiet ctx.schema) fun e q' hq' ↦ Attempt.leaves_pure ?_
  rw [Footprint.followed_nothing, hmake, ← Footprint.followed_assoc]
  exact h.followed hq'

mutual
/-- **Planning makes cursors, and closes and releases none.** -/
theorem plan_prepares (hctx : ∀ t x, ctx.sourceIndex? t = some x → x.Reads A) :
    ∀ f : Filter, Prepares A (ctx.plan f) fun o ↦ [o.cursor]
  | .all [] => by
    rw [plan]
    exact .after (Filter.resolve_quiet _ _) fun e ↦ (ctx.scanAll_prepares e).map fun _ ↦ rfl
  | .all [part] => by
    rw [plan]
    exact plan_prepares hctx part
  | .all (first :: second :: rest) => by
    rw [plan]
    refine Attempt.leaves_bind_ok (planEach_prepares hctx (first :: second :: rest)) ?_
    intro operands p hoperands
    have hperm : ((ranked (negationsLast operands)).map fun o ↦ o.1.cursor).Perm
        (operands.map Operand.cursor) := by
      have hmap := (ranked_negationsLast_perm operands).map Operand.cursor
      rwa [List.map_map] at hmap
    refine Attempt.leaves_bind_ok (conjunction_madeOf _) ?_
    rintro c q ⟨position, evaluators, hmade⟩
    exact resolve_leaves ((hoperands.perm hperm).made hmade rfl trivial) _ fun _ ↦ rfl
  | .any [] => by
    rw [plan]
    exact .after (Filter.resolve_quiet _ _) fun _ ↦ Attempt.leaves_pure (prepared_reel _)
  | .any [part] => by
    rw [plan]
    exact plan_prepares hctx part
  | .any (first :: second :: rest) => by
    rw [plan]
    refine Attempt.leaves_bind_ok (planEach_prepares hctx (first :: second :: rest)) ?_
    intro operands p hoperands
    refine Attempt.leaves_bind_ok (disjunction_madeOf _) fun c q hmade ↦ ?_
    exact resolve_leaves (hoperands.made hmade rfl trivial) _ fun _ ↦ rfl
  | .not part => by
    rw [plan]
    refine .after (Filter.resolve_quiet _ _) fun negated ↦ ?_
    refine Attempt.leaves_bind_ok (ctx.everyEntry_prepares (A := A)) fun source p hsource ↦ ?_
    refine Attempt.leaves_bind (Attempt.leaves_effect ?_)
    refine Effect.Leaves.mono (negation_madeOf source negated) ?_
    exact fun c q hmade ↦ resolve_leaves (hsource.made hmade rfl trivial) _ fun _ ↦ rfl
  | .leaf c => by
    rw [plan]
    exact planClause_prepares hctx c
theorem planEach_prepares (hctx : ∀ t x, ctx.sourceIndex? t = some x → x.Reads A) :
    ∀ fs : List Filter, Prepares A (ctx.planEach fs) fun os ↦ os.map Operand.cursor
  | [] => by
    rw [planEach]
    exact Attempt.leaves_pure Prepared.nil
  | f :: fs => by
    rw [planEach]
    refine Attempt.leaves_bind_ok (plan_prepares hctx f) fun o p ho ↦ ?_
    refine Attempt.leaves_bind_ok (planEach_prepares hctx fs) fun os q hos ↦ Attempt.leaves_pure ?_
    rw [Footprint.followed_nothing]
    exact ho.append hos
end

end Context
end DirectoryQuery
