/-!
# Formulas

A search filter and the tester made from it have one shape: leaves combined by conjunction,
disjunction and negation.  `Formula` is that shape.  `holds` says what a formula means once every
leaf is true or false; `judge` finds that out when judging a leaf is a computation, and judges no
more leaves than it has to.  `traverse` replaces the leaves one by one, from left to right, by the
results of computations.
-/

set_option autoImplicit false

namespace DirectoryQuery

/-- Leaves combined by conjunction, disjunction and negation. -/
inductive Formula (α : Type) where
  /-- All of the parts hold; without parts, always. -/
  | all (parts : List (Formula α))
  /-- One of the parts holds; without parts, never. -/
  | any (parts : List (Formula α))
  /-- The part does not hold. -/
  | not (part : Formula α)
  | leaf (a : α)
deriving BEq

namespace Formula

variable {α β : Type}

/-- Whether the formula is a negation. -/
def isNot : Formula α → Bool
  | not _ => true
  | _ => false

/-- Whether the formula is a leaf. -/
def isLeaf : Formula α → Bool
  | leaf _ => true
  | _ => false

/-- The leaf that the formula is. -/
def leaf? : Formula α → Option α
  | leaf a => some a
  | _ => none

mutual
/-- Whether the formula holds when the leaves are judged as given. -/
def holds (p : α → Bool) : Formula α → Bool
  | all parts => allHold p parts
  | any parts => anyHolds p parts
  | not part => !holds p part
  | leaf a => p a
/-- Whether all of the formulas hold. -/
def allHold (p : α → Bool) : List (Formula α) → Bool
  | [] => true
  | part :: parts => holds p part && allHold p parts
/-- Whether one of the formulas holds. -/
def anyHolds (p : α → Bool) : List (Formula α) → Bool
  | [] => false
  | part :: parts => holds p part || anyHolds p parts
end

mutual
/-- The leaves from left to right. -/
def leaves : Formula α → List α
  | all parts => leavesOf parts
  | any parts => leavesOf parts
  | not part => leaves part
  | leaf a => [a]
/-- The leaves of a list of formulas from left to right. -/
def leavesOf : List (Formula α) → List α
  | [] => []
  | part :: parts => leaves part ++ leavesOf parts
end

mutual
/-- The formula with every leaf replaced. -/
def map (f : α → β) : Formula α → Formula β
  | all parts => all (mapEach f parts)
  | any parts => any (mapEach f parts)
  | not part => not (map f part)
  | leaf a => leaf (f a)
/-- The formulas with every leaf replaced. -/
def mapEach (f : α → β) : List (Formula α) → List (Formula β)
  | [] => []
  | part :: parts => map f part :: mapEach f parts
end

mutual
/-- The formula with every leaf replaced by the result of a computation, from left to right. -/
def traverse {m : Type → Type} [Monad m] (f : α → m β) : Formula α → m (Formula β)
  | all parts => do return all (← traverseEach f parts)
  | any parts => do return any (← traverseEach f parts)
  | not part => do return not (← traverse f part)
  | leaf a => do return leaf (← f a)
/-- The formulas with every leaf replaced by the result of a computation, from left to right. -/
def traverseEach {m : Type → Type} [Monad m] (f : α → m β) : List (Formula α) → m (List (Formula β))
  | [] => return []
  | part :: parts => do
    let first ← traverse f part
    return first :: (← traverseEach f parts)
end

mutual
/-- Whether the formula holds when a computation judges the leaves.  Parts are judged from left to
right until one decides. -/
def judge {m : Type → Type} [Monad m] (p : α → m Bool) : Formula α → m Bool
  | all parts => judgeAll p parts
  | any parts => judgeAny p parts
  | not part => do return !(← judge p part)
  | leaf a => p a
/-- Whether all of the formulas hold. -/
def judgeAll {m : Type → Type} [Monad m] (p : α → m Bool) : List (Formula α) → m Bool
  | [] => return true
  | part :: parts => do if ← judge p part then judgeAll p parts else return false
/-- Whether one of the formulas holds. -/
def judgeAny {m : Type → Type} [Monad m] (p : α → m Bool) : List (Formula α) → m Bool
  | [] => return false
  | part :: parts => do if ← judge p part then return true else judgeAny p parts
end

end Formula
end DirectoryQuery
