import DirectoryQuery.Schema.Registry

/-!
# Superiors and descendants

An attribute type may name a superior.  `superiorChain` follows these references from a type
upwards; syntax and matching rules come from the nearest type of the chain that declares one.  The
chain may have at most `maxLinks` links, which also makes every cycle a failure.

`descendants` goes the other way: it lists the types below a type, level by level, those below one
parent in the order of their identifiers.  A registry that was never checked may have cycles, so a
type that has been listed is not listed again.

`validate` checks every reference that the types of a registry make.
-/

set_option autoImplicit false

namespace DirectoryQuery
namespace Registry

/-! ## Upwards -/

/-- How many links a chain of superiors may have. -/
def maxLinks : Nat := 32

/-- The type and its superiors, nearest first, along at most the given number of links.  The name
is that of the type where the chain began. -/
def climb (r : Registry) (origin : String) : Nat → AttributeType →
    Except SchemaError (List AttributeType)
  | links, t =>
    match t.superior, links with
    | none, _ => .ok [t]
    | some _, 0 => .error (.malformed origin "superior chain is cyclic or too deep")
    | some superior, links + 1 => do
      let above ← r.climb origin links (← r.resolve superior)
      return t :: above

/-- The type and its superiors, nearest first. -/
def superiorChain (r : Registry) (t : AttributeType) : Except SchemaError (List AttributeType) :=
  r.climb t.name maxLinks t

/-- The syntax of a type, its own or the nearest inherited one. -/
def syntaxOf (r : Registry) (t : AttributeType) : Except SchemaError ValueSyntax := do
  match (← r.superiorChain t).findSome? AttributeType.syntaxOid with
  | none => .error (.missingSyntax t.name)
  | some oid =>
    match r.syntaxes[oid]? with
    | some s => .ok s
    | none => .error (.unknownSyntax t.name oid)

/-- The matching rule of a type for one use, its own or the nearest inherited one; `none` if no type
of the chain declares one. -/
def ruleFor (r : Registry) (t : AttributeType) (slot : RuleSlot) :
    Except SchemaError (Option MatchingRule) := do
  match (← r.superiorChain t).findSome? fun u ↦ u.declaredRule slot with
  | none => return none
  | some reference => return some (← r.rule t reference)

/-! ## Downwards -/

/-- The identifier of the superior of a type, if it names one that the registry has. -/
def superiorOid? (r : Registry) (t : AttributeType) : Option String :=
  t.superior.bind fun superior ↦ r.spellings[Text.lower superior]?

/-- The types right below a type that have not been visited, in the order of their identifiers. -/
def children (r : Registry) (visited : List String) (parent : String) : List AttributeType :=
  r.typeList.filter fun t ↦ !visited.contains t.oid && r.superiorOid? t == some parent

/-- Lists the types below the parents in the queue.  Each turn takes one parent, so as many turns
are enough as there are types and one more. -/
def spread (r : Registry) : Nat → List String → List String → List AttributeType
  | 0, _, _ => []
  | _, _, [] => []
  | turns + 1, visited, parent :: queue =>
    let found := r.children visited parent
    let oids := found.map AttributeType.oid
    found ++ r.spread turns (oids ++ visited) (queue ++ oids)

/-- The types below a type, level by level. -/
def descendants (r : Registry) (t : AttributeType) : List AttributeType :=
  r.spread (r.typeCount + 1) [t.oid] [t.oid]

/-! ## Checking references -/

/-- Checks the references that one type makes. -/
def validateType (r : Registry) (t : AttributeType) : Except SchemaError Unit := do
  let _ ← r.superiorChain t
  match t.syntaxOid with
  | some oid => if !r.syntaxes.contains oid then .error (.unknownSyntax t.name oid)
  | none => pure ()
  RuleSlot.all.forM fun slot ↦
    match t.declaredRule slot with
    | some reference => do let _ ← r.rule t reference
    | none => pure ()

/-- Checks the references of every type, in the order of the identifiers. -/
def validate (r : Registry) : Except SchemaError Unit := r.typeList.forM r.validateType

end Registry
end DirectoryQuery
