import UnitOfWork.Session.Classification

/-! References that an insert must not write because their row does not exist yet or is going away. One
that may be null is nulled in the state to write; one that may not makes the insert wait. -/

namespace UnitOfWork

/-- The write on whose behalf references are judged. -/
structure Nullifier where
  owner : Option Handle
  isDelete : Bool
  /-- The row is written before its identifier is known. -/
  early : Bool
deriving Inhabited

namespace Nullifier

/-- A row that is its own target exists when it is written, unless it is written early. -/
def isNullifiable (nullifier : Nullifier) (value : AttributeValue) : Action Bool := do
  let s ← get
  match value with
  | .reference (.loaded h) =>
    if nullifier.owner = some h then
      return nullifier.early ||
        (nullifier.isDelete && s.session.factory.config.selfReferencesBlockDelete)
    else
      match s.context.entry? h with
      | some entry => return s.context.isNullifiable entry nullifier.early
      | none => return (← Action.classify value none).isTransient
  | .reference (.removed key) =>
    return s.context.isNullifiableKey key || (s.context.entryForKey? key).isNone
  | _ => return false

mutual

/-- Foreign keys on the other side are not written, so only many-to-one and polymorphic references are
replaced. -/
def nullify (nullifier : Nullifier) (a : Attribute) : AttributeValue → Action AttributeValue
  | .embedded children =>
    match a.kind with
    | .embedded _ attributes => do
      let replaced ← nullifier.nullifyAll attributes children
      return .embedded replaced
    | _ => return .embedded children
  | .reference r =>
    match a.kind with
    | .manyToOne _ | .any => do
      if ← nullifier.isNullifiable (.reference r) then return .null
      else return .reference r
    | _ => return .reference r
  | value => return value

/-- Values beyond the last attribute are kept. -/
def nullifyAll (nullifier : Nullifier) : List Attribute → List AttributeValue → Action (List AttributeValue)
  | _, [] => return []
  | [], value :: values => return value :: values
  | a :: attributes, value :: values => do
    let first ← nullifier.nullify a value
    let rest ← nullifier.nullifyAll attributes values
    return first :: rest

end

mutual

def collect (nullifier : Nullifier) (path : String) (a : Attribute) : AttributeValue → Action (List Dependency)
  | .embedded children =>
    match a.kind with
    | .embedded _ attributes => nullifier.collectAll (path ++ ".") attributes children
    | _ => return []
  | .reference r =>
    match a.kind with
    | .manyToOne _ | .any =>
      if a.nullable then return []
      else do
        if ← nullifier.isNullifiable (.reference r) then return [⟨path, r⟩]
        else return []
    | _ => return []
  | _ => return []

/-- Names are appended to `stem` to give the paths. -/
def collectAll (nullifier : Nullifier) (stem : String) :
    List Attribute → List AttributeValue → Action (List Dependency)
  | a :: attributes, value :: values => do
    let first ← nullifier.collect (stem ++ a.name) a value
    let rest ← nullifier.collectAll stem attributes values
    return first ++ rest
  | _, _ => return []

end

end Nullifier

/-- What the insert of an instance with these values has to wait for. -/
def Action.dependencies (entity : String) (h : Handle) (values : List AttributeValue) (early : Bool) :
    Action (List Dependency) := do
  let d ← descriptor entity
  Nullifier.collectAll ⟨some h, false, early⟩ "" d.attributes values

end UnitOfWork
