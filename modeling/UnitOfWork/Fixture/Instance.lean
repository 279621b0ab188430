import UnitOfWork.Fixture.Value
import UnitOfWork.Instance

/-! Attribute values and instances as fixtures. An instance is referred to by the name it was given, and
shown by its ordinal. -/

namespace UnitOfWork

open Fixture

/-- The instances that were given a name, the latest first; an earlier one of the same name is hidden. -/
abbrev Names := List (String × Handle)

namespace Names

def handle (names : Names) (document : Json) : Reading Handle := do
  let name ← text document
  match names.lookup name with
  | some h => return h
  | none => .error (.unbound name)

def handles (names : Names) : List Handle :=
  (names.filterMap fun (name, _) => names.lookup name).eraseDups

mutual

def unbound? (names : Names) : Json → Option String
  | .object members => unboundMember? names members
  | .array items => unboundItem? names items
  | _ => none

def unboundItem? (names : Names) : List Json → Option String
  | [] => none
  | item :: rest => (unbound? names item).or (unboundItem? names rest)

def unboundMember? (names : Names) : List (String × Json) → Option String
  | [] => none
  | (member, value) :: rest =>
    match member, value with
    | "H", .text name => if (names.lookup name).isSome then unboundMember? names rest else some name
    | _, value => (unbound? names value).or (unboundMember? names rest)

end

end Names

def Handle.toFixture (h : Handle) : Json := .ofNat h.ordinal

def Reference.toFixture : Reference → Json
  | .loaded h => .tagged "H" h.toFixture
  | .notLoaded key => .tagged "NotLoaded" key.toFixture
  | .removed key => .tagged "Removed" key.toFixture

namespace AttributeValue

mutual

def toFixture : AttributeValue → Json
  | .null => .null
  | .basic .null => .tagged "Basic" .null
  | .basic value => value.toFixture
  | .embedded children => .array (allToFixture children)
  | .reference r => r.toFixture
  | .foreignKey id => .tagged "ForeignKey" id.toFixture
  | .anyKey entity id => .tagged "AnyKey" (EntityKey.toFixture ⟨entity, id⟩)
  | .unfetched => .tagged "Unfetched" (.bool true)

def allToFixture : List AttributeValue → List Json
  | [] => []
  | value :: rest => value.toFixture :: allToFixture rest

end

def stateToFixture (state : List AttributeValue) : Json := .array (allToFixture state)

/-- Everything named but references to embedded values; other names are column types. -/
def ofTagged (names : Names) (tag : String) (payload : Json) : Reading AttributeValue :=
  match tag with
  | "H" => return .reference (.loaded (← names.handle payload))
  | "NotLoaded" => return .reference (.notLoaded (← EntityKey.ofFixture payload))
  | "Removed" => return .reference (.removed (← EntityKey.ofFixture payload))
  | "ForeignKey" => return .foreignKey (← Identifier.ofFixture payload)
  | "AnyKey" => do
    let key ← EntityKey.ofFixture payload
    return .anyKey key.entity key.id
  | "Unfetched" => .ok .unfetched
  | "Basic" => return .basic (← Value.ofFixture payload)
  | "basic" => return .ofValue (← Value.ofFixture payload)
  | _ => return .basic (← Value.ofFixture (.tagged tag payload))

mutual

def ofFixture (names : Names) : Json → Reading AttributeValue
  | .null => .ok .null
  | .array items => do return .embedded (← allOfFixture names items)
  | .object [(tag, payload)] => ofTagged names tag payload
  | other => do return .basic (← Value.ofFixture other)

def allOfFixture (names : Names) : List Json → Reading (List AttributeValue)
  | [] => .ok []
  | document :: rest => do
    let value ← ofFixture names document
    let values ← allOfFixture names rest
    return value :: values

end

end AttributeValue

namespace Instance

def toFixture (x : Instance) : Json :=
  .ofMembers [("entity", .text x.entity), ("id", .ofOption Identifier.toFixture x.id),
    ("values", AttributeValue.stateToFixture x.values)]

def ofFixture (names : Names) (entity : String) (document : Json) : Reading Instance := do
  return {
    entity
    id := ← document.get? "id" Identifier.ofFixture
    values := ← document.getList "values" (AttributeValue.ofFixture names) }

end Instance

def Heap.ofFixtures (documents : List Json) : Reading (Names × Heap) :=
  documents.foldlM (fun (names, heap) document => do
    let x ← Instance.ofFixture names (← document.get "entity" text) document
    let (h, heap) := heap.create x
    return ((← document.get "as" text, h) :: names, heap)) (([], ∅) : Names × Heap)

end UnitOfWork
