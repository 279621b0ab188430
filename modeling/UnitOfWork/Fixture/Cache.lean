import UnitOfWork.Cache.Region
import UnitOfWork.Fixture.Instance

/-! What the second-level cache holds as fixtures. -/

namespace UnitOfWork

open Fixture

namespace CacheKey

def toFixture (key : CacheKey) : Json :=
  .array [key.id.toFixture, .text key.entity, .ofOption .text key.tenant]

def ofFixture (document : Json) : Reading CacheKey := do
  match ← items document with
  | [id, entity, tenant] => return ⟨← Identifier.ofFixture id, ← text entity, ← optional text tenant⟩
  | _ => .error (.expected "identifier, entity and tenant")

end CacheKey

namespace CachedValue

mutual

def toFixture : CachedValue → Json
  | .null => .null
  | .basic value => .tagged "Basic" value.toFixture
  | .embedded children => .tagged "Embedded" (.array (allToFixture children))
  | .reference entity id => .tagged "Reference" (EntityKey.toFixture ⟨entity, id⟩)
  | .unfetched => .tagged "Unfetched" (.bool true)

def allToFixture : List CachedValue → List Json
  | [] => []
  | value :: rest => value.toFixture :: allToFixture rest

end

end CachedValue

def CacheEntry.toFixture (entry : CacheEntry) : Json :=
  .ofMembers [("subclass", .text entry.subclass), ("version", Value.optionToFixture entry.version),
    ("state", .array (CachedValue.allToFixture entry.state))]

namespace CacheValue

def toFixture : CacheValue → Json
  | .entry held => .tagged "Entry" held.toFixture
  | .structured document => .tagged "Structured" document.exact

/-- A document as it is, or the state of an entity, which is taken apart. -/
def ofFixture (names : Names) (heap : Heap) (document : Json) : Reading CacheValue := do
  match document.member? "json" with
  | some held => return .structured held.canonical
  | none =>
    let state ← document.getList "state" (AttributeValue.ofFixture names)
    return .entry ⟨← document.get "subclass" text, ← document.getD "version" Value.optionOfFixture none,
      CachedValue.ofAttributes heap state⟩

end CacheValue

end UnitOfWork
