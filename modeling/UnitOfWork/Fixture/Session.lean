import UnitOfWork.Fixture.Cache
import UnitOfWork.Session.Load

/-! The settings and contents of a session as fixtures. -/

namespace UnitOfWork

open Fixture

def CacheMode.ofFixture : Json → Reading CacheMode := oneOf (CacheMode.all.map fun mode => (mode.name, mode))

def LockMode.ofFixture : Json → Reading LockMode := oneOf (LockMode.all.map fun mode => (mode.name, mode))

def Status.ofFixture : Json → Reading Status := oneOf (Status.all.map fun status => (status.name, status))

def SessionConfig.ofFixture (document : Json) : Reading SessionConfig := do
  return {
    readOnly := ← document.flag "read_only"
    cacheMode := ← document.getD "cache_mode" CacheMode.ofFixture .normal
    tenant := ← document.get? "tenant" text
    eventSource := ← document.getD "events" truth true }

def LoadOptions.ofFixture (document : Json) : Reading LoadOptions := do
  return {
    readOnly := ← document.get? "read_only" truth
    lock := ← document.getD "lock" LockMode.ofFixture .none }

def Snapshot.toFixture (snapshot : Snapshot) : Json :=
  .ofList (fun
    | some value => .array [value.toFixture]
    | none => .text "-") snapshot.slots

namespace Entry

def toFixture (entry : Entry) : Json :=
  .ofMembers [("key", .ofOption EntityKey.toFixture entry.key), ("entity", .text entry.entity),
    ("status", .text entry.status.name),
    ("loaded", .ofOption AttributeValue.stateToFixture entry.loadedState),
    ("version", Value.optionToFixture entry.version), ("lock", .text entry.lock.name),
    ("exists", .bool entry.existsInDatabase), ("mutable", .bool entry.isMutable),
    ("read_only", .bool entry.isReadOnly), ("snapshot", .ofOption Snapshot.toFixture entry.snapshot)]

def ofFixture (names : Names) (d : Descriptor) (document : Json) : Reading Entry := do
  return {
    key := ← document.get? "key" EntityKey.ofFixture
    entity := d.name
    status := ← document.getD "status" Status.ofFixture .managed
    loadedState := ← document.get? "loaded" (list (AttributeValue.ofFixture names))
    version := ← document.getD "version" Value.optionOfFixture none
    lock := ← document.getD "lock" LockMode.ofFixture .none
    existsInDatabase := ← document.getD "exists" truth true
    isMutable := d.isMutable
    snapshot := none }

end Entry

/-- Things that belong to instances, by ordinal and, for one instance, by a text. -/
def byOrdinal {α : Type} (things : List (Handle × String × α)) : List (Handle × String × α) :=
  things.mergeSort fun a b =>
    a.1.ordinal < b.1.ordinal || (a.1 == b.1 && (a.2.1 < b.2.1 || a.2.1 == b.2.1))

def Context.toFixture (context : Context) (names : Names) : Json :=
  let entries := names.handles.filterMap fun h => (context.entry? h).map fun entry => (h, "", entry.toFixture)
  let keys := context.entities.entries.map fun (key, h) => (h, key.describe, Json.text key.describe)
  let listed (things : List (Handle × String × Json)) : Json :=
    .ofList (fun (h, _, document) => .array [h.toFixture, document]) (byOrdinal things)
  .ofMembers [("entries", listed entries), ("keys", listed keys), ("empty", .bool (context.size == 0))]

def Dependencies.toFixture (dependencies : List Dependency) : Json :=
  .ofList (fun dependency => .array [.text dependency.path, dependency.reference.toFixture]) dependencies

def ParkedInsert.toFixture (insert : ParkedInsert) : Json :=
  .array [insert.handle.toFixture, Dependencies.toFixture insert.dependencies]

def Insert.toFixture (insert : Insert) : Json :=
  .array [insert.handle.toFixture, AttributeValue.stateToFixture insert.state]

end UnitOfWork
