import UnitOfWork.Fixture.Instance
import UnitOfWork.Scripted.Application

/-! Entity types as fixtures. What is left out keeps its usual setting. -/

namespace UnitOfWork

open Fixture

namespace Generator

def name : Generator → String
  | .assigned => "Assigned"
  | .identity => "Identity"
  | .sequence => "Sequence"

def ofFixture : Json → Reading Generator :=
  oneOf ([.assigned, .identity, .sequence].map fun generator => (generator.name, generator))

end Generator

def UnsavedValue.ofFixture : Json → Reading UnsavedValue
  | .text "Null" => .ok .null
  | .text "Undefined" => .ok .undefined
  | .text "Any" => .ok .any
  | .text "Never" => .ok .never
  | document => .exact <$> Identifier.ofFixture document

def IdentifierMapping.ofFixture (document : Json) : Reading IdentifierMapping := do
  let generator ← document.getD "gen" Generator.ofFixture .sequence
  return {
    name := ← document.getD "id" text "id"
    columns := ← document.getD "id_columns" nat 1
    generator
    unsaved := ← document.getD "unsaved" UnsavedValue.ofFixture generator.unsaved }

namespace Attribute

def ofParts (document : Json) (children : List Attribute) : Reading Attribute := do
  let name ← document.get "name" text
  let a ← match ← document.getD "kind" text "basic" with
    | "basic" => pure (basic name)
    | "m2o" => manyToOne name <$> document.get "target" text
    | "o2o" => oneToOne name <$> document.get "target" text
    | "any" => pure (any name)
    | "embedded" => do pure (embedded name (← document.getD "type" text name) children)
    | _ => .error (.expected "kind of attribute")
  let storage : Storage :=
    { nullable := ← document.getD "nullable" truth a.nullable
      updatable := ← document.getD "updatable" truth a.updatable
      lazy := ← document.getD "lazy" truth a.lazy
      columns := ← document.getD "columns" nat a.storage.columns }
  return a.withStorage fun _ => storage

mutual

def ofFixture : Json → Reading Attribute
  | .object members => do ofParts (.object members) (← childrenOfFixture members)
  | _ => .error (.expected "attribute")

def allOfFixture : List Json → Reading (List Attribute)
  | [] => .ok []
  | document :: rest => do
    let a ← ofFixture document
    let attributes ← allOfFixture rest
    return a :: attributes

/-- The attributes of an embedded value, among the members that describe it. -/
def childrenOfFixture : List (String × Json) → Reading (List Attribute)
  | [] => .ok []
  | (name, .array items) :: rest => do
    if name = "attrs" then allOfFixture items else childrenOfFixture rest
  | _ :: rest => childrenOfFixture rest

end

end Attribute

namespace Scripted

def Edit.ofFixture (names : Names) (document : Json) : Reading Edit := do
  match ← items document with
  | [.text "set", index, given] => return .value (← nat index) (← AttributeValue.ofFixture names given)
  | [.text "id", given] => return .identifier (← optional Identifier.ofFixture given)
  | _ => .error (.expected "edit")

end Scripted

namespace Descriptor

def ofFixture (names : Names) (document : Json) : Reading Descriptor := do
  let name ← document.get "name" text
  let edits ← document.get? "hook" (list (Scripted.Edit.ofFixture names))
  return {
    name
    rootName := ← document.getD "root" text name
    identifier := ← IdentifierMapping.ofFixture document
    attributes := ← document.getList "attrs" Attribute.ofFixture
    versionAttribute := ← document.get? "version" text
    naturalId := ← document.get? "natural_id" (list text)
    isMutable := !(← document.flag "immutable")
    cacheRegion := ← document.get? "cache" text
    afterInitialize := edits.map Scripted.hook }

end Descriptor

def Metamodel.ofFixtures (names : Names) (documents : List Json) : Reading Metamodel :=
  .ofList <$> documents.mapM (Descriptor.ofFixture names)

end UnitOfWork
