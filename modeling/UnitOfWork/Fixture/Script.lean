import UnitOfWork.Fixture.Instance
import UnitOfWork.Scripted.Application

/-! The scripts of collaborators as fixtures. -/

namespace UnitOfWork.Scripted

open Fixture

/-- `start` is the length of the journal when the script is put in place. -/
def WriterScript.ofFixture (start : Nat) (document : Json) : Reading WriterScript := do
  return {
    ids := ← document.getList "ids" (optional Identifier.ofFixture)
    next := ← document.getD "next" integer 101
    always := ← document.flag "always"
    failingInserts := ← document.getList "fail_inserts" nat
    failingDeletes := ← document.getList "fail_deletes" nat
    start }

def SourceScript.ofFixture (start : Nat) (document : Json) : Reading SourceScript := do
  let rows ← document.getList "rows" fun row => do
    match ← items row with
    | [entity, id, columns] =>
      return (← text entity, ← Identifier.ofFixture id, ← list Value.ofFixture columns)
    | _ => .error (.expected "entity, identifier and columns")
  return { rows, failing := ← document.getList "fail" nat, start }

def opinionOfFixture (document : Json) : Reading (String × Option Bool) := do
  match ← items document with
  | [entity, opinion] => return (← text entity, ← optional truth opinion)
  | _ => .error (.expected "entity and opinion")

end UnitOfWork.Scripted
