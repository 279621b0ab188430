import UnitOfWork.Session.Basic

/-! A database whose behaviour is data: a writer that gives out prepared identifiers and a source of
prepared rows, both failing at prepared calls. Calls are counted in the journal from the moment the script
was put in place. -/

namespace UnitOfWork.Scripted

structure WriterScript where
  /-- Given out first, one for each insert. -/
  ids : List (Option Identifier) := []
  /-- Given out, counting up, once `ids` are used up. -/
  next : Int := 101
  /-- Also inserts of instances that have an identifier get one. -/
  always : Bool := false
  failingInserts : List Nat := []
  failingDeletes : List Nat := []
  /-- The length of the journal when the script was put in place. -/
  start : Nat := 0
deriving Inhabited

namespace WriterScript

structure Progress where
  inserts : Nat := 0
  ids : List (Option Identifier)
  next : Int

def failure (what : String) (call : Nat) : Error := .database s!"{what} {call} failed"

def insert (script : WriterScript) (progress : Progress) (assigned : Bool) :
    Except Error (Option Identifier) × Progress :=
  let progress := { progress with inserts := progress.inserts + 1 }
  if script.failingInserts.contains progress.inserts then
    (.error (failure "insert" progress.inserts), progress)
  else if assigned && !script.always then (.ok none, progress)
  else match progress.ids with
    | id :: ids => (.ok id, { progress with ids })
    | [] => (.ok (some (.ofValue (.bigInt (Int64.ofInt progress.next)))),
        { progress with next := progress.next + 1 })

def progress (script : WriterScript) (journal : Journal) : Progress :=
  (journal.drop script.start).foldl (fun progress call =>
    match call with
    | .insert _ _ id _ => (script.insert progress id.isSome).2
    | _ => progress) { ids := script.ids, next := script.next }

def writer (script : WriterScript) : Writer where
  insert journal _ id _ := (script.insert (script.progress journal) id.isSome).1
  delete journal _ _ :=
    let call := (journal.drop script.start).countP Call.isDelete + 1
    if script.failingDeletes.contains call then .error (failure "delete" call) else .ok ()

end WriterScript

structure SourceScript where
  rows : List (String × Identifier × List Value) := []
  failing : List Nat := []
  start : Nat := 0
deriving Inhabited

def SourceScript.source (script : SourceScript) : SnapshotSource where
  select journal d id :=
    let call := (journal.drop script.start).countP Call.isProbe + 1
    if script.failing.contains call then .error (WriterScript.failure "probe" call)
    else .ok ((script.rows.find? fun (entity, key, _) => entity == d.name && key == id).map fun (_, _, row) => row)

end UnitOfWork.Scripted
