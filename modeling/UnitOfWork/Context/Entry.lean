import UnitOfWork.Snapshot

/-! What a session knows about one tracked instance. -/

namespace UnitOfWork

inductive Status where
  | loading
  /-- Saved, but its row is not written yet. -/
  | saving
  | managed
  | readOnly
  /-- To be deleted by the next flush. -/
  | deleted
  /-- Its row is deleted. -/
  | gone
deriving DecidableEq, Inhabited

namespace Status

def name : Status → String
  | .loading => "Loading"
  | .saving => "Saving"
  | .managed => "Managed"
  | .readOnly => "ReadOnly"
  | .deleted => "Deleted"
  | .gone => "Gone"

def all : List Status := [.loading, .saving, .managed, .readOnly, .deleted, .gone]

def isDeletedOrGone : Status → Bool
  | .deleted | .gone => true
  | _ => false

end Status

structure Entry where
  /-- Missing until an identifier is known. -/
  key : Option EntityKey
  entity : String
  status : Status
  loadedState : Option (List AttributeValue)
  version : Option Value
  lock : LockMode
  existsInDatabase : Bool
  isMutable : Bool
  /-- Present while changes to the instance count. -/
  snapshot : Option Snapshot
deriving Inhabited

namespace Entry

def isReadOnly (entry : Entry) : Bool := entry.status = .readOnly

def inserted (entry : Entry) (d : Descriptor) (state : List AttributeValue) : Entry :=
  { entry with
    existsInDatabase := true
    loadedState := some state
    version := d.versionOf state
    status := .managed
    snapshot := some (.take d state) }

end Entry

end UnitOfWork
