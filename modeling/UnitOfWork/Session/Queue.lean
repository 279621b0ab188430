import UnitOfWork.Metamodel.Descriptor

/-! The writes a session has put off until it is flushed. An insert whose references cannot be written yet
is parked with the references it waits for. -/

namespace UnitOfWork

/-- A reference that may not be null and points at an instance without a row. -/
structure Dependency where
  /-- Attribute names from the entity down, joined by points. -/
  path : String
  reference : Reference
deriving Inhabited

def Dependency.isOn (dependency : Dependency) (h : Handle) : Bool := dependency.reference.handle? == some h

namespace Dependencies

def pathsFor (dependencies : List Dependency) (h : Handle) : List String :=
  (dependencies.filter (·.isOn h)).map (·.path)

/-- What remains once the instance has a row. -/
def resolve (dependencies : List Dependency) (h : Handle) : List Dependency :=
  dependencies.filter fun dependency => !dependency.isOn h

def blocked (dependencies : List Dependency) (heap : Heap) (entity : String) : Error :=
  match dependencies with
  | first :: _ => .transientProperty entity first.path (first.reference.describe heap)
  | [] => .nothingUnresolved entity

end Dependencies

structure Insert where
  handle : Handle
  descriptor : Descriptor
  state : List AttributeValue
deriving Inhabited

structure ParkedInsert where
  handle : Handle
  descriptor : Descriptor
  early : Bool
  dependencies : List Dependency
deriving Inhabited

structure Delete where
  handle : Handle
  key : EntityKey
  descriptor : Descriptor
deriving Inhabited

namespace ParkedInsert

def isReady (insert : ParkedInsert) : Bool := insert.dependencies.isEmpty

def resolve (insert : ParkedInsert) (h : Handle) : ParkedInsert :=
  { insert with dependencies := Dependencies.resolve insert.dependencies h }

/-- Waits for this instance and nothing else. -/
def isReleasedBy (insert : ParkedInsert) (h : Handle) : Bool :=
  !insert.isReady && (insert.resolve h).isReady

end ParkedInsert

structure ActionQueue where
  inserts : List Insert := []
  parked : List ParkedInsert := []
  deletes : List Delete := []
deriving Inhabited

namespace ActionQueue

def isEmpty (queue : ActionQueue) : Bool :=
  queue.inserts.isEmpty && queue.parked.isEmpty && queue.deletes.isEmpty

def pendingInserts (queue : ActionQueue) : Nat := queue.inserts.length + queue.parked.length

def hasInsert (queue : ActionQueue) (h : Handle) : Bool :=
  queue.inserts.any (fun insert => insert.handle = h) || queue.parked.any (fun insert => insert.handle = h)

def cancelInsert (queue : ActionQueue) (h : Handle) : ActionQueue :=
  { queue with
    inserts := queue.inserts.filter fun insert => insert.handle ≠ h
    parked := queue.parked.filter fun insert => insert.handle ≠ h }

def park (queue : ActionQueue) (inserts : List ParkedInsert) : ActionQueue :=
  { queue with parked := queue.parked ++ inserts }

/-- The parked inserts that the row of this instance releases, and the queue without them. -/
def release (queue : ActionQueue) (h : Handle) : List ParkedInsert × ActionQueue :=
  ((queue.parked.filter fun insert => insert.isReleasedBy h).map fun insert => insert.resolve h,
    { queue with
      parked := (queue.parked.filter fun insert => !insert.isReleasedBy h).map fun insert => insert.resolve h })

def takeReady (queue : ActionQueue) : List ParkedInsert × ActionQueue :=
  (queue.parked.filter fun insert => insert.isReady,
    { queue with parked := queue.parked.filter fun insert => !insert.isReady })

/-- Why the earliest parked insert cannot be written. -/
def firstError? (queue : ActionQueue) (heap : Heap) : Option Error :=
  queue.parked.head?.map fun insert => Dependencies.blocked insert.dependencies heap insert.descriptor.name

end ActionQueue

end UnitOfWork
