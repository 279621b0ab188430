import UnitOfWork.Session.References

/-! Saving, deleting, and the flush that writes both to the database. Inserts go first, each as soon as
the rows it refers to exist; deletes follow once no insert is left waiting. -/

namespace UnitOfWork

structure FlushResult where
  inserted : Nat := 0
  deleted : Nat := 0
deriving DecidableEq, Inhabited

def FlushResult.total (result : FlushResult) : Nat := result.inserted + result.deleted

namespace Action

/-- References to rows that do not exist are nulled in the state as it is now, and the insert goes to the
end of the queue. -/
def queueInsert (h : Handle) (d : Descriptor) (early : Bool) : Action Unit := do
  let values := (← get).heap.values h
  let state ← Nullifier.nullifyAll ⟨some h, false, early⟩ d.attributes values
  modify fun s => s.mapActions fun queue =>
    { queue with inserts := queue.inserts ++ [{ handle := h, descriptor := d, state }] }

/-- An insert that cannot be queued is parked again, with those that were to follow it. -/
def queueReleased : List ParkedInsert → Action Unit
  | [] => return ()
  | insert :: rest => do
    tryCatch (queueInsert insert.handle insert.descriptor insert.early) fun e => do
      modify fun s => s.mapActions fun queue => queue.park (insert :: rest)
      throw e
    queueReleased rest

def scheduleInsert (h : Handle) (d : Descriptor) (early : Bool) : Action Unit := do
  let values := (← get).heap.values h
  let waits ← dependencies d.name h values early
  if waits.isEmpty then queueInsert h d early
  else
    modify fun s => s.mapActions fun queue =>
      queue.park [{ handle := h, descriptor := d, early, dependencies := waits }]

def keyToSave (d : Descriptor) (h : Handle) : Action (Option EntityKey) := do
  match (← get).heap.id? h with
  | some id =>
    if !id.isNull then return some (d.keyFor id)
    else if d.identifier.generator = .assigned then throw (.unassignedIdentifier d.name)
    else return none
  | none =>
    if d.identifier.generator = .assigned then throw (.unassignedIdentifier d.name)
    else return none

def save (h : Handle) (early : Bool) : Action Unit := do
  let s ← get
  if s.context.isTracked h then return ()
  else
    let d ← descriptor (s.heap.entity h)
    let early := early || d.identifier.generator = .identity
    let key ← keyToSave d h
    changeContext fun context => context.addEntity h
      { key
        entity := d.name
        status := .saving
        loadedState := none
        version := none
        lock := .none
        existsInDatabase := false
        isMutable := d.isMutable
        snapshot := none }
    tryCatch (scheduleInsert h d early) fun e => do
      modify fun s => s.mapContext fun context => context.removeEntry h
      throw e

/-- Puts the delete of a row off until the flush. An instance whose insert is still pending is forgotten
instead. -/
def delete (h : Handle) : Action Unit := do
  let s ← get
  if s.actions.hasInsert h then
    set ((s.mapActions fun queue => queue.cancelInsert h).mapContext fun context => context.removeEntry h)
  else
    match s.context.entry? h with
    | none => throw (.transientObject (s.heap.entity h))
    | some entry =>
      if entry.status.isDeletedOrGone then return ()
      else
        match entry.key with
        | none => throw (.transientObject (s.heap.entity h))
        | some key =>
          let d ← descriptor entry.entity
          modify fun s =>
            (s.mapContext fun context => (context.setStatus h .deleted).markNullifiable key).mapActions
              fun queue => { queue with deletes := queue.deletes ++ [⟨h, key, d⟩] }

/-- The identifier of a row just written: the one the insert gave, which the instance takes over, or the
one the instance had. -/
def insertedIdentifier (h : Handle) (current given : Option Identifier) : Action Identifier := do
  match given, current with
  | some id, _ =>
    modify fun s => s.mapHeap fun heap => heap.update h fun x => { x with id := some id }
    return id
  | none, some id => return id
  | none, none => throw (.noGeneratedIdentifier ((← get).heap.describe h))

def recordInsert (insert : Insert) (key : EntityKey) : Action Unit :=
  modify fun s =>
    (s.mapSession fun session =>
      { session with
        naturalIds := session.naturalIds.record s.heap insert.descriptor key.id insert.state }).mapContext
      fun context =>
        (context.updateEntry insert.handle fun entry =>
          entry.inserted insert.descriptor insert.state).markInserted key

def releaseParked (h : Handle) : Action Unit := do
  let (released, queue) := (← get).actions.release h
  modify fun s => s.mapActions fun _ => queue
  queueReleased released

def executeInsert (writer : Writer) (insert : Insert) : Action Unit := do
  let s ← get
  let current := (s.heap.id? insert.handle).filter fun id => !id.isNull
  record (.insert insert.handle insert.descriptor.name current insert.state)
  let given ← (writer.insert s.session.journal insert.descriptor current insert.state : Except Error _)
  let id ← insertedIdentifier insert.handle current given
  let key := insert.descriptor.keyFor id
  changeContext fun context => context.assignKey insert.handle (s.heap.entity insert.handle) key
  recordInsert insert key
  releaseParked insert.handle

/-- An action is taken off the queue before it runs. Each run leaves one pending insert fewer, so their
number at the start bounds the loop. -/
def runInserts (writer : Writer) : Nat → Action Nat
  | 0 => return 0
  | bound + 1 => do
    match (← get).actions.inserts with
    | [] => return 0
    | insert :: rest =>
      modify fun s => s.mapActions fun queue => { queue with inserts := rest }
      executeInsert writer insert
      let others ← runInserts writer bound
      return others + 1

/-- The row is gone, and with it everything the session and the cache know about it. -/
def recordDelete (delete : Delete) : Action Unit := do
  modify fun s =>
    (s.mapContext fun context => context.setStatus delete.handle .gone).mapSession fun session =>
      { session with naturalIds := session.naturalIds.remove delete.key }
  let s ← get
  match s.region? delete.descriptor with
  | none => return ()
  | some (name, .external _) => record (.region name (.evict (s.session.cacheKey delete.descriptor delete.key.id)))
  | some (name, .memory region) =>
    modify fun s => s.setRegion name (region.evict (s.session.cacheKey delete.descriptor delete.key.id))

def executeDelete (writer : Writer) (delete : Delete) : Action Unit := do
  let s ← get
  record (.delete delete.handle delete.descriptor.name delete.key.id)
  let _ ← (writer.delete s.session.journal delete.descriptor delete.key.id : Except Error Unit)
  recordDelete delete
  modify fun s => s.mapContext fun context => context.removeEntity delete.key

def runDeletes (writer : Writer) : List Delete → Action Nat
  | [] => return 0
  | delete :: rest => do
    executeDelete writer delete
    let others ← runDeletes writer rest
    return others + 1

def takeReady : Action (List ParkedInsert) := do
  let (ready, queue) := (← get).actions.takeReady
  modify fun s => s.mapActions fun _ => queue
  return ready

def takeDeletes : Action (List Delete) := do
  let deletes := (← get).actions.deletes
  modify fun s => s.mapActions fun queue => { queue with deletes := [] }
  return deletes

/-- Writes everything that was put off. It stops at the first failure, or before the deletes when an
insert is left waiting. -/
def flush (writer : Writer) : Action FlushResult := do
  queueReleased (← takeReady)
  let inserted ← runInserts writer (← get).actions.pendingInserts
  let s ← get
  match s.actions.firstError? s.heap with
  | some e => throw e
  | none =>
    let deleted ← runDeletes writer (← takeDeletes)
    return { inserted, deleted }

end Action

end UnitOfWork
