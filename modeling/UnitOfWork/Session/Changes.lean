import UnitOfWork.Session.Basic

/-! Dirty checking of tracked instances, switching them between read-only and modifiable, and the ends of
transactions and of a session's memory. -/

namespace UnitOfWork.Action

/-- Names of the attributes that differ from the snapshot; without a snapshot nothing counts. -/
def dirtyAttributes (h : Handle) : Action (List String) := do
  let s ← get
  match s.context.entry? h with
  | none => throw (.transientObject (s.heap.entity h))
  | some entry =>
    match entry.snapshot with
    | none => return []
    | some snapshot =>
      let d ← descriptor entry.entity
      return snapshot.dirtyAttributes d (s.heap.values h)

/-- A read-only entity loses its snapshot; a modifiable one is compared with its present values from now
on. Immutable entities stay read-only. -/
def setReadOnly (h : Handle) (readOnly : Bool) : Action Unit := do
  let s ← get
  let entity := s.heap.entity h
  let d ← descriptor entity
  let state := s.heap.values h
  match s.context.entry? h with
  | none => throw (.transientObject entity)
  | some entry =>
    if !entry.isMutable || entry.isReadOnly = readOnly then return ()
    else
      modify fun s => s.mapContext fun context => context.updateEntry h fun entry =>
        if readOnly then { entry with snapshot := none, status := .readOnly }
        else { entry with snapshot := some (.take d state), loadedState := some state, status := .managed }

def endTransaction : Action Unit := modify fun s => s.mapContext Context.endTransaction

/-- Forgets everything but configuration and collaborators. -/
def clear : Action Unit :=
  modify fun s => s.mapSession fun session =>
    { session with context := {}, naturalIds := {}, actions := {} }

end UnitOfWork.Action
