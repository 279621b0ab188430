import UnitOfWork.Context.Entry
import UnitOfWork.Registry

/-! The identity registry of a session. Instances are tracked by handle and rows by key; for every
tracked instance there is one entry, and a key stands for at most one instance. -/

namespace UnitOfWork

structure Context where
  entries : Registry Handle Entry := ∅
  entities : Registry EntityKey Handle := ∅
  /-- Rows that references point at without an instance, and whether they are to be loaded read-only. -/
  proxies : Registry EntityKey Bool := ∅
  /-- Rows selected to find out whether they exist; an absent row is remembered too. -/
  databaseSnapshots : Registry EntityKey (Option (List Value)) := ∅
  /-- Keys of rows about to be deleted: references to them must not be written. -/
  nullifiable : Registry EntityKey Unit := ∅
  /-- Keys of rows inserted in the running transaction. -/
  insertedKeys : Registry EntityKey Unit := ∅
deriving Inhabited

namespace Context

def size (context : Context) : Nat := context.entries.size

def entry? (context : Context) (h : Handle) : Option Entry := context.entries.find? h

def isTracked (context : Context) (h : Handle) : Bool := context.entries.contains h

def entity? (context : Context) (key : EntityKey) : Option Handle := context.entities.find? key

def containsKey (context : Context) (key : EntityKey) : Bool := context.entities.contains key

def entryForKey? (context : Context) (key : EntityKey) : Option Entry :=
  context.entity? key >>= context.entry?

def claim (context : Context) (h : Handle) (key : EntityKey) : Except Error Context :=
  match context.entity? key with
  | some holder => if holder = h then .ok context else .error (.nonUniqueObject key)
  | none => .ok { context with entities := context.entities.insert key h }

/-- Tracks an instance. One that is tracked already gets the new entry in place of its old one. -/
def addEntity (context : Context) (h : Handle) (entry : Entry) : Except Error Context := do
  let context ← match entry.key with
    | some key => context.claim h key
    | none => .ok context
  return { context with entries := context.entries.insert h entry }

def updateEntry (context : Context) (h : Handle) (change : Entry → Entry) : Context :=
  { context with entries := context.entries.modify h change }

/-- Gives a tracked instance its key; `entity` names an untracked one in the error. A key once given
stays. -/
def assignKey (context : Context) (h : Handle) (entity : String) (key : EntityKey) : Except Error Context :=
  match context.entry? h with
  | none => .error (.transientObject entity)
  | some entry =>
    match entry.key with
    | some held => if held == key then .ok context else .error (.keyChange held key)
    | none => return (← context.claim h key).updateEntry h fun entry => { entry with key := some key }

def setStatus (context : Context) (h : Handle) (status : Status) : Context :=
  context.updateEntry h fun entry => { entry with status }

/-- Forgets the row and the instance that stands for it. -/
def removeEntity (context : Context) (key : EntityKey) : Context :=
  match context.entity? key with
  | none => context
  | some h =>
    { context with
      entities := context.entities.erase key
      entries := context.entries.erase h
      databaseSnapshots := context.databaseSnapshots.erase key
      nullifiable := context.nullifiable.erase key }

def removeEntry (context : Context) (h : Handle) : Context :=
  match context.entry? h with
  | none => context
  | some entry =>
    { context with
      entries := context.entries.erase h
      entities := match entry.key with
        | some key => context.entities.erase key
        | none => context.entities }

def addProxy (context : Context) (key : EntityKey) (readOnly : Bool) : Context :=
  { context with proxies := context.proxies.insertIfNew key readOnly }

def proxy? (context : Context) (key : EntityKey) : Option Bool := context.proxies.find? key

def setProxyReadOnly (context : Context) (key : EntityKey) (readOnly : Bool) : Context :=
  { context with proxies := context.proxies.modify key fun _ => readOnly }

def databaseSnapshot? (context : Context) (key : EntityKey) : Option (Option (List Value)) :=
  context.databaseSnapshots.find? key

def rememberSnapshot (context : Context) (key : EntityKey) (row : Option (List Value)) : Context :=
  { context with databaseSnapshots := context.databaseSnapshots.insert key row }

def markNullifiable (context : Context) (key : EntityKey) : Context :=
  { context with nullifiable := context.nullifiable.insert key () }

def isNullifiableKey (context : Context) (key : EntityKey) : Bool := context.nullifiable.contains key

def markInserted (context : Context) (key : EntityKey) : Context :=
  { context with insertedKeys := context.insertedKeys.insert key () }

def wasInserted (context : Context) (key : EntityKey) : Bool := context.insertedKeys.contains key

def endTransaction (context : Context) : Context := { context with insertedKeys := ∅ }

/-- Whether a reference to the entry's instance has to be nulled: it has no row yet, as far as the insert
that asks is concerned, or its row is going away. -/
def isNullifiable (context : Context) (entry : Entry) (early : Bool) : Bool :=
  if entry.status = .saving then true
  else if early then !entry.existsInDatabase
  else entry.key.any context.isNullifiableKey

end Context

end UnitOfWork
