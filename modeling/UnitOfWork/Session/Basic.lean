import UnitOfWork.Cache.Region
import UnitOfWork.Context.Basic
import UnitOfWork.NaturalIds
import UnitOfWork.Session.Queue
import UnitOfWork.Statistics

/-! A unit of work: the session, the collaborators it asks, and the state its operations act on. -/

namespace UnitOfWork

/-- The application's opinion whether an instance has no row yet; none leaves the question open. -/
structure Interceptor where
  isTransient : Journal → Handle → Heap → Option Bool

/-- Selects the row of an entity, or finds that there is none. -/
structure SnapshotSource where
  select : Journal → Descriptor → Identifier → Except Error (Option (List Value))

/-- Writes rows. An insert may give the identifier of the new row. -/
structure Writer where
  insert : Journal → Descriptor → Option Identifier → List AttributeValue → Except Error (Option Identifier)
  delete : Journal → Descriptor → Identifier → Except Error Unit

structure PreLoadEvent where
  entity : Handle
  id : Identifier
  descriptor : Descriptor
  state : List AttributeValue

structure PostLoadEvent where
  entity : Handle
  id : Identifier
  entityName : String

/-- Answers with the state that later listeners see and the instance gets, or stops the load. It may also give
instances new contents. Listeners that put another instance, identifier or descriptor into the event, for the
listeners after them to see, are left out. -/
structure PreLoadListener where
  call : Journal → PreLoadEvent → Heap → Except Error (List AttributeValue) × List (Handle × Instance)

structure PostLoadListener where
  call : Journal → PostLoadEvent → Heap → Except Error Unit × List (Handle × Instance)

/-- The answers of the regions that the application keeps elsewhere. By default they hold nothing and accept what they
are offered. -/
structure ExternalRegions where
  get : Journal → String → CacheKey → Option CacheValue := fun _ _ _ => none
  accepts : Journal → String → RegionRequest → Bool := fun _ _ _ => true

instance : Inhabited ExternalRegions := ⟨{}⟩

structure FactoryConfig where
  statistics : Bool := false
  /-- The database checks a reference of a row to itself when the row is deleted. -/
  selfReferencesBlockDelete : Bool := false
  /-- Cache entries are written by attribute name. -/
  structuredEntries : Bool := false
  /-- A value in the cache is not overwritten by a load. -/
  minimalPuts : Bool := false
deriving Inhabited

/-- What all sessions on a database have in common and never changes. -/
structure Factory where
  metamodel : Metamodel
  config : FactoryConfig := {}
  external : ExternalRegions := {}
deriving Inhabited

structure SessionConfig where
  readOnly : Bool := false
  cacheMode : CacheMode := .normal
  tenant : Option String := none
  /-- Whether load listeners are called. -/
  eventSource : Bool := true
deriving Inhabited

inductive Region where
  | memory (region : MemoryRegion)
  /-- Kept elsewhere. One that takes no writes refuses whatever it is offered. -/
  | external (accepts : Bool)
deriving Inhabited

structure Shared where
  regions : Registry String Region := ∅
  statistics : Statistics := { enabled := false }
deriving Inhabited

/-- Every region that an entity is cached in exists from the start. -/
def Factory.shared (factory : Factory) : Shared where
  regions := (factory.metamodel.descriptors.filterMap (·.cacheRegion)).foldl
    (fun regions name => regions.insertIfNew name (.memory {})) ∅
  statistics := { enabled := factory.config.statistics }

structure Session where
  factory : Factory
  config : SessionConfig := {}
  context : Context := {}
  naturalIds : NaturalIds := {}
  actions : ActionQueue := {}
  interceptor : Option Interceptor := none
  snapshotSource : Option SnapshotSource := none
  preLoad : List PreLoadListener := []
  postLoad : List PostLoadListener := []
  journal : Journal := []
deriving Inhabited

namespace Session

def descriptor (session : Session) (entity : String) : Except Error Descriptor :=
  session.factory.metamodel.descriptor entity

def cacheKey (session : Session) (d : Descriptor) (id : Identifier) : CacheKey :=
  ⟨id, d.rootName, session.config.tenant⟩

def get (session : Session) (entity : String) (id : Identifier) : Except Error (Option Handle) :=
  return session.context.entity? ((← session.descriptor entity).keyFor id)

end Session

/-- A session together with the instances and with what it shares with other sessions. -/
structure State where
  heap : Heap
  shared : Shared
  session : Session
deriving Inhabited

namespace State

def context (s : State) : Context := s.session.context

def actions (s : State) : ActionQueue := s.session.actions

def mapSession (s : State) (change : Session → Session) : State := { s with session := change s.session }

def mapContext (s : State) (change : Context → Context) : State :=
  s.mapSession fun session => { session with context := change session.context }

def mapActions (s : State) (change : ActionQueue → ActionQueue) : State :=
  s.mapSession fun session => { session with actions := change session.actions }

def mapHeap (s : State) (change : Heap → Heap) : State := { s with heap := change s.heap }

def mapStatistics (s : State) (change : Statistics → Statistics) : State :=
  { s with shared := { s.shared with statistics := change s.shared.statistics } }

def record (s : State) (call : Call) : State :=
  s.mapSession fun session => { session with journal := session.journal ++ [call] }

def region? (s : State) (d : Descriptor) : Option (String × Region) :=
  d.cacheRegion.bind fun name => (s.shared.regions.find? name).map fun region => (name, region)

def setRegion (s : State) (name : String) (region : MemoryRegion) : State :=
  { s with shared := { s.shared with regions := s.shared.regions.insert name (.memory region) } }

end State

/-- An operation of a session. What it did before it failed stays done. -/
abbrev Action := ExceptT Error (StateM State)

namespace Action

def record (call : Call) : Action Unit := modify fun s => s.record call

def descriptor (entity : String) : Action Descriptor := do ((← get).session.descriptor entity : Except Error Descriptor)

def changeContext (change : Context → Except Error Context) : Action Unit := do
  let s ← get
  match change s.context with
  | .ok context => set (s.mapContext fun _ => context)
  | .error e => throw e

end Action

end UnitOfWork
