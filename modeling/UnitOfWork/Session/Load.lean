import UnitOfWork.Cache.Structured
import UnitOfWork.Hydration
import UnitOfWork.Session.Batch

/-! Loading rows in two passes. First every row is hydrated and its instance registered; then keys are
resolved, so that rows of one load find each other whatever their order, and each entity is initialized. -/

namespace UnitOfWork

structure LoadOptions where
  /-- Without it the session's default holds. -/
  readOnly : Option Bool := none
  lock : LockMode := .none
deriving Inhabited

namespace Action

/-- A key becomes the instance that stands for its row, in the session or in the batch, or a proxy. -/
def resolveReference (batch : Batch) (entity : String) (id : Identifier) : Action AttributeValue := do
  let d ← descriptor entity
  let key := d.keyFor id
  let s ← get
  match s.context.entity? key with
  | some h =>
    if (s.context.entry? h).any fun entry => entry.status.isDeletedOrGone then
      return .reference (.removed key)
    else return .reference (.loaded h)
  | none =>
    match batch.handle? key with
    | some h => return .reference (.loaded h)
    | none =>
      modify fun s => s.mapContext fun context => context.addProxy key s.session.config.readOnly
      return .reference (.notLoaded key)

mutual

/-- `entity` names the owner in errors. -/
def resolve (batch : Batch) (entity : String) (a : Attribute) : AttributeValue → Action AttributeValue
  | .foreignKey id =>
    match a.kind.target? with
    | some target => resolveReference batch target id
    | none => throw (.hydration entity a.name (.misplacedKey a.kind.classification))
  | .anyKey target id => resolveReference batch target id
  | .embedded children =>
    match a.kind with
    | .embedded _ attributes => do
      let resolved ← resolveAll batch entity attributes children
      return .embedded resolved
    | _ => return .embedded children
  | value => return value

/-- Values without an attribute are dropped. -/
def resolveAll (batch : Batch) (entity : String) :
    List Attribute → List AttributeValue → Action (List AttributeValue)
  | a :: attributes, value :: values => do
    let first ← resolve batch entity a value
    let rest ← resolveAll batch entity attributes values
    return first :: rest
  | _, _ => return []

end

/-- Listeners run in the order of their registration, each on the state the one before it left. -/
def firePreLoad : List PreLoadListener → Nat → PreLoadEvent → Action (List AttributeValue)
  | [], _, event => return event.state
  | listener :: rest, position, event => do
    let s ← get
    record (.preLoad position event.entity event.id event.descriptor.name event.state
      (s.heap.values event.entity))
    let (answer, edits) := listener.call s.session.journal event s.heap
    modify fun s => s.mapHeap fun heap => heap.edit edits
    let state ← (answer : Except Error _)
    firePreLoad rest (position + 1) { event with state }

def firePostLoad : List PostLoadListener → Nat → PostLoadEvent → Action Unit
  | [], _, _ => return ()
  | listener :: rest, position, event => do
    let s ← get
    record (.postLoad position event.entity event.id event.entityName (s.heap.values event.entity))
    let (answer, edits) := listener.call s.session.journal event s.heap
    modify fun s => s.mapHeap fun heap => heap.edit edits
    let _ ← (answer : Except Error Unit)
    firePostLoad rest (position + 1) event

def warnUnidentified : List Handle → Action Unit
  | [] => return ()
  | h :: rest => do
    record (.warn (.unidentifiedReference ((← get).heap.describe h)))
    warnUnidentified rest

/-- What the region does with the entry of a loaded row. A row that this transaction inserted is newer
than anything the region can hold. -/
def offerToRegion (name : String) (region : Region) (key : EntityKey) (cacheKey : CacheKey)
    (item : Versioned) : Action Bool := do
  let s ← get
  let inserted := s.context.wasInserted key
  let minimal := s.session.factory.config.minimalPuts && s.session.config.cacheMode != .refresh
  match region with
  | .external accepts =>
    let request := if inserted then .update cacheKey item.value item.version item.version
      else .put cacheKey item.value item.version minimal
    record (.region name request)
    return accepts && s.session.factory.external.accepts s.session.journal name request
  | .memory region =>
    let (accepted, region) := if inserted then region.update cacheKey item else region.put cacheKey item minimal
    modify fun s => s.setRegion name region
    return accepted

def cacheLoaded (d : Descriptor) (key : EntityKey) (state : List AttributeValue) : Action Unit := do
  let s ← get
  if s.session.config.cacheMode.writes then
    match s.region? d with
    | none => return ()
    | some (name, region) =>
      let version := d.versionOf state
      let entry : CacheEntry := ⟨d.name, version, CachedValue.ofAttributes s.heap state⟩
      warnUnidentified (AttributeValue.unidentifiedAmong s.heap state)
      let value := if s.session.factory.config.structuredEntries then .structured (entry.structured d)
        else .entry entry
      if ← offerToRegion name region key (s.session.cacheKey d key.id) ⟨value, version⟩ then
        modify fun s => s.mapStatistics fun statistics => statistics.increment .cachePuts name
      else return ()
  else return ()

/-- Entities registered from outside are not tracked yet. -/
def trackLoading (entity : LoadingEntity) (key : EntityKey) (options : LoadOptions) : Action Unit :=
  changeContext fun context => context.addEntity entity.handle
    { key := some key
      entity := entity.descriptor.name
      status := .loading
      loadedState := some entity.hydrated
      version := entity.descriptor.versionOf entity.hydrated
      lock := options.lock
      existsInDatabase := true
      isMutable := entity.descriptor.isMutable
      snapshot := none }

/-- A proxy that stands for the row has a say before the options of the load. -/
def loadsReadOnly (session : Session) (d : Descriptor) (key : EntityKey) (options : LoadOptions) : Bool :=
  if !d.isMutable then true
  else match session.context.proxy? key with
    | some readOnly => readOnly
    | none => options.readOnly.getD session.config.readOnly

def loadedEntry (d : Descriptor) (state : List AttributeValue) (readOnly : Bool) (entry : Entry) : Entry :=
  { entry with
    loadedState := some state
    snapshot := if readOnly then none else some (.take d state)
    status := if readOnly then .readOnly else .managed }

def runHook (d : Descriptor) (h : Handle) : Action Unit := do
  match d.afterInitialize with
  | none => return ()
  | some hook =>
    let s ← get
    record (.initialized h (s.heap.values h))
    modify fun s' => s'.mapHeap fun heap => heap.edit (hook.run s.session.journal h s.heap)

def materialize (batch : Batch) (options : LoadOptions) (entity : LoadingEntity) : Action Unit := do
  let d := entity.descriptor
  let key := (batch.keyFor? entity.handle).getD entity.key
  if !(← get).context.isTracked entity.handle then trackLoading entity key options
  let resolved ← resolveAll batch d.name d.attributes entity.hydrated
  let session := (← get).session
  let state ← if session.config.eventSource then
      firePreLoad session.preLoad 0 { entity := entity.handle, id := key.id, descriptor := d, state := resolved }
    else pure resolved
  modify fun s => s.mapHeap fun heap => heap.update entity.handle fun x => { x with values := state }
  cacheLoaded d key state
  modify fun s => s.mapSession fun session =>
    { session with naturalIds := session.naturalIds.record s.heap d key.id state }
  modify fun s => s.mapContext fun context =>
    context.updateEntry entity.handle (loadedEntry d state (loadsReadOnly s.session d key options))
  runHook d entity.handle
  modify fun s => s.mapStatistics fun statistics => statistics.increment .entityLoads d.name

def materializeAll (batch : Batch) (options : LoadOptions) : List LoadingEntity → Action Unit
  | [] => return ()
  | entity :: rest => do
    materialize batch options entity
    materializeAll batch options rest

def announceLoaded : List LoadingEntity → Action Unit
  | [] => return ()
  | entity :: rest => do
    firePostLoad (← get).session.postLoad 0
      { entity := entity.handle, id := entity.key.id, entityName := entity.descriptor.name }
    announceLoaded rest

/-- The second pass. Post-load listeners run once every entity of the batch is initialized. -/
def finishUp (batch : Batch) (options : LoadOptions) : Action Unit := do
  materializeAll batch options batch.entities
  if (← get).session.config.eventSource then announceLoaded batch.entities else return ()

structure LoadProgress where
  batch : Batch := {}
  results : List Handle := []
deriving Inhabited

def registerLoading (batch : Batch) (entity : LoadingEntity) : Action (Registration × Batch) := do
  let (registration, batch) := batch.register entity
  if registration = .duplicate then
    record (.warn (.duplicateHydration entity.key ((← get).heap.describe entity.handle)))
  return (registration, batch)

/-- An instance that the session has already is reused as it is; a row seen before in this load yields the
instance of the first one. -/
def admitRow (d : Descriptor) (options : LoadOptions) (progress : LoadProgress) (key : EntityKey)
    (hydrated : List AttributeValue) : Action LoadProgress := do
  let s ← get
  match if progress.batch.contains key then none else s.context.entity? key with
  | some existing => return { progress with results := progress.results ++ [existing] }
  | none =>
    let (h, heap) := s.heap.create (d.instantiate (some key.id))
    set (s.mapHeap fun _ => heap)
    let entity : LoadingEntity := ⟨key, d, h, hydrated⟩
    let (registration, batch) ← registerLoading progress.batch entity
    if registration = .added then
      trackLoading entity key options
      return { batch, results := progress.results ++ [h] }
    else
      modify fun s => s.mapStatistics Statistics.duplicateHydration
      return { batch, results := progress.results ++ (batch.handle? key).toList }

/-- The first pass: rows as the source gives them, up to its first failure. Progress is reported also when
the pass fails. -/
def hydrateRows (d : Descriptor) (options : LoadOptions) :
    List (Except Error Row) → LoadProgress → StateM State (Except Error Unit × LoadProgress)
  | [], progress => return (.ok (), progress)
  | .error e :: _, progress => return (.error e, progress)
  | .ok row :: rest, progress => do
    match d.hydrateRow row with
    | .error e => return (.error e, progress)
    | .ok (key, hydrated) =>
      match ← (admitRow d options progress key hydrated).run with
      | .error e => return (.error e, progress)
      | .ok progress => hydrateRows d options rest progress

/-- Forgets the instances of a failed load; they never reach the caller. -/
def discard (batch : Batch) : Action Unit :=
  modify fun s => s.mapContext fun context =>
    batch.entities.foldl (fun context entity => context.removeEntry entity.handle) context

/-- One instance for each row, the same for rows of the same key. -/
def load (entity : String) (rows : List (Except Error Row)) (options : LoadOptions) :
    Action (List Handle) := do
  if options.lock.supportedForLoad then
    let d ← descriptor entity
    let (outcome, progress) ← ExceptT.lift (hydrateRows d options rows {})
    tryCatch
      (do
        let _ ← (outcome : Except Error Unit)
        finishUp progress.batch options
        return progress.results)
      fun e => do
        discard progress.batch
        throw e
  else throw (.unsupportedLock options.lock)

end Action

end UnitOfWork
