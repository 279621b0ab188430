import UnitOfWork.Session.Basic

/-! Whether an instance has a row. The first of these to have an opinion decides: the interceptor, the
entity type by identifier and version, the second-level cache, the caller, the database. -/

namespace UnitOfWork

inductive EntityState where
  | transient
  | notTransient
deriving DecidableEq, Inhabited

namespace EntityState

def isTransient : EntityState → Bool
  | .transient => true
  | .notTransient => false

def ofTransient (transient : Bool) : EntityState := if transient then .transient else .notTransient

end EntityState

namespace Action

def interceptorOpinion (h : Handle) : Action (Option Bool) := do
  let s ← get
  match s.session.interceptor with
  | none => return none
  | some interceptor =>
    record (.intercept h)
    return interceptor.isTransient s.session.journal h s.heap

def readRegion (name : String) (region : Region) (key : CacheKey) : Action (Option CacheValue) := do
  match region with
  | .external _ =>
    let s ← get
    record (.region name (.get key))
    return s.session.factory.external.get s.session.journal name key
  | .memory region => return region.get? key

def cacheOpinion (d : Descriptor) (id : Identifier) : Action (Option Bool) := do
  let s ← get
  if s.session.config.cacheMode.reads then
    match s.region? d with
    | none => return none
    | some (name, region) =>
      match ← readRegion name region (s.session.cacheKey d id) with
      | some _ =>
        modify fun s => s.mapStatistics fun statistics => statistics.increment .cacheHits name
        return some false
      | none =>
        modify fun s => s.mapStatistics fun statistics => statistics.increment .cacheMisses name
        return none
  else return none

def typeOpinion (d : Descriptor) (h : Handle) : Action (Option Bool) := do
  let x := (← get).heap.read h
  match d.isTransient x with
  | some transient => return some transient
  | none =>
    match x.id with
    | some id => cacheOpinion d id
    | none => return none

/-- The row under a key. Each row is selected once and remembered, also when there is none. -/
def databaseSnapshot (d : Descriptor) (key : EntityKey) : Action (Option (List Value)) := do
  let s ← get
  match s.session.snapshotSource with
  | none => throw (.noSnapshotSource key)
  | some source =>
    match s.context.databaseSnapshot? key with
    | some row => return row
    | none =>
      record (.probe d.name key.id)
      match source.select s.session.journal d key.id with
      | .error e => throw e
      | .ok row =>
        modify fun s => s.mapContext fun context => context.rememberSnapshot key row
        return row

def classifyInstance (h : Handle) (assumed : Option Bool) : Action EntityState := do
  match ← interceptorOpinion h with
  | some transient => return .ofTransient transient
  | none =>
    let d ← descriptor ((← get).heap.entity h)
    match ← typeOpinion d h with
    | some transient => return .ofTransient transient
    | none =>
      match assumed with
      | some transient => return .ofTransient transient
      | none =>
        match (← get).heap.id? h with
        | none => return .transient
        | some id => return .ofTransient (← databaseSnapshot d (d.keyFor id)).isNone

/-- Only a loaded reference can be transient; keys and proxies stand for rows. -/
def classify (value : AttributeValue) (assumed : Option Bool) : Action EntityState := do
  match value with
  | .reference (.loaded h) => classifyInstance h assumed
  | .basic _ | .embedded _ => throw (.notClassifiable (value.describe (← get).heap))
  | .null | .unfetched | .foreignKey _ | .anyKey _ _ | .reference _ => return .notTransient

def isNotTransient (value : AttributeValue) (assumed : Option Bool) : Action Bool := do
  match value with
  | .reference (.loaded h) =>
    if (← get).context.isTracked h then return true
    else return !(← classify value assumed).isTransient
  | .reference _ => return true
  | _ => return !(← classify value assumed).isTransient

/-- The identifier that a reference would be written as. `entity` names the target in the error; without
it the instance's own entity does. -/
def identifierIfSaved (entity : Option String) (value : AttributeValue) : Action (Option Identifier) := do
  match value with
  | .null | .unfetched => return none
  | .foreignKey id | .anyKey _ id => return some id
  | .reference (.notLoaded key) | .reference (.removed key) => return some key.id
  | .reference (.loaded h) =>
    match (← get).context.entry? h >>= (·.key) with
    | some key => return some key.id
    | none =>
      if (← classifyInstance h (some false)).isTransient then
        throw (.transientObject (entity.getD ((← get).heap.entity h)))
      else return (← get).heap.id? h
  | .basic _ | .embedded _ => throw (.notReference (value.describe (← get).heap))

end Action

end UnitOfWork
