import UnitOfWork.Cache.Entry
import UnitOfWork.Registry

/-! A cache region held in memory. A soft lock hides an item until the lock is released; what is written
meanwhile becomes readable at the release. Versions that can be compared keep older values out. -/

namespace UnitOfWork

def compareVersions (a b : Value) : Option Ordering :=
  match a, b with
  | .timestamp x, .timestamp y | .timestampTz x, .timestampTz y => some (compare x.toInt y.toInt)
  | a, b => do return compare (← a.toInt?).toInt (← b.toInt?).toInt

/-- Only a version known to be greater makes the incoming value stale. -/
def isStale (existing incoming : Option Value) : Bool :=
  match existing, incoming with
  | some existing, some incoming => compareVersions existing incoming == some .gt
  | _, _ => false

structure SoftLock where
  number : UInt64
deriving DecidableEq, Inhabited

structure Versioned where
  value : CacheValue
  version : Option Value
deriving Inhabited

inductive CacheItem where
  | stored (item : Versioned)
  | locked (lock : SoftLock) (pending : Option Versioned)
deriving Inhabited

structure MemoryRegion where
  items : Registry CacheKey CacheItem := ∅
  /-- Wraps around. -/
  nextLock : UInt64 := 1
deriving Inhabited

namespace MemoryRegion

def size (region : MemoryRegion) : Nat := region.items.size

def get? (region : MemoryRegion) (key : CacheKey) : Option CacheValue :=
  match region.items.find? key with
  | some (.stored item) => some item.value
  | _ => none

def isLocked (region : MemoryRegion) (key : CacheKey) : Bool :=
  match region.items.find? key with
  | some (.locked _ _) => true
  | _ => false

def store (region : MemoryRegion) (key : CacheKey) (item : Versioned) : MemoryRegion :=
  { region with items := region.items.insert key (.stored item) }

/-- Offers a value read from the database: refused while the item is locked, when a minimal put finds a
value, and when the value is stale. -/
def put (region : MemoryRegion) (key : CacheKey) (item : Versioned) (minimal : Bool) : Bool × MemoryRegion :=
  match region.items.find? key with
  | some (.locked _ _) => (false, region)
  | some (.stored held) =>
    if minimal || isStale held.version item.version then (false, region) else (true, region.store key item)
  | none => (true, region.store key item)

/-- Offers a value written to the database: refused when it is stale, and kept back under a lock. -/
def update (region : MemoryRegion) (key : CacheKey) (item : Versioned) : Bool × MemoryRegion :=
  match region.items.find? key with
  | some (.locked lock _) =>
    (true, { region with items := region.items.insert key (.locked lock (some item)) })
  | some (.stored held) =>
    if isStale held.version item.version then (false, region) else (true, region.store key item)
  | none => (true, region.store key item)

def lock (region : MemoryRegion) (key : CacheKey) : SoftLock × MemoryRegion :=
  let token : SoftLock := ⟨region.nextLock⟩
  (token, { items := region.items.insert key (.locked token none), nextLock := region.nextLock + 1 })

/-- Any token but that of the lock in force is ignored. -/
def unlock (region : MemoryRegion) (key : CacheKey) (token : SoftLock) : MemoryRegion :=
  match region.items.find? key with
  | some (.locked lock pending) =>
    if lock = token then
      match pending with
      | some item => region.store key item
      | none => { region with items := region.items.erase key }
    else region
  | _ => region

def evict (region : MemoryRegion) (key : CacheKey) : MemoryRegion :=
  { region with items := region.items.erase key }

def clear (region : MemoryRegion) : MemoryRegion := { region with items := ∅ }

end MemoryRegion

end UnitOfWork
