import UnitOfWork.Cache.Region

/-! What each operation of a region makes of the item under its own key. Items under other keys stay as they are. -/

namespace UnitOfWork

namespace CacheItem

def afterPut (item : Versioned) (minimal : Bool) : Option CacheItem → CacheItem
  | some (.locked lock pending) => .locked lock pending
  | some (.stored held) => if minimal || isStale held.version item.version then .stored held else .stored item
  | none => .stored item

def afterUpdate (item : Versioned) : Option CacheItem → CacheItem
  | some (.locked lock _) => .locked lock (some item)
  | some (.stored held) => if isStale held.version item.version then .stored held else .stored item
  | none => .stored item

/-- What was written meanwhile becomes readable; without it the item is gone. -/
def afterUnlock (token : SoftLock) : Option CacheItem → Option CacheItem
  | some (.locked lock pending) => if lock = token then pending.map .stored else some (.locked lock pending)
  | held => held

end CacheItem

namespace MemoryRegion
variable (region : MemoryRegion) (key other : CacheKey) (item : Versioned)

/-- A region left as it is, told as the operations below are. -/
theorem find?_left {region : MemoryRegion} {key : CacheKey} {held : Option CacheItem}
    (found : region.items.find? key = held) :
    region.items.find? other = if key == other then held else region.items.find? other := by
  split
  next same => exact (Registry.find?_congr _ same).symm.trans found
  next => rfl

theorem find?_put (minimal : Bool) : (region.put key item minimal).2.items.find? other =
    if key == other then some (CacheItem.afterPut item minimal (region.items.find? key))
    else region.items.find? other := by
  unfold put
  split
  next lock pending found =>
    rw [found]
    exact find?_left other found
  next held found =>
    rw [found]
    unfold CacheItem.afterPut
    dsimp only
    split
    · exact find?_left other found
    · exact Registry.find?_insert _ _ _ _
  next missing =>
    rw [missing]
    exact Registry.find?_insert _ _ _ _

theorem find?_update : (region.update key item).2.items.find? other =
    if key == other then some (CacheItem.afterUpdate item (region.items.find? key)) else region.items.find? other := by
  unfold update
  split
  next lock pending found =>
    rw [found]
    exact Registry.find?_insert _ _ _ _
  next held found =>
    rw [found]
    unfold CacheItem.afterUpdate
    dsimp only
    split
    · exact find?_left other found
    · exact Registry.find?_insert _ _ _ _
  next missing =>
    rw [missing]
    exact Registry.find?_insert _ _ _ _

theorem nextLock_put (minimal : Bool) : (region.put key item minimal).2.nextLock = region.nextLock := by
  unfold put
  split
  · rfl
  · split <;> rfl
  · rfl

theorem nextLock_update : (region.update key item).2.nextLock = region.nextLock := by
  unfold update
  split
  · rfl
  · split <;> rfl
  · rfl

theorem find?_unlock (token : SoftLock) : (region.unlock key token).items.find? other =
    if key == other then CacheItem.afterUnlock token (region.items.find? key) else region.items.find? other := by
  unfold unlock
  split
  next lock pending found =>
    rw [found]
    unfold CacheItem.afterUnlock
    dsimp only
    split
    · cases pending with
      | some item => exact Registry.find?_insert _ _ _ _
      | none => exact Registry.find?_erase _ _ _
    · exact find?_left other found
  next held unlocked =>
    cases found : region.items.find? key with
    | none => exact find?_left other found
    | some item =>
      cases item with
      | stored item => exact find?_left other found
      | locked lock pending => exact absurd found (unlocked lock pending)

theorem nextLock_unlock (token : SoftLock) : (region.unlock key token).nextLock = region.nextLock := by
  unfold unlock
  split
  · split
    · split <;> rfl
    · rfl
  · rfl

end MemoryRegion

end UnitOfWork
