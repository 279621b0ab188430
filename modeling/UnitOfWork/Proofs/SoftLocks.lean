import UnitOfWork.Proofs.RegionItems

/-! Soft locks of a cache region under any interleaving of its clients. While a lock is in force its key cannot be
read and takes no values from the database; values written meanwhile are kept back for its release, which takes the
token of this lock and no other. -/

namespace UnitOfWork

namespace MemoryRegion

/-- The first access of a client that takes a lock: a number of its own. -/
def draw (region : MemoryRegion) : SoftLock × MemoryRegion :=
  (⟨region.nextLock⟩, { region with nextLock := region.nextLock + 1 })

/-- The second access: the item is locked under that number. Other clients may come in between the two. -/
def place (region : MemoryRegion) (key : CacheKey) (token : SoftLock) : MemoryRegion :=
  { region with items := region.items.insert key (.locked token none) }

theorem lock_eq (region : MemoryRegion) (key : CacheKey) :
    region.lock key = (region.draw.1, region.draw.2.place key region.draw.1) := rfl

end MemoryRegion

inductive RegionAccess where
  | get (key : CacheKey)
  | put (key : CacheKey) (item : Versioned) (minimal : Bool)
  | update (key : CacheKey) (item : Versioned)
  | draw
  | place (key : CacheKey) (token : SoftLock)
  | unlock (key : CacheKey) (token : SoftLock)
  | evict (key : CacheKey)
  | clear

namespace RegionAccess

def perform (region : MemoryRegion) : RegionAccess → MemoryRegion
  | .get _ => region
  | .put key item minimal => (region.put key item minimal).2
  | .update key item => (region.update key item).2
  | .draw => region.draw.2
  | .place key token => region.place key token
  | .unlock key token => region.unlock key token
  | .evict key => region.evict key
  | .clear => region.clear

/-- Whether the access is to the item under a key, if only because it is to all items. -/
def concerns (key : CacheKey) : RegionAccess → Bool
  | .get other | .put other _ _ | .update other _ | .place other _ | .unlock other _ | .evict other => other == key
  | .draw => false
  | .clear => true

def ends (key : CacheKey) (token : SoftLock) : RegionAccess → Bool
  | .unlock other used => other == key && decide (used = token)
  | .place other _ | .evict other => other == key
  | .clear => true
  | .get _ | .put _ _ _ | .update _ _ | .draw => false

def token? (region : MemoryRegion) : RegionAccess → Option SoftLock
  | .draw => some region.draw.1
  | _ => none

/-- The value kept back for a locked key, after the access. -/
def keeping (key : CacheKey) (kept : Option Versioned) : RegionAccess → Option Versioned
  | .update other item => if other == key then some item else kept
  | _ => kept

end RegionAccess

open RegionAccess

def lastUpdate (key : CacheKey) (accesses : List RegionAccess) : Option Versioned :=
  accesses.foldl (keeping key) none

namespace MemoryRegion

def after (region : MemoryRegion) (accesses : List RegionAccess) : MemoryRegion := accesses.foldl perform region

def tokens (region : MemoryRegion) : List RegionAccess → List SoftLock
  | [] => []
  | access :: rest => (access.token? region).toList ++ (access.perform region).tokens rest

/-- What a lock promises as long as it is in force, `kept` being what was written under it. -/
structure Withholds (region : MemoryRegion) (key : CacheKey) (token : SoftLock) (kept : Option Versioned) : Prop where
  hidden : region.get? key = none
  refuses : ∀ item minimal, region.put key item minimal = (false, region)
  accepts : ∀ item, (region.update key item).1 = true ∧ (region.update key item).2.get? key = none
  ignores : ∀ other, other ≠ token → region.unlock key other = region
  released : (region.unlock key token).get? key = kept.map (·.value)
  apart : ∀ access : RegionAccess, access.concerns key = false →
    (access.perform region).items.find? key = region.items.find? key

section
variable {region : MemoryRegion} {key : CacheKey} {token : SoftLock} {kept : Option Versioned} {access : RegionAccess}

theorem find?_perform_apart (apart : access.concerns key = false) :
    (access.perform region).items.find? key = region.items.find? key := by
  have different {other : CacheKey} (apart : (other == key) = false) : ¬ (other == key) = true := by simp [apart]
  cases access with
  | get other => rfl
  | draw => rfl
  | clear => cases apart
  | put other item minimal => exact (region.find?_put other key item minimal).trans (if_neg (different apart))
  | update other item => exact (region.find?_update other key item).trans (if_neg (different apart))
  | place other token => exact (region.items.find?_insert other key _).trans (if_neg (different apart))
  | unlock other token => exact (region.find?_unlock other key token).trans (if_neg (different apart))
  | evict other => exact (region.items.find?_erase other key).trans (if_neg (different apart))

/-- The lock stays in force under every access that does not end it, and only updates change what is kept back. -/
theorem locked_perform (locked : region.items.find? key = some (.locked token kept))
    (lasts : access.ends key token = false) :
    (access.perform region).items.find? key = some (.locked token (access.keeping key kept)) := by
  cases concerned : access.concerns key with
  | false =>
    have unwritten : access.keeping key kept = kept := by
      cases access with
      | update other item => exact if_neg (by simp [show (other == key) = false from concerned])
      | _ => rfl
    rw [unwritten, find?_perform_apart concerned, locked]
  | true =>
    cases access with
    | get other => exact locked
    | draw => cases concerned
    | clear => cases lasts
    | place other token => exact absurd concerned (Bool.eq_false_iff.mp lasts)
    | evict other => exact absurd concerned (Bool.eq_false_iff.mp lasts)
    | put other item minimal =>
      have same : (other == key) = true := concerned
      refine (region.find?_put other key item minimal).trans ?_
      rw [if_pos same, Registry.find?_congr _ same, locked]
      rfl
    | update other item =>
      have same : (other == key) = true := concerned
      refine (region.find?_update other key item).trans ?_
      rw [if_pos same, Registry.find?_congr _ same, locked]
      exact congrArg (fun kept => some (CacheItem.locked token kept)) (if_pos same).symm
    | unlock other used =>
      have same : (other == key) = true := concerned
      have stale : used ≠ token := by
        intro matching
        simp [ends, same, matching] at lasts
      refine (region.find?_unlock other key used).trans ?_
      rw [if_pos same, Registry.find?_congr _ same, locked]
      exact if_neg stale.symm

theorem locked_after (accesses : List RegionAccess) (locked : region.items.find? key = some (.locked token kept))
    (lasts : ∀ access ∈ accesses, access.ends key token = false) :
    (region.after accesses).items.find? key = some (.locked token (accesses.foldl (keeping key) kept)) := by
  induction accesses generalizing region kept with
  | nil => exact locked
  | cons access rest ih =>
    exact ih (locked_perform locked (lasts access List.mem_cons_self))
      fun later member => lasts later (List.mem_cons_of_mem _ member)

theorem withholds (locked : region.items.find? key = some (.locked token kept)) : region.Withholds key token kept where
  hidden := by rw [get?, locked]
  refuses item minimal := by rw [put, locked]
  accepts item := by
    constructor
    · rw [update, locked]
    · rw [get?, find?_update, if_pos BEq.rfl, locked]
      rfl
  ignores other stale := by
    rw [unlock, locked]
    exact if_neg stale.symm
  released := by
    rw [get?, find?_unlock, if_pos BEq.rfl, locked]
    simp only [CacheItem.afterUnlock, if_true]
    cases kept <;> rfl
  apart access := find?_perform_apart

end

section
variable (region : MemoryRegion)

theorem nextLock_perform (access : RegionAccess) :
    (access.perform region).nextLock = region.nextLock + .ofNat (access.token? region).toList.length := by
  cases access with
  | draw => rfl
  | put key item minimal => exact (region.nextLock_put key item minimal).trans (UInt64.add_zero _).symm
  | update key item => exact (region.nextLock_update key item).trans (UInt64.add_zero _).symm
  | unlock key token => exact (region.nextLock_unlock key token).trans (UInt64.add_zero _).symm
  | _ => exact (UInt64.add_zero _).symm

theorem nextLock_after (accesses : List RegionAccess) :
    (region.after accesses).nextLock = region.nextLock + .ofNat (region.tokens accesses).length := by
  induction accesses generalizing region with
  | nil => exact (UInt64.add_zero _).symm
  | cons access rest ih =>
    refine (ih (access.perform region)).trans ?_
    rw [region.nextLock_perform access, tokens, List.length_append, UInt64.ofNat_add, UInt64.add_assoc]

theorem number_tokens (accesses : List RegionAccess) : ∀ token ∈ region.tokens accesses,
    ∃ i < (region.tokens accesses).length, token.number = region.nextLock + .ofNat i := by
  induction accesses generalizing region with
  | nil =>
    intro token given
    cases given
  | cons access rest ih =>
    intro token given
    rw [tokens, List.length_append]
    rcases List.mem_append.mp given with now | later
    · cases access with
      | draw =>
        cases List.mem_singleton.mp now
        exact ⟨0, Nat.lt_add_right _ Nat.zero_lt_one, (UInt64.add_zero _).symm⟩
      | _ => cases now
    · obtain ⟨i, drawn, number⟩ := ih (access.perform region) token later
      refine ⟨(access.token? region).toList.length + i, Nat.add_lt_add_left drawn _, ?_⟩
      rw [number, region.nextLock_perform access, UInt64.ofNat_add, UInt64.add_assoc]

end

/-- It takes all numbers there are to come back to the first. -/
theorem number_apart (number : UInt64) {i j : Nat} (less : i < j) (few : j < UInt64.size) :
    number + .ofNat i ≠ number + .ofNat j := by
  intro same
  have values := congrArg UInt64.toNat (UInt64.add_right_inj number |>.mp same)
  rw [UInt64.toNat_ofNat_of_lt' (Nat.lt_trans less few), UInt64.toNat_ofNat_of_lt' few] at values
  exact Nat.ne_of_lt less values

end MemoryRegion

/-- From the moment a client's lock is in force, whatever all clients did before, between its two accesses and
since: nothing is read or taken from the database, updates are kept back, other tokens do nothing, and the token of
the lock brings out the last update. No other lock of the run has that token, unless so many are drawn before or after
that numbers come round to it. Without anything in between the two accesses are one `lock`. -/
theorem soft_lock_withholds (start : MemoryRegion) (earlier between during : List RegionAccess) (key asked : CacheKey)
    (same : (key == asked) = true) {token : SoftLock} {drawn : MemoryRegion}
    (drew : (start.after earlier).draw = (token, drawn)) (lasts : ∀ access ∈ during, access.ends key token = false) :
    (((drawn.after between).place key token).after during).Withholds asked token (lastUpdate key during) ∧
      ((start.tokens earlier).length < UInt64.size → token ∉ start.tokens earlier) ∧
      ((drawn.tokens (between ++ .place key token :: during)).length < UInt64.size →
        token ∉ drawn.tokens (between ++ .place key token :: during)) ∧
      (between = [] → (start.after earlier).lock key = (token, (drawn.after between).place key token)) := by
  obtain ⟨rfl, rfl⟩ : ⟨(start.after earlier).nextLock⟩ = token ∧
      { start.after earlier with nextLock := (start.after earlier).nextLock + 1 } = drawn := Prod.mk.inj drew
  refine ⟨MemoryRegion.withholds ?_, fun few given => ?_, fun few given => ?_, ?_⟩
  · rw [← Registry.find?_congr _ same]
    refine MemoryRegion.locked_after during ?_ lasts
    exact (Registry.find?_insert _ _ _ _).trans (if_pos BEq.rfl)
  · obtain ⟨i, drawn, number⟩ := start.number_tokens earlier _ given
    exact MemoryRegion.number_apart start.nextLock drawn few (number.symm.trans (start.nextLock_after earlier))
  · obtain ⟨i, drawn, number⟩ := MemoryRegion.number_tokens _ _ _ given
    refine MemoryRegion.number_apart (start.after earlier).nextLock i.succ_pos (Nat.lt_of_le_of_lt drawn few) ?_
    rw [Nat.succ_eq_one_add, UInt64.ofNat_add, ← UInt64.add_assoc]
    exact (UInt64.add_zero _).trans number
  · rintro rfl
    exact MemoryRegion.lock_eq _ _

namespace Sample

def orderKey : CacheKey := ⟨.ofColumns [.bool true], "Order", none⟩

def otherKey : CacheKey := ⟨.ofColumns [.bool false], "Order", none⟩

def cached (column : Bool) : Versioned := ⟨.entry ⟨"Order", none, [.basic (.bool column)]⟩, none⟩

/-- A client draws the second number and is overtaken by another that locks the order under the third. -/
def overtaking : List RegionAccess := [.draw, .place orderKey ⟨3⟩, .update orderKey (cached false)]

def underLock : List RegionAccess :=
  [.put orderKey (cached false) false, .update orderKey (cached false), .evict otherKey, .unlock orderKey ⟨3⟩,
    .update orderKey (cached true), .update otherKey (cached false), .draw]

end Sample

open Sample in
theorem soft_lock_withholds_overtaken :
    ∃ drawn : MemoryRegion, ((({} : MemoryRegion).after [.draw, .place orderKey ⟨1⟩]).draw = (⟨2⟩, drawn)) ∧
      (((drawn.after overtaking).place orderKey ⟨2⟩).after underLock).Withholds orderKey ⟨2⟩ (some (cached true)) ∧
      drawn.tokens (overtaking ++ .place orderKey ⟨2⟩ :: underLock) = [⟨3⟩, ⟨4⟩] ∧
      ⟨2⟩ ∉ drawn.tokens (overtaking ++ .place orderKey ⟨2⟩ :: underLock) := by
  obtain ⟨withholds, -, unique, -⟩ := soft_lock_withholds {} [.draw, .place orderKey ⟨1⟩] overtaking underLock
    orderKey orderKey BEq.rfl rfl (by decide +kernel)
  exact ⟨_, rfl, withholds, rfl, unique (by decide +kernel)⟩

end UnitOfWork
