import UnitOfWork.Registry

/-! Counts of loads and cache accesses by name. Nothing is counted while counting is off, and counters wrap around. -/

namespace UnitOfWork

inductive Metric where
  | entityLoads
  | cachePuts
  | cacheHits
  | cacheMisses
deriving DecidableEq, Inhabited

structure Statistics where
  enabled : Bool
  counters : Registry (Metric × String) UInt64 := ∅
  duplicates : UInt64 := 0
deriving Inhabited

namespace Statistics

def counter (statistics : Statistics) (metric : Metric) (name : String) : UInt64 :=
  (statistics.counters.find? (metric, name)).getD 0

def count (statistics : Statistics) (metric : Metric) (name : String) : Nat := (statistics.counter metric name).toNat

def duplicateHydrations (statistics : Statistics) : Nat := statistics.duplicates.toNat

def increment (statistics : Statistics) (metric : Metric) (name : String) : Statistics :=
  if statistics.enabled then
    { statistics with counters := statistics.counters.insert (metric, name) (statistics.counter metric name + 1) }
  else statistics

def duplicateHydration (statistics : Statistics) : Statistics :=
  if statistics.enabled then
    { statistics with duplicates := statistics.duplicates + 1 }
  else statistics

section
variable (statistics : Statistics) (metric : Metric) (name : String)

@[simp] theorem enabled_increment : (statistics.increment metric name).enabled = statistics.enabled := by
  unfold increment
  split <;> rfl

@[simp] theorem duplicates_increment :
    (statistics.increment metric name).duplicates = statistics.duplicates := by
  unfold increment
  split <;> rfl

theorem counter_increment (counting : statistics.enabled = true) (other : Metric) (label : String) :
    (statistics.increment metric name).counter other label =
      statistics.counter other label + if metric = other ∧ name = label then 1 else 0 := by
  unfold increment counter
  rw [if_pos counting, Registry.find?_insert]
  simp only [beq_iff_eq, Prod.mk.injEq]
  split
  next same => rw [same.1, same.2]; rfl
  next => exact (UInt64.add_zero _).symm

@[simp] theorem enabled_duplicateHydration : statistics.duplicateHydration.enabled = statistics.enabled := by
  unfold duplicateHydration
  split <;> rfl

@[simp] theorem counters_duplicateHydration : statistics.duplicateHydration.counters = statistics.counters := by
  unfold duplicateHydration
  split <;> rfl

theorem duplicates_duplicateHydration (counting : statistics.enabled = true) :
    statistics.duplicateHydration.duplicates = statistics.duplicates + 1 := by
  unfold duplicateHydration
  rw [if_pos counting]

end

/-- Over all names. -/
def total (statistics : Statistics) (metric : Metric) : Nat :=
  let counted := statistics.counters.entries.filter fun entry => entry.1.1 = metric
  (counted.foldl (fun (sum : UInt64) entry => sum + entry.2) 0).toNat

def clear (statistics : Statistics) : Statistics := { enabled := statistics.enabled }

end Statistics

end UnitOfWork
