import UnitOfWork.Instance

/-! What the second-level cache holds: an entity taken apart into values that refer to no instance, so
that another session can read it. -/

namespace UnitOfWork

/-- Sessions of different tenants never share an entry. -/
structure CacheKey where
  id : Identifier
  entity : String
  tenant : Option String
deriving Inhabited

namespace CacheKey

instance : BEq CacheKey where
  beq a b := a.id == b.id && a.entity == b.entity && a.tenant == b.tenant

theorem beq_iff {a b : CacheKey} :
    (a == b) = true ↔ (a.id == b.id) = true ∧ a.entity = b.entity ∧ a.tenant = b.tenant := by
  change (a.id == b.id && a.entity == b.entity && a.tenant == b.tenant) = true ↔ _
  simp [and_assoc]

instance : EquivBEq CacheKey where
  rfl := beq_iff.mpr ⟨BEq.rfl, rfl, rfl⟩
  symm same := beq_iff.mpr
    ⟨BEq.symm (beq_iff.mp same).1, (beq_iff.mp same).2.1.symm, (beq_iff.mp same).2.2.symm⟩
  trans first second := beq_iff.mpr
    ⟨BEq.trans (beq_iff.mp first).1 (beq_iff.mp second).1, (beq_iff.mp first).2.1.trans (beq_iff.mp second).2.1,
      (beq_iff.mp first).2.2.trans (beq_iff.mp second).2.2⟩

end CacheKey

inductive CachedValue where
  | null
  | basic (value : Value)
  | embedded (children : List CachedValue)
  | reference (entity : String) (id : Identifier)
  | unfetched
deriving Inhabited

namespace CachedValue

def ofKey (id : Identifier) : CachedValue :=
  match id.columns with
  | [column] => .basic column
  | columns => .basic (.array columns)

def ofReference (heap : Heap) : Reference → CachedValue
  | .loaded h =>
    match heap.id? h with
    | some id => .reference (heap.entity h) id
    | none => .null
  | .notLoaded key | .removed key => .reference key.entity key.id

mutual

/-- An association is cached as the identity of its target; a target without one is cached as null. -/
def ofAttribute (heap : Heap) : AttributeValue → CachedValue
  | .null => .null
  | .basic value => .basic value
  | .embedded children => .embedded (ofAttributes heap children)
  | .reference r => ofReference heap r
  | .foreignKey id => ofKey id
  | .anyKey entity id => .reference entity id
  | .unfetched => .unfetched

def ofAttributes (heap : Heap) : List AttributeValue → List CachedValue
  | [] => []
  | value :: rest => ofAttribute heap value :: ofAttributes heap rest

end

end CachedValue

namespace AttributeValue

mutual

/-- The loaded targets without an identifier, depth first: their references are lost in the cache. -/
def unidentifiedTargets (heap : Heap) : AttributeValue → List Handle
  | .reference (.loaded h) => if (heap.id? h).isNone then [h] else []
  | .embedded children => unidentifiedAmong heap children
  | _ => []

def unidentifiedAmong (heap : Heap) : List AttributeValue → List Handle
  | [] => []
  | value :: rest => unidentifiedTargets heap value ++ unidentifiedAmong heap rest

end

end AttributeValue

structure CacheEntry where
  /-- The concrete entity, which may be a subclass of the one in the cache key. -/
  subclass : String
  version : Option Value
  state : List CachedValue
deriving Inhabited

inductive CacheValue where
  | entry (entry : CacheEntry)
  | structured (document : Json)
deriving Inhabited

end UnitOfWork
