import UnitOfWork.Identifier

/-! Entity instances. A handle stands for one instance whatever the instance holds at the moment, and two
handles are equal when they stand for the same instance; what the instance holds is looked up in a heap. -/

namespace UnitOfWork

structure Handle where
  index : Nat
deriving DecidableEq, Inhabited

/-- Instances are counted from one in the order of their creation. -/
def Handle.ordinal (h : Handle) : Nat := h.index + 1

inductive Reference where
  | loaded (target : Handle)
  /-- A row that no instance of the session stands for yet. -/
  | notLoaded (key : EntityKey)
  /-- A row that the session is deleting. -/
  | removed (key : EntityKey)
deriving Inhabited

namespace Reference

def handle? : Reference → Option Handle
  | .loaded h => some h
  | _ => none

instance : BEq Reference where
  beq
    | .loaded a, .loaded b => a == b
    | .notLoaded a, .notLoaded b => a == b
    | .removed a, .removed b => a == b
    | _, _ => false

end Reference

inductive AttributeValue where
  | null
  | basic (value : Value)
  | embedded (children : List AttributeValue)
  | reference (target : Reference)
  /-- A hydrated key of a to-one association that has not been resolved. -/
  | foreignKey (id : Identifier)
  | anyKey (entity : String) (id : Identifier)
  /-- The attribute is lazy and was not selected. -/
  | unfetched
deriving Inhabited

namespace AttributeValue

def ofValue : Value → AttributeValue
  | .null => .null
  | value => .basic value

def isNull : AttributeValue → Bool
  | .null => true
  | _ => false

def basic? : AttributeValue → Option Value
  | .basic value => some value
  | _ => none

def reference? : AttributeValue → Option Reference
  | .reference r => some r
  | _ => none

def embedded? : AttributeValue → Option (List AttributeValue)
  | .embedded children => some children
  | _ => none

mutual

def isUnresolved : AttributeValue → Bool
  | .foreignKey _ | .anyKey _ _ => true
  | .embedded children => anyUnresolved children
  | _ => false

def anyUnresolved : List AttributeValue → Bool
  | [] => false
  | value :: rest => value.isUnresolved || anyUnresolved rest

end

mutual

/-- Equality as dirty checking sees it: columns compare numerically, references by the instance. -/
def equal : AttributeValue → AttributeValue → Bool
  | .null, .null => true
  | .basic a, .basic b => a.equal b
  | .embedded a, .embedded b => equalAll a b
  | .reference a, .reference b => a == b
  | .foreignKey a, .foreignKey b => a == b
  | .anyKey entity a, .anyKey other b => entity == other && a == b
  | .unfetched, .unfetched => true
  | _, _ => false

def equalAll : List AttributeValue → List AttributeValue → Bool
  | [], [] => true
  | a :: as, b :: bs => a.equal b && equalAll as bs
  | _, _ => false

end

end AttributeValue

structure Instance where
  entity : String
  id : Option Identifier := none
  values : List AttributeValue
deriving Inhabited

namespace Instance

def empty (entity : String) (attributes : Nat) : Instance :=
  { entity, values := List.replicate attributes .null }

/-- Positions beyond the last attribute are ignored. -/
def setValue (x : Instance) (index : Nat) (value : AttributeValue) : Instance :=
  { x with values := x.values.set index value }

end Instance

/-- All instances created so far. They are never removed, so a handle stays valid. -/
structure Heap where
  instances : Array Instance := #[]
deriving Inhabited

namespace Heap

instance : EmptyCollection Heap := ⟨{}⟩

def size (heap : Heap) : Nat := heap.instances.size

instance : Membership Handle Heap where
  mem heap h := h.index < heap.size

def read (heap : Heap) (h : Handle) : Instance := heap.instances.getD h.index default

def create (heap : Heap) (x : Instance) : Handle × Heap :=
  (⟨heap.size⟩, ⟨heap.instances.push x⟩)

def update (heap : Heap) (h : Handle) (change : Instance → Instance) : Heap :=
  ⟨heap.instances.modify h.index change⟩

def id? (heap : Heap) (h : Handle) : Option Identifier := (heap.read h).id

def entity (heap : Heap) (h : Handle) : String := (heap.read h).entity

def values (heap : Heap) (h : Handle) : List AttributeValue := (heap.read h).values

/-- What application code may do to instances: give some of them new contents, in order. -/
def edit (heap : Heap) (edits : List (Handle × Instance)) : Heap :=
  edits.foldl (fun heap edit => heap.update edit.1 fun _ => edit.2) heap

def describe (heap : Heap) (h : Handle) : String :=
  match heap.id? h with
  | some id => heap.entity h ++ "#" ++ id.describe
  | none => heap.entity h ++ s!"#<unsaved:{h.ordinal}>"

end Heap

def Reference.describe (heap : Heap) : Reference → String
  | .loaded h => heap.describe h
  | .notLoaded key => key.describe ++ " (proxy)"
  | .removed key => key.describe ++ " (removed)"

def AttributeValue.describe (heap : Heap) : AttributeValue → String
  | .null => "null"
  | .basic value => value.describe
  | .embedded _ => "<embedded>"
  | .reference r => r.describe heap
  | .foreignKey id => "<fk " ++ id.describe ++ ">"
  | .anyKey entity id => "<any " ++ entity ++ "#" ++ id.describe ++ ">"
  | .unfetched => "<unfetched>"

end UnitOfWork
