import UnitOfWork.Metamodel.Descriptor

/-! Copies of the updatable attributes of a state, against which an instance is checked for changes. -/

namespace UnitOfWork

/-- One slot for each position of the state it was taken of; empty where changes do not count. -/
structure Snapshot where
  slots : List (Option AttributeValue)
deriving Inhabited

namespace Snapshot

/-- Positions without an attribute are not tracked either. -/
def keep : List Attribute → List AttributeValue → List (Option AttributeValue)
  | _, [] => []
  | [], _ :: state => none :: keep [] state
  | a :: attributes, value :: state => (if a.updatable then some value else none) :: keep attributes state

def take (d : Descriptor) (state : List AttributeValue) : Snapshot := ⟨keep d.attributes state⟩

def size (snapshot : Snapshot) : Nat := snapshot.slots.length

def value? (snapshot : Snapshot) (index : Nat) : Option AttributeValue := snapshot.slots[index]?.join

def changed : List Attribute → List (Option AttributeValue) → List AttributeValue → List String
  | a :: attributes, some _ :: slots, [] => a.name :: changed attributes slots []
  | a :: attributes, some kept :: slots, value :: current =>
    if value.equal kept then changed attributes slots current
    else a.name :: changed attributes slots current
  | _ :: attributes, none :: slots, current => changed attributes slots current.tail
  | _, _, _ => []

def dirtyAttributes (snapshot : Snapshot) (d : Descriptor) (current : List AttributeValue) : List String :=
  changed d.attributes snapshot.slots current

def isDirty (snapshot : Snapshot) (d : Descriptor) (current : List AttributeValue) : Bool :=
  !(snapshot.dirtyAttributes d current).isEmpty

end Snapshot

end UnitOfWork
