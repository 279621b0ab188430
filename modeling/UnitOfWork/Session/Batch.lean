import UnitOfWork.Session.Basic

/-! The rows of one load on their way to becoming entities: each key once, in the order of its first row,
with the instance and the values that came with that row. -/

namespace UnitOfWork

structure LoadingEntity where
  key : EntityKey
  descriptor : Descriptor
  handle : Handle
  hydrated : List AttributeValue
deriving Inhabited

inductive Registration where
  | added
  /-- The instance was registered under that key before. -/
  | repeated
  /-- Another instance was registered under that key before; it stays. -/
  | duplicate
deriving DecidableEq, Inhabited

structure Batch where
  entities : List LoadingEntity := []
deriving Inhabited

namespace Batch

def size (batch : Batch) : Nat := batch.entities.length

def find? (batch : Batch) (key : EntityKey) : Option LoadingEntity :=
  batch.entities.find? fun entity => entity.key == key

def handle? (batch : Batch) (key : EntityKey) : Option Handle := (batch.find? key).map (·.handle)

def contains (batch : Batch) (key : EntityKey) : Bool := batch.entities.any fun entity => entity.key == key

/-- The key an instance was last registered under. -/
def keyFor? (batch : Batch) (h : Handle) : Option EntityKey :=
  (batch.entities.reverse.find? fun entity => entity.handle = h).map (·.key)

def register (batch : Batch) (entity : LoadingEntity) : Registration × Batch :=
  match batch.find? entity.key with
  | some held => (if held.handle = entity.handle then .repeated else .duplicate, batch)
  | none => (.added, ⟨batch.entities ++ [entity]⟩)

end Batch

end UnitOfWork
