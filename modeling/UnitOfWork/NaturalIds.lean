import UnitOfWork.Metamodel.Descriptor
import UnitOfWork.Registry

/-! Which identifier belongs to which natural id, and back. -/

namespace UnitOfWork

namespace NaturalId

def ofReference (heap : Heap) : Reference → Value
  | .loaded h =>
    match heap.id? h with
    | some id => .array id.columns
    | none => .null
  | .notLoaded key | .removed key => .array key.id.columns

def ofAttribute (heap : Heap) : Option AttributeValue → Value
  | some (.basic value) => value
  | some (.reference r) => ofReference heap r
  | some (.foreignKey id) => .array id.columns
  | _ => .null

/-- The natural id within a state, for entities that declare one. -/
def ofState? (heap : Heap) (d : Descriptor) (state : List AttributeValue) : Option NaturalId :=
  d.naturalIdIndices?.map fun indices => ⟨indices.map fun i => ofAttribute heap state[i]?⟩

end NaturalId

structure NaturalIdIndex where
  ids : Registry NaturalId Identifier := ∅
  naturalIds : Registry Identifier NaturalId := ∅
deriving Inhabited

namespace NaturalIdIndex

/-- The natural id that the identifier had before no longer leads to it. -/
def record (index : NaturalIdIndex) (id : Identifier) (naturalId : NaturalId) : NaturalIdIndex :=
  let ids := match index.naturalIds.find? id with
    | some previous => index.ids.erase previous
    | none => index.ids
  { ids := ids.insert naturalId id, naturalIds := index.naturalIds.insert id naturalId }

def remove (index : NaturalIdIndex) (id : Identifier) : NaturalIdIndex :=
  match index.naturalIds.find? id with
  | some naturalId => { ids := index.ids.erase naturalId, naturalIds := index.naturalIds.erase id }
  | none => index

end NaturalIdIndex

structure NaturalIds where
  indices : Registry String NaturalIdIndex := ∅
deriving Inhabited

namespace NaturalIds

def index (resolutions : NaturalIds) (root : String) : NaturalIdIndex :=
  (resolutions.indices.find? root).getD {}

def findId? (resolutions : NaturalIds) (root : String) (naturalId : NaturalId) : Option Identifier :=
  (resolutions.index root).ids.find? naturalId

def findNaturalId? (resolutions : NaturalIds) (key : EntityKey) : Option NaturalId :=
  (resolutions.index key.entity).naturalIds.find? key.id

/-- Entities without a natural id change nothing. -/
def record (resolutions : NaturalIds) (heap : Heap) (d : Descriptor) (id : Identifier)
    (state : List AttributeValue) : NaturalIds :=
  match NaturalId.ofState? heap d state with
  | some naturalId =>
    ⟨resolutions.indices.insert d.rootName ((resolutions.index d.rootName).record id naturalId)⟩
  | none => resolutions

def remove (resolutions : NaturalIds) (key : EntityKey) : NaturalIds :=
  ⟨resolutions.indices.modify key.entity fun index => index.remove key.id⟩

end NaturalIds

end UnitOfWork
