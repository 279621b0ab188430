import UnitOfWork.Value.HashFeed
import UnitOfWork.Value.Sameness

/-! Identifiers, and the keys under which rows are known. Keys are compared column by column with
sameness of values, and the entity name of a key is that of the hierarchy's root, so a subclass and its
root share one key space. -/

namespace UnitOfWork

/-- The identifier columns of a row in declared order, whole numbers widened. -/
structure Identifier where
  columns : List Value
  widened : ∀ column ∈ columns, column.widen = column

namespace Identifier

def ofColumns (columns : List Value) : Identifier where
  columns := columns.map Value.widen
  widened := by simp only [List.mem_map]; rintro _ ⟨column, _, rfl⟩; exact column.widen_widen

def ofValue (value : Value) : Identifier := ofColumns [value]

instance : Inhabited Identifier := ⟨ofColumns []⟩

instance : BEq Identifier where
  beq a b := Value.sameItems a.columns b.columns

instance : EquivBEq Identifier where
  rfl := Value.sameItems_self _
  symm := Value.sameItems_symm
  trans := Value.sameItems_trans

/-- An identifier without columns denotes no row, nor does one with a null among them. -/
def isNull (id : Identifier) : Bool := id.columns.isEmpty || id.columns.any Value.isNull

def describe (id : Identifier) : String :=
  match id.columns with
  | [column] => column.describe
  | columns => "(" ++ Value.describeItems columns ++ ")"

def hashFeed (id : Identifier) : List UInt8 := Value.columnsFeed id.columns

@[ext] theorem ext {a b : Identifier} (same : a.columns = b.columns) : a = b := by
  cases a; cases b; cases same; rfl

end Identifier

/-- The root entity of the row's hierarchy and the row's identifier. -/
structure EntityKey where
  entity : String
  id : Identifier
deriving Inhabited

namespace EntityKey

instance : BEq EntityKey where
  beq a b := a.entity == b.entity && a.id == b.id

theorem beq_iff {a b : EntityKey} : (a == b) = true ↔ a.entity = b.entity ∧ (a.id == b.id) = true := by
  change (a.entity == b.entity && a.id == b.id) = true ↔ _
  simp

instance : EquivBEq EntityKey where
  rfl := beq_iff.mpr ⟨rfl, BEq.rfl⟩
  symm same := beq_iff.mpr ⟨(beq_iff.mp same).1.symm, BEq.symm (beq_iff.mp same).2⟩
  trans first second := beq_iff.mpr
    ⟨(beq_iff.mp first).1.trans (beq_iff.mp second).1, BEq.trans (beq_iff.mp first).2 (beq_iff.mp second).2⟩

def describe (key : EntityKey) : String := key.entity ++ "#" ++ key.id.describe

def hashFeed (key : EntityKey) : List UInt8 := textFeed key.entity ++ key.id.hashFeed

end EntityKey

/-- The values of the natural-id attributes of a row. Unlike identifier columns they are not widened. -/
structure NaturalId where
  values : List Value
deriving Inhabited

namespace NaturalId

instance : BEq NaturalId where
  beq a b := Value.sameItems a.values b.values

instance : EquivBEq NaturalId where
  rfl := Value.sameItems_self _
  symm := Value.sameItems_symm
  trans := Value.sameItems_trans

def hashFeed (naturalId : NaturalId) : List UInt8 := Value.columnsFeed naturalId.values

end NaturalId

end UnitOfWork
