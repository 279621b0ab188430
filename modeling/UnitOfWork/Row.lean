import UnitOfWork.Registry
import UnitOfWork.Value.Basic

/-! Rows of a result set. -/

namespace UnitOfWork

/-- The column names of a result set; of equal names the last column is meant. -/
structure ColumnNames where
  names : List String
deriving Inhabited

namespace ColumnNames

def size (columns : ColumnNames) : Nat := columns.names.length

def indexOf? (columns : ColumnNames) (name : String) : Option Nat :=
  (columns.names.reverse.findIdx? (· == name)).map fun fromEnd => columns.size - 1 - fromEnd

end ColumnNames

structure Row where
  values : List Value
  columns : ColumnNames := ⟨[]⟩
deriving Inhabited

namespace Row

def size (row : Row) : Nat := row.values.length

def get? (row : Row) (index : Nat) : Option Value := row.values[index]?

def getByName? (row : Row) (name : String) : Option Value := row.columns.indexOf? name >>= row.get?

/-- `count` columns from `start` on, if the row has them all. -/
def slice? (row : Row) (start count : Nat) : Option (List Value) :=
  if start + count ≤ row.size then some ((row.values.drop start).take count) else none

end Row

end UnitOfWork
