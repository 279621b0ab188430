import UnitOfWork.Json.Printer

/-! Column values. Two equalities matter: numeric equality, under which a NaN differs from itself and
the zeros agree, decides whether an attribute has changed; sameness, which tells floating point numbers
apart by their bits, decides whether two identifiers denote one row. -/

namespace UnitOfWork

inductive Value where
  | null
  | bool (value : Bool)
  | tinyInt (value : Int8)
  | smallInt (value : Int16)
  | int (value : Int32)
  | bigInt (value : Int64)
  | float (value : Single)
  | double (value : Double)
  | decimal (digits : String)
  | text (value : String)
  | bytes (data : List UInt8)
  /-- Days since the epoch. -/
  | date (days : Int32)
  /-- Microseconds since midnight. -/
  | time (micros : Int64)
  /-- Microseconds since the epoch. -/
  | timestamp (micros : Int64)
  /-- Microseconds since the epoch in universal time. -/
  | timestampTz (micros : Int64)
  | uuid (data : Vector UInt8 16)
  | json (document : Json)
  | array (items : List Value)
deriving Inhabited

namespace Value

def isNull : Value → Bool
  | .null => true
  | _ => false

def typeName : Value → String
  | .null => "NULL"
  | .bool _ => "BOOLEAN"
  | .tinyInt _ => "TINYINT"
  | .smallInt _ => "SMALLINT"
  | .int _ => "INTEGER"
  | .bigInt _ => "BIGINT"
  | .float _ => "REAL"
  | .double _ => "DOUBLE"
  | .decimal _ => "DECIMAL"
  | .text _ => "TEXT"
  | .bytes _ => "BLOB"
  | .date _ => "DATE"
  | .time _ => "TIME"
  | .timestamp _ => "TIMESTAMP"
  | .timestampTz _ => "TIMESTAMPTZ"
  | .uuid _ => "UUID"
  | .json _ => "JSON"
  | .array _ => "ARRAY"

def toBool? : Value → Option Bool
  | .bool b => some b
  | .tinyInt n => some (n != 0)
  | .smallInt n => some (n != 0)
  | .int n => some (n != 0)
  | .bigInt n => some (n != 0)
  | _ => none

def toInt? : Value → Option Int64
  | .tinyInt n => some n.toInt64
  | .smallInt n => some n.toInt64
  | .int n => some n.toInt64
  | .bigInt n => some n
  | .bool b => some (if b then 1 else 0)
  | _ => none

def toText? : Value → Option String
  | .text s => some s
  | .decimal s => some s
  | _ => none

mutual

/-- Numeric equality; values of different column types are never equal. -/
def equal : Value → Value → Bool
  | .null, .null => true
  | .bool a, .bool b => a == b
  | .tinyInt a, .tinyInt b => a == b
  | .smallInt a, .smallInt b => a == b
  | .int a, .int b => a == b
  | .bigInt a, .bigInt b => a == b
  | .float a, .float b => a.equal b
  | .double a, .double b => a.equal b
  | .decimal a, .decimal b => a == b
  | .text a, .text b => a == b
  | .bytes a, .bytes b => a == b
  | .date a, .date b => a == b
  | .time a, .time b => a == b
  | .timestamp a, .timestamp b => a == b
  | .timestampTz a, .timestampTz b => a == b
  | .uuid a, .uuid b => a == b
  | .json a, .json b => a.equal b
  | .array a, .array b => equalItems a b
  | _, _ => false

def equalItems : List Value → List Value → Bool
  | [], [] => true
  | a :: as, b :: bs => a.equal b && equalItems as bs
  | _, _ => false

end

mutual

/-- Equality of identifier columns: floating point numbers are the same when their bits are. -/
def sameAs : Value → Value → Bool
  | .float a, .float b => a == b
  | .double a, .double b => a == b
  | .array a, .array b => sameItems a b
  | a, b => a.equal b

def sameItems : List Value → List Value → Bool
  | [], [] => true
  | a :: as, b :: bs => a.sameAs b && sameItems as bs
  | _, _ => false

end

mutual

def describe : Value → String
  | .null => "null"
  | .bool b => if b then "true" else "false"
  | .tinyInt n => toString n.toInt
  | .smallInt n => toString n.toInt
  | .int n => toString n.toInt
  | .bigInt n => toString n.toInt
  | .float x => x.text
  | .double x => x.text
  | .decimal s => s
  | .text s => s
  | .bytes data => "<" ++ toString data.length ++ " bytes>"
  | .date days => "date(" ++ toString days.toInt ++ ")"
  | .time micros => "time(" ++ toString micros.toInt ++ ")"
  | .timestamp micros => "ts(" ++ toString micros.toInt ++ ")"
  | .timestampTz micros => "ts(" ++ toString micros.toInt ++ ")"
  | .uuid data => Hex.ofBytes data.toList
  | .json document => document.print
  | .array items => "[" ++ describeItems items ++ "]"

def describeItems : List Value → String
  | [] => ""
  | [item] => item.describe
  | item :: rest => item.describe ++ ", " ++ describeItems rest

end

/-- Whole numbers of an identifier are kept in the widest integer type, so a key read from a narrow
column is the key read from a wide one. -/
def widen : Value → Value
  | .tinyInt n => .bigInt n.toInt64
  | .smallInt n => .bigInt n.toInt64
  | .int n => .bigInt n.toInt64
  | other => other

@[simp] theorem widen_widen (v : Value) : v.widen.widen = v.widen := by
  cases v <;> rfl

end Value

end UnitOfWork
