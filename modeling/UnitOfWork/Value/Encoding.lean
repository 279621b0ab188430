import UnitOfWork.Error
import UnitOfWork.Json.Draft

/-! The stored form of values and keys as documents. A value is written under the name of its column
type; a missing value is the bare name. Reading accepts what writing produces and the spellings that mean
the same: a bare name as a member with a null, a record as an array of its fields, a whole number where a
fraction is expected. What is read is a draft, as the members of a record that are ignored may stand for
nothing. -/

namespace UnitOfWork

namespace Decode

def fail {α : Type} (expected : String) : Except Error α := .error (.serialization ("expected " ++ expected))

/-- The fields of a record in order, from members in any order or from an array of exactly all fields.
Members of other names are ignored and a repeated field is refused. -/
def fields (what : String) (names : List String) : Draft → Except Error (List (Option Draft))
  | .array items => if items.length = names.length then .ok (items.map some) else fail what
  | .object members => names.mapM fun name =>
    match members.filter fun member => member.1 == name with
    | [] => .ok none
    | [member] => .ok (some member.2)
    | _ => fail what
  | _ => fail what

def required (what : String) : Option Draft → Except Error Draft
  | some draft => .ok draft
  | none => fail what

def text : Draft → Except Error String
  | .text s => .ok s
  | _ => fail "a text"

def integer (low high : Int) : Draft → Except Error Int
  | .integer n => if low ≤ n ∧ n ≤ high then .ok n else fail "a whole number in range"
  | _ => fail "a whole number"

def byte (draft : Draft) : Except Error UInt8 := return UInt8.ofNat (← integer 0 255 draft).toNat

def bytes : Draft → Except Error (List UInt8)
  | .array items => items.mapM byte
  | _ => fail "bytes"

/-- A missing member and a null are the same. -/
def optional {α : Type} (read : Draft → Except Error α) : Option Draft → Except Error (Option α)
  | none | some .null => .ok none
  | some draft => some <$> read draft

def document (draft : Draft) : Except Error Json :=
  match draft.json? with
  | some document => .ok document.canonical
  | none => fail "a document"

end Decode

/-- NaN and the infinities have no stored form. -/
def Double.encode (x : Double) : Json :=
  if finite : x.isFinite = true then .real ⟨x, finite⟩ else .null

def Json.ofBytes (data : List UInt8) : Json := .array (data.map fun byte => .integer byte.toNat)

namespace Value

mutual

def encode : Value → Json
  | .null => .text "Null"
  | .bool b => .tagged "Bool" (.bool b)
  | .tinyInt n => .tagged "TinyInt" (.integer n.toInt)
  | .smallInt n => .tagged "SmallInt" (.integer n.toInt)
  | .int n => .tagged "Int" (.integer n.toInt)
  | .bigInt n => .tagged "BigInt" (.integer n.toInt)
  | .float x => .tagged "Float" x.widen.encode
  | .double x => .tagged "Double" x.encode
  | .decimal s => .tagged "Decimal" (.text s)
  | .text s => .tagged "Text" (.text s)
  | .bytes data => .tagged "Bytes" (.ofBytes data)
  | .date days => .tagged "Date" (.integer days.toInt)
  | .time micros => .tagged "Time" (.integer micros.toInt)
  | .timestamp micros => .tagged "Timestamp" (.integer micros.toInt)
  | .timestampTz micros => .tagged "TimestampTz" (.integer micros.toInt)
  | .uuid data => .tagged "Uuid" (.ofBytes data.toList)
  | .json document => .tagged "Json" document
  | .array items => .tagged "Array" (.array (encodeAll items))

def encodeAll : List Value → List Json
  | [] => []
  | item :: rest => item.encode :: encodeAll rest

end

def decodeInt (width : Nat) (draft : Draft) : Except Error Int :=
  Decode.integer (-Nat.pow 2 (width - 1)) (Nat.pow 2 (width - 1) - 1) draft

def decodeInt64 (draft : Draft) : Except Error Int64 := return Int64.ofInt (← decodeInt 64 draft)

/-- Whole numbers are read as the nearest number of the column type. -/
def decodeSingle : Draft → Except Error Single
  | .real x => .ok x.number.narrow
  | .integer n => .ok (.ofInt n)
  | _ => Decode.fail "a number"

def decodeDouble : Draft → Except Error Double
  | .real x => .ok x.number
  | .integer n => .ok (.ofInt n)
  | _ => Decode.fail "a number"

def decodeUuid (draft : Draft) : Except Error (Vector UInt8 16) := do
  let data ← Decode.bytes draft
  if whole : data.toArray.size = 16 then return ⟨data.toArray, whole⟩ else Decode.fail "sixteen bytes"

def decodeScalar (tag : String) (payload : Draft) : Except Error Value :=
  match tag with
  | "Null" => match payload with
    | .null => .ok .null
    | _ => Decode.fail "null"
  | "Bool" => match payload with
    | .bool b => .ok (.bool b)
    | _ => Decode.fail "a truth value"
  | "TinyInt" => return .tinyInt (Int8.ofInt (← decodeInt 8 payload))
  | "SmallInt" => return .smallInt (Int16.ofInt (← decodeInt 16 payload))
  | "Int" => return .int (Int32.ofInt (← decodeInt 32 payload))
  | "BigInt" => return .bigInt (← decodeInt64 payload)
  | "Float" => return .float (← decodeSingle payload)
  | "Double" => return .double (← decodeDouble payload)
  | "Decimal" => return .decimal (← Decode.text payload)
  | "Text" => return .text (← Decode.text payload)
  | "Bytes" => return .bytes (← Decode.bytes payload)
  | "Date" => return .date (Int32.ofInt (← decodeInt 32 payload))
  | "Time" => return .time (← decodeInt64 payload)
  | "Timestamp" => return .timestamp (← decodeInt64 payload)
  | "TimestampTz" => return .timestampTz (← decodeInt64 payload)
  | "Uuid" => return .uuid (← decodeUuid payload)
  | "Json" => return .json (← Decode.document payload)
  | _ => Decode.fail "a column type"

mutual

def decode : Draft → Except Error Value
  | .text tag => if tag = "Null" then .ok .null else Decode.fail "a value"
  | .object [(tag, .array items)] =>
    if tag = "Array" then .array <$> decodeAll items else decodeScalar tag (.array items)
  | .object [(tag, payload)] => decodeScalar tag payload
  | _ => Decode.fail "a value"

def decodeAll : List Draft → Except Error (List Value)
  | [] => .ok []
  | item :: rest => do
    let value ← decode item
    let values ← decodeAll rest
    return value :: values

end

end Value

namespace Identifier

def encode (id : Identifier) : Json := .array (Value.encodeAll id.columns)

/-- Columns are widened on reading, so stored narrow columns are read as the same key. -/
def decode : Draft → Except Error Identifier
  | .array items => ofColumns <$> Value.decodeAll items
  | _ => Decode.fail "an identifier"

end Identifier

namespace EntityKey

def encode (key : EntityKey) : Json := .object [("entity_name", .text key.entity), ("id", key.id.encode)]

def decode (draft : Draft) : Except Error EntityKey := do
  match ← Decode.fields "an entity key" ["entity_name", "id"] draft with
  | [entity, id] =>
    return ⟨← Decode.text (← Decode.required "an entity name" entity),
      ← Identifier.decode (← Decode.required "an identifier" id)⟩
  | _ => Decode.fail "an entity key"

end EntityKey

end UnitOfWork
