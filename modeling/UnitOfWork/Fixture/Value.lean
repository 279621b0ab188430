import UnitOfWork.Fixture.Reading
import UnitOfWork.Identifier
import UnitOfWork.Json.Printer
import UnitOfWork.Json.Reader
import UnitOfWork.Number.Hex

/-! Values, identifiers and keys as fixtures. The commonest column types stand for themselves, others are
named; floating point numbers are given by their bits and bytes by their digits. -/

namespace UnitOfWork

open Fixture

def Double.toFixture (x : Double) : Json := .text (Hex.text 16 x.bits.toNat)

namespace Value

mutual

def toFixture : Value → Json
  | .null => .null
  | .bool b => .bool b
  | .bigInt n => .integer n.toInt
  | .text s => .text s
  | .tinyInt n => .tagged "TinyInt" (.integer n.toInt)
  | .smallInt n => .tagged "SmallInt" (.integer n.toInt)
  | .int n => .tagged "Int" (.integer n.toInt)
  | .float x => .tagged "Float" (.text (Hex.text 8 x.bits.toNat))
  | .double x => .tagged "Double" x.toFixture
  | .decimal s => .tagged "Decimal" (.text s)
  | .bytes data => .tagged "Bytes" (.text (Hex.ofBytes data))
  | .date days => .tagged "Date" (.integer days.toInt)
  | .time micros => .tagged "Time" (.integer micros.toInt)
  | .timestamp micros => .tagged "Timestamp" (.integer micros.toInt)
  | .timestampTz micros => .tagged "TimestampTz" (.integer micros.toInt)
  | .uuid data => .tagged "Uuid" (.text (Hex.ofBytes data.toList))
  | .json document => .tagged "Json" (.text document.print)
  | .array items => .tagged "Array" (.array (allToFixture items))

def allToFixture : List Value → List Json
  | [] => []
  | value :: rest => value.toFixture :: allToFixture rest

end

def listToFixture (values : List Value) : Json := .array (allToFixture values)

/-- A list of no or one value, so that a null value differs from none. -/
def optionToFixture (value : Option Value) : Json := listToFixture value.toList

def ofBits (document : Json) : Reading Nat := do
  match Hex.number? (← Fixture.text document) with
  | some bits => return bits
  | none => .error (.expected "bits")

def ofDigits (document : Json) : Reading (List UInt8) := do
  match Hex.bytes? (← Fixture.text document) with
  | some data => return data
  | none => .error (.expected "pairs of digits")

def ofUuidBytes (data : List UInt8) : Reading Value :=
  if whole : data.toArray.size = 16 then .ok (.uuid ⟨data.toArray, whole⟩)
  else .error (.expected "sixteen bytes")

def ofTagged (tag : String) (payload : Json) : Reading Value :=
  match tag with
  | "TinyInt" => return .tinyInt (Int8.ofInt (← integer payload))
  | "SmallInt" => return .smallInt (Int16.ofInt (← integer payload))
  | "Int" => return .int (Int32.ofInt (← integer payload))
  | "Float" => return .float ⟨UInt32.ofNat (← ofBits payload)⟩
  | "Double" => return .double ⟨UInt64.ofNat (← ofBits payload)⟩
  | "Decimal" => return .decimal (← Fixture.text payload)
  | "Bytes" => return .bytes (← ofDigits payload)
  | "Date" => return .date (Int32.ofInt (← integer payload))
  | "Time" => return .time (Int64.ofInt (← integer payload))
  | "Timestamp" => return .timestamp (Int64.ofInt (← integer payload))
  | "TimestampTz" => return .timestampTz (Int64.ofInt (← integer payload))
  | "Uuid" => do ofUuidBytes (← ofDigits payload)
  | "Json" => do
    match Json.read? (← Fixture.text payload) with
    | some document => return .json document.canonical
    | none => .error (.expected "document")
  | _ => .error (.expected "column type")

mutual

def ofFixture : Json → Reading Value
  | .null => .ok .null
  | .bool b => .ok (.bool b)
  | .integer n => .ok (.bigInt (Int64.ofInt n))
  | .text s => .ok (.text s)
  | .object [("Array", .array items)] => do return .array (← allOfFixture items)
  | .object [(tag, payload)] => ofTagged tag payload
  | _ => .error (.expected "value")

def allOfFixture : List Json → Reading (List Value)
  | [] => .ok []
  | document :: rest => do
    let value ← ofFixture document
    let values ← allOfFixture rest
    return value :: values

end

def optionOfFixture : Json → Reading (Option Value)
  | .null | .array [] => .ok none
  | .array [document] => some <$> ofFixture document
  | _ => .error (.expected "list of at most one value")

end Value

def Identifier.toFixture (id : Identifier) : Json := Value.listToFixture id.columns

def Identifier.ofFixture (document : Json) : Reading Identifier := .ofColumns <$> list Value.ofFixture document

def NaturalId.toFixture (naturalId : NaturalId) : Json := Value.listToFixture naturalId.values

def NaturalId.ofFixture (document : Json) : Reading NaturalId := .mk <$> list Value.ofFixture document

def EntityKey.toFixture (key : EntityKey) : Json := .array [.text key.entity, key.id.toFixture]

def EntityKey.ofFixture (document : Json) : Reading EntityKey := do
  match ← items document with
  | [entity, id] => return ⟨← text entity, ← Identifier.ofFixture id⟩
  | _ => .error (.expected "entity and identifier")

namespace Json

mutual

/-- Numbers with a fraction by their bits, so that no digit is lost. -/
def exact : Json → Json
  | .real x => .tagged "$double" x.number.toFixture
  | .array items => .array (exactItems items)
  | .object members => .object (exactMembers members)
  | other => other

def exactItems : List Json → List Json
  | [] => []
  | item :: rest => item.exact :: exactItems rest

def exactMembers : List (String × Json) → List (String × Json)
  | [] => []
  | (name, value) :: rest => (name, value.exact) :: exactMembers rest

end

end Json

end UnitOfWork
