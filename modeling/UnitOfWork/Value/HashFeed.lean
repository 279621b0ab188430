import UnitOfWork.Value.Basic

/-! The bytes a value feeds to a hash function. Every value begins with a tag of its column type, and
what has no fixed width is closed by a byte that text cannot hold or opened by its length, so that
values fed one after another stay apart. -/

namespace UnitOfWork

def littleEndian : Nat → Nat → List UInt8
  | 0, _ => []
  | width + 1, n => UInt8.ofNat n :: littleEndian width (n / 256)

def lengthFeed (n : Nat) : List UInt8 := littleEndian 8 n

/-- No byte of a text's encoding is `0xff`. -/
def textFeed (s : String) : List UInt8 := s.toUTF8.toList ++ [0xff]

def bytesFeed (data : List UInt8) : List UInt8 := lengthFeed data.length ++ data

namespace Value

mutual

def hashFeed : Value → List UInt8
  | .null => [0]
  | .bool b => [1, if b then 1 else 0]
  | .tinyInt n => 2 :: littleEndian 1 n.toUInt8.toNat
  | .smallInt n => 3 :: littleEndian 2 n.toUInt16.toNat
  | .int n => 4 :: littleEndian 4 n.toUInt32.toNat
  | .bigInt n => 5 :: littleEndian 8 n.toUInt64.toNat
  | .float x => 6 :: littleEndian 4 x.bits.toNat
  | .double x => 7 :: littleEndian 8 x.bits.toNat
  | .decimal s => 8 :: textFeed s
  | .text s => 9 :: textFeed s
  | .bytes data => 10 :: bytesFeed data
  | .date days => 11 :: littleEndian 4 days.toUInt32.toNat
  | .time micros => 12 :: littleEndian 8 micros.toUInt64.toNat
  | .timestamp micros => 13 :: littleEndian 8 micros.toUInt64.toNat
  | .timestampTz micros => 14 :: littleEndian 8 micros.toUInt64.toNat
  | .uuid data => 15 :: bytesFeed data.toList
  | .json document => 16 :: textFeed document.print
  | .array items => 17 :: (lengthFeed items.length ++ hashFeeds items)

def hashFeeds : List Value → List UInt8
  | [] => []
  | item :: rest => item.hashFeed ++ hashFeeds rest

end

/-- Columns of a key are preceded by their number. -/
def columnsFeed (columns : List Value) : List UInt8 := lengthFeed columns.length ++ hashFeeds columns

end Value

end UnitOfWork
