/-! Hexadecimal text. Digits are written in lower case and read in either. -/

namespace UnitOfWork.Hex

def digit? (c : Char) : Option Nat :=
  if '0' ≤ c ∧ c ≤ '9' then some (c.toNat - '0'.toNat)
  else if 'a' ≤ c ∧ c ≤ 'f' then some (c.toNat - 'a'.toNat + 10)
  else if 'A' ≤ c ∧ c ≤ 'F' then some (c.toNat - 'A'.toNat + 10)
  else none

/-- The last digits of a number, the highest first. -/
def digits : Nat → Nat → List Char
  | 0, _ => []
  | count + 1, n => digits count (n / 16) ++ [Nat.digitChar (n % 16)]

def text (count n : Nat) : String := String.ofList (digits count n)

def ofBytes (data : List UInt8) : String := String.join (data.map fun byte => text 2 byte.toNat)

def number (chars : List Char) : Option Nat :=
  chars.foldlM (fun n c => (digit? c).map fun d => n * 16 + d) 0

def number? (s : String) : Option Nat := number s.toList

def bytes : List Char → Option (List UInt8)
  | [] => some []
  | high :: low :: rest => do
    let byte ← number [high, low]
    let others ← bytes rest
    return UInt8.ofNat byte :: others
  | [_] => none

def bytes? (s : String) : Option (List UInt8) := bytes s.toList

end UnitOfWork.Hex
