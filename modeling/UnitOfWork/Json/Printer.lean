import UnitOfWork.Json.Basic
import UnitOfWork.Number.Decimal
import UnitOfWork.Number.Hex

/-! The compact text of a document: no blanks, members in the order they are held. -/

namespace UnitOfWork.Json

/-- Quotes, backslashes and control characters are escaped; everything else stands for itself. -/
def escape (c : Char) : String :=
  if c = '"' then "\\\""
  else if c = '\\' then "\\\\"
  else if c = '\n' then "\\n"
  else if c = '\r' then "\\r"
  else if c = '\t' then "\\t"
  else if c.toNat = 8 then "\\b"
  else if c.toNat = 12 then "\\f"
  else if c.toNat < 32 then "\\u" ++ Hex.text 4 c.toNat
  else c.toString

def quote (s : String) : String :=
  s.toList.foldl (fun out c => out ++ escape c) "\"" ++ "\""

mutual

def print : Json → String
  | .null => "null"
  | .bool value => if value then "true" else "false"
  | .integer value => toString value
  | .real value => value.number.documentText
  | .text value => quote value
  | .array items => "[" ++ printItems items ++ "]"
  | .object members => "\x7b" ++ printMembers members ++ "\x7d"

def printItems : List Json → String
  | [] => ""
  | [item] => item.print
  | item :: rest => item.print ++ "," ++ printItems rest

def printMembers : List (String × Json) → String
  | [] => ""
  | [(name, value)] => quote name ++ ":" ++ value.print
  | (name, value) :: rest => quote name ++ ":" ++ value.print ++ "," ++ printMembers rest

end

end UnitOfWork.Json
