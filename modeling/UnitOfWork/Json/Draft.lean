import UnitOfWork.Json.Basic

/-! Documents as written. A part can follow the grammar and still stand for nothing: a number too large
for a double, half of a surrogate pair, nesting beyond the limit. Such a part is a hole in the draft. It is
refused by whoever needs the part, so the members that a reader skips may hold anything. The main statement
is that a document, taken as a draft, has no hole and stands for itself. -/

namespace UnitOfWork

inductive Draft where
  | null
  | bool (value : Bool)
  | integer (value : Int)
  | real (value : FiniteDouble)
  | text (value : String)
  | array (items : List Draft)
  | object (members : List (String × Draft))
  /-- A part that stands for nothing. -/
  | hole
deriving Inhabited

namespace Draft

mutual

def json? : Draft → Option Json
  | .null => some .null
  | .bool b => some (.bool b)
  | .integer n => some (.integer n)
  | .real x => some (.real x)
  | .text s => some (.text s)
  | .array items => return .array (← items? items)
  | .object members => return .object (← members? members)
  | .hole => none

def items? : List Draft → Option (List Json)
  | [] => some []
  | item :: rest => return (← item.json?) :: (← items? rest)

def members? : List (String × Draft) → Option (List (String × Json))
  | [] => some []
  | (name, value) :: rest => return (name, ← value.json?) :: (← members? rest)

end

mutual

def ofJson : Json → Draft
  | .null => .null
  | .bool b => .bool b
  | .integer n => .integer n
  | .real x => .real x
  | .text s => .text s
  | .array items => .array (ofItems items)
  | .object members => .object (ofMembers members)

def ofItems : List Json → List Draft
  | [] => []
  | item :: rest => ofJson item :: ofItems rest

def ofMembers : List (String × Json) → List (String × Draft)
  | [] => []
  | (name, value) :: rest => (name, ofJson value) :: ofMembers rest

end

instance : Coe Json Draft := ⟨ofJson⟩

mutual

@[simp] theorem json?_ofJson : ∀ document : Json, (ofJson document).json? = some document
  | .null | .bool _ | .integer _ | .real _ | .text _ => by simp [ofJson, json?]
  | .array items => by simp [ofJson, json?, items?_ofItems items]
  | .object members => by simp [ofJson, json?, members?_ofMembers members]

@[simp] theorem items?_ofItems : ∀ items : List Json, items? (ofItems items) = some items
  | [] => by simp [ofItems, items?]
  | item :: rest => by simp [ofItems, items?, json?_ofJson item, items?_ofItems rest]

@[simp] theorem members?_ofMembers : ∀ members : List (String × Json), members? (ofMembers members) = some members
  | [] => by simp [ofMembers, members?]
  | (name, value) :: rest => by
    simp [ofMembers, members?, json?_ofJson value, members?_ofMembers rest]

end

end Draft

end UnitOfWork
