import UnitOfWork.Number.Binary

/-! Documents. Whole numbers and numbers with a fraction are different kinds of number, whatever their
size. A document as read keeps its members in the order of the text, repeated names included; its
canonical form has each name once, in order. -/

namespace UnitOfWork

inductive Json where
  | null
  | bool (value : Bool)
  | integer (value : Int)
  | real (value : FiniteDouble)
  | text (value : String)
  | array (items : List Json)
  | object (members : List (String × Json))
deriving Inhabited

namespace Json

mutual

/-- Numbers with a fraction compare by value, so the two zeros are equal. -/
def equal : Json → Json → Bool
  | .null, .null => true
  | .bool a, .bool b => a == b
  | .integer a, .integer b => a == b
  | .real a, .real b => a.number.equal b.number
  | .text a, .text b => a == b
  | .array a, .array b => equalItems a b
  | .object a, .object b => equalMembers a b
  | _, _ => false

def equalItems : List Json → List Json → Bool
  | [], [] => true
  | a :: as, b :: bs => a.equal b && equalItems as bs
  | _, _ => false

def equalMembers : List (String × Json) → List (String × Json) → Bool
  | [], [] => true
  | (name, a) :: as, (other, b) :: bs => name == other && a.equal b && equalMembers as bs
  | _, _ => false

end

/-- Keeps members in order of their names; a name already present gets the new value. -/
def insertMember (name : String) (value : Json) : List (String × Json) → List (String × Json)
  | [] => [(name, value)]
  | (other, held) :: rest =>
    if name < other then (name, value) :: (other, held) :: rest
    else if name = other then (name, value) :: rest
    else (other, held) :: insertMember name value rest

def ofMembers (members : List (String × Json)) : Json :=
  .object (members.foldl (fun sorted member => insertMember member.1 member.2 sorted) [])

mutual

/-- Of members with one name the last is kept. -/
def canonical : Json → Json
  | .array items => .array (canonicalItems items)
  | .object members => .ofMembers (canonicalMembers members)
  | other => other

def canonicalItems : List Json → List Json
  | [] => []
  | item :: rest => item.canonical :: canonicalItems rest

def canonicalMembers : List (String × Json) → List (String × Json)
  | [] => []
  | (name, value) :: rest => (name, value.canonical) :: canonicalMembers rest

end

def tagged (tag : String) (value : Json) : Json := .object [(tag, value)]

def member? (document : Json) (name : String) : Option Json :=
  match document with
  | .object members => (members.reverse.find? fun member => member.1 == name).map (·.2)
  | _ => none

end Json

end UnitOfWork
