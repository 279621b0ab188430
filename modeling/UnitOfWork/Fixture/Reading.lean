import UnitOfWork.Json.Basic

/-! Fixtures: documents in which values, instances and models are written down by hand, to set up a
session and to show what it holds. They are shorter than stored forms, which name every column type. This
module holds the ways to read the parts of such a document. -/

namespace UnitOfWork

namespace Fixture

inductive Fault where
  | missing (member : String)
  | expected (what : String)
  | unbound (name : String)
deriving DecidableEq

def Fault.message : Fault → String
  | .missing member => s!"missing {member}"
  | .expected what => s!"{what} expected"
  | .unbound name => s!"no instance {name}"

abbrev Reading := Except Fault

def text : Json → Reading String
  | .text s => .ok s
  | _ => .error (.expected "text")

def integer : Json → Reading Int
  | .integer n => .ok n
  | _ => .error (.expected "whole number")

def nat (document : Json) : Reading Nat := return (← integer document).toNat

def truth : Json → Reading Bool
  | .bool b => .ok b
  | _ => .error (.expected "truth value")

def items : Json → Reading (List Json)
  | .array items => .ok items
  | _ => .error (.expected "list")

def list {α : Type} (read : Json → Reading α) (document : Json) : Reading (List α) := do
  (← items document).mapM read

def optional {α : Type} (read : Json → Reading α) : Json → Reading (Option α)
  | .null => .ok none
  | document => some <$> read document

def oneOf {α : Type} (table : List (String × α)) (document : Json) : Reading α := do
  match table.lookup (← text document) with
  | some found => return found
  | none => .error (.expected "name")

end Fixture

namespace Json

open Fixture

def has (document : Json) (name : String) : Bool := (document.member? name).isSome

def get {α : Type} (document : Json) (name : String) (read : Json → Reading α) : Reading α :=
  match document.member? name with
  | some value => read value
  | none => .error (.missing name)

def get? {α : Type} (document : Json) (name : String) (read : Json → Reading α) : Reading (Option α) :=
  optional read ((document.member? name).getD .null)

def getD {α : Type} (document : Json) (name : String) (read : Json → Reading α) (otherwise : α) :
    Reading α := return (← document.get? name read).getD otherwise

def getList {α : Type} (document : Json) (name : String) (read : Json → Reading α) : Reading (List α) :=
  document.getD name (list read) []

/-- Something is off unless it is said to be on. -/
def flag (document : Json) (name : String) : Reading Bool := document.getD name truth false

def ofNat (n : Nat) : Json := .integer n

def ofOption {α : Type} (write : α → Json) : Option α → Json
  | some value => write value
  | none => .null

def ofList {α : Type} (write : α → Json) (values : List α) : Json := .array (values.map write)

end Json

end UnitOfWork
