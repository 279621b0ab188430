/-! Persistent attributes: how each is classified and which columns of a row it takes. -/

namespace UnitOfWork

structure Storage where
  nullable : Bool := true
  /-- Whether it takes part in updates, and so in dirty checking. -/
  updatable : Bool := true
  lazy : Bool := false
  columns : Nat
deriving DecidableEq, Inhabited

mutual

inductive AttributeKind where
  | basic
  | embedded (typeName : String) (children : List Attribute)
  /-- An association whose foreign key is on this side. -/
  | manyToOne (target : String)
  /-- An association whose foreign key is on the other side or is the shared primary key. -/
  | oneToOne (target : String)
  | any

inductive Attribute where
  | mk (name : String) (kind : AttributeKind) (storage : Storage)

end

instance : Inhabited AttributeKind := ⟨.basic⟩

instance : Inhabited Attribute := ⟨.mk "" .basic { columns := 1 }⟩

namespace AttributeKind

def isAssociation : AttributeKind → Bool
  | .manyToOne _ | .oneToOne _ | .any => true
  | .basic | .embedded _ _ => false

def target? : AttributeKind → Option String
  | .manyToOne target | .oneToOne target => some target
  | _ => none

def classification : AttributeKind → String
  | .basic => "BASIC"
  | .embedded _ _ => "EMBEDDED"
  | .manyToOne _ => "MANY_TO_ONE"
  | .oneToOne _ => "ONE_TO_ONE"
  | .any => "ANY"

def children : AttributeKind → List Attribute
  | .embedded _ children => children
  | _ => []

end AttributeKind

namespace Attribute

def name : Attribute → String
  | .mk name _ _ => name

def kind : Attribute → AttributeKind
  | .mk _ kind _ => kind

def storage : Attribute → Storage
  | .mk _ _ storage => storage

def nullable (a : Attribute) : Bool := a.storage.nullable

def updatable (a : Attribute) : Bool := a.storage.updatable

def lazy (a : Attribute) : Bool := a.storage.lazy

def columns (a : Attribute) : Nat := if a.lazy then 0 else a.storage.columns

end Attribute

def columnCount : List Attribute → Nat
  | [] => 0
  | a :: rest => a.columns + columnCount rest

namespace Attribute

def basic (name : String) : Attribute := .mk name .basic { columns := 1 }

def manyToOne (name target : String) : Attribute := .mk name (.manyToOne target) { columns := 1 }

/-- Shares its owner's primary key and so reads no columns of its own. -/
def oneToOne (name target : String) : Attribute := .mk name (.oneToOne target) { columns := 0 }

def any (name : String) : Attribute := .mk name .any { columns := 2 }

def embedded (name typeName : String) (children : List Attribute) : Attribute :=
  .mk name (.embedded typeName children) { columns := columnCount children }

def withStorage (a : Attribute) (change : Storage → Storage) : Attribute :=
  .mk a.name a.kind (change a.storage)

end Attribute

end UnitOfWork
