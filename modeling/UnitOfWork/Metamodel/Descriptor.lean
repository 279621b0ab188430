import UnitOfWork.Error
import UnitOfWork.Journal
import UnitOfWork.Metamodel.Attribute

/-! Entity types: their identifier, attributes, version, natural id, mutability and caching. -/

namespace UnitOfWork

inductive Generator where
  /-- The application. -/
  | assigned
  /-- The insert itself, so it has to run early. -/
  | identity
  /-- Something that runs before the insert. -/
  | sequence
deriving DecidableEq, Inhabited

/-- How an identifier shows that its instance was never saved. -/
inductive UnsavedValue where
  | null
  /-- The identifier says nothing. -/
  | undefined
  | any
  | never
  | exact (id : Identifier)
deriving Inhabited

/-- `none` when the identifier leaves the question open. -/
def UnsavedValue.isUnsaved (unsaved : UnsavedValue) (id : Option Identifier) : Option Bool :=
  match unsaved with
  | .null => some (id.all Identifier.isNull)
  | .undefined => none
  | .any => some true
  | .never => some false
  | .exact expected => some (id.any (· == expected))

def Generator.unsaved : Generator → UnsavedValue
  | .assigned => .undefined
  | .identity | .sequence => .null

structure IdentifierMapping where
  name : String
  columns : Nat := 1
  generator : Generator := .sequence
  unsaved : UnsavedValue := generator.unsaved
deriving Inhabited

/-- Application code that runs once an instance is initialized. It may give instances new contents. -/
structure Hook where
  run : Journal → Handle → Heap → List (Handle × Instance)

structure Descriptor where
  name : String
  /-- The root of the hierarchy, whose name is that of the key space. -/
  rootName : String := name
  identifier : IdentifierMapping
  attributes : List Attribute := []
  versionAttribute : Option String := none
  naturalId : Option (List String) := none
  isMutable : Bool := true
  cacheRegion : Option String := none
  afterInitialize : Option Hook := none
deriving Inhabited

namespace Descriptor

def attributeNames (d : Descriptor) : List String := d.attributes.map Attribute.name

def attributeIndex? (d : Descriptor) (name : String) : Option Nat :=
  d.attributes.findIdx? fun a => a.name == name

def versionIndex? (d : Descriptor) : Option Nat := d.versionAttribute >>= d.attributeIndex?

def isVersioned (d : Descriptor) : Bool := d.versionIndex?.isSome

/-- Names that are no attributes are passed over. -/
def naturalIdIndices? (d : Descriptor) : Option (List Nat) :=
  d.naturalId.map fun names => names.filterMap d.attributeIndex?

def keyFor (d : Descriptor) (id : Identifier) : EntityKey := ⟨d.rootName, id⟩

def columns (d : Descriptor) : Nat := d.identifier.columns + columnCount d.attributes

/-- The version within a state; an attribute that holds no column value counts as null. -/
def versionOf (d : Descriptor) (state : List AttributeValue) : Option Value := do
  match ← state[← d.versionIndex?]? with
  | .basic value => some value
  | _ => some .null

def instantiate (d : Descriptor) (id : Option Identifier) : Instance :=
  { Instance.empty d.name d.attributes.length with id }

/-- What identifier and version say about an instance; `none` when they leave it open. -/
def isTransient (d : Descriptor) (x : Instance) : Option Bool :=
  match x.id with
  | none => some true
  | some id =>
    if id.isNull then some true
    else if d.isVersioned && (d.versionOf x.values).all Value.isNull then some true
    else d.identifier.unsaved.isUnsaved (some id)

end Descriptor

structure Metamodel where
  descriptors : List Descriptor := []
deriving Inhabited

namespace Metamodel

def add (model : Metamodel) (d : Descriptor) : Metamodel :=
  ⟨model.descriptors.filter (fun other => other.name != d.name) ++ [d]⟩

def ofList (descriptors : List Descriptor) : Metamodel := descriptors.foldl add {}

def size (model : Metamodel) : Nat := model.descriptors.length

def find? (model : Metamodel) (name : String) : Option Descriptor :=
  model.descriptors.find? fun d => d.name == name

def descriptor (model : Metamodel) (name : String) : Except Error Descriptor :=
  match model.find? name with
  | some d => .ok d
  | none => .error (.unknownEntity name)

end Metamodel

end UnitOfWork
