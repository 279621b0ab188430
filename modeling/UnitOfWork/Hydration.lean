import UnitOfWork.Metamodel.Descriptor
import UnitOfWork.Row

/-! From columns to attribute values. Identifier columns come first, then the columns of each attribute in
order. Keys stay unresolved; a key whose columns are all null is no reference. -/

namespace UnitOfWork

namespace AttributeValue

def ofKeyColumns (columns : List Value) : AttributeValue :=
  if columns.all Value.isNull then .null else .foreignKey (.ofColumns columns)

def ofColumns : List Value → AttributeValue
  | [] => .null
  | [column] => .ofValue column
  | columns => .basic (.array columns)

/-- The columns of a polymorphic reference: the name of the target entity and its identifier. -/
def ofDiscriminated : List Value → Except HydrationFault AttributeValue
  | [] => .error .missingDiscriminator
  | discriminator :: id =>
    if id.all Value.isNull then .ok .null
    else match discriminator with
      | .text entity => .ok (.anyKey entity (.ofColumns id))
      | other => .error (.discriminatorType other.typeName)

end AttributeValue

namespace Descriptor

mutual

/-- `id` is the identifier of the row, which is also the key of a shared primary key. -/
def hydrateAttribute (d : Descriptor) (id : Identifier) : Attribute → List Value → Except Error AttributeValue
  | .mk name kind storage, columns =>
    if storage.lazy then .ok .unfetched
    else match kind with
      | .basic => .ok (.ofColumns columns)
      | .manyToOne _ => .ok (.ofKeyColumns columns)
      | .oneToOne _ => .ok (if columns.isEmpty then .foreignKey id else .ofKeyColumns columns)
      | .any =>
        match AttributeValue.ofDiscriminated columns with
        | .ok value => .ok value
        | .error fault => .error (.hydration d.name name fault)
      | .embedded _ children =>
        match hydrateChildren d id name children columns with
        | .ok values => .ok (if values.all AttributeValue.isNull then .null else .embedded values)
        | .error e => .error e

/-- `owner` names the embedded attribute in errors. -/
def hydrateChildren (d : Descriptor) (id : Identifier) (owner : String) :
    List Attribute → List Value → Except Error (List AttributeValue)
  | [], _ => .ok []
  | a :: rest, columns =>
    if columns.length < a.columns then .error (.hydration d.name (owner ++ "." ++ a.name) .embeddedTooWide)
    else do
      let value ← hydrateAttribute d id a (columns.take a.columns)
      let values ← hydrateChildren d id owner rest (columns.drop a.columns)
      return value :: values

end

def shortRow (d : Descriptor) (row : Row) (name : String) : Error :=
  .hydration d.name name (.shortRow row.size d.columns)

def hydrateState (d : Descriptor) (row : Row) (id : Identifier) :
    List Attribute → List Value → Except Error (List AttributeValue)
  | [], _ => .ok []
  | a :: rest, columns =>
    if columns.length < a.columns then .error (d.shortRow row a.name)
    else do
      let value ← d.hydrateAttribute id a (columns.take a.columns)
      let values ← d.hydrateState row id rest (columns.drop a.columns)
      return value :: values

/-- The key of a row and the values of its attributes. Columns beyond the last attribute are ignored. -/
def hydrateRow (d : Descriptor) (row : Row) : Except Error (EntityKey × List AttributeValue) :=
  match row.slice? 0 d.identifier.columns with
  | none => .error (d.shortRow row d.identifier.name)
  | some columns =>
    let id := Identifier.ofColumns columns
    if id.isNull then .error (.hydration d.name d.identifier.name .nullIdentifier)
    else do
      let state ← d.hydrateState row id d.attributes (row.values.drop d.identifier.columns)
      return (d.keyFor id, state)

end Descriptor

end UnitOfWork
