import UnitOfWork.Cache.Encoding
import UnitOfWork.Metamodel.Descriptor

/-! Cache entries written out by attribute name, for regions that other programs read. -/

namespace UnitOfWork

namespace CachedValue

mutual

def document : CachedValue → Json
  | .null => .null
  | .basic value => value.encode
  | .embedded children => .array (documents children)
  | .reference entity id => .object [("entity", .text entity), ("id", id.encode)]
  | .unfetched => .text "<unfetched>"

def documents : List CachedValue → List Json
  | [] => []
  | value :: rest => value.document :: documents rest

end

end CachedValue

namespace CacheEntry

/-- An embedded attribute names its children; those nested deeper are listed in order. -/
def attributeDocument (a : Attribute) (value : CachedValue) : Json :=
  match a.kind, value with
  | .embedded _ children, .embedded values =>
    .ofMembers ((children.map Attribute.name).zip (CachedValue.documents values))
  | _, value => value.document

/-- The subclass and, if there is one, the version come first; an attribute of the same name takes their
place. -/
def structured (entry : CacheEntry) (d : Descriptor) : Json :=
  let version := match entry.version with
    | some version => [("_version", version.encode)]
    | none => []
  .ofMembers (("_subclass", .text entry.subclass) :: version ++
    List.zipWith (fun a value => (a.name, attributeDocument a value)) d.attributes entry.state)

end CacheEntry

end UnitOfWork
