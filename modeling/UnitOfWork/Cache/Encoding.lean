import UnitOfWork.Cache.Entry
import UnitOfWork.Value.Encoding

/-! The stored form of what the second-level cache holds. -/

namespace UnitOfWork

namespace CacheMode

def encode (mode : CacheMode) : Json := .text mode.name

def ofName? (name : String) : Option CacheMode := all.find? fun mode => mode.name == name

def decode : Draft → Except Error CacheMode
  | .text name | .object [(name, .null)] =>
    match ofName? name with
    | some mode => .ok mode
    | none => Decode.fail "a cache mode"
  | _ => Decode.fail "a cache mode"

end CacheMode

namespace CacheKey

def encodeTenant : Option String → Json
  | some tenant => .text tenant
  | none => .null

def encode (key : CacheKey) : Json :=
  .object [("id", key.id.encode), ("entity_name", .text key.entity), ("tenant_id", encodeTenant key.tenant)]

def decode (draft : Draft) : Except Error CacheKey := do
  match ← Decode.fields "a cache key" ["id", "entity_name", "tenant_id"] draft with
  | [id, entity, tenant] =>
    return ⟨← Identifier.decode (← Decode.required "an identifier" id),
      ← Decode.text (← Decode.required "an entity name" entity), ← Decode.optional Decode.text tenant⟩
  | _ => Decode.fail "a cache key"

end CacheKey

namespace CachedValue

mutual

def encode : CachedValue → Json
  | .null => .text "Null"
  | .basic value => .tagged "Basic" value.encode
  | .embedded children => .tagged "Embedded" (.array (encodeAll children))
  | .reference entity id => .tagged "Reference" (EntityKey.encode ⟨entity, id⟩)
  | .unfetched => .text "Unfetched"

def encodeAll : List CachedValue → List Json
  | [] => []
  | value :: rest => value.encode :: encodeAll rest

end

def decodeLeaf (tag : String) (payload : Draft) : Except Error CachedValue :=
  match tag with
  | "Null" => match payload with
    | .null => .ok .null
    | _ => Decode.fail "null"
  | "Unfetched" => match payload with
    | .null => .ok .unfetched
    | _ => Decode.fail "null"
  | "Basic" => return .basic (← Value.decode payload)
  | "Reference" => return match ← EntityKey.decode payload with
    | key => .reference key.entity key.id
  | _ => Decode.fail "a cached value"

mutual

def decode : Draft → Except Error CachedValue
  | .text tag =>
    if tag = "Null" then .ok .null
    else if tag = "Unfetched" then .ok .unfetched
    else Decode.fail "a cached value"
  | .object [(tag, .array items)] =>
    if tag = "Embedded" then .embedded <$> decodeAll items else decodeLeaf tag (.array items)
  | .object [(tag, payload)] => decodeLeaf tag payload
  | _ => Decode.fail "a cached value"

def decodeAll : List Draft → Except Error (List CachedValue)
  | [] => .ok []
  | item :: rest => do
    let value ← decode item
    let values ← decodeAll rest
    return value :: values

end

end CachedValue

namespace CacheEntry

def encodeVersion : Option Value → Json
  | some version => version.encode
  | none => .null

def encode (entry : CacheEntry) : Json :=
  .object [("subclass", .text entry.subclass), ("version", encodeVersion entry.version),
    ("state", .array (CachedValue.encodeAll entry.state))]

def decodeState : Draft → Except Error (List CachedValue)
  | .array items => CachedValue.decodeAll items
  | _ => Decode.fail "a state"

def decode (draft : Draft) : Except Error CacheEntry := do
  match ← Decode.fields "a cache entry" ["subclass", "version", "state"] draft with
  | [subclass, version, state] =>
    return ⟨← Decode.text (← Decode.required "a subclass" subclass), ← Decode.optional Value.decode version,
      ← decodeState (← Decode.required "a state" state)⟩
  | _ => Decode.fail "a cache entry"

end CacheEntry

namespace CacheValue

def encode : CacheValue → Json
  | .entry held => .object [("Entry", held.encode)]
  | .structured document => .object [("Structured", document)]

def decode : Draft → Except Error CacheValue
  | .object [("Entry", payload)] => .entry <$> CacheEntry.decode payload
  | .object [("Structured", payload)] => .structured <$> Decode.document payload
  | _ => Decode.fail "a cache value"

end CacheValue

end UnitOfWork
