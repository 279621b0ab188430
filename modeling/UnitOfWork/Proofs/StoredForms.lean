import UnitOfWork.Cache.Encoding
import UnitOfWork.Proofs.CanonicalDocuments
import UnitOfWork.Proofs.ExactNumbers

/-! What is stored is read back as it was, bit by bit, unless it holds a floating point number that is not finite. Such a
number has no stored form, and reading is refused then. Documents are stored as they are and read in canonical form. -/

namespace UnitOfWork

namespace Json

theorem canonical_tagged (tag : String) (value : Json) : (tagged tag value).canonical = tagged tag value.canonical := by
  rw [tagged, canonical, canonicalMembers, canonicalMembers]
  rfl

theorem canonical_encode (x : Double) : x.encode.canonical = x.encode := by
  unfold Double.encode
  split <;> rfl

theorem canonical_ofBytes (data : List UInt8) : (ofBytes data).canonical = ofBytes data := by
  rw [ofBytes, canonical]
  congr 1
  induction data with
  | nil => rfl
  | cons byte rest ih =>
    rw [List.map_cons, canonicalItems, ih]
    rfl

end Json

theorem Draft.ofMembers_eq_map (members : List (String × Json)) :
    Draft.ofMembers members = members.map fun member => (member.1, Draft.ofJson member.2) := by
  induction members with
  | nil => rfl
  | cons member rest ih => rw [Draft.ofMembers, ih, List.map_cons]

namespace Decode

/-- Fields are read by their names, in whatever order the members stand. -/
theorem fields_perm (what : String) (names : List String) {members others : List (String × Draft)}
    (reordered : members.Perm others) (distinct : (others.map (·.1)).Nodup) :
    fields what names (.object members) = fields what names (.object others) := by
  have same (name : String) : members.filter (fun member => member.1 == name) =
      others.filter fun member => member.1 == name := by
    have perm := reordered.filter fun member => member.1 == name
    have named := fun member (kept : member ∈ others.filter fun member => member.1 == name) =>
      beq_iff_eq.mp (List.mem_filter.mp kept).2
    have apart := distinct.sublist (List.filter_sublist (p := fun member => member.1 == name).map _)
    generalize others.filter (fun member => member.1 == name) = found at perm named apart
    match found with
    | [] => exact perm.eq_nil
    | [member] => exact List.perm_singleton.mp perm
    | member :: other :: rest =>
      have both : member.1 = other.1 := (named member (by simp)).trans (named other (by simp)).symm
      simp [both] at apart
  rw [fields, fields]
  simp only [same]

theorem optional_some {α : Type} {read : Draft → Except Error α} {draft : Draft} (present : draft ≠ .null) :
    optional read (some draft) = some <$> read draft := by
  cases draft with
  | null => exact absurd rfl present
  | _ => rfl

theorem fields_sorted (what : String) (names : List String) {members : List (String × Json)}
    (distinct : (members.map (·.1)).Nodup) :
    fields what names (Draft.ofJson (.ofMembers members)) = fields what names (Draft.ofJson (.object members)) := by
  rw [Json.ofMembers_eq, Draft.ofJson, Draft.ofJson, Draft.ofMembers_eq_map, Draft.ofMembers_eq_map]
  refine fields_perm what names ((Json.insertAll_perm [] members distinct).map _) ?_
  rw [List.map_map]
  exact distinct

/-- Reading back a value, which is refused if a number in it is not finite. -/
def readBack {α : Type} (finite : Bool) (value : α) : Except Error α := if finite then .ok value else fail "a number"

variable {α β : Type} (finite : Bool) (value : α)

@[simp] theorem readBack_true : readBack true value = .ok value := rfl

@[simp] theorem readBack_false : readBack false value = fail "a number" := rfl

@[simp] theorem map_readBack (change : α → β) : change <$> readBack finite value = readBack finite (change value) := by
  cases finite <;> rfl

@[simp] theorem readBack_bind_pure (build : α → β) :
    (readBack finite value >>= fun value => pure (build value)) = readBack finite (build value) := by
  cases finite <;> rfl

theorem readBack_bind {next : α → Except Error β} {rest : Bool} {result : β} (read : next value = readBack rest result) :
    readBack finite value >>= next = readBack (finite && rest) result := by
  cases finite with
  | true => exact read
  | false => rfl

end Decode

open Decode

namespace Value

mutual

/-- Whether all floating point numbers in the value are finite. -/
def isFinite : Value → Bool
  | .float x => x.isFinite
  | .double x => x.isFinite
  | .array items => allFinite items
  | _ => true

def allFinite : List Value → Bool
  | [] => true
  | item :: rest => item.isFinite && allFinite rest

end

mutual

/-- The value with its documents in canonical form. -/
def canonical : Value → Value
  | .json document => .json document.canonical
  | .array items => .array (canonicalItems items)
  | other => other

def canonicalItems : List Value → List Value
  | [] => []
  | item :: rest => item.canonical :: canonicalItems rest

end

theorem decodeInt_of_bounds {width : Nat} {n : Int} (least : -(Nat.pow 2 (width - 1) : Int) ≤ n)
    (most : n < Nat.pow 2 (width - 1)) : decodeInt width (.integer n) = .ok n :=
  if_pos ⟨least, Int.le_sub_one_of_lt most⟩

theorem decodeInt_toInt8 (n : Int8) : decodeInt 8 (.integer n.toInt) = .ok n.toInt :=
  decodeInt_of_bounds n.le_toInt n.toInt_lt

theorem decodeInt_toInt16 (n : Int16) : decodeInt 16 (.integer n.toInt) = .ok n.toInt :=
  decodeInt_of_bounds n.le_toInt n.toInt_lt

theorem decodeInt_toInt32 (n : Int32) : decodeInt 32 (.integer n.toInt) = .ok n.toInt :=
  decodeInt_of_bounds n.le_toInt n.toInt_lt

theorem decodeInt64_toInt (n : Int64) : decodeInt64 (.integer n.toInt) = .ok n := by
  rw [decodeInt64, decodeInt_of_bounds n.le_toInt n.toInt_lt]
  exact congrArg Except.ok n.ofInt_toInt

theorem decodeSingle_encode (x : Single) : Value.decodeSingle (Draft.ofJson x.widen.encode) = readBack x.isFinite x := by
  unfold Double.encode
  rw [← x.isFinite_widen]
  split
  next finite =>
    rw [finite]
    exact congrArg Except.ok (Single.narrow_widen (x.isFinite_widen ▸ finite))
  next infinite =>
    rw [Bool.eq_false_iff.mpr infinite]
    rfl

theorem decodeDouble_encode (x : Double) : Value.decodeDouble (Draft.ofJson x.encode) = readBack x.isFinite x := by
  unfold Double.encode
  split
  next finite =>
    rw [finite]
    rfl
  next infinite =>
    rw [Bool.eq_false_iff.mpr infinite]
    rfl

theorem byte_toNat (byte : UInt8) : Decode.byte (.integer byte.toNat) = .ok byte := by
  have bound := byte.toNat_lt
  have read : Decode.integer 0 255 (.integer byte.toNat) = .ok (byte.toNat : Int) := if_pos (by omega)
  rw [Decode.byte, read]
  exact congrArg Except.ok (UInt8.ofNat_toNat)

theorem bytes_ofBytes (data : List UInt8) : Decode.bytes (Draft.ofJson (Json.ofBytes data)) = .ok data := by
  rw [Json.ofBytes, Draft.ofJson, Decode.bytes]
  induction data with
  | nil => rfl
  | cons byte rest ih =>
    rw [List.map_cons, Draft.ofItems, List.mapM_cons, ih, Draft.ofJson, byte_toNat]
    rfl

theorem decodeUuid_ofBytes (data : Vector UInt8 16) : decodeUuid (Draft.ofJson (Json.ofBytes data.toList)) = .ok data := by
  obtain ⟨items, size⟩ := data
  have whole : items.toList.toArray.size = 16 := by rw [Array.toArray_toList]; exact size
  rw [decodeUuid, bytes_ofBytes]
  exact dif_pos whole

theorem document_ofJson (document : Json) : Decode.document (Draft.ofJson document) = .ok document.canonical := by
  rw [Decode.document, Draft.json?_ofJson]

theorem decode_tagged {tag : String} (scalar : tag ≠ "Array") (payload : Draft) :
    decode (.object [(tag, payload)]) = decodeScalar tag payload := by
  cases payload <;> simp [decode, scalar]

theorem decode_tagged_ofJson {tag : String} (scalar : tag ≠ "Array") (payload : Json) :
    decode (Draft.ofJson (.tagged tag payload)) = decodeScalar tag (Draft.ofJson payload) :=
  decode_tagged scalar _

mutual

/-- A value whose numbers are finite is read back with its documents in canonical form. -/
theorem decode_encode : ∀ value : Value, decode (Draft.ofJson value.encode) = readBack value.isFinite value.canonical
  | .null => by simp [encode, Draft.ofJson, decode, isFinite, canonical]
  | .bool b => decode_tagged_ofJson (by decide) _
  | .tinyInt n => by
    rw [encode, decode_tagged_ofJson (by decide), Draft.ofJson, decodeScalar, decodeInt_toInt8]
    exact congrArg (fun n => Except.ok (tinyInt n)) n.ofInt_toInt
  | .smallInt n => by
    rw [encode, decode_tagged_ofJson (by decide), Draft.ofJson, decodeScalar, decodeInt_toInt16]
    exact congrArg (fun n => Except.ok (smallInt n)) n.ofInt_toInt
  | .int n => by
    rw [encode, decode_tagged_ofJson (by decide), Draft.ofJson, decodeScalar, decodeInt_toInt32]
    exact congrArg (fun n => Except.ok (int n)) n.ofInt_toInt
  | .date n => by
    rw [encode, decode_tagged_ofJson (by decide), Draft.ofJson, decodeScalar, decodeInt_toInt32]
    exact congrArg (fun n => Except.ok (date n)) n.ofInt_toInt
  | .bigInt n | .time n | .timestamp n | .timestampTz n => by
    rw [encode, decode_tagged_ofJson (by decide), Draft.ofJson, decodeScalar, decodeInt64_toInt]
    rfl
  | .float x => by
    rw [encode, decode_tagged_ofJson (by decide), decodeScalar, decodeSingle_encode]
    exact readBack_bind_pure _ _ _
  | .double x => by
    rw [encode, decode_tagged_ofJson (by decide), decodeScalar, decodeDouble_encode]
    exact readBack_bind_pure _ _ _
  | .decimal s | .text s => decode_tagged_ofJson (by decide) _
  | .bytes data => by
    rw [encode, decode_tagged_ofJson (by decide), decodeScalar, bytes_ofBytes]
    rfl
  | .uuid data => by
    rw [encode, decode_tagged_ofJson (by decide), decodeScalar, decodeUuid_ofBytes]
    rfl
  | .json document => by
    rw [encode, decode_tagged_ofJson (by decide), decodeScalar, document_ofJson]
    rfl
  | .array items => by
    rw [encode, Json.tagged, Draft.ofJson, Draft.ofMembers, Draft.ofJson, Draft.ofMembers, decode, if_pos rfl,
      decodeAll_encodeAll items, map_readBack]
    rfl

theorem decodeAll_encodeAll : ∀ items : List Value,
    decodeAll (Draft.ofItems (encodeAll items)) = readBack (allFinite items) (canonicalItems items)
  | [] => rfl
  | item :: rest => by
    rw [encodeAll, Draft.ofItems, decodeAll, decode_encode item, decodeAll_encodeAll rest]
    exact readBack_bind _ _ (readBack_bind_pure _ _ _)

end

mutual

theorem canonical_encode : ∀ value : Value, value.encode.canonical = value.canonical.encode
  | .null | .bool _ | .tinyInt _ | .smallInt _ | .int _ | .bigInt _ | .decimal _ | .text _ | .date _ | .time _
  | .timestamp _ | .timestampTz _ => rfl
  | .float x => (Json.canonical_tagged ..).trans (congrArg (Json.tagged "Float") (Json.canonical_encode _))
  | .double x => (Json.canonical_tagged ..).trans (congrArg (Json.tagged "Double") (Json.canonical_encode _))
  | .bytes data => (Json.canonical_tagged ..).trans (congrArg (Json.tagged "Bytes") (Json.canonical_ofBytes _))
  | .uuid data => (Json.canonical_tagged ..).trans (congrArg (Json.tagged "Uuid") (Json.canonical_ofBytes _))
  | .json document => Json.canonical_tagged ..
  | .array items => by
    rw [encode, Json.canonical_tagged, Json.canonical, canonicalItems_encodeAll items]
    rfl

theorem canonicalItems_encodeAll : ∀ items : List Value,
    Json.canonicalItems (encodeAll items) = encodeAll (canonicalItems items)
  | [] => rfl
  | item :: rest => by
    rw [encodeAll, Json.canonicalItems, canonical_encode item, canonicalItems_encodeAll rest]
    rfl

end

mutual

theorem isFinite_canonical : ∀ value : Value, value.canonical.isFinite = value.isFinite
  | .null | .bool _ | .tinyInt _ | .smallInt _ | .int _ | .bigInt _ | .float _ | .double _ | .decimal _ | .text _
  | .bytes _ | .date _ | .time _ | .timestamp _ | .timestampTz _ | .uuid _ | .json _ => rfl
  | .array items => allFinite_canonical items

theorem allFinite_canonical : ∀ items : List Value, allFinite (canonicalItems items) = allFinite items
  | [] => rfl
  | item :: rest => by
    rw [canonicalItems, allFinite, allFinite, isFinite_canonical item, allFinite_canonical rest]

end

mutual

theorem canonical_canonical : ∀ value : Value, value.canonical.canonical = value.canonical
  | .null | .bool _ | .tinyInt _ | .smallInt _ | .int _ | .bigInt _ | .float _ | .double _ | .decimal _ | .text _
  | .bytes _ | .date _ | .time _ | .timestamp _ | .timestampTz _ | .uuid _ => rfl
  | .json document => congrArg json document.canonical_canonical
  | .array items => congrArg array (canonicalItems_canonicalItems items)

theorem canonicalItems_canonicalItems : ∀ items : List Value, canonicalItems (canonicalItems items) = canonicalItems items
  | [] => rfl
  | item :: rest => by
    rw [canonicalItems, canonicalItems, canonical_canonical item, canonicalItems_canonicalItems rest]

end

theorem canonicalItems_eq_map (items : List Value) : canonicalItems items = items.map canonical := by
  induction items with
  | nil => rfl
  | cons item rest ih => rw [canonicalItems, ih, List.map_cons]

theorem widen_canonical (value : Value) : value.canonical.widen = value.widen.canonical := by
  cases value <;> rfl

end Value

namespace Identifier

def isFinite (id : Identifier) : Bool := Value.allFinite id.columns

def canonical (id : Identifier) : Identifier := ofColumns (Value.canonicalItems id.columns)

theorem columns_canonical (id : Identifier) : id.canonical.columns = Value.canonicalItems id.columns := by
  change (Value.canonicalItems id.columns).map Value.widen = _
  rw [Value.canonicalItems_eq_map, List.map_map]
  refine List.map_congr_left fun column member => ?_
  rw [Function.comp_apply, Value.widen_canonical, id.widened column member]

theorem decode_encode (id : Identifier) : decode (Draft.ofJson id.encode) = readBack id.isFinite id.canonical := by
  rw [encode, Draft.ofJson, decode, Value.decodeAll_encodeAll, map_readBack]
  rfl

theorem canonical_encode (id : Identifier) : id.encode.canonical = id.canonical.encode := by
  rw [encode, Json.canonical, Value.canonicalItems_encodeAll, encode, columns_canonical]

theorem isFinite_canonical (id : Identifier) : id.canonical.isFinite = id.isFinite := by
  rw [isFinite, columns_canonical, Value.allFinite_canonical, isFinite]

theorem canonical_canonical (id : Identifier) : id.canonical.canonical = id.canonical := by
  refine ext ?_
  rw [columns_canonical, columns_canonical, Value.canonicalItems_canonicalItems]

end Identifier

namespace EntityKey

def isFinite (key : EntityKey) : Bool := key.id.isFinite

def canonical (key : EntityKey) : EntityKey := { key with id := key.id.canonical }

theorem decode_encode (key : EntityKey) : decode (Draft.ofJson key.encode) = readBack key.isFinite key.canonical := by
  have fields : Decode.fields "an entity key" ["entity_name", "id"] (Draft.ofJson key.encode) =
      .ok [some (.text key.entity), some (Draft.ofJson key.id.encode)] := rfl
  rw [decode, fields]
  change (Identifier.decode (Draft.ofJson key.id.encode) >>= fun id => pure (⟨key.entity, id⟩ : EntityKey)) = _
  rw [Identifier.decode_encode]
  exact readBack_bind_pure _ _ _

theorem canonical_encode (key : EntityKey) : key.encode.canonical = key.canonical.encode := by
  have name : (Json.text key.entity).canonical = .text key.entity := rfl
  have inOrder : [("entity_name", Json.text key.entity), ("id", key.id.encode.canonical)].Pairwise (·.1 < ·.1) :=
    List.pairwise_pair.mpr (show "entity_name" < "id" by decide)
  rw [encode, encode, canonical, ← Identifier.canonical_encode, Json.canonical, Json.canonicalMembers,
    Json.canonicalMembers, Json.canonicalMembers, name, Json.ofMembers_of_sorted inOrder]

theorem isFinite_canonical (key : EntityKey) : key.canonical.isFinite = key.isFinite := key.id.isFinite_canonical

theorem canonical_canonical (key : EntityKey) : key.canonical.canonical = key.canonical :=
  congrArg (EntityKey.mk key.entity) key.id.canonical_canonical

end EntityKey

namespace CacheKey

def isFinite (key : CacheKey) : Bool := key.id.isFinite

def canonical (key : CacheKey) : CacheKey := { key with id := key.id.canonical }

theorem decode_encode (key : CacheKey) : decode (Draft.ofJson key.encode) = readBack key.isFinite key.canonical := by
  have fields : Decode.fields "a cache key" ["id", "entity_name", "tenant_id"] (Draft.ofJson key.encode) =
      .ok [some (Draft.ofJson key.id.encode), some (.text key.entity), some (Draft.ofJson (encodeTenant key.tenant))] := rfl
  have tenant : Decode.optional Decode.text (some (Draft.ofJson (encodeTenant key.tenant))) = .ok key.tenant := by
    cases key.tenant <;> rfl
  rw [decode, fields]
  change (Identifier.decode (Draft.ofJson key.id.encode) >>= fun id =>
    Decode.optional Decode.text (some (Draft.ofJson (encodeTenant key.tenant))) >>= fun tenant =>
      pure (⟨id, key.entity, tenant⟩ : CacheKey)) = _
  rw [Identifier.decode_encode, tenant]
  exact readBack_bind_pure _ _ _

theorem decode_sorted (key : CacheKey) : decode (Draft.ofJson key.encode.canonical) =
    decode (Draft.ofJson key.canonical.encode) := by
  have tenant : (encodeTenant key.tenant).canonical = encodeTenant key.tenant := by cases key.tenant <;> rfl
  rw [decode, decode, encode, encode, Json.canonical, Json.canonicalMembers, Json.canonicalMembers, Json.canonicalMembers,
    Json.canonicalMembers, Decode.fields_sorted, Identifier.canonical_encode, tenant]
  · rfl
  · simp

theorem isFinite_canonical (key : CacheKey) : key.canonical.isFinite = key.isFinite := key.id.isFinite_canonical

theorem canonical_canonical (key : CacheKey) : key.canonical.canonical = key.canonical :=
  congrArg (CacheKey.mk · key.entity key.tenant) key.id.canonical_canonical

end CacheKey

namespace CachedValue

mutual

def isFinite : CachedValue → Bool
  | .basic value => value.isFinite
  | .embedded children => allFinite children
  | .reference _ id => id.isFinite
  | _ => true

def allFinite : List CachedValue → Bool
  | [] => true
  | value :: rest => value.isFinite && allFinite rest

end

mutual

def canonical : CachedValue → CachedValue
  | .basic value => .basic value.canonical
  | .embedded children => .embedded (canonicalAll children)
  | .reference entity id => .reference entity id.canonical
  | other => other

def canonicalAll : List CachedValue → List CachedValue
  | [] => []
  | value :: rest => value.canonical :: canonicalAll rest

end

theorem decode_tagged {tag : String} (leaf : tag ≠ "Embedded") (payload : Json) :
    decode (Draft.ofJson (.tagged tag payload)) = decodeLeaf tag (Draft.ofJson payload) := by
  cases payload <;> simp [Json.tagged, Draft.ofJson, Draft.ofMembers, decode, leaf]

mutual

theorem decode_encode : ∀ value : CachedValue,
    decode (Draft.ofJson value.encode) = readBack value.isFinite value.canonical
  | .null => by simp [encode, Draft.ofJson, decode, isFinite, canonical]
  | .unfetched => by simp [encode, Draft.ofJson, decode, isFinite, canonical]
  | .basic value => by
    rw [encode, decode_tagged (by decide), decodeLeaf, Value.decode_encode]
    exact readBack_bind_pure _ _ _
  | .reference entity id => by
    rw [encode, decode_tagged (by decide), decodeLeaf, EntityKey.decode_encode]
    exact readBack_bind_pure _ _ _
  | .embedded children => by
    rw [encode, Json.tagged, Draft.ofJson, Draft.ofMembers, Draft.ofJson, Draft.ofMembers, decode, if_pos rfl,
      decodeAll_encodeAll children, map_readBack]
    rfl

theorem decodeAll_encodeAll : ∀ values : List CachedValue,
    decodeAll (Draft.ofItems (encodeAll values)) = readBack (allFinite values) (canonicalAll values)
  | [] => rfl
  | value :: rest => by
    rw [encodeAll, Draft.ofItems, decodeAll, decode_encode value, decodeAll_encodeAll rest]
    exact readBack_bind _ _ (readBack_bind_pure _ _ _)

end

mutual

theorem canonical_encode : ∀ value : CachedValue, value.encode.canonical = value.canonical.encode
  | .null | .unfetched => rfl
  | .basic value => (Json.canonical_tagged ..).trans (congrArg (Json.tagged "Basic") value.canonical_encode)
  | .reference entity id =>
    (Json.canonical_tagged ..).trans (congrArg (Json.tagged "Reference") (EntityKey.canonical_encode ⟨entity, id⟩))
  | .embedded children => by
    rw [encode, Json.canonical_tagged, Json.canonical, canonicalItems_encodeAll children]
    rfl

theorem canonicalItems_encodeAll : ∀ values : List CachedValue,
    Json.canonicalItems (encodeAll values) = encodeAll (canonicalAll values)
  | [] => rfl
  | value :: rest => by
    rw [encodeAll, Json.canonicalItems, canonical_encode value, canonicalItems_encodeAll rest]
    rfl

end

mutual

theorem isFinite_canonical : ∀ value : CachedValue, value.canonical.isFinite = value.isFinite
  | .null | .unfetched => rfl
  | .basic value => value.isFinite_canonical
  | .reference _ id => id.isFinite_canonical
  | .embedded children => allFinite_canonical children

theorem allFinite_canonical : ∀ values : List CachedValue, allFinite (canonicalAll values) = allFinite values
  | [] => rfl
  | value :: rest => by
    rw [canonicalAll, allFinite, allFinite, isFinite_canonical value, allFinite_canonical rest]

end

mutual

theorem canonical_canonical : ∀ value : CachedValue, value.canonical.canonical = value.canonical
  | .null | .unfetched => rfl
  | .basic value => congrArg basic value.canonical_canonical
  | .reference entity id => congrArg (reference entity) id.canonical_canonical
  | .embedded children => congrArg embedded (canonicalAll_canonicalAll children)

theorem canonicalAll_canonicalAll : ∀ values : List CachedValue, canonicalAll (canonicalAll values) = canonicalAll values
  | [] => rfl
  | value :: rest => by
    rw [canonicalAll, canonicalAll, canonical_canonical value, canonicalAll_canonicalAll rest]

end

end CachedValue

namespace CacheEntry

def isFinite (entry : CacheEntry) : Bool := entry.version.all Value.isFinite && CachedValue.allFinite entry.state

def canonical (entry : CacheEntry) : CacheEntry :=
  { entry with version := entry.version.map Value.canonical, state := CachedValue.canonicalAll entry.state }

/-- No value is written as nothing. -/
theorem optional_encodeVersion (version : Option Value) :
    Decode.optional Value.decode (some (Draft.ofJson (encodeVersion version))) =
      readBack (version.all Value.isFinite) (version.map Value.canonical) := by
  cases version with
  | none => rfl
  | some version =>
    have present : Draft.ofJson version.encode ≠ .null := by cases version <;> exact nofun
    rw [encodeVersion, Decode.optional_some present, Value.decode_encode, map_readBack]
    rfl

theorem decode_encode (entry : CacheEntry) : decode (Draft.ofJson entry.encode) = readBack entry.isFinite entry.canonical := by
  have fields : Decode.fields "a cache entry" ["subclass", "version", "state"] (Draft.ofJson entry.encode) =
      .ok [some (.text entry.subclass), some (Draft.ofJson (encodeVersion entry.version)),
        some (.array (Draft.ofItems (CachedValue.encodeAll entry.state)))] := rfl
  rw [decode, fields]
  change (Decode.optional Value.decode (some (Draft.ofJson (encodeVersion entry.version))) >>= fun version =>
    CachedValue.decodeAll (Draft.ofItems (CachedValue.encodeAll entry.state)) >>= fun state =>
      pure (⟨entry.subclass, version, state⟩ : CacheEntry)) = _
  rw [optional_encodeVersion, CachedValue.decodeAll_encodeAll]
  exact readBack_bind _ _ (readBack_bind_pure _ _ _)

theorem decode_sorted (entry : CacheEntry) : decode (Draft.ofJson entry.encode.canonical) =
    decode (Draft.ofJson entry.canonical.encode) := by
  have version : (encodeVersion entry.version).canonical = encodeVersion (entry.version.map Value.canonical) := by
    cases entry.version with
    | none => rfl
    | some version => exact version.canonical_encode
  rw [decode, decode, encode, encode, Json.canonical, Json.canonicalMembers, Json.canonicalMembers, Json.canonicalMembers,
    Json.canonicalMembers, Decode.fields_sorted, version, Json.canonical, CachedValue.canonicalItems_encodeAll]
  · rfl
  · simp

theorem isFinite_canonical (entry : CacheEntry) : entry.canonical.isFinite = entry.isFinite := by
  rw [isFinite, isFinite, canonical, CachedValue.allFinite_canonical]
  cases entry.version with
  | none => rfl
  | some version => exact congrArg (· && _) version.isFinite_canonical

theorem canonical_canonical (entry : CacheEntry) : entry.canonical.canonical = entry.canonical := by
  have version : (entry.version.map Value.canonical).map Value.canonical = entry.version.map Value.canonical := by
    cases entry.version with
    | none => rfl
    | some version => exact congrArg some version.canonical_canonical
  change CacheEntry.mk _ _ _ = _
  rw [canonical, version, CachedValue.canonicalAll_canonicalAll]

end CacheEntry

namespace CacheValue

def isFinite : CacheValue → Bool
  | .entry held => held.isFinite
  | .structured _ => true

def canonical : CacheValue → CacheValue
  | .entry held => .entry held.canonical
  | .structured document => .structured document.canonical

theorem decode_encode (value : CacheValue) : decode (Draft.ofJson value.encode) = readBack value.isFinite value.canonical := by
  cases value with
  | entry held =>
    change CacheValue.entry <$> CacheEntry.decode (Draft.ofJson held.encode) = _
    rw [CacheEntry.decode_encode, map_readBack]
    rfl
  | structured document =>
    change CacheValue.structured <$> Decode.document (Draft.ofJson document) = _
    rw [Value.document_ofJson]
    rfl

theorem decode_sorted (value : CacheValue) : decode (Draft.ofJson value.encode.canonical) =
    decode (Draft.ofJson value.canonical.encode) := by
  cases value with
  | entry held =>
    rw [encode, ← Json.tagged, Json.canonical_tagged]
    exact congrArg (CacheValue.entry <$> ·) held.decode_sorted
  | structured document =>
    rw [encode, ← Json.tagged, Json.canonical_tagged]
    rfl

theorem isFinite_canonical (value : CacheValue) : value.canonical.isFinite = value.isFinite := by
  cases value with
  | entry held => exact held.isFinite_canonical
  | structured document => rfl

theorem canonical_canonical (value : CacheValue) : value.canonical.canonical = value.canonical := by
  cases value with
  | entry held => exact congrArg entry held.canonical_canonical
  | structured document => exact congrArg structured document.canonical_canonical

end CacheValue

/-- Stored forms of one kind, with their members as they are written or in order of their names: without numbers that are
not finite they are read back as what was stored, and with such a number they are refused. A document within what is stored
has each name once, in order, as it has once it was read. -/
structure RoundTrips {α : Type} (encode : α → Json) (decode : Draft → Except Error α) (canonical : α → α)
    (isFinite : α → Bool) : Prop where
  given_back : ∀ stored, canonical stored = stored → isFinite stored = true →
    ∀ form ∈ [encode stored, (encode stored).canonical], decode form = .ok stored
  refused : ∀ stored, isFinite stored = false →
    ∀ form ∈ [encode stored, (encode stored).canonical], ∃ message, decode form = .error (.serialization message)
  settled : ∀ stored, canonical (canonical stored) = canonical stored

theorem RoundTrips.of_readBack {α : Type} {encode : α → Json} {decode : Draft → Except Error α} {canonical : α → α}
    {isFinite : α → Bool} (read : ∀ stored, decode (encode stored) = readBack (isFinite stored) (canonical stored))
    (sorted : ∀ stored, decode (encode stored).canonical = decode (encode (canonical stored)))
    (finite : ∀ stored, isFinite (canonical stored) = isFinite stored)
    (settled : ∀ stored, canonical (canonical stored) = canonical stored) :
    RoundTrips encode decode canonical isFinite where
  given_back stored asRead isFinite form member := by
    have readable : decode (encode stored) = .ok stored := by rw [read, asRead, isFinite, readBack_true]
    simp only [List.mem_cons, List.not_mem_nil, or_false] at member
    rcases member with rfl | rfl
    · exact readable
    · rw [sorted, asRead, readable]
  refused stored infinite form member := by
    simp only [List.mem_cons, List.not_mem_nil, or_false] at member
    rcases member with rfl | rfl
    · exact ⟨_, by rw [read, infinite, readBack_false]; rfl⟩
    · exact ⟨_, by rw [sorted, read, finite, infinite, readBack_false]; rfl⟩
  settled := settled

/-- Values, identifiers, keys and all that the cache holds are stored without loss, or not readable at all. -/
theorem stored_forms_round_trip :
    RoundTrips Value.encode Value.decode Value.canonical Value.isFinite ∧
    RoundTrips Identifier.encode Identifier.decode Identifier.canonical Identifier.isFinite ∧
    RoundTrips EntityKey.encode EntityKey.decode EntityKey.canonical EntityKey.isFinite ∧
    RoundTrips CacheKey.encode CacheKey.decode CacheKey.canonical CacheKey.isFinite ∧
    RoundTrips CachedValue.encode CachedValue.decode CachedValue.canonical CachedValue.isFinite ∧
    RoundTrips CacheEntry.encode CacheEntry.decode CacheEntry.canonical CacheEntry.isFinite ∧
    RoundTrips CacheValue.encode CacheValue.decode CacheValue.canonical CacheValue.isFinite := by
  refine ⟨?_, ?_, ?_, ?_, ?_, ?_, ?_⟩
  · exact .of_readBack Value.decode_encode (fun value => by rw [value.canonical_encode]) Value.isFinite_canonical
      Value.canonical_canonical
  · exact .of_readBack Identifier.decode_encode (fun id => by rw [id.canonical_encode]) Identifier.isFinite_canonical
      Identifier.canonical_canonical
  · exact .of_readBack EntityKey.decode_encode (fun key => by rw [key.canonical_encode]) EntityKey.isFinite_canonical
      EntityKey.canonical_canonical
  · exact .of_readBack CacheKey.decode_encode CacheKey.decode_sorted CacheKey.isFinite_canonical
      CacheKey.canonical_canonical
  · exact .of_readBack CachedValue.decode_encode (fun value => by rw [value.canonical_encode])
      CachedValue.isFinite_canonical CachedValue.canonical_canonical
  · exact .of_readBack CacheEntry.decode_encode CacheEntry.decode_sorted CacheEntry.isFinite_canonical
      CacheEntry.canonical_canonical
  · exact .of_readBack CacheValue.decode_encode CacheValue.decode_sorted CacheValue.isFinite_canonical
      CacheValue.canonical_canonical

namespace Sample

/-- Much that is nearly the same, and a negative zero. -/
def lookalikes : CacheEntry where
  subclass := "Reading"
  version := some .null
  state := [.null, .basic .null, .basic (.text "Null"), .unfetched, .basic (.text "Unfetched"), .basic (.json .null),
    .basic (.bytes [1, 2]), .basic (.array [.tinyInt 1, .bigInt 2]), .basic (.double ⟨0x8000000000000000⟩),
    .embedded [.basic (.float ⟨0x3f800001⟩), .embedded []], .reference "Reading" (.ofValue (.int 3))]

/-- Two infinities, one of them in a version. -/
def boundless : CacheEntry where
  subclass := "Reading"
  version := some (.float ⟨0x7f800000⟩)
  state := [.embedded [.basic (.array [.double ⟨0xfff0000000000000⟩])]]

end Sample

open Sample in
theorem stored_forms_round_trip_lookalikes : CacheEntry.decode lookalikes.encode = .ok lookalikes ∧
    ∃ message, CacheEntry.decode boundless.encode = .error (.serialization message) := by
  obtain ⟨-, -, -, -, -, entries, -⟩ := stored_forms_round_trip
  exact ⟨entries.given_back lookalikes rfl (by decide +kernel) _ List.mem_cons_self,
    entries.refused boundless (by decide +kernel) _ List.mem_cons_self⟩

end UnitOfWork
