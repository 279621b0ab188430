import UnitOfWork.Cache.Structured
import UnitOfWork.Proofs.StoredForms

/-! A cache entry that is written out by attribute name can be told from every other one of the same descriptor. The names
of the descriptor have to be apart, numbers finite, and the state of the shape that the descriptor gives. What is written
for a cached value tells by itself what it was, whatever attribute it is of; only the parts of an embedded attribute take
their place by name, and there the shape says how many there are. -/

namespace UnitOfWork

namespace Value

theorem encode_cases (value : Value) : value.encode = .text "Null" ∨ ∃ tag payload, value.encode = .tagged tag payload := by
  cases value with
  | null => exact .inl rfl
  | _ => exact .inr ⟨_, _, rfl⟩

theorem canonical_of_encode {a b : Value} (finite : a.isFinite = true) (finite' : b.isFinite = true)
    (same : a.encode = b.encode) : a.canonical = b.canonical := by
  have read := a.decode_encode
  rw [same, b.decode_encode, finite, finite'] at read
  exact (Except.ok.inj read).symm

mutual

/-- Reading tells values of different column types apart, and loses only the order of members in documents. -/
theorem encode_injective : ∀ {a b : Value}, a.isFinite = true → b.isFinite = true → a.encode = b.encode → a = b
  | .json document, b, finite, finite', same => by
    have alike := canonical_of_encode finite finite' same
    cases b with
    | json other => cases same; rfl
    | _ => cases alike
  | .array items, b, finite, finite', same => by
    have alike := canonical_of_encode finite finite' same
    cases b with
    | array others =>
      simp only [encode, Json.tagged, Json.object.injEq, List.cons.injEq, Prod.mk.injEq, Json.array.injEq, true_and,
        and_true] at same
      exact congrArg array (encodeAll_injective finite finite' same)
    | _ => cases alike
  | .null, b, finite, finite', same | .bool _, b, finite, finite', same | .tinyInt _, b, finite, finite', same
  | .smallInt _, b, finite, finite', same | .int _, b, finite, finite', same | .bigInt _, b, finite, finite', same
  | .float _, b, finite, finite', same | .double _, b, finite, finite', same | .decimal _, b, finite, finite', same
  | .text _, b, finite, finite', same | .bytes _, b, finite, finite', same | .date _, b, finite, finite', same
  | .time _, b, finite, finite', same | .timestamp _, b, finite, finite', same
  | .timestampTz _, b, finite, finite', same | .uuid _, b, finite, finite', same => by
    have alike := canonical_of_encode finite finite' same
    cases b with
    | json | array => cases alike
    | _ => exact alike

theorem encodeAll_injective : ∀ {items others : List Value}, allFinite items = true → allFinite others = true →
    encodeAll items = encodeAll others → items = others
  | [], [], _, _, _ => rfl
  | [], _ :: _, _, _, same | _ :: _, [], _, _, same => by cases same
  | item :: rest, other :: others, finite, finite', same => by
    rw [allFinite, Bool.and_eq_true] at finite finite'
    rw [encodeAll, encodeAll, List.cons.injEq] at same
    rw [encode_injective finite.1 finite'.1 same.1, encodeAll_injective finite.2 finite'.2 same.2]

end

end Value

namespace Identifier

theorem encode_injective {a b : Identifier} (finite : a.isFinite = true) (finite' : b.isFinite = true)
    (same : a.encode = b.encode) : a = b :=
  ext (Value.encodeAll_injective finite finite' (Json.array.inj same))

end Identifier

namespace CachedValue

theorem length_documents (values : List CachedValue) : (documents values).length = values.length := by
  induction values with
  | nil => rfl
  | cons value rest ih => rw [documents, List.length_cons, List.length_cons, ih]

/-- What is written for a column value is written for nothing else: it is neither nothing, nor a list, nor an object of two
members, nor the mark of what was not fetched. -/
theorem basic_of_document {value : Value} {other : CachedValue} (same : other.document = value.encode) :
    ∃ held, other = .basic held := by
  cases other with
  | basic held => exact ⟨held, rfl⟩
  | _ =>
    rcases value.encode_cases with written | ⟨tag, payload, written⟩ <;>
      simp [written, document, Json.tagged] at same

mutual

theorem document_injective : ∀ {a b : CachedValue}, a.isFinite = true → b.isFinite = true →
    a.document = b.document → a = b
  | .basic value, b, finite, finite', same => by
    obtain ⟨held, rfl⟩ := basic_of_document same.symm
    exact congrArg basic (Value.encode_injective finite finite' same)
  | .embedded children, b, finite, finite', same => by
    cases b with
    | embedded others => exact congrArg embedded (documents_injective finite finite' (Json.array.inj same))
    | basic => cases (basic_of_document same).choose_spec
    | _ => cases same
  | .reference entity id, b, finite, finite', same => by
    cases b with
    | reference entity' id' =>
      simp only [document, Json.object.injEq, List.cons.injEq, Prod.mk.injEq, Json.text.injEq, true_and, and_true] at same
      rw [same.1, Identifier.encode_injective finite finite' same.2]
    | basic => cases (basic_of_document same).choose_spec
    | _ => cases same
  | .null, b, _, _, same => by
    cases b with
    | null => rfl
    | basic => cases (basic_of_document same).choose_spec
    | _ => cases same
  | .unfetched, b, _, _, same => by
    cases b with
    | unfetched => rfl
    | basic => cases (basic_of_document same).choose_spec
    | _ => cases same

theorem documents_injective : ∀ {values others : List CachedValue}, allFinite values = true → allFinite others = true →
    documents values = documents others → values = others
  | [], [], _, _, _ => rfl
  | [], _ :: _, _, _, same | _ :: _, [], _, _, same => by cases same
  | value :: rest, other :: others, finite, finite', same => by
    rw [allFinite, Bool.and_eq_true] at finite finite'
    rw [documents, documents, List.cons.injEq] at same
    rw [document_injective finite.1 finite'.1 same.1, documents_injective finite.2 finite'.2 same.2]

end

mutual

/-- An embedded attribute is cached with one value for each of its children, unless it is null or was not fetched; no other
attribute is cached so. -/
def fits (a : Attribute) : CachedValue → Bool
  | .null | .unfetched => true
  | .basic _ | .reference _ _ =>
    match a.kind with
    | .embedded _ _ => false
    | _ => true
  | .embedded values =>
    match a.kind with
    | .embedded _ children => fitAll children values
    | _ => false

def fitAll : List Attribute → List CachedValue → Bool
  | a :: attributes, value :: values => fits a value && fitAll attributes values
  | [], [] => true
  | _, _ => false

end

theorem eq_nil_of_fitAll {values : List CachedValue} (fit : fitAll [] values = true) : values = [] := by
  cases values with
  | nil => rfl
  | cons => cases fit

theorem cons_of_fitAll {a : Attribute} {attributes : List Attribute} {values : List CachedValue}
    (fit : fitAll (a :: attributes) values = true) :
    ∃ value rest, values = value :: rest ∧ fits a value = true ∧ fitAll attributes rest = true := by
  cases values with
  | nil => cases fit
  | cons value rest =>
    rw [fitAll, Bool.and_eq_true] at fit
    exact ⟨value, rest, rfl, fit⟩

theorem length_of_fitAll {attributes : List Attribute} {values : List CachedValue}
    (fit : fitAll attributes values = true) : values.length = attributes.length := by
  induction attributes generalizing values with
  | nil => rw [eq_nil_of_fitAll fit, List.length_nil, List.length_nil]
  | cons a attributes ih =>
    obtain ⟨value, rest, rfl, -, fit⟩ := cons_of_fitAll fit
    rw [List.length_cons, List.length_cons, ih fit]

end CachedValue

namespace CacheEntry
open CachedValue (fits fitAll)

section
variable {a : Attribute} {value other : CachedValue}

theorem attributeDocument_of_unnamed (unnamed : ∀ children, value ≠ .embedded children) :
    attributeDocument a value = value.document := by
  unfold attributeDocument
  split
  · exact absurd rfl (unnamed _)
  · rfl

theorem embedded_of_attributeDocument {children : List CachedValue} (fit : fits a (.embedded children) = true)
    (fit' : fits a value = true) (same : attributeDocument a (.embedded children) = attributeDocument a value) :
    ∃ others, value = .embedded others := by
  obtain ⟨name, kind, storage⟩ := a
  cases kind with
  | embedded =>
    cases value with
    | embedded others => exact ⟨others, rfl⟩
    | basic | reference => cases fit'
    | null | unfetched => cases same
  | _ => cases fit

theorem attributeDocument_injective (apart : (a.kind.children.map Attribute.name).Nodup) (fit : fits a value = true)
    (fit' : fits a other = true) (finite : value.isFinite = true) (finite' : other.isFinite = true)
    (same : attributeDocument a value = attributeDocument a other) : value = other := by
  -- Parts take their place by name and need the shape; of all else the document alone tells what it was.
  by_cases named : ∃ children, value = .embedded children
  · obtain ⟨values, rfl⟩ := named
    obtain ⟨others, rfl⟩ := embedded_of_attributeDocument fit fit' same
    obtain ⟨name, kind, storage⟩ := a
    cases kind with
    | embedded typeName children =>
      have whole {values : List CachedValue} (fit : fitAll children values = true) :
          (CachedValue.documents values).length = (children.map Attribute.name).length := by
        rw [CachedValue.length_documents, CachedValue.length_of_fitAll fit, List.length_map]
      exact congrArg CachedValue.embedded
        (CachedValue.documents_injective finite finite' (Json.zip_of_ofMembers apart (whole fit) (whole fit') same))
    | _ => cases fit
  · have unnamed : ∀ children, other ≠ .embedded children := by
      rintro children rfl
      exact named (embedded_of_attributeDocument fit' fit same.symm)
    rw [attributeDocument_of_unnamed (not_exists.mp named), attributeDocument_of_unnamed unnamed] at same
    exact CachedValue.document_injective finite finite' same

end

def members (attributes : List Attribute) (values : List CachedValue) : List (String × Json) :=
  List.zipWith (fun a value => (a.name, attributeDocument a value)) attributes values

theorem names_members {attributes : List Attribute} {values : List CachedValue} (fit : fitAll attributes values = true) :
    (members attributes values).map (·.1) = attributes.map Attribute.name := by
  induction attributes generalizing values with
  | nil => rfl
  | cons a attributes ih =>
    obtain ⟨value, rest, rfl, -, fit⟩ := CachedValue.cons_of_fitAll fit
    exact congrArg (a.name :: ·) (ih fit)

theorem members_injective {attributes : List Attribute}
    (apart : ∀ a ∈ attributes, (a.kind.children.map Attribute.name).Nodup) {values others : List CachedValue}
    (fit : fitAll attributes values = true) (fit' : fitAll attributes others = true)
    (finite : CachedValue.allFinite values = true) (finite' : CachedValue.allFinite others = true)
    (same : members attributes values = members attributes others) : values = others := by
  induction attributes generalizing values others with
  | nil => rw [CachedValue.eq_nil_of_fitAll fit, CachedValue.eq_nil_of_fitAll fit']
  | cons a attributes ih =>
    obtain ⟨value, values, rfl, first, rest⟩ := CachedValue.cons_of_fitAll fit
    obtain ⟨other, others, rfl, first', rest'⟩ := CachedValue.cons_of_fitAll fit'
    rw [CachedValue.allFinite, Bool.and_eq_true] at finite finite'
    rw [members, members, List.zipWith_cons_cons, List.zipWith_cons_cons, List.cons.injEq, Prod.mk.injEq] at same
    rw [attributeDocument_injective (apart a List.mem_cons_self) first first' finite.1 finite'.1 same.1.2,
      ih (fun a member => apart a (List.mem_cons_of_mem _ member)) rest rest' finite.2 finite'.2 same.2]

end CacheEntry

/-- Nothing that is written for an entry takes the place of something else. -/
structure Descriptor.NamesApart (d : Descriptor) : Prop where
  attributes : d.attributeNames.Nodup
  children : ∀ a ∈ d.attributes, (a.kind.children.map Attribute.name).Nodup
  subclass : "_subclass" ∉ d.attributeNames
  version : "_version" ∉ d.attributeNames

namespace CacheEntry
open CachedValue (fits fitAll)

/-- Subclass and version as they are written. -/
def heading (entry : CacheEntry) : List (String × Json) :=
  ("_subclass", .text entry.subclass) ::
    match entry.version with
    | some version => [("_version", version.encode)]
    | none => []

theorem structured_eq (entry : CacheEntry) (d : Descriptor) :
    entry.structured d = .ofMembers (entry.heading ++ members d.attributes entry.state) := rfl

theorem structured_distinct {d : Descriptor} (apart : d.NamesApart) {entry : CacheEntry}
    (fit : fitAll d.attributes entry.state = true) :
    ((entry.heading ++ members d.attributes entry.state).map (·.1)).Nodup := by
  rw [List.map_append, names_members fit]
  obtain ⟨subclass, version, state⟩ := entry
  cases version with
  | none => exact List.nodup_cons.mpr ⟨apart.subclass, apart.attributes⟩
  | some version =>
    have alone : "_subclass" ∉ "_version" :: d.attributeNames := by simp [apart.subclass]
    exact List.nodup_cons.mpr ⟨alone, List.nodup_cons.mpr ⟨apart.version, apart.attributes⟩⟩

theorem heading_names {a b : CacheEntry} (long : a.heading.length = b.heading.length) :
    a.heading.map (·.1) = b.heading.map (·.1) := by
  obtain ⟨subclass, version, state⟩ := a
  obtain ⟨subclass', version', state'⟩ := b
  cases version with
  | none =>
    cases version' with
    | none => rfl
    | some => cases long
  | some =>
    cases version' with
    | none => cases long
    | some => rfl

theorem heading_injective {a b : CacheEntry} (finite : a.version.all Value.isFinite = true)
    (finite' : b.version.all Value.isFinite = true) (same : a.heading = b.heading) :
    a.subclass = b.subclass ∧ a.version = b.version := by
  obtain ⟨subclass, version, state⟩ := a
  obtain ⟨subclass', version', state'⟩ := b
  rw [heading, heading, List.cons.injEq, Prod.mk.injEq, Json.text.injEq] at same
  refine ⟨same.1.2, ?_⟩
  cases version with
  | none =>
    cases version' with
    | none => rfl
    | some => cases same.2
  | some version =>
    cases version' with
    | none => cases same.2
    | some version' =>
      have written : version.encode = version'.encode := (Prod.mk.inj (List.cons.inj same.2).1).2
      rw [Value.encode_injective finite finite' written]

/-- Two entries with one structured form are one entry, bit by bit. -/
theorem structured_injective (d : Descriptor) (apart : d.NamesApart) {a b : CacheEntry}
    (fit : fitAll d.attributes a.state = true) (fit' : fitAll d.attributes b.state = true)
    (finite : a.isFinite = true) (finite' : b.isFinite = true) (same : a.structured d = b.structured d) : a = b := by
  rw [structured_eq, structured_eq] at same
  rw [isFinite, Bool.and_eq_true] at finite finite'
  have distinct := structured_distinct apart fit'
  have perm := Json.perm_of_ofMembers (structured_distinct apart fit) distinct same
  have names : (members d.attributes a.state).map (·.1) = (members d.attributes b.state).map (·.1) :=
    (names_members fit).trans (names_members fit').symm
  -- Attributes have as many members in one as in the other, so the rest of them shows whether there is a version.
  have long : a.heading.length = b.heading.length := by
    have lengths := perm.length_eq
    have rest := congrArg List.length names
    rw [List.length_map, List.length_map] at rest
    rw [List.length_append, List.length_append] at lengths
    omega
  have equal := Json.eq_of_perm_of_names perm (by rw [List.map_append, List.map_append, heading_names long, names]) distinct
  obtain ⟨heading, state⟩ := List.append_inj equal long
  obtain ⟨subclass, version⟩ := heading_injective finite.1 finite'.1 heading
  have state := members_injective apart.children fit fit' finite.2 finite'.2 state
  cases a
  cases b
  cases subclass
  cases version
  cases state
  rfl

end CacheEntry

namespace Sample

def resident : Descriptor where
  name := "Resident"
  identifier := { name := "id" }
  attributes := [.basic "name",
    .embedded "home" "Address" [.basic "street", .embedded "place" "Place" [.basic "city", .basic "code"]],
    .manyToOne "landlord" "Resident"]

def residentEntry (version : Option Value) : CacheEntry where
  subclass := "Resident"
  version
  state := [.basic (.text "Ann"), .embedded [.basic .null, .embedded [.null, .unfetched]],
    .reference "Resident" (.ofValue (.int 3))]

def disassembled (version : Option Value) : CacheEntry where
  subclass := "Resident"
  version
  state := CachedValue.ofAttributes ∅ [.basic (.text "Ann"), .embedded [.basic .null, .embedded [.null, .unfetched]],
    .reference (.notLoaded ⟨"Resident", .ofValue (.int 3)⟩)]

theorem resident_apart : resident.NamesApart := ⟨by decide, by decide, by decide, by decide⟩

end Sample

open Sample in
theorem structured_injective_residents : disassembled none = residentEntry none ∧
    (residentEntry none).structured resident ≠ (residentEntry (some .null)).structured resident := by
  constructor
  · exact CacheEntry.structured_injective resident resident_apart rfl rfl rfl rfl rfl
  · intro same
    cases CacheEntry.structured_injective resident resident_apart rfl rfl rfl rfl same

end UnitOfWork
