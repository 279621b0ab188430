import UnitOfWork.Hydration

/-! Which rows can be hydrated. Each attribute is given its share of the columns of a row, in order, and an embedded
attribute divides its share among the attributes it is made of. A row can be hydrated just when it is long enough, its
identifier is not null, and every attribute can do with its share; what is beyond the last share makes no difference. -/

namespace UnitOfWork

/-- The columns that an attribute is given. -/
structure Share where
  owner : Attribute
  columns : List Value

mutual

/-- The share of an attribute and those of what is embedded in it, at any depth. What is embedded in a lazy attribute
is not selected, and so has no share. -/
def Attribute.shares : Attribute → List Value → List Share
  | .mk name kind storage, columns =>
    ⟨.mk name kind storage, columns⟩ ::
      if storage.lazy then []
      else match kind with
        | .embedded _ children => sharesAmong children columns
        | _ => []

/-- Attributes are given columns in order, each as many as it reads. -/
def sharesAmong : List Attribute → List Value → List Share
  | [], _ => []
  | a :: rest, columns => a.shares (columns.take a.columns) ++ sharesAmong rest (columns.drop a.columns)

end

/-- What the attributes of an entity are given of a row, at any depth. -/
def Descriptor.shares (d : Descriptor) (row : Row) : List Share :=
  sharesAmong d.attributes (row.values.drop d.identifier.columns)

/-- The owner can do with its share, unless it is lazy and does without: there are columns for all that is embedded in
it, and a polymorphic reference is null or names its target. -/
structure Share.Adequate (share : Share) : Prop where
  roomy : share.owner.lazy = false → ∀ typeName children, share.owner.kind = .embedded typeName children →
    columnCount children ≤ share.columns.length
  named : share.owner.lazy = false → share.owner.kind = .any →
    ∃ discriminator id, share.columns = discriminator :: id ∧
      ((∀ column ∈ id, column.isNull = true) ∨ ∃ entity, discriminator = .text entity)

/-- The row has what the entity reads: a known identifier, and enough for the attributes. -/
structure Row.Fits (row : Row) (d : Descriptor) : Prop where
  identified : 1 ≤ d.identifier.columns
  complete : d.columns ≤ row.size
  known : ∀ column ∈ row.values.take d.identifier.columns, column.isNull = false
  adequate : ∀ share ∈ d.shares row, share.Adequate

theorem Value.isNull_widen (value : Value) : value.widen.isNull = value.isNull := by
  cases value <;> rfl

theorem Identifier.isNull_ofColumns {columns : List Value} : (ofColumns columns).isNull = false ↔
    columns ≠ [] ∧ ∀ column ∈ columns, column.isNull = false := by
  simp [isNull, ofColumns, Value.isNull_widen]

namespace AttributeValue

theorem ofDiscriminated_ok_iff {columns : List Value} : (∃ value, ofDiscriminated columns = .ok value) ↔
    ∃ discriminator id, columns = discriminator :: id ∧
      ((∀ column ∈ id, column.isNull = true) ∨ ∃ entity, discriminator = .text entity) := by
  constructor
  · rintro ⟨value, read⟩
    unfold ofDiscriminated at read
    split at read
    · cases read
    next discriminator id =>
      split at read
      next nulls => exact ⟨discriminator, id, rfl, .inl (List.all_eq_true.mp nulls)⟩
      next =>
        split at read
        next entity => exact ⟨_, id, rfl, .inr ⟨entity, rfl⟩⟩
        next => cases read
  · rintro ⟨discriminator, id, rfl, nulls | ⟨entity, rfl⟩⟩
    · exact ⟨.null, if_pos (List.all_eq_true.mpr nulls)⟩
    · by_cases nulls : id.all Value.isNull = true
      · exact ⟨.null, if_pos nulls⟩
      · exact ⟨.anyKey entity (.ofColumns id), if_neg nulls⟩

end AttributeValue

namespace Share
variable {name : String} {storage : Storage} {columns : List Value}

theorem adequate_of_plain {share : Share}
    (plain : share.owner.lazy = false → share.owner.kind ≠ .any ∧ share.owner.kind.children = []) : share.Adequate where
  roomy fetched typeName children embeds := by
    have childless := (plain fetched).2
    rw [embeds] at childless
    obtain rfl : children = [] := childless
    exact Nat.zero_le _
  named fetched any := absurd any (plain fetched).1

theorem adequate_any_iff (fetched : storage.lazy = false) : Adequate ⟨.mk name .any storage, columns⟩ ↔
    ∃ value, AttributeValue.ofDiscriminated columns = .ok value := by
  rw [AttributeValue.ofDiscriminated_ok_iff]
  exact ⟨fun adequate => adequate.named fetched rfl, fun named => ⟨fun _ _ _ => nofun, fun _ _ => named⟩⟩

theorem adequate_embedded_iff {typeName : String} {children : List Attribute} (fetched : storage.lazy = false) :
    Adequate ⟨.mk name (.embedded typeName children) storage, columns⟩ ↔ columnCount children ≤ columns.length := by
  refine ⟨fun adequate => adequate.roomy fetched _ _ rfl, fun roomy => ⟨fun _ _ _ same => ?_, fun _ => nofun⟩⟩
  cases same
  exact roomy

end Share

namespace Descriptor
variable (d : Descriptor) (id : Identifier)

theorem bind_ok_iff {α β : Type} {first : Except Error α} {rest : α → Except Error β} {answer : β} :
    (first >>= rest) = .ok answer ↔ ∃ value, first = .ok value ∧ rest value = .ok answer := by
  cases first with
  | error e => exact ⟨nofun, fun ⟨_, wrong, _⟩ => nomatch wrong⟩
  | ok value => exact ⟨fun done_ => ⟨value, rfl, done_⟩, fun ⟨_, same, done_⟩ => by cases same; exact done_⟩

/-- What an attribute of some kind is read as if it is selected. -/
inductive ReadsAs (name : String) (columns : List Value) : AttributeKind → AttributeValue → Prop
  | basic : ReadsAs name columns .basic (.ofColumns columns)
  | manyToOne {target : String} : ReadsAs name columns (.manyToOne target) (.ofKeyColumns columns)
  | shared {target : String} (none_ : columns = []) : ReadsAs name columns (.oneToOne target) (.foreignKey id)
  | oneToOne {target : String} (some_ : columns ≠ []) : ReadsAs name columns (.oneToOne target) (.ofKeyColumns columns)
  | any {value : AttributeValue} (found : AttributeValue.ofDiscriminated columns = .ok value) :
      ReadsAs name columns .any value
  | nulls {typeName : String} {children : List Attribute} {values : List AttributeValue}
      (below : d.hydrateChildren id name children columns = .ok values)
      (nulls : values.all AttributeValue.isNull = true) : ReadsAs name columns (.embedded typeName children) .null
  | embedded {typeName : String} {children : List Attribute} {values : List AttributeValue}
      (below : d.hydrateChildren id name children columns = .ok values)
      (some_ : ¬values.all AttributeValue.isNull = true) :
      ReadsAs name columns (.embedded typeName children) (.embedded values)

variable {d id} in
theorem hydrateAttribute_cases {name : String} {kind : AttributeKind} {storage : Storage} {columns : List Value}
    {value : AttributeValue} (read : d.hydrateAttribute id (.mk name kind storage) columns = .ok value) :
    (storage.lazy = true ∧ value = .unfetched) ∨
      (¬storage.lazy = true ∧ d.ReadsAs id name columns kind value) := by
  unfold hydrateAttribute at read
  split at read
  next lazy =>
    cases read
    exact .inl ⟨lazy, rfl⟩
  next fetched =>
    refine .inr ⟨fetched, ?_⟩
    cases kind with
    | basic =>
      cases read
      exact .basic
    | manyToOne target =>
      cases read
      exact .manyToOne
    | oneToOne target =>
      cases read
      split
      next none_ => exact .shared (List.isEmpty_iff.mp none_)
      next some_ => exact .oneToOne fun none_ => some_ (List.isEmpty_iff.mpr none_)
    | any =>
      dsimp only at read
      split at read
      next found =>
        cases read
        exact .any found
      next => cases read
    | embedded typeName children =>
      dsimp only at read
      split at read
      next below =>
        cases read
        split
        next nulls => exact .nulls below nulls
        next some_ => exact .embedded below some_
      next => cases read

variable {d id} in
theorem hydrateChildren_cons_ok_iff {owner : String} {a : Attribute} {attributes : List Attribute} {columns : List Value}
    {values : List AttributeValue} : d.hydrateChildren id owner (a :: attributes) columns = .ok values ↔
      a.columns ≤ columns.length ∧ ∃ value others, d.hydrateAttribute id a (columns.take a.columns) = .ok value ∧
        d.hydrateChildren id owner attributes (columns.drop a.columns) = .ok others ∧ values = value :: others := by
  rw [hydrateChildren]
  split
  next short => exact iff_of_false nofun fun ⟨enough, _⟩ => absurd enough (Nat.not_le.mpr short)
  next enough =>
    simp only [bind_ok_iff]
    constructor
    · rintro ⟨value, first, others, rest, same⟩
      cases same
      exact ⟨Nat.not_lt.mp enough, value, others, first, rest, rfl⟩
    · rintro ⟨-, value, others, first, rest, rfl⟩
      exact ⟨value, first, others, rest, rfl⟩

mutual

/-- An attribute is read just when its share is adequate, and those of all that is embedded in it. -/
theorem hydrateAttribute_ok_iff : ∀ (a : Attribute) (columns : List Value),
    (∃ value, d.hydrateAttribute id a columns = .ok value) ↔ ∀ share ∈ a.shares columns, share.Adequate
  | .mk name kind storage, columns => by
    unfold hydrateAttribute Attribute.shares
    split
    next lazy =>
      refine iff_of_true ⟨_, rfl⟩ (List.forall_mem_singleton.mpr (Share.adequate_of_plain fun fetched => ?_))
      exact absurd (fetched.symm.trans lazy) Bool.false_ne_true
    next fetched =>
      have fetched : storage.lazy = false := Bool.eq_false_iff.mpr fetched
      cases kind with
      | basic | manyToOne _ | oneToOne _ =>
        exact iff_of_true ⟨_, rfl⟩ (List.forall_mem_singleton.mpr (Share.adequate_of_plain fun _ => ⟨nofun, rfl⟩))
      | any =>
        rw [List.forall_mem_singleton, Share.adequate_any_iff fetched]
        dsimp only
        cases AttributeValue.ofDiscriminated columns with
        | ok value => exact iff_of_true ⟨_, rfl⟩ ⟨_, rfl⟩
        | error fault => exact iff_of_false nofun nofun
      | embedded typeName children =>
        rw [List.forall_mem_cons, Share.adequate_embedded_iff fetched, ← hydrateChildren_ok_iff name children columns]
        dsimp only
        cases d.hydrateChildren id name children columns with
        | ok values => exact iff_of_true ⟨_, rfl⟩ ⟨_, rfl⟩
        | error e => exact iff_of_false nofun nofun

theorem hydrateChildren_ok_iff (owner : String) : ∀ (attributes : List Attribute) (columns : List Value),
    (∃ values, d.hydrateChildren id owner attributes columns = .ok values) ↔
      columnCount attributes ≤ columns.length ∧ ∀ share ∈ sharesAmong attributes columns, share.Adequate
  | [], columns => by
    unfold hydrateChildren sharesAmong columnCount
    exact iff_of_true ⟨_, rfl⟩ ⟨Nat.zero_le _, List.forall_mem_nil _⟩
  | a :: attributes, columns => by
    have first := hydrateAttribute_ok_iff a (columns.take a.columns)
    have rest := hydrateChildren_ok_iff owner attributes (columns.drop a.columns)
    rw [List.length_drop] at rest
    simp only [hydrateChildren_cons_ok_iff]
    unfold sharesAmong columnCount
    rw [List.forall_mem_append, ← first]
    constructor
    · rintro ⟨_, enough, value, others, read, below, -⟩
      obtain ⟨roomy, adequate⟩ := rest.mp ⟨others, below⟩
      exact ⟨by omega, ⟨value, read⟩, adequate⟩
    · rintro ⟨roomy, ⟨value, read⟩, adequate⟩
      obtain ⟨others, below⟩ := rest.mpr ⟨by omega, adequate⟩
      exact ⟨value :: others, by omega, value, others, read, below, rfl⟩

end

variable {d} {id}

/-- The attributes of a row are read like those that are embedded together; only failures are worded otherwise. -/
theorem hydrateState_ok_iff (row : Row) (owner : String) (attributes : List Attribute) (columns : List Value)
    (values : List AttributeValue) : d.hydrateState row id attributes columns = .ok values ↔
      d.hydrateChildren id owner attributes columns = .ok values := by
  induction attributes generalizing columns values with
  | nil =>
    unfold hydrateState hydrateChildren
    rfl
  | cons a attributes ih =>
    unfold hydrateState hydrateChildren
    split
    · exact iff_of_false nofun nofun
    · simp only [bind_ok_iff, ih]

theorem hydrateChildren_take (owner : String) (attributes : List Attribute) (columns : List Value) :
    d.hydrateChildren id owner attributes (columns.take (columnCount attributes)) =
      d.hydrateChildren id owner attributes columns := by
  induction attributes generalizing columns with
  | nil =>
    unfold hydrateChildren
    rfl
  | cons a attributes ih =>
    have rest := ih (columns.drop a.columns)
    unfold hydrateChildren columnCount
    have enough : (columns.take (a.columns + columnCount attributes)).length < a.columns ↔ columns.length < a.columns := by
      rw [List.length_take]
      omega
    have first : (columns.take (a.columns + columnCount attributes)).take a.columns = columns.take a.columns := by
      rw [List.take_take, Nat.min_eq_left (Nat.le_add_right _ _)]
    have others : (columns.take (a.columns + columnCount attributes)).drop a.columns =
        (columns.drop a.columns).take (columnCount attributes) := by
      rw [List.drop_take, Nat.add_sub_cancel_left]
    simp only [enough, first, others, rest]

def identifierOf (d : Descriptor) (row : Row) : Identifier := .ofColumns (row.values.take d.identifier.columns)

theorem hydrateRow_ok_iff {row : Row} {key : EntityKey} {state : List AttributeValue} :
    d.hydrateRow row = .ok (key, state) ↔ d.identifier.columns ≤ row.size ∧ (d.identifierOf row).isNull = false ∧
      key = d.keyFor (d.identifierOf row) ∧
      d.hydrateState row (d.identifierOf row) d.attributes (row.values.drop d.identifier.columns) = .ok state := by
  unfold hydrateRow Row.slice?
  rw [Nat.zero_add, List.drop_zero]
  split
  next missing =>
    refine iff_of_false nofun fun read => ?_
    rw [if_pos read.1] at missing
    cases missing
  next columns given =>
    obtain ⟨long, same⟩ := Option.ite_none_right_eq_some.mp given
    obtain rfl : row.values.take d.identifier.columns = columns := Option.some.inj same
    change (if (d.identifierOf row).isNull then _ else _) = _ ↔ _
    split
    next null => exact iff_of_false nofun fun read => Bool.false_ne_true (read.2.1.symm.trans null)
    next known =>
      rw [bind_ok_iff]
      constructor
      · rintro ⟨value, read, same⟩
        cases same
        exact ⟨long, Bool.eq_false_iff.mpr known, rfl, read⟩
      · rintro ⟨-, -, rfl, read⟩
        exact ⟨state, read, rfl⟩

theorem identifierOf_known_iff {row : Row} (long : d.identifier.columns ≤ row.size) :
    (d.identifierOf row).isNull = false ↔ 1 ≤ d.identifier.columns ∧
      ∀ column ∈ row.values.take d.identifier.columns, column.isNull = false := by
  have long : d.identifier.columns ≤ row.values.length := long
  have some_ : row.values.take d.identifier.columns ≠ [] ↔ 1 ≤ d.identifier.columns := by
    rw [← List.length_pos_iff, List.length_take]
    omega
  rw [← some_]
  exact Identifier.isNull_ofColumns

theorem hydrateRow_fits_iff {row : Row} : (∃ key state, d.hydrateRow row = .ok (key, state)) ↔ row.Fits d := by
  have attributes := d.hydrateChildren_ok_iff (d.identifierOf row) "" d.attributes (row.values.drop d.identifier.columns)
  rw [List.length_drop] at attributes
  simp only [hydrateRow_ok_iff, hydrateState_ok_iff row ""]
  constructor
  · rintro ⟨key, state, long, known, -, read⟩
    obtain ⟨identified, known⟩ := (identifierOf_known_iff long).mp known
    obtain ⟨enough, adequate⟩ := attributes.mp ⟨state, read⟩
    have long : d.identifier.columns ≤ row.values.length := long
    have complete : d.identifier.columns + columnCount d.attributes ≤ row.values.length := by omega
    exact ⟨identified, complete, known, adequate⟩
  · rintro ⟨identified, complete, known, adequate⟩
    have complete : d.identifier.columns + columnCount d.attributes ≤ row.values.length := complete
    have long : d.identifier.columns ≤ row.size := Nat.le_trans (Nat.le_add_right _ _) complete
    obtain ⟨state, read⟩ := attributes.mpr ⟨by omega, adequate⟩
    exact ⟨_, state, long, (identifierOf_known_iff long).mpr ⟨identified, known⟩, rfl, read⟩

theorem hydrateRow_of_take {row other : Row} {key : EntityKey} {state : List AttributeValue}
    (read : d.hydrateRow row = .ok (key, state)) (same : other.values.take d.columns = row.values.take d.columns) :
    d.hydrateRow other = .ok (key, state) := by
  have complete : d.columns ≤ row.values.length := (hydrateRow_fits_iff.mp ⟨key, state, read⟩).complete
  have begins : d.identifier.columns ≤ d.columns := Nat.le_add_right _ _
  have complete' : d.columns ≤ other.values.length := by
    have lengths := congrArg List.length same
    rw [List.length_take, List.length_take] at lengths
    omega
  have identifier : other.values.take d.identifier.columns = row.values.take d.identifier.columns := by
    have first := congrArg (List.take d.identifier.columns) same
    rwa [List.take_take, List.take_take, Nat.min_eq_left begins] at first
  have attributes : (other.values.drop d.identifier.columns).take (columnCount d.attributes) =
      (row.values.drop d.identifier.columns).take (columnCount d.attributes) := by
    have rest := congrArg (List.drop d.identifier.columns) same
    rwa [List.drop_take, List.drop_take, show d.columns - d.identifier.columns = columnCount d.attributes from
      Nat.add_sub_cancel_left _ _] at rest
  have identified : d.identifierOf other = d.identifierOf row := congrArg Identifier.ofColumns identifier
  obtain ⟨-, known, keyed, read⟩ := hydrateRow_ok_iff.mp read
  refine hydrateRow_ok_iff.mpr ⟨Nat.le_trans begins complete', identified ▸ known, identified ▸ keyed, ?_⟩
  rw [hydrateState_ok_iff other "", ← hydrateChildren_take, attributes, hydrateChildren_take, identified]
  exact (hydrateState_ok_iff row "" _ _ _).mp read

end Descriptor

/-- A row can be hydrated just when it fits the entity, and then what follows the columns of the entity does not
matter. -/
theorem rows_hydrate_iff_they_fit (d : Descriptor) (row : Row) :
    ((∃ key state, d.hydrateRow row = .ok (key, state)) ↔ row.Fits d) ∧
    ∀ key state other, d.hydrateRow row = .ok (key, state) → other.values.take d.columns = row.values.take d.columns →
      d.hydrateRow other = .ok (key, state) :=
  ⟨Descriptor.hydrateRow_fits_iff, fun _ _ _ => Descriptor.hydrateRow_of_take⟩

namespace Sample

/-- A crate has a size and contents, which come from somewhere; who opened it is not selected. -/
def crate : Descriptor where
  name := "Crate"
  identifier := { name := "id" }
  attributes := [.basic "size",
    .embedded "contents" "Contents" [.any "origin", .embedded "label" "Label" [.basic "text"]],
    (Attribute.embedded "opened" "Opening" [(Attribute.any "by").withStorage fun storage => { storage with columns := 0 }]
      ).withStorage fun storage => { storage with lazy := true },
    .oneToOne "seal" "Seal"]

def crateRow (origin : Value) (more : List Value) : Row where
  values := [.bool true, .bool false, origin, .bool true, .null] ++ more

end Sample

open Sample in
/-- A crate from a depot can be read, whatever stands beside it. It cannot be read if it does not say where it is from
or if the row ends early. -/
theorem rows_hydrate_iff_they_fit_crate : (crateRow (.text "Depot") []).Fits crate ∧
    crate.hydrateRow (crateRow (.text "Depot") [.null]) = crate.hydrateRow (crateRow (.text "Depot") []) ∧
    ¬ (crateRow (.bool true) []).Fits crate ∧
    ¬ ∃ key state, crate.hydrateRow ⟨[.bool true, .bool false], ⟨[]⟩⟩ = .ok (key, state) := by
  obtain ⟨reads_iff_fits, unread⟩ := rows_hydrate_iff_they_fit crate (crateRow (.text "Depot") [])
  obtain ⟨key, state, read⟩ : ∃ key state, crate.hydrateRow (crateRow (.text "Depot") []) = .ok (key, state) :=
    ⟨_, _, rfl⟩
  have wider := (unread key state (crateRow (.text "Depot") [.null]) read rfl).trans read.symm
  refine ⟨reads_iff_fits.mp ⟨key, state, read⟩, wider, fun fits => ?_, fun reads => ?_⟩
  · obtain ⟨key, state, wrong⟩ := (rows_hydrate_iff_they_fit _ _).1.mpr fits
    cases wrong
  · exact absurd ((rows_hydrate_iff_they_fit _ _).1.mp reads).complete (by decide)

end UnitOfWork
