import UnitOfWork.Proofs.FittingRows

/-! What becomes of each column of a row. When all that has been read of a row is written out again, the identifier first
and then one attribute after the other, the columns are those of the row, each in its place. Only two things are lost on
the way: which integer type a number in a key had, and the target entity of a polymorphic reference without identifier. -/

namespace UnitOfWork

/-- The columns that were read into one value. -/
def Value.items : Value → List Value
  | .array items => items
  | value => [value]

namespace AttributeValue

mutual

/-- The columns that the value of an attribute stands for. -/
def written (a : Attribute) (value : AttributeValue) : List Value :=
  if a.columns = 0 then []
  else match value with
    | .null => List.replicate a.columns .null
    | .basic column => if a.columns = 1 then [column] else column.items
    | .embedded children =>
      match a.kind with
      | .embedded _ attributes => writtenAll attributes children
      | _ => []
    | .foreignKey id => id.columns
    | .anyKey entity id => .text entity :: id.columns
    | .reference _ | .unfetched => []

def writtenAll : List Attribute → List AttributeValue → List Value
  | a :: attributes, value :: values => written a value ++ writtenAll attributes values
  | _, _ => []

end

/-- The columns of a polymorphic reference in the one spelling that it has: whole numbers of its identifier are widened,
and it names no target if its identifier is null. -/
def canonicalReference : List Value → List Value
  | [] => []
  | discriminator :: id => (if id.all Value.isNull then .null else discriminator) :: id.map Value.widen

end AttributeValue

mutual

/-- The columns of a share with the keys among them in the one spelling that each has. -/
def Attribute.canonical : Attribute → List Value → List Value
  | .mk _ kind storage, columns =>
    if storage.lazy then columns
    else match kind with
      | .basic => columns
      | .manyToOne _ | .oneToOne _ => columns.map Value.widen
      | .any => AttributeValue.canonicalReference columns
      | .embedded _ children => canonicalAmong children columns

def canonicalAmong : List Attribute → List Value → List Value
  | [], columns => columns
  | a :: rest, columns => a.canonical (columns.take a.columns) ++ canonicalAmong rest (columns.drop a.columns)

end

mutual

/-- What is embedded in an attribute, at any depth, takes up just the columns that the attribute reads. -/
def Attribute.wellSpanned : Attribute → Bool
  | .mk _ kind storage => storage.lazy ||
    match kind with
    | .embedded _ children => storage.columns == columnCount children && allWellSpanned children
    | _ => true

def allWellSpanned : List Attribute → Bool
  | [] => true
  | a :: rest => a.wellSpanned && allWellSpanned rest

end

namespace Descriptor

def written (d : Descriptor) (id : Identifier) (state : List AttributeValue) : List Value :=
  id.columns ++ AttributeValue.writtenAll d.attributes state

def canonical (d : Descriptor) (columns : List Value) : List Value :=
  (columns.take d.identifier.columns).map Value.widen ++ canonicalAmong d.attributes (columns.drop d.identifier.columns)

end Descriptor

theorem Value.eq_null_of_isNull {value : Value} (null : value.isNull = true) : value = .null := by
  cases value with
  | null => rfl
  | _ => cases null

namespace AttributeValue

theorem length_canonicalReference (columns : List Value) : (canonicalReference columns).length = columns.length := by
  cases columns with
  | nil => rfl
  | cons discriminator id => rw [canonicalReference, List.length_cons, List.length_map, List.length_cons]

theorem map_widen_of_nulls {columns : List Value} (nulls : columns.all Value.isNull = true) :
    columns.map Value.widen = List.replicate columns.length .null := by
  refine List.eq_replicate_iff.mpr ⟨List.length_map _, fun value member => ?_⟩
  obtain ⟨column, inside, rfl⟩ := List.mem_map.mp member
  rw [Value.eq_null_of_isNull (List.all_eq_true.mp nulls column inside)]
  rfl

end AttributeValue

mutual

theorem Attribute.length_canonical : ∀ (a : Attribute) (columns : List Value),
    (a.canonical columns).length = columns.length
  | .mk _ kind storage, columns => by
    unfold Attribute.canonical
    split
    · rfl
    · cases kind with
      | basic => rfl
      | manyToOne _ | oneToOne _ => exact List.length_map _
      | any => exact AttributeValue.length_canonicalReference columns
      | embedded _ children => exact length_canonicalAmong children columns

theorem length_canonicalAmong : ∀ (attributes : List Attribute) (columns : List Value),
    (canonicalAmong attributes columns).length = columns.length
  | [], columns => by rw [canonicalAmong]
  | a :: rest, columns => by
    rw [canonicalAmong, List.length_append, a.length_canonical, length_canonicalAmong rest, ← List.length_append,
      List.take_append_drop]

end

theorem Attribute.wellSpanned_embedded {name typeName : String} {children : List Attribute} {storage : Storage}
    (fetched : ¬storage.lazy = true) (spanned : (Attribute.mk name (.embedded typeName children) storage).wellSpanned = true) :
    (Attribute.mk name (.embedded typeName children) storage).columns = columnCount children ∧
      allWellSpanned children = true := by
  unfold Attribute.wellSpanned at spanned
  rw [Bool.eq_false_iff.mpr fetched, Bool.false_or, Bool.and_eq_true, beq_iff_eq] at spanned
  exact ⟨(if_neg fetched).trans spanned.1, spanned.2⟩

theorem Attribute.canonical_nil (a : Attribute) : a.canonical [] = [] :=
  List.eq_nil_of_length_eq_zero (a.length_canonical [])

namespace AttributeValue
variable {a : Attribute} {columns : List Value}

theorem written_null : AttributeValue.null.written a = List.replicate a.columns .null := by
  unfold written
  split
  next none_ => rw [none_, List.replicate_zero]
  next => rfl

theorem written_ofColumns (given : columns.length = a.columns) (some_ : a.columns ≠ 0) :
    (ofColumns columns).written a = columns := by
  unfold written
  rw [if_neg some_]
  match columns with
  | [] => exact absurd given.symm some_
  | [.null] =>
    rw [← given]
    rfl
  | [.bool _] | [.tinyInt _] | [.smallInt _] | [.int _] | [.bigInt _] | [.float _] | [.double _] | [.decimal _] | [.text _]
  | [.bytes _] | [.date _] | [.time _] | [.timestamp _] | [.timestampTz _] | [.uuid _] | [.json _] | [.array _] =>
    exact if_pos given.symm
  | _ :: _ :: _ =>
    have several : a.columns ≠ 1 := by
      rw [← given, List.length_cons, List.length_cons]
      omega
    exact if_neg several

theorem written_ofKeyColumns (given : columns.length = a.columns) (some_ : a.columns ≠ 0) :
    (ofKeyColumns columns).written a = columns.map Value.widen := by
  by_cases nulls : columns.all Value.isNull = true
  · have null : ofKeyColumns columns = .null := if_pos nulls
    rw [null, written_null, map_widen_of_nulls nulls, given]
  · have key : ofKeyColumns columns = .foreignKey (.ofColumns columns) := if_neg nulls
    unfold written
    rw [key, if_neg some_]
    rfl

theorem written_ofDiscriminated {value : AttributeValue} (given : columns.length = a.columns) (some_ : a.columns ≠ 0)
    (read : ofDiscriminated columns = .ok value) : value.written a = canonicalReference columns := by
  unfold ofDiscriminated at read
  split at read
  · cases read
  next discriminator id =>
    rw [canonicalReference]
    split at read
    next nulls =>
      cases read
      rw [written_null, if_pos nulls, map_widen_of_nulls nulls, ← given, List.length_cons, List.replicate_succ]
    next named =>
      split at read
      next entity =>
        cases read
        unfold written
        rw [if_neg some_, if_neg named]
        rfl
      next => cases read

theorem writtenAll_of_nulls {attributes : List Attribute} {values : List AttributeValue}
    (nulls : values.all isNull = true) (aligned : values.length = attributes.length) :
    writtenAll attributes values = List.replicate (columnCount attributes) .null := by
  induction attributes generalizing values with
  | nil => rw [List.eq_nil_of_length_eq_zero aligned]; rfl
  | cons a attributes ih =>
    match values with
    | [] => cases aligned
    | .null :: values =>
      have aligned : values.length = attributes.length := Nat.succ.inj aligned
      have nulls : values.all isNull = true := nulls
      rw [writtenAll, written_null, ih nulls aligned, List.replicate_append_replicate, columnCount]

end AttributeValue

namespace Descriptor
variable {d : Descriptor} {id : Identifier}

mutual

/-- What is read for an attribute stands for the share it is read from. -/
theorem hydrateAttribute_written : ∀ (a : Attribute) (columns : List Value) (value : AttributeValue),
    a.wellSpanned = true → columns.length = a.columns → d.hydrateAttribute id a columns = .ok value →
      value.written a = a.canonical columns
  | .mk name kind storage, columns, value, spanned, given, read => by
    by_cases none_ : (Attribute.mk name kind storage).columns = 0
    · rw [none_] at given
      obtain rfl : columns = [] := List.eq_nil_of_length_eq_zero given
      rw [Attribute.canonical_nil]
      unfold AttributeValue.written
      exact if_pos none_
    · rcases hydrateAttribute_cases read with ⟨lazy, -⟩ | ⟨fetched, reads⟩
      · exact absurd (if_pos lazy) none_
      unfold Attribute.canonical
      rw [if_neg fetched]
      cases reads with
      | basic => exact AttributeValue.written_ofColumns given none_
      | manyToOne | oneToOne => exact AttributeValue.written_ofKeyColumns given none_
      | any found => exact AttributeValue.written_ofDiscriminated given none_ found
      | shared empty =>
        rw [empty] at given
        exact absurd given.symm none_
      | nulls below nulls =>
        obtain ⟨spans, spanned⟩ := Attribute.wellSpanned_embedded fetched spanned
        obtain ⟨aligned, written⟩ := hydrateChildren_written name _ columns _ spanned (given.trans spans) below
        rw [AttributeValue.written_null, spans, ← AttributeValue.writtenAll_of_nulls nulls aligned]
        exact written
      | embedded below =>
        obtain ⟨spans, spanned⟩ := Attribute.wellSpanned_embedded fetched spanned
        obtain ⟨-, written⟩ := hydrateChildren_written name _ columns _ spanned (given.trans spans) below
        unfold AttributeValue.written
        rw [if_neg none_]
        exact written

theorem hydrateChildren_written (owner : String) : ∀ (attributes : List Attribute) (columns : List Value)
    (values : List AttributeValue), allWellSpanned attributes = true → columns.length = columnCount attributes →
      d.hydrateChildren id owner attributes columns = .ok values →
        values.length = attributes.length ∧ AttributeValue.writtenAll attributes values = canonicalAmong attributes columns
  | [], columns, values, _, given, read => by
    unfold hydrateChildren at read
    cases read
    rw [List.eq_nil_of_length_eq_zero given]
    exact ⟨rfl, rfl⟩
  | a :: attributes, columns, values, spanned, given, read => by
    obtain ⟨enough, value, others, first, rest, rfl⟩ := hydrateChildren_cons_ok_iff.mp read
    rw [allWellSpanned, Bool.and_eq_true] at spanned
    rw [columnCount] at given
    have share : (columns.take a.columns).length = a.columns := List.length_take_of_le enough
    have remaining : (columns.drop a.columns).length = columnCount attributes := by rw [List.length_drop]; omega
    obtain ⟨aligned, below⟩ := hydrateChildren_written owner attributes _ others spanned.2 remaining rest
    refine ⟨congrArg (· + 1) aligned, ?_⟩
    rw [AttributeValue.writtenAll, canonicalAmong, below, hydrateAttribute_written a _ value spanned.1 share first]

end

end Descriptor

/-- What has been read of a row stands for the columns of the entity in that row, in order and each of them once. -/
theorem hydration_reads_each_column_once {d : Descriptor} {row : Row} {key : EntityKey} {state : List AttributeValue}
    (spanned : allWellSpanned d.attributes = true) (read : d.hydrateRow row = .ok (key, state)) :
    (row.values.take d.columns).length = d.columns ∧
      d.written key.id state = d.canonical (row.values.take d.columns) := by
  have complete : d.columns ≤ row.values.length := (Descriptor.hydrateRow_fits_iff.mp ⟨key, state, read⟩).complete
  have begins : d.identifier.columns ≤ d.columns := Nat.le_add_right _ _
  have spans : d.columns - d.identifier.columns = columnCount d.attributes := Nat.add_sub_cancel_left _ _
  obtain ⟨-, -, rfl, children⟩ := Descriptor.hydrateRow_ok_iff.mp read
  rw [Descriptor.hydrateState_ok_iff row "", ← Descriptor.hydrateChildren_take] at children
  have given : ((row.values.drop d.identifier.columns).take (columnCount d.attributes)).length = columnCount d.attributes := by
    rw [List.length_take, List.length_drop]
    omega
  obtain ⟨-, attributes⟩ := Descriptor.hydrateChildren_written "" _ _ state spanned given children
  refine ⟨List.length_take_of_le complete, ?_⟩
  rw [Descriptor.written, Descriptor.canonical, attributes, List.take_take, Nat.min_eq_left begins, List.drop_take, spans]
  rfl

namespace Sample

/-- A consignment has a number and a branch. It knows the street and the town it is going to and by whom it was sent, is
carried by someone of whom two columns are known, and has notes that are not selected. -/
def consignment : Descriptor where
  name := "Consignment"
  identifier := { name := "number", columns := 2 }
  attributes := [
    .embedded "destination" "Destination" [
      (Attribute.basic "place").withStorage fun storage => { storage with columns := 2 },
      .embedded "origin" "Origin" [.manyToOne "sender" "Customer"]],
    (Attribute.basic "notes").withStorage fun storage => { storage with lazy := true },
    (Attribute.any "carrier").withStorage fun storage => { storage with columns := 3 },
    .oneToOne "seal" "Seal",
    .manyToOne "insurer" "Insurer"]

/-- The last column belongs to someone else. -/
def consignmentRow : Row where
  values := [.tinyInt 1, .text "East", .text "Mill Lane", .null, .smallInt 4, .text "Driver", .null, .null, .int 7, .bool true]

end Sample

open Sample in
/-- The street stays in its place though no town follows it, and the insurer in its own though there is no driver. -/
theorem hydration_reads_each_column_once_consignment :
    allWellSpanned consignment.attributes = true ∧ ∃ key state, consignment.hydrateRow consignmentRow = .ok (key, state) ∧
      consignment.written key.id state =
        [.bigInt 1, .text "East", .text "Mill Lane", .null, .bigInt 4, .null, .null, .null, .bigInt 7] := by
  obtain ⟨key, state, read⟩ : ∃ key state, consignment.hydrateRow consignmentRow = .ok (key, state) := ⟨_, _, rfl⟩
  exact ⟨rfl, key, state, read, (hydration_reads_each_column_once rfl read).2⟩

end UnitOfWork
