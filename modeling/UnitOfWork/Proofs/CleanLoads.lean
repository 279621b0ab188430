import UnitOfWork.Proofs.FittingRows
import UnitOfWork.Proofs.NulledAttributes
import UnitOfWork.Proofs.ReadOnlyLoads

/-! What dirty checking says of instances that have just been loaded. They hold the state that their snapshots were taken
of, so an attribute is named only if its value differs from itself; those are the values with a NaN in them. -/

namespace UnitOfWork
open UnitOfWork.Action
open AttributeValue (fits fitAll)

theorem Single.equal_self (x : Single) : x.equal x = !x.isNaN := by
  unfold equal
  cases x.isNaN <;> simp

theorem Double.equal_self_eq (x : Double) : x.equal x = !x.isNaN := by
  unfold equal
  cases x.isNaN <;> simp

namespace Value

mutual

/-- It is a NaN or an array with one in it. The numbers in documents are finite. -/
def holdsNaN : Value → Bool
  | .float x => x.isNaN
  | .double x => x.isNaN
  | .array items => anyNaN items
  | _ => false

def anyNaN : List Value → Bool
  | [] => false
  | item :: rest => item.holdsNaN || anyNaN rest

end

mutual

theorem equal_self : ∀ value : Value, value.equal value = !value.holdsNaN
  | .null => rfl
  | .bool _ | .tinyInt _ | .smallInt _ | .int _ | .bigInt _ | .decimal _ | .text _ | .bytes _ | .date _ | .time _
  | .timestamp _ | .timestampTz _ | .uuid _ => by simp [equal, holdsNaN]
  | .float x => x.equal_self
  | .double x => x.equal_self_eq
  | .json document => document.equal_self
  | .array items => equalItems_self items

theorem equalItems_self : ∀ items : List Value, equalItems items items = !anyNaN items
  | [] => rfl
  | item :: rest => by rw [equalItems, anyNaN, equal_self item, equalItems_self rest, Bool.not_or]

end

end Value

theorem Reference.beq_self (r : Reference) : (r == r) = true := by
  cases r with
  | loaded h => exact BEq.rfl (a := h)
  | notLoaded key => exact BEq.rfl (a := key)
  | removed key => exact BEq.rfl (a := key)

namespace AttributeValue

mutual

def holdsNaN : AttributeValue → Bool
  | .basic value => value.holdsNaN
  | .embedded children => anyNaN children
  | _ => false

def anyNaN : List AttributeValue → Bool
  | [] => false
  | value :: rest => value.holdsNaN || anyNaN rest

end

mutual

theorem equal_self : ∀ value : AttributeValue, value.equal value = !value.holdsNaN
  | .null | .unfetched => rfl
  | .basic value => value.equal_self
  | .embedded children => equalAll_self children
  | .reference r => r.beq_self
  | .foreignKey id => BEq.rfl (a := id)
  | .anyKey entity id => by simp [equal, holdsNaN]

theorem equalAll_self : ∀ values : List AttributeValue, equalAll values values = !anyNaN values
  | [] => rfl
  | value :: rest => by rw [equalAll, anyNaN, equal_self value, equalAll_self rest, Bool.not_or]

end

end AttributeValue

/-- The updatable attributes whose values have a NaN in them. -/
def namesHoldingNaN : List Attribute → List AttributeValue → List String
  | a :: attributes, value :: state =>
    (if a.updatable && value.holdsNaN then [a.name] else []) ++ namesHoldingNaN attributes state
  | _, _ => []

theorem Snapshot.changed_keep (attributes : List Attribute) (state : List AttributeValue) :
    changed attributes (keep attributes state) state = namesHoldingNaN attributes state := by
  induction attributes generalizing state with
  | nil => cases state <;> rfl
  | cons a attributes ih =>
    cases state with
    | nil => rfl
    | cons value state => rw [changed_cons, ih, AttributeValue.equal_self, Bool.not_not, namesHoldingNaN]

namespace Metamodel
variable (model : Metamodel) (look : EntityKey → Reference)

mutual

theorem holdsNaN_resolved (a : Attribute) : ∀ value : AttributeValue, fits a value = true →
    (model.resolved look a value).holdsNaN = value.holdsNaN
  | .embedded children, shape => by
    unfold fits at shape
    unfold resolved
    cases kind : a.kind with
    | embedded typeName attributes =>
      rw [kind] at shape
      exact anyNaN_resolvedAll attributes children shape
    | basic | manyToOne _ | oneToOne _ | any => rfl
  | .foreignKey id, _ => by
    unfold resolved
    cases model.targetKey? a (.foreignKey id) <;> rfl
  | .anyKey entity id, _ => by
    unfold resolved
    cases model.targetKey? a (.anyKey entity id) <;> rfl
  | .null, _ | .basic _, _ | .reference _, _ | .unfetched, _ => rfl

theorem anyNaN_resolvedAll : ∀ (attributes : List Attribute) (values : List AttributeValue),
    fitAll attributes values = true →
      AttributeValue.anyNaN (model.resolvedAll look attributes values) = AttributeValue.anyNaN values
  | [], [], _ => rfl
  | a :: attributes, value :: values, shape => by
    unfold fitAll at shape
    obtain ⟨shape, shapes⟩ := Bool.and_eq_true_iff.mp shape
    rw [resolvedAll, AttributeValue.anyNaN, AttributeValue.anyNaN, holdsNaN_resolved a value shape,
      anyNaN_resolvedAll attributes values shapes]
  | [], _ :: _, shape => by cases shape
  | _ :: _, [], shape => by cases shape

end

theorem namesHoldingNaN_resolvedAll {attributes : List Attribute} {values : List AttributeValue}
    (shape : fitAll attributes values = true) :
    namesHoldingNaN attributes (model.resolvedAll look attributes values) = namesHoldingNaN attributes values := by
  induction attributes generalizing values with
  | nil => cases values <;> rfl
  | cons a attributes ih =>
    cases values with
    | nil => rfl
    | cons value values =>
      unfold fitAll at shape
      obtain ⟨shape, shapes⟩ := Bool.and_eq_true_iff.mp shape
      rw [resolvedAll, namesHoldingNaN, namesHoldingNaN, holdsNaN_resolved model look a value shape, ih shapes]

end Metamodel

/-- A column with a NaN in it becomes part of an attribute value. -/
def Share.givesNaN (share : Share) : Bool :=
  match share.owner with
  | .mk _ .basic storage => !storage.lazy && Value.anyNaN share.columns
  | _ => false

/-- The updatable attributes that are given a NaN. -/
def namesGivenNaN : List Attribute → List Value → List String
  | [], _ => []
  | a :: attributes, columns =>
    (if a.updatable && (a.shares (columns.take a.columns)).any Share.givesNaN then [a.name] else []) ++
      namesGivenNaN attributes (columns.drop a.columns)

namespace AttributeValue

theorem holdsNaN_ofColumns : ∀ columns : List Value, (ofColumns columns).holdsNaN = Value.anyNaN columns
  | [] => rfl
  | [column] => by cases column <;> simp [ofColumns, ofValue, holdsNaN, Value.anyNaN, Value.holdsNaN]
  | _ :: _ :: _ => rfl

theorem holdsNaN_ofKeyColumns (columns : List Value) : (ofKeyColumns columns).holdsNaN = false := by
  unfold ofKeyColumns
  split <;> rfl

theorem holdsNaN_ofDiscriminated {columns : List Value} {value : AttributeValue}
    (read : ofDiscriminated columns = .ok value) : value.holdsNaN = false := by
  unfold ofDiscriminated at read
  split at read
  · cases read
  · split at read
    · cases read
      rfl
    · split at read <;> cases read
      rfl

theorem anyNaN_of_nulls {values : List AttributeValue} (nulls : values.all isNull = true) : anyNaN values = false := by
  induction values with
  | nil => rfl
  | cons value values ih =>
    rw [List.all_cons, Bool.and_eq_true] at nulls
    cases value with
    | null => exact ih nulls.2
    | _ => cases nulls.1

end AttributeValue

namespace Descriptor
variable {d : Descriptor} {id : Identifier}

mutual

/-- An attribute has a NaN in it just when it is given one, itself or below. -/
theorem hydrateAttribute_holdsNaN : ∀ (a : Attribute) (columns : List Value) (value : AttributeValue),
    d.hydrateAttribute id a columns = .ok value → value.holdsNaN = (a.shares columns).any Share.givesNaN
  | .mk name kind storage, columns, value, read => by
    unfold Attribute.shares
    rcases hydrateAttribute_cases read with ⟨lazy, rfl⟩ | ⟨fetched, reads⟩
    · rw [if_pos lazy, List.any_cons, List.any_nil, Bool.or_false]
      cases kind <;> simp [Share.givesNaN, lazy, AttributeValue.holdsNaN]
    · rw [if_neg fetched, List.any_cons]
      cases reads with
      | basic => simp [Share.givesNaN, fetched, AttributeValue.holdsNaN_ofColumns]
      | manyToOne | oneToOne => exact AttributeValue.holdsNaN_ofKeyColumns columns
      | shared => rfl
      | any found => exact AttributeValue.holdsNaN_ofDiscriminated found
      | nulls below nulls =>
        exact (AttributeValue.anyNaN_of_nulls nulls).symm.trans (hydrateChildren_anyNaN name _ columns _ below)
      | embedded below => exact hydrateChildren_anyNaN name _ columns _ below

theorem hydrateChildren_anyNaN (owner : String) : ∀ (attributes : List Attribute) (columns : List Value)
    (values : List AttributeValue), d.hydrateChildren id owner attributes columns = .ok values →
      AttributeValue.anyNaN values = (sharesAmong attributes columns).any Share.givesNaN
  | [], columns, values, read => by
    unfold hydrateChildren at read
    cases read
    rfl
  | a :: attributes, columns, values, read => by
    obtain ⟨-, value, others, first, rest, rfl⟩ := hydrateChildren_cons_ok_iff.mp read
    rw [AttributeValue.anyNaN, sharesAmong, List.any_append, hydrateAttribute_holdsNaN a _ value first,
      hydrateChildren_anyNaN owner attributes _ others rest]

end

theorem hydrateState_namesHoldingNaN {row : Row} {attributes : List Attribute} {columns : List Value}
    {values : List AttributeValue} (read : d.hydrateState row id attributes columns = .ok values) :
    namesHoldingNaN attributes values = namesGivenNaN attributes columns := by
  induction attributes generalizing columns values with
  | nil =>
    cases read
    rfl
  | cons a attributes ih =>
    unfold hydrateState at read
    split at read
    · cases read
    · obtain ⟨value, first, read⟩ := bind_ok_iff.mp read
      obtain ⟨others, rest, read⟩ := bind_ok_iff.mp read
      cases read
      rw [namesHoldingNaN, namesGivenNaN, hydrateAttribute_holdsNaN a _ value first, ih rest]

theorem hydrateRow_namesHoldingNaN {row : Row} {key : EntityKey} {values : List AttributeValue}
    (read : d.hydrateRow row = .ok (key, values)) :
    namesHoldingNaN d.attributes values = namesGivenNaN d.attributes (row.values.drop d.identifier.columns) :=
  hydrateState_namesHoldingNaN (hydrateRow_ok_iff.mp read).2.2.2

end Descriptor

theorem Descriptor.Hydrates.source {d : Descriptor} {rows : List (Except Error Row)} {found : List HydratedRow}
    (hydrates : d.Hydrates rows found) : ∀ row ∈ found, ∃ r, .ok r ∈ rows ∧ d.hydrateRow r = .ok (row.key, row.values) := by
  induction hydrates with
  | nil =>
    intro row member
    cases member
  | cons first _ ih =>
    obtain ⟨r, rfl, read⟩ := first
    refine List.forall_mem_cons.mpr ⟨⟨r, List.mem_cons_self, read⟩, fun row member => ?_⟩
    obtain ⟨r, inside, read⟩ := ih row member
    exact ⟨r, List.mem_cons_of_mem _ inside, read⟩

namespace Action
variable {s : State} {h : Handle} {entry : Entry}

theorem dirtyAttributes_unchecked (tracked : s.context.entry? h = some entry) (untaken : entry.snapshot = none) :
    (dirtyAttributes h).exec s = (.ok [], s) := by
  unfold dirtyAttributes
  rw [exec_get_bind, tracked]
  dsimp only
  rw [untaken]
  rfl

end Action

/-- When listeners and hooks write to no instances, dirty checking names those attributes of a new instance that can be
updated and have a NaN in them, unless the instance is read-only, and no others. If nobody listens these are the
attributes that the row gives a NaN. -/
theorem fresh_loads_are_clean_except_for_nan {start s after : State} {moves : List Move} {entity : String} {d : Descriptor}
    {rows : List (Except Error Row)} {options : LoadOptions} {results : List Handle} {h : Handle} (fresh : start.Fresh)
    (run : Run start moves s) (mapped : s.session.descriptor entity = .ok d) (silent : s.Writes (fun _ _ => False) d)
    (loaded : (load entity rows options).exec s = (.ok results, after)) (untracked : s.context.isTracked h = false)
    (tracked : after.context.isTracked h = true) :
    ∃ entry, after.context.entry? h = some entry ∧ entry.loadedState = some (after.heap.values h) ∧
      (dirtyAttributes h).exec after = (.ok (if entry.isReadOnly then []
        else namesHoldingNaN d.attributes (after.heap.values h)), after) ∧
      (s.session.preLoadListeners = [] → ∃ row key values, .ok row ∈ rows ∧ d.hydrateRow row = .ok (key, values) ∧
        entry.key = some key ∧ namesHoldingNaN d.attributes (after.heap.values h) =
          namesGivenNaN d.attributes (row.values.drop d.identifier.columns)) := by
  obtain ⟨_, _, _, _, _, same⟩ := load_session (run.sound fresh.sound) loaded
  obtain ⟨other, found, mapped', hydrates, tracks, -⟩ := load_tracks_rows loaded
  obtain rfl : d = other := Except.ok.inj (mapped.symm.trans mapped')
  obtain ⟨row, state, introduced, loaded⟩ := tracks h untracked tracked
  have maps : after.Maps d := State.Maps.congr (Session.descriptor_name mapped) (by rw [same])
  have held : after.heap.values h = state := congrArg Instance.values (loaded.held silent)
  rw [held]
  refine ⟨_, loaded.entered, rfl, ?_, fun unheard => ?_⟩
  · have entered := loaded.entered
    cases readOnly : loadsReadOnly s.session d row.key options with
    | true =>
      rw [readOnly] at entered
      exact dirtyAttributes_unchecked entered rfl
    | false =>
      rw [readOnly] at entered
      rw [dirtyAttributes_exec entered rfl maps rfl, held, Snapshot.changed_keep]
      rfl
  · obtain ⟨r, given, read⟩ := hydrates.source row introduced.2.mem
    refine ⟨r, row.key, row.values, given, read, rfl, ?_⟩
    have heard := loaded.heard
    rw [unheard] at heard
    cases heard
    rw [Metamodel.namesHoldingNaN_resolvedAll _ _ (Descriptor.hydrateRow_fits read), Descriptor.hydrateRow_namesHoldingNaN read]

namespace Sample

/-- What an instrument shows, and its trend. What it showed first is not updated. -/
def reading : Descriptor where
  name := "Reading"
  identifier := { name := "id" }
  attributes := [.basic "value", .embedded "trend" "Trend" [.basic "slope"],
    (Attribute.basic "first").withStorage fun storage => { storage with updatable := false }]

def station : State where
  heap := ∅
  shared := {}
  session := { factory := { metamodel := ⟨[reading]⟩ } }

def nan : Value := .double ⟨0x7ff8000000000000⟩

def readings : List (Except Error Row) :=
  [.ok { values := [.bool false, .double ⟨0⟩, nan, nan] }, .ok { values := [.bool true, .double ⟨0⟩, .double ⟨0⟩, nan] }]

def measured : State := ((load "Reading" readings {}).exec station).2

end Sample

open Sample in
/-- Of two readings one has a trend that is no number. -/
theorem fresh_loads_are_clean_except_for_nan_readings : Run station [] station ∧
    station.Writes (fun _ _ => False) reading ∧ (load "Reading" readings {}).exec station = (.ok [⟨0⟩, ⟨1⟩], measured) ∧
    (dirtyAttributes ⟨0⟩).exec measured = (.ok ["trend"], measured) ∧
    (dirtyAttributes ⟨1⟩).exec measured = (.ok [], measured) := by
  have unheard : station.Unheard reading := ⟨rfl, rfl, rfl⟩
  have silent := unheard.writes fun _ _ => False
  have answered : ((load "Reading" readings {}).exec station).1.toOption = some [⟨0⟩, ⟨1⟩] := by decide +kernel
  have loaded : (load "Reading" readings {}).exec station = (.ok [⟨0⟩, ⟨1⟩], measured) := exec_of_toOption answered
  have checked (h : Handle) (untracked : station.context.isTracked h = false)
      (managed : (measured.context.entry? h).map (·.isReadOnly) = some false) :
      (dirtyAttributes h).exec measured = (.ok (namesHoldingNaN reading.attributes (measured.heap.values h)), measured) := by
    have tracked : measured.context.isTracked h = true := by
      rw [Context.isTracked_eq, ← Option.isSome_map, managed, Option.isSome_some]
    obtain ⟨entry, entered, -, checked, -⟩ :=
      fresh_loads_are_clean_except_for_nan ⟨rfl, rfl, rfl⟩ .start rfl silent loaded untracked tracked
    rw [entered] at managed
    rw [checked, show entry.isReadOnly = false from Option.some.inj managed, if_neg Bool.false_ne_true]
  have first : namesHoldingNaN reading.attributes (measured.heap.values ⟨0⟩) = ["trend"] := by decide +kernel
  have second : namesHoldingNaN reading.attributes (measured.heap.values ⟨1⟩) = [] := by decide +kernel
  refine ⟨.start, silent, loaded, ?_, ?_⟩
  · rw [checked ⟨0⟩ rfl (by decide +kernel), first]
  · rw [checked ⟨1⟩ rfl (by decide +kernel), second]

open Sample in
/-- A reading that is no number is loaded from a row, with no listeners and no hook, and counts as changed at once. -/
theorem nan_reading_is_dirty : ∃ after, Run station [] station ∧ station.Unheard reading ∧
    (load "Reading" [.ok { values := [.bool true, nan, .null, .null] }] {}).exec station = (.ok [⟨0⟩], after) ∧
    station.context.isTracked ⟨0⟩ = false ∧ after.context.isTracked ⟨0⟩ = true ∧
    (dirtyAttributes ⟨0⟩).exec after = (.ok ["value"], after) :=
  ⟨_, .start, ⟨rfl, rfl, rfl⟩, rfl, rfl, rfl, rfl⟩

end UnitOfWork
