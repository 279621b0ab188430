import UnitOfWork.Proofs.LoadedReferences

/-! Renaming instances. Values refer to instances by handles, and which handle an instance has depends on how many
were created before it. What is read from a row names no instance, and neither does what is cached; entries,
snapshots and resolved values are renamed along. -/

namespace UnitOfWork
open AttributeValue (fits fitAll)

variable (names : Handle → Handle)

def Reference.rename : Reference → Reference
  | .loaded h => .loaded (names h)
  | .notLoaded key => .notLoaded key
  | .removed key => .removed key

namespace AttributeValue

mutual

def rename : AttributeValue → AttributeValue
  | .reference target => .reference (target.rename names)
  | .embedded children => .embedded (renameAll children)
  | value => value

def renameAll : List AttributeValue → List AttributeValue
  | [] => []
  | value :: rest => value.rename :: renameAll rest

end

mutual

theorem rename_of_fits (a : Attribute) : ∀ (value : AttributeValue), fits a value = true → value.rename names = value
  | .embedded children, shape => by
    unfold fits at shape
    unfold rename
    split at shape
    next => rw [renameAll_of_fitAll _ children shape]
    next => cases shape
  | .reference _, shape => by cases shape
  | .null, _ | .basic _, _ | .foreignKey _, _ | .anyKey _ _, _ | .unfetched, _ => rfl

theorem renameAll_of_fitAll : ∀ (attributes : List Attribute) (values : List AttributeValue),
    fitAll attributes values = true → renameAll names values = values
  | a :: attributes, value :: values, shape => by
    unfold fitAll at shape
    obtain ⟨shape, shapes⟩ := Bool.and_eq_true_iff.mp shape
    unfold renameAll
    rw [rename_of_fits a value shape, renameAll_of_fitAll attributes values shapes]
  | [], [], _ => rfl
  | [], _ :: _, shape => by cases shape
  | _ :: _, [], shape => by cases shape

end

mutual

/-- The instances that a value refers to. -/
def handles : AttributeValue → List Handle
  | .reference (.loaded h) => [h]
  | .embedded children => handlesAmong children
  | _ => []

def handlesAmong : List AttributeValue → List Handle
  | [] => []
  | value :: rest => value.handles ++ handlesAmong rest

end

mutual

theorem rename_eq_self : ∀ (value : AttributeValue), (∀ h ∈ value.handles, names h = h) → value.rename names = value
  | .reference (.loaded h), fixed =>
    congrArg (fun h => reference (.loaded h)) (fixed h (List.mem_singleton_self h))
  | .embedded children, fixed => by
    unfold rename
    rw [renameAll_eq_self children fixed]
  | .reference (.notLoaded _), _ | .reference (.removed _), _ => rfl
  | .null, _ | .basic _, _ | .foreignKey _, _ | .anyKey _ _, _ | .unfetched, _ => rfl

theorem renameAll_eq_self : ∀ (values : List AttributeValue), (∀ h ∈ handlesAmong values, names h = h) →
    renameAll names values = values
  | [], _ => rfl
  | value :: rest, fixed => by
    unfold renameAll
    rw [rename_eq_self value fun h member => fixed h (List.mem_append_left _ member),
      renameAll_eq_self rest fun h member => fixed h (List.mem_append_right _ member)]

end

theorem renameAll_eq_map (values : List AttributeValue) : renameAll names values = values.map (rename names) := by
  induction values with
  | nil => rfl
  | cons value rest ih => rw [renameAll, ih, List.map_cons]

theorem renameAll_replicate (count : Nat) : renameAll names (List.replicate count .null) = List.replicate count .null := by
  rw [renameAll_eq_map, List.map_replicate]
  rfl

end AttributeValue

open AttributeValue (renameAll)

namespace Metamodel
variable {model : Metamodel} {names : Handle → Handle} {look other : EntityKey → Reference}

mutual

theorem resolved_rename (renamed : ∀ key, other key = (look key).rename names) (a : Attribute) :
    ∀ (value : AttributeValue), fits a value = true →
      model.resolved other a value = (model.resolved look a value).rename names
  | .embedded children, shape => by
    unfold fits at shape
    unfold resolved
    cases kind : a.kind with
    | embedded typeName attributes =>
      rw [kind] at shape
      exact congrArg AttributeValue.embedded (resolvedAll_rename renamed attributes children shape)
    | basic | manyToOne _ | oneToOne _ | any =>
      rw [kind] at shape
      cases shape
  | .foreignKey id, _ => by
    unfold resolved
    cases model.targetKey? a (.foreignKey id) with
    | some key => exact congrArg AttributeValue.reference (renamed key)
    | none => rfl
  | .anyKey entity id, _ => by
    unfold resolved
    cases model.targetKey? a (.anyKey entity id) with
    | some key => exact congrArg AttributeValue.reference (renamed key)
    | none => rfl
  | .reference _, shape => by cases shape
  | .null, _ | .basic _, _ | .unfetched, _ => rfl

/-- Keys resolved to renamed instances give renamed values. -/
theorem resolvedAll_rename (renamed : ∀ key, other key = (look key).rename names) :
    ∀ (attributes : List Attribute) (values : List AttributeValue), fitAll attributes values = true →
      model.resolvedAll other attributes values = renameAll names (model.resolvedAll look attributes values)
  | a :: attributes, value :: values, shape => by
    unfold fitAll at shape
    obtain ⟨shape, shapes⟩ := Bool.and_eq_true_iff.mp shape
    unfold resolvedAll renameAll
    rw [resolved_rename renamed a value shape, resolvedAll_rename renamed attributes values shapes]
  | [], [], _ => rfl
  | [], _ :: _, shape => by cases shape
  | _ :: _, [], shape => by cases shape

end

end Metamodel

def Instance.rename (x : Instance) : Instance := { x with values := renameAll names x.values }

def Snapshot.rename (snapshot : Snapshot) : Snapshot :=
  ⟨snapshot.slots.map fun slot => slot.map (AttributeValue.rename names)⟩

def Entry.rename (entry : Entry) : Entry :=
  { entry with
    loadedState := entry.loadedState.map (renameAll names)
    snapshot := entry.snapshot.map (Snapshot.rename names) }

theorem Snapshot.take_rename (d : Descriptor) (state : List AttributeValue) :
    Snapshot.take d (renameAll names state) = (Snapshot.take d state).rename names := by
  have kept : ∀ (attributes : List Attribute) (state : List AttributeValue),
      Snapshot.keep attributes (renameAll names state) =
        (Snapshot.keep attributes state).map fun slot => slot.map (AttributeValue.rename names) := by
    intro attributes state
    induction state generalizing attributes with
    | nil => cases attributes <;> rfl
    | cons value rest ih =>
      cases attributes with
      | nil => simp only [renameAll, Snapshot.keep, ih, List.map_cons, Option.map_none]
      | cons a attributes =>
        simp only [renameAll, Snapshot.keep, ih, List.map_cons]
        split <;> rfl
  exact congrArg Snapshot.mk (kept d.attributes state)

theorem Descriptor.versionOf_rename (d : Descriptor) (state : List AttributeValue) :
    d.versionOf (renameAll names state) = d.versionOf state := by
  unfold versionOf
  cases d.versionIndex? with
  | none => rfl
  | some index =>
    simp only [AttributeValue.renameAll_eq_map, List.getElem?_map, Option.bind_eq_bind,
      Option.bind_some]
    cases state[index]? with
    | none => rfl
    | some value => cases value <;> rfl

namespace CachedValue
variable {names : Handle → Handle} {heap other : Heap}

mutual

theorem ofAttribute_rename (same : ∀ h, other.id? (names h) = heap.id? h ∧ other.entity (names h) = heap.entity h) :
    ∀ (value : AttributeValue), ofAttribute other (value.rename names) = ofAttribute heap value
  | .reference (.loaded h) => by
    simp only [AttributeValue.rename, Reference.rename, ofAttribute, ofReference, (same h).1, (same h).2]
  | .embedded children => by
    unfold AttributeValue.rename ofAttribute
    rw [ofAttributes_rename same children]
  | .reference (.notLoaded _) | .reference (.removed _) => rfl
  | .null | .basic _ | .foreignKey _ | .anyKey _ _ | .unfetched => rfl

theorem ofAttributes_rename (same : ∀ h, other.id? (names h) = heap.id? h ∧ other.entity (names h) = heap.entity h) :
    ∀ (values : List AttributeValue), ofAttributes other (renameAll names values) = ofAttributes heap values
  | [] => rfl
  | value :: rest => by
    unfold renameAll ofAttributes
    rw [ofAttribute_rename same value, ofAttributes_rename same rest]

end

end CachedValue

theorem HydratedRow.entry_rename (row : HydratedRow) (d : Descriptor) (options : LoadOptions) (readOnly : Bool)
    (state : List AttributeValue) :
    row.entry d options readOnly (renameAll names state) = (row.entry d options readOnly state).rename names := by
  cases readOnly with
  | true => rfl
  | false =>
    unfold entry Entry.rename
    simp only [Bool.false_eq_true, if_false, Option.map_some, Snapshot.take_rename]

/-- Two sessions that were one hold the same, up to the names of the instances that each has created since. -/
structure Renamed (names : Handle → Handle) (start a b : State) : Prop where
  keeps : ∀ h ∈ start.heap, names h = h
  creates : ∀ h ∈ a.heap, h ∉ start.heap → names h ∈ b.heap ∧ names h ∉ start.heap
  injective : ∀ x ∈ a.heap, ∀ y ∈ a.heap, names x = names y → x = y
  standing : ∀ key, b.context.entity? key = (a.context.entity? key).map names
  entries : ∀ h ∈ start.heap, b.context.entry? h = a.context.entry? h
  instances : ∀ h ∈ start.heap, b.heap.read h = a.heap.read h
  newEntries : ∀ h ∈ a.heap, h ∉ start.heap →
    b.context.entry? (names h) = (a.context.entry? h).map (Entry.rename names)
  newInstances : ∀ h ∈ a.heap, h ∉ start.heap → b.heap.read (names h) = (a.heap.read h).rename names
  proxies : ∀ key, b.context.proxy? key = a.context.proxy? key

end UnitOfWork
