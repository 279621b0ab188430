import UnitOfWork.Proofs.FittingRows
import UnitOfWork.Proofs.LoadResults

/-! What becomes of the keys in loaded rows. If nobody interferes, each key at whatever depth is replaced by the
instance that stands for the row it leads to, be it older or of the same load, by a mark that the row is being
deleted, or by a proxy; all other values are as they were read. -/

namespace UnitOfWork
open UnitOfWork.Action

namespace AttributeValue

/-- Neither a key nor made of attributes of its own. -/
def isPlain : AttributeValue → Bool
  | .foreignKey _ | .anyKey _ _ | .embedded _ => false
  | _ => true

mutual

/-- A value as it is read from a row refers to no instance, and has attributes of its own only where the
attribute has. -/
def fits (a : Attribute) : AttributeValue → Bool
  | .reference _ => false
  | .embedded children =>
    match a.kind with
    | .embedded _ attributes => fitAll attributes children
    | _ => false
  | _ => true

def fitAll : List Attribute → List AttributeValue → Bool
  | a :: attributes, value :: values => fits a value && fitAll attributes values
  | [], [] => true
  | _, _ => false

end

end AttributeValue

open AttributeValue (fits fitAll)

theorem AttributeValue.isUnresolved_of_isPlain {value : AttributeValue} (plain : value.isPlain = true) :
    value.isUnresolved = false := by
  cases value with
  | foreignKey | anyKey | embedded => cases plain
  | null | basic | reference | unfetched => rfl

namespace AttributeValue

theorem fits_ofColumns (a : Attribute) (columns : List Value) : fits a (ofColumns columns) = true := by
  unfold ofColumns
  split
  · rfl
  · unfold ofValue
    split <;> rfl
  · rfl

theorem fits_ofKeyColumns (a : Attribute) (columns : List Value) : fits a (ofKeyColumns columns) = true := by
  unfold ofKeyColumns
  split <;> rfl

theorem fits_ofDiscriminated {columns : List Value} {value : AttributeValue} (a : Attribute)
    (read : ofDiscriminated columns = .ok value) : fits a value = true := by
  unfold ofDiscriminated at read
  split at read
  · cases read
  · split at read
    · cases read
      rfl
    · split at read
      · cases read
        rfl
      · cases read

end AttributeValue

namespace Descriptor
variable {d : Descriptor} {id : Identifier}

mutual

theorem hydrateAttribute_fits : ∀ (a : Attribute) (columns : List Value) (value : AttributeValue),
    d.hydrateAttribute id a columns = .ok value → fits a value = true
  | .mk name kind storage, columns, value, read => by
    rcases hydrateAttribute_cases read with ⟨-, rfl⟩ | ⟨-, reads⟩
    · rfl
    · cases reads with
      | basic => exact AttributeValue.fits_ofColumns _ columns
      | manyToOne | oneToOne => exact AttributeValue.fits_ofKeyColumns _ columns
      | any found => exact AttributeValue.fits_ofDiscriminated _ found
      | embedded below => exact hydrateChildren_fits name _ columns _ below
      | shared | nulls => rfl

theorem hydrateChildren_fits (owner : String) : ∀ (attributes : List Attribute) (columns : List Value)
    (values : List AttributeValue), d.hydrateChildren id owner attributes columns = .ok values →
      fitAll attributes values = true
  | [], columns, values, read => by
    unfold hydrateChildren at read
    cases read
    rfl
  | a :: attributes, columns, values, read => by
    obtain ⟨-, value, others, first, rest, rfl⟩ := hydrateChildren_cons_ok_iff.mp read
    rw [fitAll, hydrateAttribute_fits a _ value first, hydrateChildren_fits owner attributes _ others rest]
    rfl

end

theorem hydrateRow_fits {row : Row} {key : EntityKey} {values : List AttributeValue}
    (read : d.hydrateRow row = .ok (key, values)) : fitAll d.attributes values = true := by
  obtain ⟨-, -, -, read⟩ := hydrateRow_ok_iff.mp read
  exact hydrateChildren_fits "" _ _ _ ((hydrateState_ok_iff row "" _ _ _).mp read)

theorem hydrateRow_rooted {row : Row} {key : EntityKey} {values : List AttributeValue}
    (read : d.hydrateRow row = .ok (key, values)) : key.entity = d.rootName := by
  obtain ⟨-, -, rfl, -⟩ := hydrateRow_ok_iff.mp read
  rfl

end Descriptor

mutual

/-- A value as a session holds it, with its keys replaced by what the session has for the rows they lead to. -/
inductive Linked (model : Metamodel) (context : Context) : Attribute → AttributeValue → AttributeValue → Prop
  | loaded {a : Attribute} {value : AttributeValue} {key : EntityKey} {h : Handle} {entry : Entry}
      (target : model.targetKey? a value = some key) (standing : context.entity? key = some h)
      (tracked : context.entry? h = some entry) (alive : entry.status.isDeletedOrGone = false) :
      Linked model context a value (.reference (.loaded h))
  | removed {a : Attribute} {value : AttributeValue} {key : EntityKey} {h : Handle} {entry : Entry}
      (target : model.targetKey? a value = some key) (standing : context.entity? key = some h)
      (tracked : context.entry? h = some entry) (dead : entry.status.isDeletedOrGone = true) :
      Linked model context a value (.reference (.removed key))
  | notLoaded {a : Attribute} {value : AttributeValue} {key : EntityKey} {readOnly : Bool}
      (target : model.targetKey? a value = some key) (missing : context.entity? key = none)
      (marked : context.proxy? key = some readOnly) : Linked model context a value (.reference (.notLoaded key))
  | embedded {a : Attribute} {typeName : String} {attributes : List Attribute} {children linked : List AttributeValue}
      (kind : a.kind = .embedded typeName attributes) (below : LinkedAll model context attributes children linked) :
      Linked model context a (.embedded children) (.embedded linked)
  | plain {a : Attribute} {value : AttributeValue} (leaf : value.isPlain = true) : Linked model context a value value

inductive LinkedAll (model : Metamodel) (context : Context) :
    List Attribute → List AttributeValue → List AttributeValue → Prop
  | nil : LinkedAll model context [] [] []
  | cons {a : Attribute} {attributes : List Attribute} {value held : AttributeValue}
      {values others : List AttributeValue} (first : Linked model context a value held)
      (rest : LinkedAll model context attributes values others) :
      LinkedAll model context (a :: attributes) (value :: values) (held :: others)

end

theorem State.Sound.standing_old {s : State} (sound : s.Sound) {key : EntityKey} {h : Handle}
    (standing : s.context.entity? key = some h) : h ∈ s.heap := by
  obtain ⟨entry, tracked⟩ := sound.coherent.tracked standing
  apply sound.allocated
  rw [tracked]
  exact nofun

section
variable {model : Metamodel} {context : Context}

theorem Linked.of_key {a : Attribute} {value : AttributeValue} {key : EntityKey} (coherent : context.Coherent)
    (target : model.targetKey? a value = some key)
    (marked : context.entity? key = none → ∃ readOnly, context.proxy? key = some readOnly) :
    Linked model context a value (.reference (context.referenceTo key)) := by
  unfold Context.referenceTo
  cases standing : context.entity? key with
  | none =>
    obtain ⟨readOnly, marked⟩ := marked standing
    exact .notLoaded target standing marked
  | some h =>
    obtain ⟨entry, tracked⟩ := coherent.tracked standing
    dsimp only
    rw [tracked, Option.any_some]
    cases removed : entry.status.isDeletedOrGone with
    | true => exact .removed target standing tracked removed
    | false => exact .loaded target standing tracked removed

mutual

/-- Resolving links every key, once there are proxies for the rows without an instance. -/
theorem Linked.of_resolved (coherent : context.Coherent) (a : Attribute) : ∀ (value : AttributeValue),
    fits a value = true → model.leads a value = true →
      (∀ key ∈ model.keysBelow a value, context.entity? key = none → ∃ readOnly, context.proxy? key = some readOnly) →
        Linked model context a value (model.resolved context.referenceTo a value)
  | .foreignKey id, shape, sound, marked => by
    obtain ⟨key, target⟩ := Option.isSome_iff_exists.mp (by simpa only [Metamodel.leads] using sound)
    unfold Metamodel.keysBelow at marked
    unfold Metamodel.resolved
    rw [target] at marked ⊢
    exact .of_key coherent target (marked key (List.mem_singleton_self _))
  | .anyKey entity id, shape, sound, marked => by
    obtain ⟨key, target⟩ := Option.isSome_iff_exists.mp (by simpa only [Metamodel.leads] using sound)
    unfold Metamodel.keysBelow at marked
    unfold Metamodel.resolved
    rw [target] at marked ⊢
    exact .of_key coherent target (marked key (List.mem_singleton_self _))
  | .embedded children, shape, sound, marked => by
    unfold fits at shape
    unfold Metamodel.leads at sound
    unfold Metamodel.keysBelow at marked
    unfold Metamodel.resolved
    cases kind : a.kind with
    | embedded typeName attributes =>
      rw [kind] at shape sound marked
      exact .embedded kind (LinkedAll.of_resolved coherent attributes children shape sound marked)
    | basic | manyToOne _ | oneToOne _ | any =>
      rw [kind] at shape
      cases shape
  | .reference _, shape, _, _ => by cases shape
  | .null, _, _, _ | .basic _, _, _, _ | .unfetched, _, _, _ => .plain rfl

theorem LinkedAll.of_resolved (coherent : context.Coherent) : ∀ (attributes : List Attribute)
    (values : List AttributeValue), fitAll attributes values = true → model.leadAll attributes values = true →
      (∀ key ∈ model.keysAmong attributes values, context.entity? key = none →
        ∃ readOnly, context.proxy? key = some readOnly) →
        LinkedAll model context attributes values (model.resolvedAll context.referenceTo attributes values)
  | a :: attributes, value :: values, shape, sound, marked => by
    unfold fitAll at shape
    unfold Metamodel.leadAll at sound
    unfold Metamodel.keysAmong at marked
    unfold Metamodel.resolvedAll
    obtain ⟨shape, shapes⟩ := Bool.and_eq_true_iff.mp shape
    obtain ⟨sound, sounds⟩ := Bool.and_eq_true_iff.mp sound
    refine .cons (Linked.of_resolved coherent a value shape sound fun key member => ?_)
      (LinkedAll.of_resolved coherent attributes values shapes sounds fun key member => ?_)
    · exact marked key (List.mem_append_left _ member)
    · exact marked key (List.mem_append_right _ member)
  | [], [], _, _, _ => .nil
  | [], _ :: _, shape, _, _ => by cases shape
  | _ :: _, [], shape, _, _ => by cases shape

end

mutual

theorem Linked.not_unresolved {a : Attribute} {value held : AttributeValue} :
    Linked model context a value held → held.isUnresolved = false
  | .loaded .. | .removed .. | .notLoaded .. => rfl
  | .embedded _ below => below.not_unresolved
  | .plain leaf => AttributeValue.isUnresolved_of_isPlain leaf

theorem LinkedAll.not_unresolved {attributes : List Attribute} {values held : List AttributeValue} :
    LinkedAll model context attributes values held → AttributeValue.anyUnresolved held = false
  | .nil => rfl
  | .cons first rest => by
    rw [AttributeValue.anyUnresolved, first.not_unresolved, rest.not_unresolved]
    rfl

end

end

/-- Nobody hears of the loading of an entity. -/
structure State.Unheard (s : State) (d : Descriptor) : Prop where
  preLoad : s.session.preLoadListeners = []
  postLoad : s.session.postLoadListeners = []
  hook : d.afterInitialize = none

theorem State.Unheard.writes {s : State} {d : Descriptor} (unheard : s.Unheard d) (may : Handle → Handle → Prop) :
    s.Writes may d where
  preLoad listener member := by
    rw [unheard.preLoad] at member
    cases member
  postLoad listener member := by
    rw [unheard.postLoad] at member
    cases member
  hook hook given := by
    rw [unheard.hook] at given
    cases given

theorem State.Unheard.of_session {d : Descriptor} {before after : State} (unheard : before.Unheard d)
    (preLoad : after.session.preLoadListeners = before.session.preLoadListeners)
    (postLoad : after.session.postLoadListeners = before.session.postLoadListeners) : after.Unheard d :=
  ⟨preLoad.trans unheard.preLoad, postLoad.trans unheard.postLoad, unheard.hook⟩

theorem RowLoaded.state_eq {before after : State} {d : Descriptor} {options : LoadOptions} {row : HydratedRow}
    {state : List AttributeValue} {h : Handle} (loaded : RowLoaded before d options row state h after)
    (unheard : before.Unheard d) : state =
      before.session.factory.metamodel.resolvedAll after.context.referenceTo d.attributes row.values := by
  have heard := loaded.heard
  rw [unheard.preLoad] at heard
  cases heard
  rfl

theorem Descriptor.Hydrates.fits {d : Descriptor} {rows : List (Except Error Row)} {found : List HydratedRow}
    (hydrates : d.Hydrates rows found) : ∀ row ∈ found, fitAll d.attributes row.values = true := by
  induction hydrates with
  | nil =>
    intro row member
    cases member
  | cons first _ ih =>
    obtain ⟨r, -, read⟩ := first
    exact List.forall_mem_cons.mpr ⟨hydrateRow_fits read, ih⟩

theorem Descriptor.Hydrates.unique {d : Descriptor} {rows : List (Except Error Row)} {found others : List HydratedRow}
    (hydrates : d.Hydrates rows found) (again : d.Hydrates rows others) : found = others := by
  induction hydrates generalizing others with
  | nil =>
    cases again
    rfl
  | @cons given row _ _ first _ ih =>
    cases again with
    | @cons _ other _ _ second rest =>
      obtain ⟨r, rfl, read⟩ := first
      obtain ⟨_, same, again⟩ := second
      cases same
      rw [read] at again
      cases row
      cases other
      cases again
      rw [ih rest]

/-- A proxy is added for a row exactly if no instance stands for it and a key of a newly loaded row leads to it. -/
theorem Admitted.proxies {start s after : State} {d : Descriptor} {options : LoadOptions} {rows : List HydratedRow}
    {progress : LoadProgress} (admitted : Admitted start d options rows progress s)
    (initialized : Initialized options progress.batch.entities s after) (key : EntityKey) (readOnly : Bool) :
    after.context.proxy? key = some readOnly ↔ start.context.proxy? key = some readOnly ∨
      start.context.proxy? key = none ∧ readOnly = start.session.config.readOnly ∧ after.context.entity? key = none ∧
        ∃ row, start.Introduces rows row ∧
          (start.session.factory.metamodel.keysAmong d.attributes row.values).any (· == key) = true := by
  have proxies : s.context.proxy? key = start.context.proxy? key := by
    unfold State.context
    rw [admitted.registers.session]
    rfl
  have reached : s.session.factory.metamodel.reaches progress.batch.entities key = true ↔ ∃ row,
      start.Introduces rows row ∧
        (start.session.factory.metamodel.keysAmong d.attributes row.values).any (· == key) = true := by
    rw [Metamodel.reaches, List.any_eq_true, admitted.factory]
    constructor
    · rintro ⟨entity, member, led⟩
      refine ⟨entity.row, (admitted.introduced entity.row).mp ⟨entity, member, rfl⟩, ?_⟩
      rw [← admitted.described entity member]
      exact led
    · rintro ⟨row, introduced, led⟩
      obtain ⟨entity, member, rfl⟩ := (admitted.introduced row).mpr introduced
      rw [← admitted.described entity member] at led
      exact ⟨entity, member, led⟩
  rw [initialized.marked key, proxies, admitted.config, initialized.entity? key, ← reached]
  cases start.context.proxy? key <;> cases s.context.entity? key <;>
    cases s.session.factory.metamodel.reaches progress.batch.entities key <;> simp [eq_comm]

/-- A load that nobody hears of leaves no key in a new instance. Each is replaced by what the session has for the
row it leads to, rows of the same load included, and the other values are as they were read. Proxies are added
for the rows that such a key leads to and no instance stands for, and for no others. -/
theorem load_links_keys {start s after : State} {moves : List Move} {entity : String} {d : Descriptor}
    {rows : List (Except Error Row)} {options : LoadOptions} {results : List Handle} (fresh : start.Fresh)
    (run : Run start moves s) (mapped : s.session.descriptor entity = .ok d) (unheard : s.Unheard d)
    (loaded : (load entity rows options).exec s = (.ok results, after)) :
    ∃ found, d.Hydrates rows found ∧
      (∀ h, s.context.entry? h = none → after.context.isTracked h = true → ∃ row entry, s.Introduces found row ∧
        after.context.entity? row.key = some h ∧ after.context.entry? h = some entry ∧
        entry.status.isDeletedOrGone = false ∧ AttributeValue.anyUnresolved (after.heap.values h) = false ∧
        LinkedAll s.session.factory.metamodel after.context d.attributes row.values (after.heap.values h)) ∧
      (∀ h ∈ s.heap, after.context.entry? h = s.context.entry? h) ∧
      (∀ key, after.context.entity? key = none ↔
        s.context.entity? key = none ∧ ∀ row ∈ found, (row.key == key) = false) ∧
      ∀ key readOnly, after.context.proxy? key = some readOnly ↔ s.context.proxy? key = some readOnly ∨
        s.context.proxy? key = none ∧ readOnly = s.session.config.readOnly ∧ after.context.entity? key = none ∧
          ∃ row, s.Introduces found row ∧
            (s.session.factory.metamodel.keysAmong d.attributes row.values).any (· == key) = true := by
  have sound := run.sound fresh.sound
  have coherent := (load_sound sound loaded).1.coherent
  obtain ⟨other, found, progress, middle, same, hydrates, admitted, initialized, rfl⟩ := load_ok loaded
  obtain rfl : d = other := Except.ok.inj (mapped.symm.trans same)
  refine ⟨found, hydrates, fun h untracked tracked => ?_, fun h old => ?_, fun key => ?_, admitted.proxies initialized⟩
  · by_cases created : ∃ entity ∈ progress.batch.entities, entity.handle = h
    · obtain ⟨entity, member, rfl⟩ := created
      have introduced := (admitted.introduced entity.row).mp ⟨entity, member, rfl⟩
      obtain ⟨state, loaded⟩ := admitted.row_loaded initialized member
      have held : after.heap.values entity.handle = state :=
        congrArg Instance.values (loaded.held (unheard.writes _))
      have leads := initialized.sound entity member
      rw [LoadingEntity.leads, admitted.factory, admitted.described entity member] at leads
      have linked : LinkedAll s.session.factory.metamodel after.context d.attributes entity.row.values state := by
        rw [loaded.state_eq unheard]
        refine .of_resolved coherent _ _ (hydrates.fits entity.row introduced.2.mem) leads fun key member missing => ?_
        cases unmarked : s.context.proxy? key with
        | some readOnly => exact ⟨readOnly, (admitted.proxies initialized key readOnly).mpr (.inl unmarked)⟩
        | none =>
          refine ⟨_, (admitted.proxies initialized key _).mpr (.inr ⟨unmarked, rfl, missing, entity.row, introduced, ?_⟩)⟩
          exact List.any_eq_true.mpr ⟨key, member, BEq.rfl⟩
      rw [held]
      refine ⟨entity.row, _, introduced, loaded.standing, loaded.entered, ?_, linked.not_unresolved, linked⟩
      unfold HydratedRow.entry
      cases loadsReadOnly s.session d entity.row.key options <;> rfl
    · have others : ∀ entity ∈ progress.batch.entities, entity.handle ≠ h :=
        fun entity member same => created ⟨entity, member, same⟩
      rw [Context.isTracked_eq, admitted.others initialized others, untracked] at tracked
      cases tracked
  · exact admitted.others initialized (admitted.not_created old)
  · rw [initialized.entity?]
    exact admitted.entity?_eq_none key

namespace Sample

def orderRow (id customer : Bool) : Except Error Row := .ok { values := [.bool id, .bool customer] }

def withCustomer : State := (Move.load "Customer" [customerRow true] {}).perform (start #[])

end Sample

open Sample in
/-- The customer of one order is loaded, that of the other is not. -/
theorem load_links_keys_of_orders : ∃ after, Run (start #[]) [.load "Customer" [customerRow true] {}] withCustomer ∧
    withCustomer.Unheard order ∧
    (load "Order" [orderRow true true, orderRow false false] {}).exec withCustomer = (.ok [⟨1⟩, ⟨2⟩], after) ∧
    withCustomer.context.entry? ⟨1⟩ = none ∧ after.context.isTracked ⟨1⟩ = true ∧
    AttributeValue.anyUnresolved (after.heap.values ⟨1⟩) = false ∧
    (∃ row, LinkedAll ⟨[customer, order]⟩ after.context order.attributes row (after.heap.values ⟨1⟩)) ∧
    after.context.entry? ⟨0⟩ = withCustomer.context.entry? ⟨0⟩ := by
  have run : Run (start #[]) [.load "Customer" [customerRow true] {}] withCustomer := Run.start.extend _ trivial
  have unheard : withCustomer.Unheard order := ⟨rfl, rfl, rfl⟩
  have answered : ((load "Order" [orderRow true true, orderRow false false] {}).exec withCustomer).1.toOption =
      some [⟨1⟩, ⟨2⟩] := by decide +kernel
  have loaded := exec_of_toOption answered
  have tracked : ((load "Order" [orderRow true true, orderRow false false] {}).exec
      withCustomer).2.context.isTracked ⟨1⟩ = true := by decide +kernel
  obtain ⟨found, -, linked, kept, -, -⟩ := load_links_keys (start_fresh _) run rfl unheard loaded
  obtain ⟨row, entry, -, -, -, -, resolved, all⟩ := linked ⟨1⟩ rfl tracked
  exact ⟨_, run, unheard, loaded, rfl, tracked, resolved, ⟨row.values, all⟩, kept ⟨0⟩ Nat.zero_lt_one⟩

end UnitOfWork
