import Mathlib.Data.List.Forall2
import UnitOfWork.Proofs.KeyResolution

/-! The first pass of a load. Each row yields an instance at once: one that the session has, the one of an
earlier row of the load, or a new one, which is tracked from then on. So after the pass an instance stands for
every row, and what was tracked before is as it was. -/

namespace UnitOfWork

/-- A row turned into its key and the values of its attributes. -/
structure HydratedRow where
  key : EntityKey
  values : List AttributeValue

/-- A row source gave these rows, and each could be hydrated. -/
def Descriptor.Hydrates (d : Descriptor) (rows : List (Except Error Row)) (found : List HydratedRow) : Prop :=
  List.Forall₂ (fun given row => ∃ r, given = .ok r ∧ d.hydrateRow r = .ok (row.key, row.values)) rows found

/-- No earlier row of the list has its key. -/
def HydratedRow.IsFirst (row : HydratedRow) (rows : List HydratedRow) : Prop :=
  ∃ before later, rows = before ++ row :: later ∧ ∀ other ∈ before, (other.key == row.key) = false

theorem HydratedRow.isFirst_append {row : HydratedRow} {rows : List HydratedRow} (last : HydratedRow) :
    row.IsFirst (rows ++ [last]) ↔
      row.IsFirst rows ∨ row = last ∧ ∀ other ∈ rows, (other.key == last.key) = false := by
  constructor
  · rintro ⟨before, later, split_, first⟩
    rcases List.eq_nil_or_concat later with rfl | ⟨later, tail, rfl⟩
    · obtain ⟨rfl, same⟩ := List.append_inj' split_ rfl
      obtain rfl : last = row := (List.cons.inj same).1
      exact .inr ⟨rfl, first⟩
    · rw [List.concat_eq_append, ← List.cons_append, ← List.append_assoc] at split_
      obtain ⟨rfl, -⟩ := List.append_inj' split_ rfl
      exact .inl ⟨before, later, rfl, first⟩
  · rintro (⟨before, later, rfl, first⟩ | ⟨rfl, first⟩)
    · exact ⟨before, later ++ [last], by simp, first⟩
    · exact ⟨rows, [], rfl, first⟩

/-- A row that a session has no instance for, the first with its key. -/
def State.Introduces (s : State) (rows : List HydratedRow) (row : HydratedRow) : Prop :=
  s.context.entity? row.key = none ∧ row.IsFirst rows

theorem State.introduces_append (s : State) (rows : List HydratedRow) (last row : HydratedRow) :
    s.Introduces (rows ++ [last]) row ↔ s.Introduces rows row ∨
      row = last ∧ s.context.entity? last.key = none ∧ ∀ other ∈ rows, (other.key == last.key) = false := by
  rw [Introduces, HydratedRow.isFirst_append]
  constructor
  · rintro ⟨missing, first | ⟨rfl, first⟩⟩
    · exact .inl ⟨missing, first⟩
    · exact .inr ⟨rfl, missing, first⟩
  · rintro (⟨missing, first⟩ | ⟨rfl, missing, first⟩)
    · exact ⟨missing, .inl first⟩
    · exact ⟨missing, .inr ⟨rfl, first⟩⟩

section
variable {s : State} {last : HydratedRow} (rows : List HydratedRow)

theorem State.length_known_of_some {h : Handle} (known : s.context.entity? last.key = some h) :
    ((rows ++ [last]).filter fun row => (s.context.entity? row.key).isSome).length =
      (rows.filter fun row => (s.context.entity? row.key).isSome).length + 1 := by
  simp [known]

theorem State.length_known_of_none (missing : s.context.entity? last.key = none) :
    ((rows ++ [last]).filter fun row => (s.context.entity? row.key).isSome).length =
      (rows.filter fun row => (s.context.entity? row.key).isSome).length := by
  simp [missing]

end

namespace LoadingEntity

def row (entity : LoadingEntity) : HydratedRow := ⟨entity.key, entity.hydrated⟩

def entry (entity : LoadingEntity) (options : LoadOptions) : Entry where
  key := some entity.key
  entity := entity.descriptor.name
  status := .loading
  loadedState := some entity.hydrated
  version := entity.descriptor.versionOf entity.hydrated
  lock := options.lock
  existsInDatabase := true
  isMutable := entity.descriptor.isMutable
  snapshot := none

end LoadingEntity

namespace Batch
variable {batch : Batch} {key : EntityKey}

theorem find?_eq_none : batch.find? key = none ↔ ∀ entity ∈ batch.entities, (entity.key == key) = false := by
  simp [find?]

theorem contains_eq_isSome (batch : Batch) (key : EntityKey) : batch.contains key = (batch.find? key).isSome := by
  rw [Bool.eq_iff_iff]
  simp [contains, find?]

theorem mem_of_find? {held : LoadingEntity} (found : batch.find? key = some held) :
    held ∈ batch.entities ∧ (held.key == key) = true := by
  have same := List.find?_some (p := fun entity : LoadingEntity => entity.key == key) found
  exact ⟨List.mem_of_find?_eq_some found, same⟩

theorem keyFor?_eq_none {h : Handle} : batch.keyFor? h = none ↔ ∀ entity ∈ batch.entities, entity.handle ≠ h := by
  simp [keyFor?]

theorem mem_of_keyFor? {h : Handle} (keyed : batch.keyFor? h = some key) :
    ∃ entity ∈ batch.entities, entity.handle = h ∧ entity.key = key := by
  obtain ⟨entity, found, same⟩ := Option.map_eq_some_iff.mp keyed
  have held := List.find?_some (p := fun entity : LoadingEntity => decide (entity.handle = h)) found
  exact ⟨entity, List.mem_reverse.mp (List.mem_of_find?_eq_some found), of_decide_eq_true held, same⟩

theorem keyFor?_of_only {entity : LoadingEntity} (member : entity ∈ batch.entities)
    (only : ∀ other ∈ batch.entities, other.handle = entity.handle → other = entity) :
    batch.keyFor? entity.handle = some entity.key := by
  cases keyed : batch.keyFor? entity.handle with
  | none => exact absurd rfl (keyFor?_eq_none.mp keyed entity member)
  | some key =>
    obtain ⟨other, inside, same, rfl⟩ := mem_of_keyFor? keyed
    rw [only other inside same]

end Batch

/-- What a load has changed once it has registered its rows. -/
structure Registers (before after : State) : Prop where
  session : after.session = { before.session with
    journal := after.session.journal
    context := { before.session.context with
      entries := after.session.context.entries
      entities := after.session.context.entities } }
  regions : after.shared.regions = before.shared.regions
  enabled : after.shared.statistics.enabled = before.shared.statistics.enabled
  counters : after.shared.statistics.counters = before.shared.statistics.counters

namespace Registers

theorem refl (s : State) : Registers s s := ⟨rfl, rfl, rfl, rfl⟩

theorem trans {a b c : State} (first : Registers a b) (second : Registers b c) : Registers a c where
  session := by rw [second.session, first.session]
  regions := second.regions.trans first.regions
  enabled := second.enabled.trans first.enabled
  counters := second.counters.trans first.counters

end Registers

namespace State
variable (s : State) (d : Descriptor) (options : LoadOptions) (row : HydratedRow)

def loading : LoadingEntity := ⟨row.key, d, ⟨s.heap.size⟩, row.values⟩

def creating : State := s.mapHeap fun _ => (s.heap.create (d.instantiate (some row.key.id))).2

/-- The state in which the new instance is dropped for that of an earlier row. -/
def dropping : State :=
  ((s.creating d row).record (.warn (.duplicateHydration row.key
    ((s.creating d row).heap.describe ⟨s.heap.size⟩)))).mapStatistics Statistics.duplicateHydration

def tracking : State :=
  (s.creating d row).mapContext fun context =>
    { context with
      entities := context.entities.insert row.key ⟨s.heap.size⟩
      entries := context.entries.insert ⟨s.heap.size⟩ ((s.loading d row).entry options) }

end State

namespace Registers
variable (s : State) (d : Descriptor) (options : LoadOptions) (row : HydratedRow)

theorem dropping : Registers s (s.dropping d row) :=
  ⟨rfl, rfl, Statistics.enabled_duplicateHydration _, Statistics.counters_duplicateHydration _⟩

theorem tracking : Registers s (s.tracking d options row) := ⟨rfl, rfl, rfl, rfl⟩

end Registers

namespace Action

inductive Admits (d : Descriptor) (options : LoadOptions) (progress : LoadProgress) (row : HydratedRow) (s : State) :
    LoadProgress → State → Prop
  | reused {h : Handle} (unseen : progress.batch.find? row.key = none)
      (standing : s.context.entity? row.key = some h) :
      Admits d options progress row s { progress with results := progress.results ++ [h] } s
  | repeated {held : LoadingEntity} (seen : progress.batch.find? row.key = some held) :
      Admits d options progress row s { progress with results := progress.results ++ [held.handle] } (s.dropping d row)
  | added (unseen : progress.batch.find? row.key = none) (missing : s.context.entity? row.key = none) :
      Admits d options progress row s
        ⟨⟨progress.batch.entities ++ [s.loading d row]⟩, progress.results ++ [⟨s.heap.size⟩]⟩ (s.tracking d options row)

variable {d : Descriptor} {options : LoadOptions} {progress : LoadProgress} {row : HydratedRow} {s after : State}

theorem trackLoading_exec (entity : LoadingEntity) (missing : s.context.entity? entity.key = none) :
    (trackLoading entity entity.key options).exec s = (.ok (), s.mapContext fun context =>
      { context with
        entities := context.entities.insert entity.key entity.handle
        entries := context.entries.insert entity.handle (entity.entry options) }) := by
  apply exec_changeContext_ok
  simp only [Context.addEntity, Context.claim, missing]
  rfl

def admitNew (d : Descriptor) (options : LoadOptions) (progress : LoadProgress) (row : HydratedRow) (s : State) :
    Action LoadProgress := do
  set (s.creating d row)
  let registered ← registerLoading progress.batch (s.loading d row)
  if registered.1 = .added then
    trackLoading (s.loading d row) row.key options
    return { batch := registered.2, results := progress.results ++ [⟨s.heap.size⟩] }
  else
    modify fun s => s.mapStatistics Statistics.duplicateHydration
    return { batch := registered.2, results := progress.results ++ (registered.2.handle? row.key).toList }

theorem admitRow_eq (d : Descriptor) (options : LoadOptions) (progress : LoadProgress) (row : HydratedRow) :
    admitRow d options progress row.key row.values = (do
      let s ← get
      match if progress.batch.contains row.key then none else s.context.entity? row.key with
      | some existing => return { progress with results := progress.results ++ [existing] }
      | none => admitNew d options progress row s) := rfl

theorem admitRow_exec (d : Descriptor) (options : LoadOptions) (row : HydratedRow)
    (allocated : ∀ entity ∈ progress.batch.entities, entity.handle ∈ s.heap) :
    ∃ grown after, (admitRow d options progress row.key row.values).exec s = (.ok grown, after) ∧
      Admits d options progress row s grown after := by
  rw [admitRow_eq, exec_get_bind, Batch.contains_eq_isSome]
  cases seen : progress.batch.find? row.key with
  | none =>
    cases standing : s.context.entity? row.key with
    | some h => exact ⟨_, _, rfl, .reused seen standing⟩
    | none =>
      refine ⟨_, _, ?_, .added seen standing⟩
      have fresh : progress.batch.register (s.loading d row) =
          (.added, ⟨progress.batch.entities ++ [s.loading d row]⟩) := by
        unfold Batch.register
        rw [show (s.loading d row).key = row.key from rfl, seen]
      have tracked : (trackLoading (s.loading d row) row.key options).exec (s.creating d row) =
          (.ok (), s.tracking d options row) :=
        trackLoading_exec (s.loading d row) standing
      have registered : (registerLoading progress.batch (s.loading d row)).exec (s.creating d row) =
          (.ok (.added, ⟨progress.batch.entities ++ [s.loading d row]⟩), s.creating d row) := by
        unfold registerLoading
        rw [fresh]
        rfl
      change (admitNew d options progress row s).exec s = _
      unfold admitNew
      rw [exec_bind, exec_set]
      dsimp only
      rw [exec_bind_ok _ registered, if_pos rfl, exec_bind_ok _ tracked]
      rfl
  | some held =>
    refine ⟨_, _, ?_, .repeated seen⟩
    have other : held.handle ≠ ⟨s.heap.size⟩ := by
      intro same
      exact s.heap.next_not_mem (same ▸ allocated held (Batch.mem_of_find? seen).1)
    have dropped : progress.batch.register (s.loading d row) = (.duplicate, progress.batch) := by
      unfold Batch.register
      rw [show (s.loading d row).key = row.key from rfl, seen]
      exact congrArg (·, progress.batch) (if_neg other)
    have registered : (registerLoading progress.batch (s.loading d row)).exec (s.creating d row) =
        (.ok (.duplicate, progress.batch), (s.creating d row).record (.warn (.duplicateHydration row.key
          ((s.creating d row).heap.describe ⟨s.heap.size⟩)))) := by
      unfold registerLoading
      rw [dropped]
      rfl
    change (admitNew d options progress row s).exec s = _
    unfold admitNew
    rw [exec_bind, exec_set]
    dsimp only
    rw [exec_bind_ok _ registered, if_neg nofun]
    simp only [exec_modify_bind, Batch.handle?, seen]
    rfl

end Action

theorem HydratedRow.IsFirst.mem {row : HydratedRow} {rows : List HydratedRow} (first : row.IsFirst rows) : row ∈ rows := by
  obtain ⟨before, later, rfl, -⟩ := first
  simp

namespace Heap
variable (heap : Heap) (x : Instance)

theorem read_outside {h : Handle} (outside : h ∉ heap) : heap.read h = default := by
  have beyond : heap.instances.size ≤ h.index := Nat.le_of_not_lt outside
  simp [read, Array.getElem?_eq_none beyond]

theorem read_create_next : (heap.create x).2.read ⟨heap.size⟩ = x := by
  simp [create, read, size]

theorem read_create_of_ne {h : Handle} (other : h ≠ ⟨heap.size⟩) : (heap.create x).2.read h = heap.read h := by
  have elsewhere : h.index ≠ heap.instances.size := fun same => other (congrArg Handle.mk same)
  simp [create, read, Array.getElem?_push, elsewhere]

theorem read_create {h : Handle} (old : h ∈ heap) : (heap.create x).2.read h = heap.read h := by
  apply read_create_of_ne
  rintro rfl
  exact heap.next_not_mem old

theorem mem_create {h : Handle} (old : h ∈ heap) : h ∈ (heap.create x).2 := by
  have inside : h.index < heap.instances.size := old
  change h.index < (heap.instances.push x).size
  rw [Array.size_push]
  omega

end Heap

/-- What a load has found and changed once it has admitted these rows. -/
structure Admitted (start : State) (d : Descriptor) (options : LoadOptions) (rows : List HydratedRow)
    (progress : Action.LoadProgress) (s : State) : Prop where
  registers : Registers start s
  introduced : ∀ row, (∃ entity ∈ progress.batch.entities, entity.row = row) ↔ start.Introduces rows row
  described : ∀ entity ∈ progress.batch.entities, entity.descriptor = d
  distinct : progress.batch.entities.Pairwise fun a b => (a.key == b.key) = false ∧ a.handle ≠ b.handle
  created : ∀ entity ∈ progress.batch.entities, entity.handle ∉ start.heap ∧ entity.handle ∈ s.heap
  blank : ∀ entity ∈ progress.batch.entities, s.heap.read entity.handle = d.instantiate (some entity.key.id)
  size : s.heap.size + (rows.filter fun row => (start.context.entity? row.key).isSome).length =
    start.heap.size + rows.length
  only : (rows.Pairwise fun a b => (a.key == b.key) = false) →
    ∀ h ∈ s.heap, h ∈ start.heap ∨ ∃ entity ∈ progress.batch.entities, entity.handle = h
  reads : ∀ h ∈ start.heap, s.heap.read h = start.heap.read h
  standing : ∀ entity ∈ progress.batch.entities, s.context.entity? entity.key = some entity.handle
  tracked : ∀ entity ∈ progress.batch.entities, s.context.entry? entity.handle = some (entity.entry options)
  keys : ∀ key, (∀ entity ∈ progress.batch.entities, (entity.key == key) = false) →
    s.context.entity? key = start.context.entity? key
  entries : ∀ h, (∀ entity ∈ progress.batch.entities, entity.handle ≠ h) →
    s.context.entry? h = start.context.entry? h
  results : List.Forall₂ (fun row h => s.context.entity? row.key = some h) rows progress.results
  duplicates : start.shared.statistics.enabled = true →
    ∃ repeated, progress.batch.entities.length +
        (rows.filter fun row => (start.context.entity? row.key).isSome).length + repeated = rows.length ∧
      s.shared.statistics.duplicates = start.shared.statistics.duplicates + .ofNat repeated

namespace Admitted
variable {start s after : State} {d : Descriptor} {options : LoadOptions} {rows : List HydratedRow}
  {progress : Action.LoadProgress} {row : HydratedRow}

theorem nothing (start : State) (d : Descriptor) (options : LoadOptions) : Admitted start d options [] {} start where
  registers := .refl start
  introduced row := by
    constructor
    · rintro ⟨entity, member, -⟩
      cases member
    · rintro ⟨-, first⟩
      cases first.mem
  described _ member := by cases member
  distinct := .nil
  created _ member := by cases member
  blank _ member := by cases member
  size := rfl
  only _ h old := .inl old
  reads _ _ := rfl
  standing _ member := by cases member
  tracked _ member := by cases member
  keys _ _ := rfl
  entries _ _ := rfl
  results := .nil
  duplicates _ := ⟨0, rfl, (UInt64.add_zero _).symm⟩

theorem grown (admitted : Admitted start d options rows progress s) : start.heap.size ≤ s.heap.size := by
  have size := admitted.size
  have known := List.length_filter_le (fun row : HydratedRow => (start.context.entity? row.key).isSome) rows
  omega

theorem standing_of_same (admitted : Admitted start d options rows progress s) {entity : LoadingEntity} {key : EntityKey}
    (member : entity ∈ progress.batch.entities) (same : (entity.key == key) = true) :
    s.context.entity? key = some entity.handle :=
  (Context.entity?_congr _ same).symm.trans (admitted.standing entity member)

theorem unknown (admitted : Admitted start d options rows progress s) {entity : LoadingEntity}
    (member : entity ∈ progress.batch.entities) : start.context.entity? entity.key = none :=
  ((admitted.introduced entity.row).mp ⟨entity, member, rfl⟩).1

theorem answered (admitted : Admitted start d options rows progress s) :
    ∀ row ∈ rows, s.context.entity? row.key ≠ none := by
  refine ((List.forall₂_and_left _ _).mp (admitted.results.imp fun row h standing => ⟨?_, standing⟩)).1
  rw [standing]
  exact nofun

theorem known (admitted : Admitted start d options rows progress s) {h : Handle}
    (unseen : progress.batch.find? row.key = none) (standing : s.context.entity? row.key = some h) :
    start.context.entity? row.key = some h :=
  (admitted.keys row.key (Batch.find?_eq_none.mp unseen)).symm.trans standing

theorem reused (admitted : Admitted start d options rows progress s) {h : Handle}
    (unseen : progress.batch.find? row.key = none) (standing : s.context.entity? row.key = some h) :
    Admitted start d options (rows ++ [row]) { progress with results := progress.results ++ [h] } s where
  registers := admitted.registers
  introduced other := by
    rw [State.introduces_append, admitted.introduced, admitted.known unseen standing]
    exact (or_iff_left fun new => nomatch new.2.1).symm
  described := admitted.described
  distinct := admitted.distinct
  created := admitted.created
  blank := admitted.blank
  size := by
    have before := admitted.size
    simp only [State.length_known_of_some rows (admitted.known unseen standing), List.length_append,
      List.length_singleton]
    omega
  only apart := admitted.only (List.pairwise_append.mp apart).1
  reads := admitted.reads
  standing := admitted.standing
  tracked := admitted.tracked
  keys := admitted.keys
  entries := admitted.entries
  results := List.rel_append admitted.results (.cons standing .nil)
  duplicates counting := by
    obtain ⟨repeated, total, before⟩ := admitted.duplicates counting
    refine ⟨repeated, ?_, before⟩
    simp only [State.length_known_of_some rows (admitted.known unseen standing), List.length_append,
      List.length_singleton]
    omega

theorem repeated (admitted : Admitted start d options rows progress s) {held : LoadingEntity}
    (seen : progress.batch.find? row.key = some held) :
    Admitted start d options (rows ++ [row]) { progress with results := progress.results ++ [held.handle] }
      (s.dropping d row) := by
  obtain ⟨member, same⟩ := Batch.mem_of_find? seen
  have missing : start.context.entity? row.key = none :=
    (Context.entity?_congr _ same).symm.trans (admitted.unknown member)
  have earlier : held.row ∈ rows := ((admitted.introduced held.row).mp ⟨held, member, rfl⟩).2.mem
  have not_apart (apart : ∀ other ∈ rows, (other.key == row.key) = false) : False :=
    Bool.noConfusion (same.symm.trans (apart held.row earlier))
  constructor
  case registers => exact admitted.registers.trans (.dropping s d row)
  case introduced =>
    intro other
    rw [State.introduces_append, admitted.introduced]
    exact (or_iff_left fun new => not_apart new.2.2).symm
  case described => exact admitted.described
  case distinct => exact admitted.distinct
  case created =>
    intro entity inside
    exact ⟨(admitted.created entity inside).1, s.heap.mem_create _ (admitted.created entity inside).2⟩
  case blank =>
    intro entity inside
    exact (s.heap.read_create _ (admitted.created entity inside).2).trans (admitted.blank entity inside)
  case size =>
    have before := admitted.size
    have larger : (s.dropping d row).heap.size = s.heap.size + 1 := s.heap.size_create _
    rw [State.length_known_of_none rows missing, List.length_append, larger, List.length_singleton]
    omega
  case only =>
    intro apart
    exact (not_apart fun other listed => (List.pairwise_append.mp apart).2.2 other listed row List.mem_cons_self).elim
  case reads =>
    intro h old
    exact (s.heap.read_create _ (Nat.lt_of_lt_of_le old admitted.grown)).trans (admitted.reads h old)
  case standing => exact admitted.standing
  case tracked => exact admitted.tracked
  case keys => exact admitted.keys
  case entries => exact admitted.entries
  case results => exact List.rel_append admitted.results (.cons (admitted.standing_of_same member same) .nil)
  case duplicates =>
    intro counting
    obtain ⟨repeated, total, before⟩ := admitted.duplicates counting
    have counted : (s.dropping d row).shared.statistics.duplicates = s.shared.statistics.duplicates + 1 :=
      Statistics.duplicates_duplicateHydration _ (admitted.registers.enabled.trans counting)
    refine ⟨repeated + 1, ?_, ?_⟩
    · simp only [State.length_known_of_none rows missing, List.length_append, List.length_singleton]
      omega
    · rw [counted, before, UInt64.ofNat_add, UInt64.add_assoc]
      rfl

theorem added (admitted : Admitted start d options rows progress s)
    (unseen : progress.batch.find? row.key = none) (missing : s.context.entity? row.key = none) :
    Admitted start d options (rows ++ [row])
      ⟨⟨progress.batch.entities ++ [s.loading d row]⟩, progress.results ++ [⟨s.heap.size⟩]⟩
      (s.tracking d options row) := by
  have unseen := Batch.find?_eq_none.mp unseen
  have fresh : start.context.entity? row.key = none := (admitted.keys row.key unseen).symm.trans missing
  have old (h : Handle) (inside : h ∈ s.heap) : (⟨s.heap.size⟩ : Handle) ≠ h := by
    rintro rfl
    exact s.heap.next_not_mem inside
  have stands (key : EntityKey) : (s.tracking d options row).context.entity? key =
      if row.key == key then some ⟨s.heap.size⟩ else s.context.entity? key := Registry.find?_insert _ _ _ _
  have entered (h : Handle) : (s.tracking d options row).context.entry? h =
      if (⟨s.heap.size⟩ : Handle) = h then some ((s.loading d row).entry options) else s.context.entry? h :=
    Context.entry?_inserted _ _ _ _
  have larger : (s.tracking d options row).heap.size = s.heap.size + 1 := s.heap.size_create _
  constructor
  case registers => exact admitted.registers.trans (.tracking s d options row)
  case introduced =>
    intro other
    have last : ∀ earlier ∈ rows, (earlier.key == row.key) = false := by
      intro earlier member
      apply Bool.eq_false_iff.mpr
      intro same
      exact admitted.answered earlier member ((s.context.entity?_congr same).trans missing)
    rw [State.introduces_append, ← admitted.introduced, and_iff_left ⟨fresh, last⟩]
    simp only [List.mem_append, List.mem_singleton, or_and_right, exists_or, exists_eq_left]
    exact or_congr_right eq_comm
  case described => exact List.forall_mem_append.mpr ⟨admitted.described, by simp [State.loading]⟩
  case distinct =>
    refine List.pairwise_append.mpr ⟨admitted.distinct, List.pairwise_singleton _ _, ?_⟩
    intro entity member other new
    obtain rfl := List.mem_singleton.mp new
    exact ⟨unseen entity member, (old _ (admitted.created entity member).2).symm⟩
  case created =>
    refine List.forall_mem_append.mpr ⟨fun entity member => ?_, List.forall_mem_singleton.mpr ⟨?_, ?_⟩⟩
    · exact ⟨(admitted.created entity member).1, s.heap.mem_create _ (admitted.created entity member).2⟩
    · exact Nat.not_lt.mpr admitted.grown
    · exact s.heap.next_mem_create _
  case blank =>
    refine List.forall_mem_append.mpr ⟨fun entity member => ?_, List.forall_mem_singleton.mpr ?_⟩
    · exact (s.heap.read_create _ (admitted.created entity member).2).trans (admitted.blank entity member)
    · exact s.heap.read_create_next _
  case size =>
    have before := admitted.size
    rw [State.length_known_of_none rows fresh, List.length_append, larger, List.length_singleton]
    omega
  case only =>
    intro apart h inside
    have below : h.index < s.heap.size + 1 := larger ▸ inside
    rcases Nat.lt_succ_iff_lt_or_eq.mp below with earlier | last
    · rcases admitted.only (List.pairwise_append.mp apart).1 h earlier with old | ⟨entity, member, same⟩
      · exact .inl old
      · exact .inr ⟨entity, List.mem_append_left _ member, same⟩
    · exact .inr ⟨s.loading d row, List.mem_append_right _ (List.mem_singleton_self _), congrArg Handle.mk last.symm⟩
  case reads =>
    intro h inside
    exact (s.heap.read_create _ (Nat.lt_of_lt_of_le inside admitted.grown)).trans (admitted.reads h inside)
  case standing =>
    refine List.forall_mem_append.mpr ⟨fun entity member => ?_, List.forall_mem_singleton.mpr ?_⟩
    · rw [stands, if_neg]
      · exact admitted.standing entity member
      · intro same
        rw [BEq.comm, unseen entity member] at same
        cases same
    · exact (stands row.key).trans (if_pos BEq.rfl)
  case tracked =>
    refine List.forall_mem_append.mpr ⟨fun entity member => ?_, List.forall_mem_singleton.mpr ?_⟩
    · rw [entered, if_neg (old _ (admitted.created entity member).2)]
      exact admitted.tracked entity member
    · exact (entered _).trans (if_pos rfl)
  case keys =>
    intro key others
    obtain ⟨others, new⟩ := List.forall_mem_append.mp others
    have different : (row.key == key) = false := new _ (List.mem_singleton_self _)
    rw [stands, if_neg (Bool.eq_false_iff.mp different)]
    exact admitted.keys key others
  case entries =>
    intro h others
    obtain ⟨others, new⟩ := List.forall_mem_append.mp others
    have different : (⟨s.heap.size⟩ : Handle) ≠ h := new _ (List.mem_singleton_self _)
    rw [entered, if_neg different]
    exact admitted.entries h others
  case results =>
    refine List.rel_append (admitted.results.imp fun earlier h standing => ?_) (.cons ?_ .nil)
    · rw [stands, if_neg]
      · exact standing
      · intro same
        rw [← s.context.entity?_congr same, missing] at standing
        cases standing
    · exact (stands row.key).trans (if_pos BEq.rfl)
  case duplicates =>
    intro counting
    obtain ⟨repeated, total, before⟩ := admitted.duplicates counting
    refine ⟨repeated, ?_, before⟩
    simp only [State.length_known_of_none rows fresh, List.length_append, List.length_singleton]
    omega

theorem step {grown : Action.LoadProgress} (admitted : Admitted start d options rows progress s)
    (admits : Action.Admits d options progress row s grown after) :
    Admitted start d options (rows ++ [row]) grown after := by
  cases admits with
  | reused unseen standing => exact admitted.reused unseen standing
  | repeated seen => exact admitted.repeated seen
  | added unseen missing => exact admitted.added unseen missing

end Admitted

namespace Action
variable {start s after : State} {d : Descriptor} {options : LoadOptions}

theorem hydrateRows_step {row : Row} (found : HydratedRow) {progress : LoadProgress} {answer : Except Error LoadProgress}
    {middle : State} (rest : List (Except Error Row)) (hydrated : d.hydrateRow row = .ok (found.key, found.values))
    (ran : (admitRow d options progress found.key found.values).exec s = (answer, middle)) :
    hydrateRows d options (.ok row :: rest) progress s = match answer with
      | .ok grown => hydrateRows d options rest grown middle
      | .error e => ((.error e, progress), middle) := by
  have began : ExceptT.run (admitRow d options progress found.key found.values) s = (answer, middle) := ran
  rw [hydrateRows, hydrated]
  simp only [bind, StateT.bind, began]
  cases answer <;> rfl

theorem hydrateRows_refused {row : Row} {e : Error} {progress : LoadProgress} (rest : List (Except Error Row))
    (refused : d.hydrateRow row = .error e) :
    hydrateRows d options (.ok row :: rest) progress s = ((.error e, progress), s) := by
  rw [hydrateRows, refused]
  rfl

/-- The first pass gets as far as rows are given and can be hydrated. -/
theorem hydrateRows_admitted : ∀ (rows : List (Except Error Row)) (seen : List HydratedRow) (progress : LoadProgress)
    (s : State), Admitted start d options seen progress s →
      ∃ outcome last after more, hydrateRows d options rows progress s = ((outcome, last), after) ∧
        Admitted start d options (seen ++ more) last after ∧
        (outcome = .ok () ∧ d.Hydrates rows more ∨ (∃ e, outcome = .error e) ∧ ∀ found, ¬ d.Hydrates rows found)
  | [], seen, progress, s, admitted => by
    refine ⟨.ok (), progress, s, [], rfl, ?_, .inl ⟨rfl, .nil⟩⟩
    rwa [List.append_nil]
  | .error e :: rest, seen, progress, s, admitted => by
    refine ⟨.error e, progress, s, [], rfl, ?_, .inr ⟨⟨e, rfl⟩, fun found hydrates => ?_⟩⟩
    · rwa [List.append_nil]
    · obtain ⟨_, _, ⟨_, given, -⟩, -, -⟩ := List.forall₂_cons_left_iff.mp hydrates
      cases given
  | .ok row :: rest, seen, progress, s, admitted => by
    cases hydrated : d.hydrateRow row with
    | error e =>
      refine ⟨.error e, progress, s, [], hydrateRows_refused rest hydrated, ?_, .inr ⟨⟨e, rfl⟩, fun found hydrates => ?_⟩⟩
      · rwa [List.append_nil]
      · obtain ⟨_, _, ⟨_, given, same⟩, -, -⟩ := List.forall₂_cons_left_iff.mp hydrates
        cases given
        rw [hydrated] at same
        cases same
    | ok found =>
      obtain ⟨grown, middle, ran, admits⟩ := admitRow_exec d options ⟨found.1, found.2⟩
        fun entity member => (admitted.created entity member).2
      obtain ⟨outcome, last, after, more, rested, ended, result⟩ :=
        hydrateRows_admitted rest (seen ++ [⟨found.1, found.2⟩]) grown middle (admitted.step admits)
      refine ⟨outcome, last, after, ⟨found.1, found.2⟩ :: more, ?_, ?_, ?_⟩
      · rw [hydrateRows_step ⟨found.1, found.2⟩ rest hydrated ran]
        exact rested
      · rwa [List.append_assoc] at ended
      · rcases result with ⟨fine, hydrates⟩ | ⟨failed, stuck⟩
        · exact .inl ⟨fine, .cons ⟨row, rfl, hydrated⟩ hydrates⟩
        · refine .inr ⟨failed, fun found hydrates => ?_⟩
          obtain ⟨_, others, -, remaining, -⟩ := List.forall₂_cons_left_iff.mp hydrates
          exact stuck others remaining

end Action

end UnitOfWork
