import UnitOfWork.Proofs.FlushConservation
import UnitOfWork.Proofs.LoadRun

/-! The answer of a load: for each row, in order, the instance that stands for it. A row that the session knows
is answered with the instance it has, whatever the row says; the first row of any other key is loaded into a new
instance, and later rows of that key are answered with it. -/

namespace UnitOfWork
open UnitOfWork.Action

def HydratedRow.entry (row : HydratedRow) (d : Descriptor) (options : LoadOptions) (readOnly : Bool)
    (state : List AttributeValue) : Entry where
  key := some row.key
  entity := d.name
  status := if readOnly then .readOnly else .managed
  loadedState := some state
  version := d.versionOf row.values
  lock := options.lock
  existsInDatabase := true
  isMutable := d.isMutable
  snapshot := if readOnly then none else some (.take d state)

/-- A row is loaded into an instance: its values, with their keys as the session resolves them and as load
listeners leave them, are those of the entry, and of the instance itself if nobody else writes to instances. -/
structure RowLoaded (before : State) (d : Descriptor) (options : LoadOptions) (row : HydratedRow)
    (state : List AttributeValue) (h : Handle) (after : State) : Prop where
  standing : after.context.entity? row.key = some h
  heard : PreLoadEvent.Answered
    { entity := h, id := row.key.id, descriptor := d
      state := before.session.factory.metamodel.resolvedAll after.context.referenceTo d.attributes row.values }
    before.session.preLoadListeners state
  entered : after.context.entry? h =
    some (row.entry d options (loadsReadOnly before.session d row.key options) state)
  held : before.Writes (fun _ _ => False) d → after.heap.read h = ⟨d.name, some row.key.id, state⟩

namespace Admitted
variable {start s after : State} {d : Descriptor} {options : LoadOptions} {rows : List HydratedRow}
  {progress : LoadProgress} {entity : LoadingEntity}

theorem preLoadListeners (admitted : Admitted start d options rows progress s) :
    s.session.preLoadListeners = start.session.preLoadListeners := by
  rw [admitted.registers.session]
  rfl

theorem factory (admitted : Admitted start d options rows progress s) :
    s.session.factory = start.session.factory := by
  rw [admitted.registers.session]

theorem config (admitted : Admitted start d options rows progress s) :
    s.session.config = start.session.config := by
  rw [admitted.registers.session]

theorem writes (admitted : Admitted start d options rows progress s) {may : Handle → Handle → Prop}
    (writes : start.Writes may d) : ∀ entity ∈ progress.batch.entities, s.Writes may entity.descriptor := by
  intro entity member
  rw [admitted.described entity member]
  refine writes.of_session ?_ ?_ <;> rw [admitted.registers.session] <;> rfl

theorem loadsReadOnly_eq (admitted : Admitted start d options rows progress s) (key : EntityKey) :
    loadsReadOnly s.session d key options = loadsReadOnly start.session d key options := by
  unfold loadsReadOnly
  rw [admitted.registers.session]
  rfl

theorem row_loaded (admitted : Admitted start d options rows progress s)
    (initialized : Initialized options progress.batch.entities s after) (member : entity ∈ progress.batch.entities) :
    ∃ state, RowLoaded start d options entity.row state entity.handle after := by
  obtain ⟨state, answered, entered, filled⟩ := initialized.loaded entity member
  have described := admitted.described entity member
  refine ⟨state, ?_, ?_, ?_, fun silent => ?_⟩
  · rw [initialized.entity?]
    exact admitted.standing entity member
  · rw [← admitted.preLoadListeners, ← admitted.factory, initialized.references, ← described]
    exact answered
  · rw [entered, admitted.tracked entity member, described]
    change some (loadedEntry d state (loadsReadOnly s.session d entity.row.key options) _) = _
    rw [admitted.loadsReadOnly_eq, LoadingEntity.entry, described]
    rfl
  · rw [filled (admitted.writes silent), admitted.blank entity member]
    rfl

theorem others (admitted : Admitted start d options rows progress s)
    (initialized : Initialized options progress.batch.entities s after) {h : Handle}
    (other : ∀ entity ∈ progress.batch.entities, entity.handle ≠ h) : after.context.entry? h = start.context.entry? h :=
  (initialized.entries h other).trans (admitted.entries h other)

theorem not_created (admitted : Admitted start d options rows progress s) {h : Handle} (old : h ∈ start.heap) :
    ∀ entity ∈ progress.batch.entities, entity.handle ≠ h := by
  rintro entity member rfl
  exact (admitted.created entity member).1 old

theorem untouched (admitted : Admitted start d options rows progress s)
    (finishing : Finishing progress.batch.entities s after) (writes : start.Writes (fun given h => h = given) d) :
    ∀ h ∈ start.heap, after.heap.read h = start.heap.read h := by
  intro h old
  have leaves : Leaves (· ∈ start.heap) s after := by
    refine finishing.leaves _ _ (admitted.writes writes) fun entity member => ⟨(admitted.created entity member).1, ?_⟩
    rintro other rfl
    exact (admitted.created entity member).1
  exact (leaves h old).trans (admitted.reads h old)

/-- The keys of the rows, and only they, come to stand for instances. -/
theorem entity?_eq_none (admitted : Admitted start d options rows progress s) (key : EntityKey) :
    s.context.entity? key = none ↔ start.context.entity? key = none ∧ ∀ row ∈ rows, (row.key == key) = false := by
  constructor
  · intro missing
    have apart : ∀ row ∈ rows, (row.key == key) = false := by
      intro row member
      apply Bool.eq_false_iff.mpr
      intro same
      exact admitted.answered row member ((s.context.entity?_congr same).trans missing)
    refine ⟨(admitted.keys key fun entity member => ?_).symm.trans missing, apart⟩
    exact apart entity.row ((admitted.introduced entity.row).mp ⟨entity, member, rfl⟩).2.mem
  · rintro ⟨missing, apart⟩
    refine (admitted.keys key fun entity member => ?_).trans missing
    exact apart entity.row ((admitted.introduced entity.row).mp ⟨entity, member, rfl⟩).2.mem

end Admitted

theorem load_ok {s after : State} {entity : String} {rows : List (Except Error Row)} {options : LoadOptions}
    {results : List Handle} (ran : (load entity rows options).exec s = (.ok results, after)) :
    ∃ d found progress middle, s.session.descriptor entity = .ok d ∧ d.Hydrates rows found ∧
      Admitted s d options found progress middle ∧ Initialized options progress.batch.entities middle after ∧
      progress.results = results := by
  cases load_loads ran with
  | loaded _ mapped hydrates _ admitted finished =>
    have initialized := (finishUp_initialized admitted.ready admitted.apart finished).2 rfl
    exact ⟨_, _, _, _, mapped, hydrates, admitted, initialized, rfl⟩

/-- For each row, a load answers with the instance that stands for its key. An instance that was tracked is left
as it was, values included if listeners and hooks write only to the instance they are called for. Each other
key has one new instance, loaded from its first row; nothing else is tracked that was not. Loads and duplicates
are counted accordingly, by counters that wrap around. -/
theorem load_answers_each_row {start s after : State} {moves : List Move} {entity : String}
    {rows : List (Except Error Row)} {options : LoadOptions} {results : List Handle} (fresh : start.Fresh)
    (run : Run start moves s) (loaded : (load entity rows options).exec s = (.ok results, after)) :
    ∃ (d : Descriptor) (found : List HydratedRow) (created : List Handle),
      s.session.descriptor entity = .ok d ∧ d.Hydrates rows found ∧
      List.Forall₂ (fun row h => after.context.entity? row.key = some h) found results ∧
      (∀ key h, s.context.entity? key = some h → after.context.entity? key = some h) ∧
      (∀ h ∈ s.heap, after.context.entry? h = s.context.entry? h) ∧
      (s.Writes (fun given h => h = given) d → ∀ h ∈ s.heap, after.heap.read h = s.heap.read h) ∧
      created.Nodup ∧ (∀ h ∈ created, h ∉ s.heap) ∧
      (∀ row, s.Introduces found row → ∃ h ∈ created, ∃ state, RowLoaded s d options row state h after) ∧
      (∀ h ∈ created, ∃ row, s.Introduces found row ∧ after.context.entity? row.key = some h) ∧
      (∀ h, after.context.isTracked h = true ↔ s.context.isTracked h = true ∨ h ∈ created) ∧
      (∀ key, (∀ row ∈ found, (row.key == key) = false) → after.context.entity? key = s.context.entity? key) ∧
      (s.shared.statistics.enabled = true →
        after.shared.statistics.counter .entityLoads d.name =
          s.shared.statistics.counter .entityLoads d.name + .ofNat created.length ∧
        ∃ repeated, created.length + (found.filter fun row => (s.context.entity? row.key).isSome).length + repeated =
            found.length ∧
          after.shared.statistics.duplicates = s.shared.statistics.duplicates + .ofNat repeated) := by
  have sound := run.sound fresh.sound
  obtain ⟨d, found, progress, middle, mapped, hydrates, admitted, initialized, rfl⟩ := load_ok loaded
  refine ⟨d, found, progress.batch.entities.map (·.handle), mapped, hydrates, ?_, fun key h standing => ?_,
    fun h old => admitted.others initialized (admitted.not_created old),
    fun writes => admitted.untouched initialized.toFinishing writes, ?_, ?_, fun row introduced => ?_, ?_, fun h => ?_,
    fun key others => ?_, fun counting => ?_⟩
  · refine admitted.results.imp fun row h standing => ?_
    rw [initialized.entity?]
    exact standing
  · rw [initialized.entity?, admitted.keys key fun entity member => ?_]
    · exact standing
    · apply Bool.eq_false_iff.mpr
      intro same
      rw [← s.context.entity?_congr same, admitted.unknown member] at standing
      cases standing
  · rw [List.Nodup, List.pairwise_map]
    exact admitted.apart
  · intro h member
    obtain ⟨entity, inside, rfl⟩ := List.mem_map.mp member
    exact (admitted.created entity inside).1
  · obtain ⟨entity, member, rfl⟩ := (admitted.introduced row).mpr introduced
    exact ⟨entity.handle, List.mem_map_of_mem member, admitted.row_loaded initialized member⟩
  · intro h member
    obtain ⟨entity, inside, rfl⟩ := List.mem_map.mp member
    refine ⟨entity.row, (admitted.introduced entity.row).mp ⟨entity, inside, rfl⟩, ?_⟩
    rw [initialized.entity?]
    exact admitted.standing entity inside
  · rw [Context.isTracked_eq, Context.isTracked_eq]
    by_cases member : h ∈ progress.batch.entities.map (·.handle)
    · obtain ⟨entity, inside, rfl⟩ := List.mem_map.mp member
      obtain ⟨state, row⟩ := admitted.row_loaded initialized inside
      simp [row.entered, member]
    · have others : ∀ entity ∈ progress.batch.entities, entity.handle ≠ h := by
        rintro entity inside rfl
        exact member (List.mem_map_of_mem inside)
      rw [admitted.others initialized others]
      simp only [member, or_false]
  · rw [initialized.entity?]
    refine admitted.keys key fun entity member => ?_
    exact others entity.row ((admitted.introduced entity.row).mp ⟨entity, member, rfl⟩).2.mem
  · have counting' : middle.shared.statistics.enabled = true := admitted.registers.enabled.trans counting
    have all : (progress.batch.entities.filter fun entity => entity.descriptor.name = d.name) =
        progress.batch.entities := by
      rw [List.filter_eq_self]
      intro entity member
      rw [admitted.described entity member]
      exact decide_eq_true rfl
    rw [initialized.loads counting' d.name, all, initialized.duplicates, List.length_map]
    refine ⟨?_, admitted.duplicates counting⟩
    unfold Statistics.counter
    rw [admitted.registers.counters]

namespace Sample

def customerRow (id : Bool) : Except Error Row := .ok { values := [.bool id] }

def locker : Descriptor where
  name := "Locker"
  identifier := { name := "id" }
  attributes := [.basic "taken"]

def lockerRow (id taken : Bool) : Except Error Row := .ok { values := [.bool id, .bool taken] }

def lockers : State where
  heap := ⟨#[]⟩
  shared := { statistics := { enabled := true } }
  session := { factory := { metamodel := ⟨[locker]⟩ } }

def oneLoaded : State := (Move.load "Locker" [lockerRow true true] {}).perform lockers

/-- The row of a locker that the session has, between two rows of another one. -/
def lockerRows : List (Except Error Row) := [lockerRow false true, lockerRow true false, lockerRow false false]

end Sample

open Sample in
/-- The locker that the session has stays taken, and the other one is taken as its first row says. -/
theorem load_answers_each_row_repeated : ∃ after,
    Run lockers [.load "Locker" [lockerRow true true] {}] oneLoaded ∧
      (load "Locker" lockerRows {}).exec oneLoaded = (.ok [⟨1⟩, ⟨0⟩, ⟨1⟩], after) ∧
      after.context.entry? ⟨0⟩ = oneLoaded.context.entry? ⟨0⟩ ∧
      after.heap.values ⟨0⟩ = [.basic (.bool true)] ∧ after.heap.values ⟨1⟩ = [.basic (.bool true)] ∧
      ∃ (found : List HydratedRow) (created : List Handle), locker.Hydrates lockerRows found ∧
        List.Forall₂ (fun row h => after.context.entity? row.key = some h) found [⟨1⟩, ⟨0⟩, ⟨1⟩] ∧
        (∀ h ∈ created, h ∉ oneLoaded.heap) ∧
        after.shared.statistics.counter .entityLoads "Locker" = 1 + .ofNat created.length := by
  have fresh : lockers.Fresh := ⟨rfl, rfl, rfl⟩
  have run : Run lockers [.load "Locker" [lockerRow true true] {}] oneLoaded := Run.start.extend _ trivial
  have answered : ((load "Locker" lockerRows {}).exec oneLoaded).1.toOption = some [⟨1⟩, ⟨0⟩, ⟨1⟩] := by decide +kernel
  have loaded := exec_of_toOption answered
  have writes (may : Handle → Handle → Prop) : oneLoaded.Writes may locker := ⟨nofun, nofun, nofun⟩
  obtain ⟨d, found, created, mapped, hydrates, results, -, kept, untouched, -, new, introduced, -, -, -, counts⟩ :=
    load_answers_each_row fresh run loaded
  obtain rfl : locker = d := Except.ok.inj mapped
  refine ⟨_, run, loaded, kept ⟨0⟩ Nat.zero_lt_one, ?_, ?_, found, created, hydrates, results, new, (counts rfl).1⟩
  · exact congrArg Instance.values (untouched (writes _) ⟨0⟩ Nat.zero_lt_one)
  · obtain ⟨⟨_, _⟩, rest, ⟨_, given, hydrated⟩, -, rfl⟩ := List.forall₂_cons_left_iff.mp hydrates
    cases given
    cases hydrated
    obtain ⟨h, -, _, row⟩ := introduced _ ⟨rfl, [], rest, rfl, List.forall_mem_nil _⟩
    obtain ⟨standing, -⟩ := List.forall₂_cons.mp results
    obtain rfl : h = ⟨1⟩ := Option.some.inj (row.standing.symm.trans standing)
    cases row.heard
    exact congrArg Instance.values (row.held (writes _))

end UnitOfWork
