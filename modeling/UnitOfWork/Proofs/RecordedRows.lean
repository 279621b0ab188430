import UnitOfWork.Proofs.NaturalIdLookups
import UnitOfWork.Proofs.WrittenRows

/-! What the books say about a row once its insert is recorded: entry, identifier, key and natural id agree with what
was written. The flush goes on to other inserts and to deletes, which are of other instances under other keys, and so
the books say the same when it ends, whether it gets through or not. -/

namespace UnitOfWork
open UnitOfWork.Action

namespace NaturalIds
variable (resolutions : NaturalIds)

theorem findNaturalId?_record {heap : Heap} {d : Descriptor} {state : List AttributeValue} {given : NaturalId}
    (id : Identifier) (has : NaturalId.ofState? heap d state = some given) (key : EntityKey) :
    (resolutions.record heap d id state).findNaturalId? key =
      if d.keyFor id == key then some given else resolutions.findNaturalId? key := by
  have known : ((resolutions.index key.entity).record id given).naturalIds.find? key.id =
      if id == key.id then some given else (resolutions.index key.entity).naturalIds.find? key.id :=
    Registry.find?_insert _ _ _ _
  unfold findNaturalId?
  rw [index_record resolutions id has]
  by_cases root : d.rootName = key.entity
  · rw [if_pos root, known]
    simp [EntityKey.beq_iff, Descriptor.keyFor, root]
  · simp [EntityKey.beq_iff, Descriptor.keyFor, root]

theorem findNaturalId?_record_other (heap : Heap) (state : List AttributeValue) {d : Descriptor} {id : Identifier}
    {key : EntityKey} (other : (d.keyFor id == key) = false) :
    (resolutions.record heap d id state).findNaturalId? key = resolutions.findNaturalId? key := by
  cases has : NaturalId.ofState? heap d state with
  | none => rw [record, has]
  | some given => rw [findNaturalId?_record resolutions id has, other, if_neg Bool.false_ne_true]

end NaturalIds

namespace Context
variable {context after : Context} {h x : Handle} {key new : EntityKey} {entity : String}

theorem assignKey_insertedKeys (assigned : context.assignKey h entity key = .ok after) :
    after.insertedKeys = context.insertedKeys := by
  obtain ⟨entry, held, -, -, ⟨-, rfl⟩ | ⟨-, -, adds⟩⟩ := assignKey_ok assigned
  · rfl
  · exact adds.insertedKeys

theorem Coherent.entity?_of_entry {entry : Entry} (coherent : context.Coherent) (tracked : context.entry? h = some entry)
    (keyed : entry.key = some new) (same : (new == key) = true) : context.entity? key = some h := by
  rw [coherent key h, key?, tracked, Option.bind_some, keyed]
  exact same

theorem assignKey_apart (coherent : context.Coherent) (holder : context.entity? key = some h) (other : x ≠ h)
    (assigned : context.assignKey x entity new = .ok after) : (new == key) = false := by
  apply Bool.eq_false_iff.mpr
  intro same
  obtain ⟨entry, held, tracked, equal, kept⟩ := assignKey_ok assigned
  have claimed : (held == key) = true := BEq.trans equal same
  rcases kept with ⟨keyed, -⟩ | ⟨-, -, adds⟩
  · have stands := coherent.entity?_of_entry tracked keyed claimed
    exact other (Option.some.inj (stands.symm.trans holder))
  · rcases adds.free key claimed with free | stands
    · cases free.symm.trans holder
    · exact other (Option.some.inj (stands.symm.trans holder))

theorem wasInserted_markInserted (context : Context) (new key : EntityKey) :
    (context.markInserted new).wasInserted key = (new == key || context.wasInserted key) := by
  unfold markInserted wasInserted
  simp only [Registry.contains_eq_isSome, Registry.find?_insert]
  cases new == key <;> rfl

theorem wasInserted_removeEntity (context : Context) (removed key : EntityKey) :
    (context.removeEntity removed).wasInserted key = context.wasInserted key := by
  unfold removeEntity
  split <;> rfl

end Context

/-- What the books say about the row of an instance stays. -/
structure SparesRow (h : Handle) (key : EntityKey) (before after : State) : Prop where
  entry : after.context.entry? h = before.context.entry? h
  identified : after.heap.id? h = before.heap.id? h
  inserted : before.context.wasInserted key = true → after.context.wasInserted key = true
  naturalId : after.session.naturalIds.findNaturalId? key = before.session.naturalIds.findNaturalId? key

namespace SparesRow
variable {writer : Writer} {h : Handle} {key : EntityKey} {a b c s after : State}

theorem refl (s : State) : SparesRow h key s s := ⟨rfl, rfl, id, rfl⟩

theorem trans (first : SparesRow h key a b) (second : SparesRow h key b c) : SparesRow h key a c where
  entry := second.entry.trans first.entry
  identified := second.identified.trans first.identified
  inserted marked := second.inserted (first.inserted marked)
  naturalId := second.naturalId.trans first.naturalId

theorem of_requeues (moved : Requeues a b) : SparesRow h key a b := by
  obtain ⟨⟨⟩, _, _⟩ := moved
  exact ⟨rfl, rfl, id, rfl⟩

theorem holder (spares : SparesRow h key a b) (before : a.context.Coherent) (after : b.context.Coherent)
    (holder : a.context.entity? key = some h) : b.context.entity? key = some h := by
  rw [after key h, Context.key?, spares.entry, ← Context.key?, ← before key h]
  exact holder

theorem writeInsert {insert : Insert} {answer : Except Error Unit} (coherent : s.context.Coherent)
    (holder : s.context.entity? key = some h) (other : insert.handle ≠ h)
    (ran : (writeInsert writer insert).exec s = (answer, after)) : SparesRow h key s after := by
  cases answer with
  | error e =>
    obtain ⟨-, given, rfl⟩ := writeInsert_error ran
    exact ⟨rfl, s.heap.id?_identify given other, id, rfl⟩
  | ok _ =>
    have entries := (writeInsert_entries ran).2 h other.symm
    obtain ⟨given, id, context, -, -, assigned, rfl⟩ := writeInsert_recorded ran
    have apart := Context.assignKey_apart coherent holder other assigned
    refine ⟨entries, s.heap.id?_identify given other, fun marked => ?_,
      s.session.naturalIds.findNaturalId?_record_other _ _ apart⟩
    refine (Context.wasInserted_markInserted _ _ key).trans ?_
    have kept : context.wasInserted key = s.context.wasInserted key := by
      unfold Context.wasInserted
      rw [Context.assignKey_insertedKeys assigned]
    rw [apart, Bool.false_or]
    exact kept.trans marked

theorem executeInsert {insert : Insert} {answer : Except Error Unit} (coherent : s.context.Coherent)
    (holder : s.context.entity? key = some h) (other : insert.handle ≠ h)
    (ran : (executeInsert writer insert).exec s = (answer, after)) : SparesRow h key s after := by
  rcases executeInsert_cases ran with ⟨_, _, failed⟩ | ⟨row, wrote, released⟩
  · exact .writeInsert coherent holder other failed
  · exact (SparesRow.writeInsert coherent holder other wrote).trans (.of_requeues (releaseParked_pending released).1)

theorem next {insert : Insert} {rest : List Insert} {answer : Except Error Unit} (sound : s.Sound)
    (idle : h ∉ s.actions.pending) (holder : s.context.entity? key = some h)
    (next : s.actions.inserts = insert :: rest)
    (ran : (Action.executeInsert writer insert).exec (s.taking rest) = (answer, after)) : SparesRow h key s after := by
  have other : insert.handle ≠ h := by
    rintro rfl
    exact idle (sound.taking next).2.2
  have taken : SparesRow h key s (s.taking rest) := ⟨rfl, rfl, id, rfl⟩
  exact taken.trans (.executeInsert (s := s.taking rest) sound.coherent holder other ran)

theorem run {written : List Insert} (run : InsertRun writer s written after) (sound : s.Sound)
    (idle : h ∉ s.actions.pending) (holder : s.context.entity? key = some h) : SparesRow h key s after := by
  induction run with
  | done s => exact .refl s
  | step first wrote run ih =>
    have spares := next sound idle holder first wrote
    obtain ⟨taken, alone, -⟩ := sound.taking first
    have sound' := executeInsert_sound taken alone wrote
    have idle' := fun due => idle ((executeInsert_conserves first wrote).mem_iff.mp (List.mem_cons_of_mem _ due))
    exact spares.trans (ih sound' idle' (spares.holder sound.coherent sound'.coherent holder))

theorem loop {bound : Nat} {answer : Except Error Nat} (sound : s.Sound) (idle : h ∉ s.actions.pending)
    (holder : s.context.entity? key = some h) (enough : s.actions.pendingInserts ≤ bound)
    (ran : (runInserts writer bound).exec s = (answer, after)) : SparesRow h key s after := by
  rcases runInserts_cases bound enough ran with ⟨written, run, -⟩ | ⟨e, written, middle, insert, rest, run, first, failed, -⟩
  · exact .run run sound idle holder
  · have spares := SparesRow.run run sound idle holder
    have sound' := run.sound sound
    have idle' : h ∉ middle.actions.pending := fun due =>
      idle (run.pending.mem_iff.mp (List.mem_append_right _ due))
    exact spares.trans (.next sound' idle' (spares.holder sound.coherent sound'.coherent holder) first failed)

theorem deletes {gone : List Delete} (run : DeleteRun writer s gone after) (standing : Standing s gone)
    (coherent : s.context.Coherent) (holder : s.context.entity? key = some h)
    (others : ∀ delete ∈ gone, delete.handle ≠ h) : SparesRow h key s after := by
  induction run with
  | done s => exact .refl s
  | @step s middle after delete rest wrote run ih =>
    obtain ⟨forgets, later⟩ := executeDelete_forgets standing wrote
    have other := others delete List.mem_cons_self
    have apart : (delete.key == key) = false := Bool.eq_false_iff.mpr fun same =>
      other (standing.handle List.mem_cons_self holder same)
    have entry := (forgets h).trans (if_neg other)
    obtain ⟨shared, reads, -, rfl⟩ := executeDelete_removes wrote
    have coherent' : ((s.context.setStatus delete.handle .gone).removeEntity delete.key).Coherent :=
      have marked : (s.context.setStatus delete.handle .gone).Coherent := coherent.updateEntry _ fun _ => rfl
      marked.removeEntity delete.key
    have spares : SparesRow h key s { s with
        shared
        session := { s.session with
          naturalIds := s.session.naturalIds.remove delete.key
          journal := s.session.journal ++ deleteCall delete :: reads
          context := (s.context.setStatus delete.handle .gone).removeEntity delete.key } } := by
      have natural := s.session.naturalIds.findNaturalId?_remove delete.key key
      refine ⟨entry, rfl, fun marked => ?_, natural.trans (if_neg (Bool.eq_false_iff.mp apart))⟩
      exact ((s.context.setStatus delete.handle .gone).wasInserted_removeEntity delete.key key).trans marked
    exact spares.trans (ih later coherent' (spares.holder coherent coherent' holder) fun delete member =>
      others delete (List.mem_cons_of_mem _ member))

end SparesRow

theorem Records.reached {writer : Writer} {h : Handle} {s row : State} (records : Records writer h row s) :
    ∃ written middle insert rest, InsertRun writer s written middle ∧ middle.actions.inserts = insert :: rest ∧
      insert.handle = h ∧ (writeInsert writer insert).exec (middle.taking rest) = (.ok (), row) := by
  induction records with
  | now next same wrote => exact ⟨[], _, _, _, .done _, next, same, wrote⟩
  | later next wrote records ih =>
    obtain ⟨written, middle, insert, rest, run, reached⟩ := ih
    exact ⟨_, middle, insert, rest, .step next wrote run, reached⟩

/-- The inserts of a flush that follow a row, and its deletes, are of other instances. -/
theorem FlushRecords.spares {writer : Writer} {s row after : State} {h : Handle} {key held : EntityKey}
    {answer : Except Error FlushResult} (records : FlushRecords writer s h held row) (sound : s.Sound)
    (holder : row.context.entity? key = some h) (ran : (flush writer).exec s = (answer, after)) :
    SparesRow h key row after := by
  obtain ⟨recorded, idle, -⟩ := records.stands sound
  obtain ⟨ready, began, written, -⟩ := records
  obtain ⟨handles, middle, gone, last, stage, scheduled, deleted, ends⟩ := flush_stages ran
  have inserts : SparesRow h key row middle := by
    obtain ⟨answer, looped⟩ := stage.loop began
    obtain ⟨released, moved, conserved, rfl | ⟨bound, answer, enough, others⟩⟩ := written.rest (Nat.le_refl _) looped
    · exact .of_requeues moved
    · have requeued : SparesRow h key row released := .of_requeues moved
      have sound' := recorded.requeues moved conserved
      have idle' : h ∉ released.actions.pending := fun due => idle (conserved.mem_iff.mp due)
      exact requeued.trans (.loop sound' idle' (requeued.holder recorded.coherent sound'.coherent holder) enough others)
  -- an instance whose insert was pending has no delete
  have due : h ∈ s.actions.pending := by
    obtain ⟨_, reached, insert, rest, run, next, rfl, -⟩ := written.reached
    have first : insert.handle ∈ reached.actions.pending := by
      rw [State.pending_taking next]
      exact List.mem_cons_self
    exact (queueReady_pending began).2.mem_iff.mp (run.pending.mem_iff.mp (List.mem_append_right _ first))
  have others : ∀ delete ∈ gone, delete.handle ≠ h := by
    rintro delete member rfl
    exact sound.separate delete (stage.advances.deletes ▸ scheduled.subset member) due
  have sound' := stage.sound sound
  have deletes : SparesRow h key middle.withoutDeletes last :=
    .deletes deleted (sound'.standing_early scheduled) sound'.coherent
      (inserts.holder recorded.coherent sound'.coherent holder) others
  have ended : SparesRow h key last after :=
    ⟨congrArg (fun context => context.entry? h) ends.context, congrArg (·.id? h) ends.heap,
      fun marked => ends.context ▸ marked, congrArg (·.findNaturalId? key) ends.naturalIds⟩
  have taken : SparesRow h key middle middle.withoutDeletes := ⟨rfl, rfl, id, rfl⟩
  exact ((inserts.trans taken).trans deletes).trans ended

/-- The entry of an instance as its insert leaves it. -/
structure Entry.Shows (entry : Entry) (insert : Insert) (id : Identifier) : Prop where
  status : entry.status = .managed
  existsInDatabase : entry.existsInDatabase = true
  loadedState : entry.loadedState = some insert.state
  version : entry.version = insert.descriptor.versionOf insert.state
  snapshot : entry.snapshot = some (.take insert.descriptor insert.state)
  key : ∃ key, entry.key = some key ∧ (key == insert.descriptor.keyFor id) = true

/-- What the session knows of an instance whose row was written under this identifier. -/
structure Booked (insert : Insert) (id : Identifier) (naturalId : Option NaturalId) (s : State) : Prop where
  entry : ∃ entry, s.context.entry? insert.handle = some entry ∧ entry.Shows insert id
  identified : s.heap.id? insert.handle = some id
  found : s.session.get insert.descriptor.name id = .ok (some insert.handle)
  inserted : s.context.wasInserted (insert.descriptor.keyFor id) = true
  naturalId : ∀ given, naturalId = some given →
    s.session.naturalIds.findNaturalId? (insert.descriptor.keyFor id) = some given

theorem State.Maps.get {s : State} {d : Descriptor} (maps : s.Maps d) (id : Identifier) :
    s.session.get d.name id = .ok (s.context.entity? (d.keyFor id)) := by
  unfold Session.get
  rw [show s.session.descriptor d.name = .ok d from maps]
  rfl

theorem Heap.id?_identify_self {heap : Heap} {h : Handle} {given : Option Identifier} {id : Identifier} (inside : h ∈ heap)
    (known : given = some id ∨ given = none ∧ heap.id? h = some id) : (heap.identify h given).id? h = some id := by
  rcases known with rfl | ⟨rfl, same⟩
  · exact congrArg (·.id) (heap.read_update _ _ inside)
  · exact same

namespace Booked
variable {writer : Writer} {insert : Insert} {s row after : State} {id : Identifier} {naturalId : Option NaturalId}

theorem holder (booked : Booked insert id naturalId s) (coherent : s.context.Coherent) :
    s.context.entity? (insert.descriptor.keyFor id) = some insert.handle := by
  obtain ⟨entry, tracked, shows⟩ := booked.entry
  obtain ⟨held, keyed, same⟩ := shows.key
  exact coherent.entity?_of_entry tracked keyed same

theorem kept (booked : Booked insert id naturalId row) (before : row.context.Coherent)
    (coherent : after.context.Coherent) (maps : after.Maps insert.descriptor)
    (spares : SparesRow insert.handle (insert.descriptor.keyFor id) row after) : Booked insert id naturalId after where
  entry := by
    rw [spares.entry]
    exact booked.entry
  identified := spares.identified.trans booked.identified
  found := by rw [maps.get, spares.holder before coherent (booked.holder before)]
  inserted := spares.inserted booked.inserted
  naturalId given extracted := spares.naturalId.trans (booked.naturalId given extracted)

theorem of_written (sound : s.Sound) (idle : insert.handle ∉ s.actions.pending) (maps : s.Maps insert.descriptor)
    (wrote : (writeInsert writer insert).exec s = (.ok (), row)) : ∃ given id,
      writer.insert s.session.journal insert.descriptor (s.writtenId insert.handle) insert.state = .ok given ∧
      (given = some id ∨ given = none ∧ s.heap.id? insert.handle = some id) ∧
      row.session.journal = s.session.journal ++ [s.insertCall insert] ∧
      Booked insert id (NaturalId.ofState? row.heap insert.descriptor insert.state) row := by
  have coherent := (writeInsert_sound sound idle wrote).coherent
  obtain ⟨given, id, context, accepted, known, assigned, written⟩ := writeInsert_recorded wrote
  obtain ⟨entry, held, tracked, same, entered⟩ := Context.entry?_recorded assigned insert.descriptor insert.state
  have origin : given = some id ∨ given = none ∧ s.heap.id? insert.handle = some id :=
    (Option.or_eq_some_iff.mp known).imp_right fun ⟨none_, standing⟩ => ⟨none_, (Option.filter_eq_some_iff.mp standing).1⟩
  have inside : insert.handle ∈ s.heap := sound.allocated _ (tracked ▸ nofun)
  have entered : row.context.entry? insert.handle =
      some ({ entry with key := some held }.inserted insert.descriptor insert.state) := by
    rw [written]
    exact entered
  have maps' : row.Maps insert.descriptor := maps.congr (by rw [written])
  refine ⟨given, id, accepted, origin, by rw [written], ?_⟩
  constructor
  case entry => exact ⟨_, entered, rfl, rfl, rfl, rfl, rfl, held, rfl, same⟩
  case identified =>
    rw [written]
    exact Heap.id?_identify_self inside origin
  case found => rw [maps'.get, coherent.entity?_of_entry entered rfl same]
  case inserted =>
    rw [written]
    refine (Context.wasInserted_markInserted _ _ _).trans ?_
    rw [BEq.rfl, Bool.true_or]
  case naturalId =>
    intro given extracted
    rw [written] at extracted ⊢
    exact (s.session.naturalIds.findNaturalId?_record id extracted _).trans (if_pos BEq.rfl)

end Booked

theorem Records.keyed {writer : Writer} {h : Handle} {s row : State} (records : Records writer h row s) :
    ∃ key, row.context.key? h = some key := by
  obtain ⟨_, _, insert, _, -, -, rfl, wrote⟩ := records.reached
  obtain ⟨_, _, _, -, -, assigned, rfl⟩ := writeInsert_recorded wrote
  obtain ⟨entry, held, -, -, entered⟩ := Context.entry?_recorded assigned insert.descriptor insert.state
  exact ⟨held, congrArg (·.bind (·.key)) entered⟩

theorem Records.later_run {writer : Writer} {h : Handle} {s middle row : State} {written : List Insert}
    (run : InsertRun writer s written middle) (records : Records writer h row middle) : Records writer h row s := by
  induction run with
  | done s => exact records
  | step next wrote run ih => exact .later next wrote (ih records)

theorem InsertRun.records {writer : Writer} {s after : State} {written : List Insert}
    (run : InsertRun writer s written after) : ∀ insert ∈ written, ∃ row, Records writer insert.handle row s := by
  induction run with
  | done s => exact fun insert member => nomatch member
  | @step s middle after first rest written next wrote run ih =>
    intro insert member
    rcases List.mem_cons.mp member with rfl | later
    · rcases executeInsert_cases wrote with ⟨_, wrong, _⟩ | ⟨row, recorded, -⟩
      · cases wrong
      · exact ⟨row, .now next rfl recorded⟩
    · obtain ⟨row, records⟩ := ih insert later
      exact ⟨row, .later next wrote records⟩

section
variable {writer : Writer} {s ready : State} {h : Handle}

theorem Records.of_flush {row : State} (records : Records writer h row ready)
    (began : (takeReady >>= queueReleased).exec s = (.ok (), ready)) : ∃ key row, FlushRecords writer s h key row := by
  obtain ⟨key, keyed⟩ := records.keyed
  exact ⟨key, row, ready, began, records, keyed⟩

theorem InsertRun.of_flush {last : State} {written : List Insert} (run : InsertRun writer ready written last)
    (began : (takeReady >>= queueReleased).exec s = (.ok (), ready)) (there : h ∈ written.map (·.handle)) :
    ∃ key row, FlushRecords writer s h key row := by
  obtain ⟨insert, inside, rfl⟩ := List.mem_map.mp there
  obtain ⟨row, records⟩ := run.records insert inside
  exact records.of_flush began

end

namespace InsertStage
variable {writer : Writer} {s middle : State} {handles : List Handle}

theorem recorded_of_entry (stage : InsertStage writer s handles middle) {h : Handle}
    (changed : middle.context.entry? h ≠ s.context.entry? h) : ∃ key row, FlushRecords writer s h key row := by
  cases stage with
  | unqueued failed => exact absurd ((queueReady_pending failed).1.entry_eq h) changed
  | passed began run drained =>
    rcases run.writesEntry h with same | ⟨there, -⟩
    · exact absurd (same.trans ((queueReady_pending began).1.entry_eq h)) changed
    · exact run.of_flush began there
  | @stopped e ready last middle written rest insert began run next failed =>
    rcases run.writesEntry h with same | ⟨there, -⟩
    · have kept : last.context.entry? h = s.context.entry? h := same.trans ((queueReady_pending began).1.entry_eq h)
      rw [← kept] at changed
      obtain rfl : h = insert.handle :=
        Decidable.byContradiction fun other => changed (executeInsert_entries (s := last.taking rest) failed other)
      rcases executeInsert_cases failed with ⟨e, -, failed⟩ | ⟨row, recorded, -⟩
      · obtain ⟨-, _, rfl⟩ := writeInsert_error failed
        exact absurd rfl changed
      · exact Records.of_flush (.later_run run (.now next rfl recorded)) began
    · exact run.of_flush began there

end InsertStage

/-- An entry that a flush changes and leaves is of an instance whose row it has recorded. -/
theorem flush_records_changed {writer : Writer} {s after : State} {answer : Except Error FlushResult} {h : Handle}
    (sound : s.Sound) (ran : (flush writer).exec s = (answer, after))
    (changed : after.context.entry? h ≠ s.context.entry? h) (still : after.context.entry? h ≠ none) :
    ∃ key row, FlushRecords writer s h key row := by
  obtain ⟨handles, middle, gone, last, stage, scheduled, deleted, ends⟩ := flush_stages ran
  have entries := deleted.entry? ((stage.sound sound).standing_early scheduled) h
  rw [← ends.context] at entries
  split at entries
  next => exact absurd entries still
  next =>
    rw [entries] at changed
    exact stage.recorded_of_entry changed

/-- However a flush goes on once it has recorded a row, the books agree with what was written when it ends. -/
theorem recorded_rows_are_booked {start s row after : State} {moves : List Move} {writer : Writer} {h : Handle}
    {key : EntityKey} {answer : Except Error FlushResult} (fresh : start.Fresh) (run : Run start moves s)
    (records : FlushRecords writer s h key row) (ran : (flush writer).exec s = (answer, after)) :
    ∃ (insert : Insert) (before : State) (given : Option Identifier) (id : Identifier), insert.handle = h ∧
      s.Maps insert.descriptor ∧ s.session.journal <+: before.session.journal ∧
      writer.insert before.session.journal insert.descriptor (before.writtenId h) insert.state = .ok given ∧
      (given = some id ∨ given = none ∧ before.heap.id? h = some id) ∧
      row.session.journal = before.session.journal ++ [before.insertCall insert] ∧
      row.session.journal <+: after.session.journal ∧
      Booked insert id (NaturalId.ofState? row.heap insert.descriptor insert.state) after := by
  have sound := run.sound fresh.sound
  have described := run.maps fresh
  obtain ⟨ready, began, written, -⟩ := id records
  obtain ⟨_, middle, insert, rest, inserts, next, rfl, wrote⟩ := written.reached
  obtain ⟨taken, idle, -⟩ := (inserts.sound (ready_sound sound began)).taking next
  have maps : s.Maps insert.descriptor := by
    rcases phase_inserts began inserts (.inr (next ▸ List.mem_cons_self)) with old | ⟨queueing, rfl, queues⟩
    · exact described.inserts insert old
    · exact queues.described described
  have advances := (queueReady_advances began).trans inserts.advances
  have maps' : (middle.taking rest).Maps insert.descriptor := maps.congr advances.factory
  obtain ⟨given, id, accepted, origin, extended, booked⟩ := Booked.of_written taken idle maps' wrote
  obtain ⟨moved, conserved⟩ := queueReady_pending began
  have proceeds := (Proceeds.of_requeues moved conserved).trans (.run inserts)
  have coherent := (records.stands sound).1.coherent
  refine ⟨insert, middle.taking rest, given, id, rfl, maps, proceeds.journal, accepted, origin, extended,
    (records.finishes sound ran).discovers.journal, ?_⟩
  exact booked.kept coherent (flush_sound sound ran).coherent (maps.congr (flush_factory ran))
    (records.spares sound (booked.holder coherent) ran)

namespace Sample

def onceOnly : Writer where
  insert journal _ _ _ := if journal.isEmpty then .ok (some number) else .error (.database "duplicate key")
  delete _ _ _ := .ok ()

def products : State where
  heap := ⟨#[⟨"Product", none, [.basic (.bool true)]⟩, ⟨"Product", none, [.basic (.bool false)]⟩]⟩
  shared := {}
  session := { factory := { metamodel := ⟨[product]⟩ } }

end Sample

open Sample in
/-- The writer refuses the second product; the first is found, by its number and by its code. -/
theorem recorded_rows_are_booked_refused : ∃ s row after e,
    Run products [.save ⟨0⟩ false, .save ⟨1⟩ false] s ∧ FlushRecords onceOnly s ⟨0⟩ (product.keyFor number) row ∧
      (flush onceOnly).exec s = (.error e, after) ∧ after.session.get "Product" number = .ok (some ⟨0⟩) ∧
      after.session.naturalIds.findNaturalId? (product.keyFor number) = some ⟨[.bool true]⟩ := by
  have created (h : Nat) (inside : h < 2) : (⟨h⟩ : Handle) ∈ products.heap := inside
  have run := (Run.start : Run products [] _)
    |>.extend (.save ⟨0⟩ false) (created 0 (by decide))
    |>.extend (.save ⟨1⟩ false) (created 1 (by decide))
  obtain ⟨s, run, factory, e, failed, row, records, call⟩ : ∃ s, Run products [.save ⟨0⟩ false, .save ⟨1⟩ false] s ∧
      s.session.factory = products.session.factory ∧ ∃ e, ((flush onceOnly).exec s).1 = .error e ∧
      ∃ row, FlushRecords onceOnly s ⟨0⟩ (product.keyFor number) row ∧
        row.session.journal = [.insert ⟨0⟩ "Product" none [.basic (.bool true)]] :=
    ⟨_, run, rfl, _, rfl, _, ⟨_, rfl, .now rfl rfl rfl, rfl⟩, rfl⟩
  have ran : (flush onceOnly).exec s = (.error e, ((flush onceOnly).exec s).2) := Prod.ext failed rfl
  obtain ⟨insert, before, given, id, same, maps, -, accepted, origin, extended, -, booked⟩ :=
    recorded_rows_are_booked ⟨rfl, rfl, rfl⟩ run records ran
  have calls : [] ++ [Call.insert ⟨0⟩ "Product" none [.basic (.bool true)]] =
      before.session.journal ++ [before.insertCall insert] := call.symm.trans extended
  obtain ⟨first, called⟩ := List.append_inj' calls rfl
  obtain ⟨h, d, state⟩ := insert
  injection List.singleton_inj.mp called with handle name _ written
  have mapped : d = product := by
    have known : s.session.descriptor d.name = .ok d := maps
    rw [Session.descriptor, factory, ← name] at known
    cases known
    rfl
  rw [← first] at accepted
  cases accepted
  obtain rfl : number = id := by simpa using origin
  subst mapped written same
  exact ⟨s, row, _, e, run, records, ran, booked.found, booked.naturalId _ rfl⟩

end UnitOfWork
