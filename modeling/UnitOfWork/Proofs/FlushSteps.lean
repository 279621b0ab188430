import UnitOfWork.Proofs.PendingInserts

/-! A flush taken apart. Its two loops are runs of single inserts and deletes, and `Flushes` lists the ways
a flush can end together with how far it had come. -/

namespace UnitOfWork

namespace Heap

def identify (heap : Heap) (h : Handle) : Option Identifier → Heap
  | some id => heap.update h fun x => { x with id := some id }
  | none => heap

private theorem read_identify (heap : Heap) (h other : Handle) (given : Option Identifier) :
    (heap.identify h given).read other = heap.read other ∨
      h = other ∧ ∃ id, (heap.identify h given).read other = { heap.read other with id } := by
  cases given with
  | none => exact .inl rfl
  | some id =>
    simp only [identify, update, read, Array.getD_eq_getD_getElem?, Array.getElem?_modify]
    split
    next same =>
      have equal : h = other := by
        cases h
        cases other
        exact congrArg Handle.mk same
      cases held : heap.instances[other.index]? with
      | none => exact .inl rfl
      | some x => exact .inr ⟨equal, some id, rfl⟩
    next => exact .inl rfl

variable (heap : Heap) (h other : Handle) (given : Option Identifier)

theorem values_identify : (heap.identify h given).values other = heap.values other := by
  rcases heap.read_identify h other given with same | ⟨-, _, same⟩ <;> rw [values, same] <;> rfl

theorem entity_identify : (heap.identify h given).entity other = heap.entity other := by
  rcases heap.read_identify h other given with same | ⟨-, _, same⟩ <;> rw [entity, same] <;> rfl

variable {h other}

theorem id?_identify (different : h ≠ other) : (heap.identify h given).id? other = heap.id? other := by
  rcases heap.read_identify h other given with same | ⟨same, -⟩
  · rw [id?, same]
    rfl
  · exact absurd same different

end Heap

namespace State

/-- The identifier that the row of an instance is written with. -/
def writtenId (s : State) (h : Handle) : Option Identifier := (s.heap.id? h).filter fun id => !id.isNull

/-- The state once the first insert has been taken off the queue. -/
def taking (s : State) (rest : List Insert) : State :=
  s.mapActions fun queue => { queue with inserts := rest }

def withoutDeletes (s : State) : State := s.mapActions fun queue => { queue with deletes := [] }

theorem pending_taking {s : State} {insert : Insert} {rest : List Insert} (next : s.actions.inserts = insert :: rest) :
    s.actions.pending = insert.handle :: (s.taking rest).actions.pending := by
  rw [ActionQueue.pending, next]
  rfl

def insertCall (s : State) (insert : Insert) : Call :=
  .insert insert.handle insert.descriptor.name (s.writtenId insert.handle) insert.state

end State

namespace Action
variable {writer : Writer} {s after : State} {insert : Insert}

/-- An insert up to the books; what it releases comes after. -/
def writeInsert (writer : Writer) (insert : Insert) : Action Unit := do
  let s ← get
  record (s.insertCall insert)
  let given ← (writer.insert s.session.journal insert.descriptor (s.writtenId insert.handle) insert.state :
    Except Error _)
  let id ← insertedIdentifier insert.handle (s.writtenId insert.handle) given
  let key := insert.descriptor.keyFor id
  changeContext fun context => context.assignKey insert.handle (s.heap.entity insert.handle) key
  recordInsert insert key

theorem executeInsert_eq (writer : Writer) (insert : Insert) :
    executeInsert writer insert = (do
      writeInsert writer insert
      releaseParked insert.handle) := by
  simp only [executeInsert, writeInsert, State.insertCall, State.writtenId, bind_assoc]

theorem insertedIdentifier_ok {h : Handle} {current given : Option Identifier} {id : Identifier}
    (ran : (insertedIdentifier h current given).exec s = (.ok id, after)) :
    given.or current = some id ∧ after = s.mapHeap fun heap => heap.identify h given := by
  cases given with
  | some _ =>
    cases ran
    exact ⟨rfl, rfl⟩
  | none =>
    cases current with
    | some _ =>
      cases ran
      exact ⟨rfl, rfl⟩
    | none => cases ran

theorem insertedIdentifier_error {h : Handle} {current given : Option Identifier} {e : Error}
    (ran : (insertedIdentifier h current given).exec s = (.error e, after)) :
    given = none ∧ current = none ∧ e = .noGeneratedIdentifier (s.heap.describe h) ∧ after = s := by
  cases given with
  | some _ => cases ran
  | none =>
    cases current with
    | some _ => cases ran
    | none =>
      cases ran
      exact ⟨rfl, rfl, rfl, rfl⟩

inductive InsertFault (writer : Writer) (insert : Insert) (s : State) : Error → Prop where
  | refused {e : Error} (refused : writer.insert s.session.journal insert.descriptor (s.writtenId insert.handle)
      insert.state = .error e) : InsertFault writer insert s e
  | unidentified (accepted : writer.insert s.session.journal insert.descriptor (s.writtenId insert.handle)
      insert.state = .ok none) (unknown : s.writtenId insert.handle = none) :
      InsertFault writer insert s (.noGeneratedIdentifier (s.heap.describe insert.handle))
  /-- The key of the row stands for another instance, or the instance has another key or is not tracked. -/
  | clash {given : Option Identifier} {id : Identifier} {e : Error}
      (accepted : writer.insert s.session.journal insert.descriptor (s.writtenId insert.handle) insert.state = .ok given)
      (known : given.or (s.writtenId insert.handle) = some id)
      (taken : s.context.assignKey insert.handle (s.heap.entity insert.handle) (insert.descriptor.keyFor id) = .error e) :
      InsertFault writer insert s e

theorem writeInsert_recorded (ran : (writeInsert writer insert).exec s = (.ok (), after)) :
    ∃ given id context,
      writer.insert s.session.journal insert.descriptor (s.writtenId insert.handle) insert.state = .ok given ∧
      given.or (s.writtenId insert.handle) = some id ∧
      s.context.assignKey insert.handle (s.heap.entity insert.handle) (insert.descriptor.keyFor id) = .ok context ∧
      after = { s with
        heap := s.heap.identify insert.handle given
        session := { s.session with
          journal := s.session.journal ++ [s.insertCall insert]
          naturalIds := s.session.naturalIds.record (s.heap.identify insert.handle given) insert.descriptor id insert.state
          context := (context.updateEntry insert.handle fun entry =>
            entry.inserted insert.descriptor insert.state).markInserted (insert.descriptor.keyFor id) } } := by
  unfold writeInsert at ran
  rw [exec_get_bind] at ran
  dsimp only at ran
  rw [exec_record_bind] at ran
  obtain ⟨given, _, written, ran⟩ := bind_ok ran
  obtain ⟨accepted, rfl⟩ := lift_ok written
  obtain ⟨id, _, identified, ran⟩ := bind_ok ran
  obtain ⟨known, rfl⟩ := insertedIdentifier_ok identified
  obtain ⟨_, _, assigned, ran⟩ := bind_ok ran
  obtain ⟨context, keyed, rfl⟩ := changeContext_ok assigned
  cases ran
  exact ⟨given, id, context, accepted, known, keyed, rfl⟩

theorem writeInsert_ok (ran : (writeInsert writer insert).exec s = (.ok (), after)) :
    ∃ given id context naturalIds,
      writer.insert s.session.journal insert.descriptor (s.writtenId insert.handle) insert.state = .ok given ∧
      given.or (s.writtenId insert.handle) = some id ∧
      s.context.assignKey insert.handle (s.heap.entity insert.handle) (insert.descriptor.keyFor id) = .ok context ∧
      after = { s with
        heap := s.heap.identify insert.handle given
        session := { s.session with
          journal := s.session.journal ++ [s.insertCall insert]
          naturalIds
          context := (context.updateEntry insert.handle fun entry =>
            entry.inserted insert.descriptor insert.state).markInserted (insert.descriptor.keyFor id) } } := by
  obtain ⟨given, id, context, recorded⟩ := writeInsert_recorded ran
  exact ⟨given, id, context, _, recorded⟩

theorem writeInsert_error {e : Error} (ran : (writeInsert writer insert).exec s = (.error e, after)) :
    InsertFault writer insert s e ∧
      ∃ given, after = (s.mapHeap fun heap => heap.identify insert.handle given).record (s.insertCall insert) := by
  unfold writeInsert at ran
  rw [exec_get_bind] at ran
  dsimp only at ran
  rw [exec_record_bind] at ran
  rcases bind_error ran with refused | ⟨given, _, written, ran⟩
  · obtain ⟨cause, rfl⟩ := lift_error refused
    exact ⟨.refused cause, none, rfl⟩
  · obtain ⟨accepted, rfl⟩ := lift_ok written
    rcases bind_error ran with failed | ⟨id, _, identified, ran⟩
    · obtain ⟨rfl, unknown, rfl, rfl⟩ := insertedIdentifier_error failed
      exact ⟨.unidentified accepted unknown, none, rfl⟩
    · obtain ⟨known, rfl⟩ := insertedIdentifier_ok identified
      rcases bind_error ran with failed | ⟨_, _, _, recorded⟩
      · obtain ⟨taken, rfl⟩ := changeContext_error failed
        exact ⟨.clash accepted known taken, given, rfl⟩
      · cases recorded

theorem insertedIdentifier_exec {h : Handle} {current given : Option Identifier} {id : Identifier}
    (known : given.or current = some id) :
    (insertedIdentifier h current given).exec s = (.ok id, s.mapHeap fun heap => heap.identify h given) := by
  cases given with
  | some _ =>
    cases known
    rfl
  | none =>
    cases current with
    | some _ =>
      cases known
      rfl
    | none => cases known

theorem InsertFault.exec {e : Error} (fault : InsertFault writer insert s e) :
    ∃ after, (writeInsert writer insert).exec s = (.error e, after) := by
  unfold writeInsert
  rw [exec_get_bind]
  dsimp only
  rw [exec_record_bind]
  cases fault with
  | refused refused => exact ⟨_, exec_bind_error _ (by rw [refused]; rfl)⟩
  | unidentified accepted unknown =>
    rw [accepted, unknown]
    exact ⟨_, rfl⟩
  | clash accepted known taken =>
    rw [accepted, exec_bind_ok _ (exec_lift _ _), exec_bind_ok _ (insertedIdentifier_exec known)]
    exact ⟨_, exec_bind_error _ (exec_changeContext_error taken)⟩

/-- An insert fails before its row is in the books, or the row is written and something it releases fails. -/
theorem executeInsert_cases {answer : Except Error Unit}
    (ran : (executeInsert writer insert).exec s = (answer, after)) :
    (∃ e, answer = .error e ∧ (writeInsert writer insert).exec s = (.error e, after)) ∨
      ∃ written, (writeInsert writer insert).exec s = (.ok (), written) ∧
        (releaseParked insert.handle).exec written = (answer, after) := by
  rw [executeInsert_eq, exec_bind] at ran
  rcases wrote : (writeInsert writer insert).exec s with ⟨e | _, written⟩
  · rw [wrote] at ran
    cases ran
    exact .inl ⟨e, rfl, rfl⟩
  · rw [wrote] at ran
    exact .inr ⟨written, rfl, ran⟩

end Action

open UnitOfWork.Action

/-- Inserts taken off the queue one after the other, each of them written. -/
inductive InsertRun (writer : Writer) : State → List Insert → State → Prop where
  | done (s : State) : InsertRun writer s [] s
  | step {s middle after : State} {insert : Insert} {rest written : List Insert}
      (next : s.actions.inserts = insert :: rest)
      (wrote : (executeInsert writer insert).exec (s.taking rest) = (.ok (), middle))
      (run : InsertRun writer middle written after) : InsertRun writer s (insert :: written) after

inductive DeleteRun (writer : Writer) : State → List Delete → State → Prop where
  | done (s : State) : DeleteRun writer s [] s
  | step {s middle after : State} {delete : Delete} {rest : List Delete}
      (wrote : (executeDelete writer delete).exec s = (.ok (), middle))
      (run : DeleteRun writer middle rest after) : DeleteRun writer s (delete :: rest) after

inductive Flushes (writer : Writer) (s : State) : Except Error FlushResult → State → Prop where
  /-- An insert that waited for nothing could not be queued. -/
  | unqueued {e : Error} {after : State} (failed : (takeReady >>= queueReleased).exec s = (.error e, after)) :
      Flushes writer s (.error e) after
  | stopped {e : Error} {ready middle after : State} {written rest : List Insert} {insert : Insert}
      (began : (takeReady >>= queueReleased).exec s = (.ok (), ready))
      (run : InsertRun writer ready written middle)
      (next : middle.actions.inserts = insert :: rest)
      (failed : (executeInsert writer insert).exec (middle.taking rest) = (.error e, after)) :
      Flushes writer s (.error e) after
  /-- No insert was left that could be written, but some still waited. -/
  | blocked {e : Error} {ready after : State} {written : List Insert}
      (began : (takeReady >>= queueReleased).exec s = (.ok (), ready))
      (run : InsertRun writer ready written after)
      (drained : after.actions.inserts = [])
      (waiting : after.actions.firstError? after.heap = some e) : Flushes writer s (.error e) after
  /-- All inserts were written, and then a delete failed. -/
  | undeleted {e : Error} {ready middle last after : State} {written : List Insert} {gone rest : List Delete}
      {delete : Delete}
      (began : (takeReady >>= queueReleased).exec s = (.ok (), ready))
      (run : InsertRun writer ready written middle)
      (drained : middle.actions.inserts = [])
      (free : middle.actions.parked = [])
      (scheduled : middle.actions.deletes = gone ++ delete :: rest)
      (deleted : DeleteRun writer middle.withoutDeletes gone last)
      (failed : (executeDelete writer delete).exec last = (.error e, after)) : Flushes writer s (.error e) after
  | done {ready middle after : State} {written : List Insert}
      (began : (takeReady >>= queueReleased).exec s = (.ok (), ready))
      (run : InsertRun writer ready written middle)
      (drained : middle.actions.inserts = [])
      (free : middle.actions.parked = [])
      (deleted : DeleteRun writer middle.withoutDeletes middle.actions.deletes after) :
      Flushes writer s (.ok { inserted := written.length, deleted := middle.actions.deletes.length }) after

namespace Action
variable {writer : Writer} {s after : State} {insert : Insert}

theorem writeInsert_actions {answer : Except Error Unit} (ran : (writeInsert writer insert).exec s = (answer, after)) :
    after.actions = s.actions := by
  cases answer with
  | error e =>
    obtain ⟨-, _, rfl⟩ := writeInsert_error ran
    rfl
  | ok _ =>
    obtain ⟨_, _, _, _, _, _, _, rfl⟩ := writeInsert_ok ran
    rfl

theorem executeInsert_pending {answer : Except Error Unit}
    (ran : (executeInsert writer insert).exec s = (answer, after)) :
    after.actions.pending.Perm s.actions.pending ∧ after.actions.deletes = s.actions.deletes := by
  rcases executeInsert_cases ran with ⟨_, _, failed⟩ | ⟨written, wrote, released⟩
  · rw [writeInsert_actions failed]
    exact ⟨.refl _, rfl⟩
  · obtain ⟨moved, conserved⟩ := releaseParked_pending released
    rw [moved.deletes, ← writeInsert_actions wrote]
    exact ⟨conserved, rfl⟩

theorem executeInsert_conserves {rest : List Insert} {answer : Except Error Unit}
    (next : s.actions.inserts = insert :: rest)
    (ran : (executeInsert writer insert).exec (s.taking rest) = (answer, after)) :
    (insert.handle :: after.actions.pending).Perm s.actions.pending := by
  rw [State.pending_taking next]
  exact (executeInsert_pending ran).1.cons _

theorem pendingInserts_taking {rest : List Insert} (next : s.actions.inserts = insert :: rest) :
    (s.taking rest).actions.pendingInserts + 1 = s.actions.pendingInserts := by
  rw [← ActionQueue.length_pending, ← ActionQueue.length_pending, State.pending_taking next, List.length_cons]

theorem executeInsert_decreases {rest : List Insert} {answer : Except Error Unit}
    (next : s.actions.inserts = insert :: rest)
    (ran : (executeInsert writer insert).exec (s.taking rest) = (answer, after)) :
    after.actions.pendingInserts + 1 = s.actions.pendingInserts := by
  have same := (executeInsert_conserves next ran).length_eq
  rw [List.length_cons, ActionQueue.length_pending, ActionQueue.length_pending] at same
  exact same

theorem runInserts_exec_nil (bound : Nat) (drained : s.actions.inserts = []) :
    (runInserts writer bound).exec s = (.ok 0, s) := by
  cases bound with
  | zero => rfl
  | succ bound =>
    unfold runInserts
    rw [exec_get_bind, drained]
    rfl

theorem runInserts_exec_cons {rest : List Insert} (bound : Nat) (next : s.actions.inserts = insert :: rest) :
    (runInserts writer (bound + 1)).exec s = (do
      executeInsert writer insert
      let others ← runInserts writer bound
      return others + 1).exec (s.taking rest) := by
  rw [runInserts, exec_get_bind, next]
  dsimp only
  rw [exec_modify_bind]
  rfl

theorem runInserts_step {insert : Insert} {rest : List Insert} {bound : Nat} {answer : Except Error Nat}
    (next : s.actions.inserts = insert :: rest) (ran : (runInserts writer (bound + 1)).exec s = (answer, after)) :
    (∃ e, (executeInsert writer insert).exec (s.taking rest) = (.error e, after)) ∨
      ∃ middle answer, (executeInsert writer insert).exec (s.taking rest) = (.ok (), middle) ∧
        (runInserts writer bound).exec middle = (answer, after) := by
  rw [runInserts_exec_cons bound next, exec_bind] at ran
  rcases wrote : (executeInsert writer insert).exec (s.taking rest) with ⟨e | _, middle⟩
  · rw [wrote] at ran
    cases ran
    exact .inl ⟨e, rfl⟩
  · rw [wrote] at ran
    dsimp only at ran
    rw [exec_bind] at ran
    rcases others : (runInserts writer bound).exec middle with ⟨e | count, last⟩
    · rw [others] at ran
      cases ran
      exact .inr ⟨middle, _, rfl, others⟩
    · rw [others] at ran
      cases ran
      exact .inr ⟨middle, _, rfl, others⟩

theorem inserts_of_pendingInserts (none_ : s.actions.pendingInserts = 0) : s.actions.inserts = [] := by
  apply List.eq_nil_of_length_eq_zero
  unfold ActionQueue.pendingInserts at none_
  omega

/-- The loop over the inserts ends because none is left, or because one has failed; a sufficient bound never
cuts it short. -/
theorem runInserts_cases {answer : Except Error Nat} (bound : Nat) (enough : s.actions.pendingInserts ≤ bound)
    (ran : (runInserts writer bound).exec s = (answer, after)) :
    (∃ written, InsertRun writer s written after ∧ after.actions.inserts = [] ∧ answer = .ok written.length) ∨
      ∃ e written middle next rest, InsertRun writer s written middle ∧ middle.actions.inserts = next :: rest ∧
        (executeInsert writer next).exec (middle.taking rest) = (.error e, after) ∧ answer = .error e := by
  induction bound generalizing s answer with
  | zero =>
    have drained := inserts_of_pendingInserts (Nat.le_zero.mp enough)
    cases ran
    exact .inl ⟨[], .done _, drained, rfl⟩
  | succ bound ih =>
    cases next : s.actions.inserts with
    | nil =>
      rw [runInserts_exec_nil _ next] at ran
      cases ran
      exact .inl ⟨[], .done _, next, rfl⟩
    | cons insert rest =>
      rw [runInserts_exec_cons bound next, exec_bind] at ran
      rcases wrote : (executeInsert writer insert).exec (s.taking rest) with ⟨e | _, middle⟩
      · rw [wrote] at ran
        cases ran
        exact .inr ⟨e, [], s, insert, rest, .done s, next, wrote, rfl⟩
      · rw [wrote] at ran
        dsimp only at ran
        have decreases := executeInsert_decreases next wrote
        rw [exec_bind] at ran
        rcases others : (runInserts writer bound).exec middle with ⟨e | count, last⟩
        · rw [others] at ran
          cases ran
          obtain ⟨_, _, _, wrong⟩ | ⟨e, written, stop, failing, rest', run, next', failed, same⟩ :=
            ih (by omega) others
          · cases wrong
          · cases same
            exact .inr ⟨e, _, stop, failing, rest', .step next wrote run, next', failed, rfl⟩
        · rw [others] at ran
          cases ran
          obtain ⟨written, run, drained, same⟩ | ⟨_, _, _, _, _, _, _, _, wrong⟩ := ih (by omega) others
          · cases same
            exact .inl ⟨_, .step next wrote run, drained, rfl⟩
          · cases wrong

theorem runInserts_stable (first second : Nat) (enough : s.actions.pendingInserts ≤ first)
    (also : s.actions.pendingInserts ≤ second) :
    (runInserts writer first).exec s = (runInserts writer second).exec s := by
  induction first generalizing second s with
  | zero =>
    have drained := inserts_of_pendingInserts (Nat.le_zero.mp enough)
    rw [runInserts_exec_nil _ drained, runInserts_exec_nil _ drained]
  | succ first ih =>
    cases next : s.actions.inserts with
    | nil => rw [runInserts_exec_nil _ next, runInserts_exec_nil _ next]
    | cons insert rest =>
      have remaining := pendingInserts_taking next
      obtain ⟨second, rfl⟩ : ∃ fewer, second = fewer + 1 := ⟨second - 1, by omega⟩
      rw [runInserts_exec_cons first next, runInserts_exec_cons second next, exec_bind, exec_bind]
      rcases wrote : (executeInsert writer insert).exec (s.taking rest) with ⟨e | _, middle⟩
      · rfl
      · have decreases := executeInsert_decreases next wrote
        dsimp only
        rw [exec_bind, exec_bind, ih second (by omega) (by omega)]

theorem runDeletes_cases {answer : Except Error Nat} (deletes : List Delete)
    (ran : (runDeletes writer deletes).exec s = (answer, after)) :
    DeleteRun writer s deletes after ∧ answer = .ok deletes.length ∨
      ∃ e gone delete rest middle, deletes = gone ++ delete :: rest ∧ DeleteRun writer s gone middle ∧
        (executeDelete writer delete).exec middle = (.error e, after) ∧ answer = .error e := by
  induction deletes generalizing s answer with
  | nil =>
    cases ran
    exact .inl ⟨.done _, rfl⟩
  | cons delete rest ih =>
    rw [runDeletes, exec_bind] at ran
    rcases wrote : (executeDelete writer delete).exec s with ⟨e | _, middle⟩
    · rw [wrote] at ran
      cases ran
      exact .inr ⟨e, [], delete, rest, s, rfl, .done s, wrote, rfl⟩
    · rw [wrote] at ran
      dsimp only at ran
      rw [exec_bind] at ran
      rcases others : (runDeletes writer rest).exec middle with ⟨e | count, last⟩
      · rw [others] at ran
        cases ran
        obtain ⟨_, wrong⟩ | ⟨e, gone, failing, rest', stop, rfl, run, failed, same⟩ := ih others
        · cases wrong
        · cases same
          exact .inr ⟨e, delete :: gone, failing, rest', stop, rfl, .step wrote run, failed, rfl⟩
      · rw [others] at ran
        cases ran
        obtain ⟨run, same⟩ | ⟨_, _, _, _, _, _, _, _, wrong⟩ := ih others
        · cases same
          exact .inl ⟨.step wrote run, rfl⟩
        · cases wrong

theorem parked_of_firstError (queue : ActionQueue) (heap : Heap) (free : queue.firstError? heap = none) :
    queue.parked = [] := by
  unfold ActionQueue.firstError? at free
  cases waiting : queue.parked with
  | nil => rfl
  | cons insert rest =>
    rw [waiting] at free
    cases free

/-- A flush that gives up after so many inserts. -/
def flushWithin (writer : Writer) (bound : Nat) : Action FlushResult := do
  takeReady >>= queueReleased
  let inserted ← runInserts writer bound
  let s ← get
  match s.actions.firstError? s.heap with
  | some e => throw e
  | none =>
    let deleted ← runDeletes writer (← takeDeletes)
    return { inserted, deleted }

theorem flush_exec (writer : Writer) (s : State) {bound : Nat} (enough : s.actions.pendingInserts ≤ bound) :
    (flush writer).exec s = (flushWithin writer bound).exec s := by
  have parts : flush writer = (do
      takeReady >>= queueReleased
      let inserted ← runInserts writer (← get).actions.pendingInserts
      let s ← get
      match s.actions.firstError? s.heap with
      | some e => throw e
      | none =>
        let deleted ← runDeletes writer (← takeDeletes)
        return { inserted, deleted }) := (bind_assoc takeReady queueReleased _).symm
  rw [parts, flushWithin]
  rcases began : (takeReady >>= queueReleased).exec s with ⟨e | _, ready⟩
  · rw [exec_bind_error _ began, exec_bind_error _ began]
  · have same := (queueReady_pending began).2.length_eq
    rw [ActionQueue.length_pending, ActionQueue.length_pending] at same
    rw [exec_bind_ok _ began, exec_bind_ok _ began, exec_get_bind, exec_bind, exec_bind,
      runInserts_stable _ bound (Nat.le_refl _) (by omega)]

theorem flush_cases {answer : Except Error FlushResult} (ran : (flush writer).exec s = (answer, after)) :
    Flushes writer s answer after := by
  rw [flush_exec writer s (Nat.le_refl _), flushWithin, exec_bind] at ran
  rcases began : (takeReady >>= queueReleased).exec s with ⟨e | _, ready⟩
  · rw [began] at ran
    cases ran
    exact .unqueued began
  have enough : ready.actions.pendingInserts ≤ s.actions.pendingInserts := by
    rw [← ActionQueue.length_pending, ← ActionQueue.length_pending]
    exact Nat.le_of_eq (queueReady_pending began).2.length_eq
  rw [began] at ran
  dsimp only at ran
  rw [exec_bind] at ran
  rcases looped : (runInserts writer s.actions.pendingInserts).exec ready with ⟨e | inserted, middle⟩
  · rw [looped] at ran
    cases ran
    obtain ⟨_, _, _, wrong⟩ | ⟨e, written, stop, failing, rest, run, next, failed, same⟩ :=
      runInserts_cases _ enough looped
    · cases wrong
    · cases same
      exact .stopped began run next failed
  rw [looped] at ran
  dsimp only at ran
  obtain ⟨written, run, drained, rfl⟩ : ∃ written, InsertRun writer ready written middle ∧
      middle.actions.inserts = [] ∧ inserted = written.length := by
    obtain ⟨written, run, drained, same⟩ | ⟨_, _, _, _, _, _, _, _, wrong⟩ :=
      runInserts_cases _ enough looped
    · cases same
      exact ⟨written, run, drained, rfl⟩
    · cases wrong
  rw [exec_get_bind] at ran
  cases waiting : middle.actions.firstError? middle.heap with
  | some e =>
    rw [waiting] at ran
    cases ran
    exact .blocked began run drained waiting
  | none =>
    rw [waiting] at ran
    have free := parked_of_firstError _ _ waiting
    have took : takeDeletes.exec middle = (.ok middle.actions.deletes, middle.withoutDeletes) := rfl
    dsimp only at ran
    rw [exec_bind_ok _ took, exec_bind] at ran
    rcases deleting : (runDeletes writer middle.actions.deletes).exec middle.withoutDeletes with ⟨e | count, last⟩
    · rw [deleting] at ran
      cases ran
      obtain ⟨_, wrong⟩ | ⟨e, gone, delete, rest, stop, scheduled, deleted, failed, same⟩ :=
        runDeletes_cases _ deleting
      · cases wrong
      · cases same
        exact .undeleted began run drained free scheduled deleted failed
    · rw [deleting] at ran
      cases ran
      obtain ⟨deleted, same⟩ | ⟨_, _, _, _, _, _, _, _, wrong⟩ := runDeletes_cases _ deleting
      · cases same
        exact .done began run drained free deleted
      · cases wrong

end Action

theorem InsertRun.exec_ok {writer : Writer} {s after : State} {written : List Insert}
    (run : InsertRun writer s written after) (drained : after.actions.inserts = []) (bound : Nat)
    (enough : s.actions.pendingInserts ≤ bound) : (runInserts writer bound).exec s = (.ok written.length, after) := by
  induction run generalizing bound with
  | done s => exact runInserts_exec_nil bound drained
  | step next wrote run ih =>
    have decreases := executeInsert_decreases next wrote
    obtain ⟨bound, rfl⟩ : ∃ fewer, bound = fewer + 1 := ⟨bound - 1, by omega⟩
    rw [runInserts_exec_cons bound next, exec_bind_ok _ wrote, exec_bind_ok _ (ih drained bound (by omega))]
    rfl

theorem InsertRun.exec_error {writer : Writer} {s middle after : State} {written rest : List Insert}
    {insert : Insert} {e : Error} (run : InsertRun writer s written middle)
    (next : middle.actions.inserts = insert :: rest)
    (failed : (executeInsert writer insert).exec (middle.taking rest) = (.error e, after)) (bound : Nat)
    (enough : s.actions.pendingInserts ≤ bound) : (runInserts writer bound).exec s = (.error e, after) := by
  induction run generalizing bound with
  | done s =>
    have remaining := pendingInserts_taking next
    obtain ⟨bound, rfl⟩ : ∃ fewer, bound = fewer + 1 := ⟨bound - 1, by omega⟩
    rw [runInserts_exec_cons bound next, exec_bind_error _ failed]
  | step first wrote run ih =>
    have decreases := executeInsert_decreases first wrote
    obtain ⟨bound, rfl⟩ : ∃ fewer, bound = fewer + 1 := ⟨bound - 1, by omega⟩
    rw [runInserts_exec_cons bound first, exec_bind_ok _ wrote, exec_bind_error _ (ih next failed bound (by omega))]

theorem DeleteRun.exec_ok {writer : Writer} {s after : State} {deletes : List Delete}
    (run : DeleteRun writer s deletes after) : (runDeletes writer deletes).exec s = (.ok deletes.length, after) := by
  induction run with
  | done s => rfl
  | step wrote run ih =>
    rw [runDeletes, exec_bind_ok _ wrote, exec_bind_ok _ ih]
    rfl

theorem DeleteRun.exec_error {writer : Writer} {s middle after : State} {gone rest : List Delete}
    {delete : Delete} {e : Error} (run : DeleteRun writer s gone middle)
    (failed : (executeDelete writer delete).exec middle = (.error e, after)) :
    (runDeletes writer (gone ++ delete :: rest)).exec s = (.error e, after) := by
  induction run with
  | done s => rw [List.nil_append, runDeletes, exec_bind_error _ failed]
  | step wrote run ih => rw [List.cons_append, runDeletes, exec_bind_ok _ wrote, exec_bind_error _ (ih failed)]

theorem Flushes.exec {writer : Writer} {s after : State} {answer : Except Error FlushResult}
    (flushes : Flushes writer s answer after) : (flush writer).exec s = (answer, after) := by
  rw [flush_exec writer s (Nat.le_refl _), flushWithin]
  have enough {ready : State} (began : (takeReady >>= queueReleased).exec s = (.ok (), ready)) :
      ready.actions.pendingInserts ≤ s.actions.pendingInserts := by
    rw [← ActionQueue.length_pending, ← ActionQueue.length_pending]
    exact Nat.le_of_eq (queueReady_pending began).2.length_eq
  have unblocked {middle : State} (free : middle.actions.parked = []) :
      middle.actions.firstError? middle.heap = none := by
    rw [ActionQueue.firstError?, free]
    rfl
  have took (middle : State) : takeDeletes.exec middle = (.ok middle.actions.deletes, middle.withoutDeletes) := rfl
  cases flushes with
  | unqueued failed => rw [exec_bind_error _ failed]
  | stopped began run next failed =>
    rw [exec_bind_ok _ began, exec_bind_error _ (run.exec_error next failed _ (enough began))]
  | blocked began run drained waiting =>
    rw [exec_bind_ok _ began, exec_bind_ok _ (run.exec_ok drained _ (enough began)), exec_get_bind, waiting]
    rfl
  | undeleted began run drained free scheduled deleted failed =>
    rw [exec_bind_ok _ began, exec_bind_ok _ (run.exec_ok drained _ (enough began)), exec_get_bind, unblocked free]
    dsimp only
    rw [exec_bind_ok _ (took _), scheduled, exec_bind_error _ (deleted.exec_error failed)]
  | done began run drained free deleted =>
    rw [exec_bind_ok _ began, exec_bind_ok _ (run.exec_ok drained _ (enough began)), exec_get_bind, unblocked free]
    dsimp only
    rw [exec_bind_ok _ (took _), exec_bind_ok _ deleted.exec_ok]
    rfl

end UnitOfWork
