import UnitOfWork.Proofs.FlushConservation

/-! Where the inserts come from that a flush writes. An insert is queued by its save, or once nothing is
left that it had been parked for, and stands in the queue until a flush takes it off. -/

namespace UnitOfWork
open UnitOfWork.Action

structure Queueing where
  insert : Insert
  early : Bool
  /-- It had been parked before. -/
  parked : Bool
  moment : State
  judged : State
  nulled : (Nullifier.nullifyAll ⟨some insert.handle, false, early⟩ insert.descriptor.attributes
    (moment.heap.values insert.handle)).exec moment = (.ok insert.state, judged)

inductive Released : List ParkedInsert → State → Queueing → Prop where
  | first {insert : ParkedInsert} {rest : List ParkedInsert} {queueing : Queueing}
      (handle : queueing.insert.handle = insert.handle) (descriptor : queueing.insert.descriptor = insert.descriptor)
      (early : queueing.early = insert.early) (parked : queueing.parked = true) :
      Released (insert :: rest) queueing.moment queueing
  | later {insert : ParkedInsert} {rest : List ParkedInsert} {s middle : State} {queueing : Queueing}
      (queued : (queueInsert insert.handle insert.descriptor insert.early).exec s = (.ok (), middle))
      (released : Released rest middle queueing) : Released (insert :: rest) s queueing

def ReleasedBy (h : Handle) (s : State) (queueing : Queueing) : Prop :=
  Released (s.actions.release h).1 (s.mapActions fun _ => (s.actions.release h).2) queueing

/-- One of the rows that a flush goes on to write releases inserts. -/
inductive Releases (writer : Writer) : State → Queueing → Prop where
  | now {s row : State} {insert : Insert} {rest : List Insert} {queueing : Queueing}
      (next : s.actions.inserts = insert :: rest)
      (wrote : (writeInsert writer insert).exec (s.taking rest) = (.ok (), row))
      (released : ReleasedBy insert.handle row queueing) : Releases writer s queueing
  | later {s middle : State} {insert : Insert} {rest : List Insert} {queueing : Queueing}
      (next : s.actions.inserts = insert :: rest)
      (wrote : (executeInsert writer insert).exec (s.taking rest) = (.ok (), middle))
      (releases : Releases writer middle queueing) : Releases writer s queueing

inductive Move.Queues (s : State) : Move → Queueing → Prop where
  | saved {early : Bool} {d : Descriptor} {key : Option EntityKey} {context : Context} {queueing : Queueing}
      (unknown : s.context.isTracked queueing.insert.handle = false)
      (mapped : s.session.descriptor (s.heap.entity queueing.insert.handle) = .ok d)
      (added : s.context.addEntity queueing.insert.handle (Entry.saved d key) = .ok context)
      (free : (dependencies d.name queueing.insert.handle (s.heap.values queueing.insert.handle) queueing.early).exec
        (s.mapContext fun _ => context) = (.ok [], queueing.moment))
      (descriptor : queueing.insert.descriptor = d)
      (written : queueing.early = (early || d.identifier.generator = .identity))
      (parked : queueing.parked = false) : Queues s (.save queueing.insert.handle early) queueing
  | ready {writer : Writer} {queueing : Queueing}
      (released : Released s.actions.takeReady.1 (s.mapActions fun _ => s.actions.takeReady.2) queueing) :
      Queues s (.flush writer) queueing
  | released {writer : Writer} {ready : State} {queueing : Queueing}
      (began : (takeReady >>= queueReleased).exec s = (.ok (), ready))
      (releases : Releases writer ready queueing) : Queues s (.flush writer) queueing

inductive Awaits (insert : Insert) (start : State) : List Move → State → Prop where
  | start (due : insert ∈ start.actions.inserts) : Awaits insert start [] start
  | step {moves : List Move} {s : State} {move : Move} (awaits : Awaits insert start moves s) (allowed : move.Allowed s)
      (due : insert ∈ (move.perform s).actions.inserts) : Awaits insert start (moves ++ [move]) (move.perform s)

/-- A move of a run has queued an insert, which has been in the queue since. -/
def Origin (start : State) (moves : List Move) (s : State) (queueing : Queueing) : Prop :=
  ∃ earlier before move later, moves = earlier ++ move :: later ∧ Run start earlier before ∧
    move.Allowed before ∧ move.Queues before queueing ∧ Awaits queueing.insert (move.perform before) later s

namespace Action
variable {writer : Writer} {s after : State} {insert : Insert}

theorem queueReleased_inserts {answer : Except Error Unit} : ∀ (released : List ParkedInsert) (s : State),
    (queueReleased released).exec s = (answer, after) → insert ∈ after.actions.inserts →
      insert ∈ s.actions.inserts ∨ ∃ queueing, queueing.insert = insert ∧ Released released s queueing
  | [], s, ran, due => by
    cases ran
    exact .inl due
  | parked :: rest, s, ran, due => by
    unfold queueReleased at ran
    rw [exec_bind, exec_tryCatch] at ran
    rcases tried : (queueInsert parked.handle parked.descriptor parked.early).exec s with ⟨e | _, middle⟩
    · rw [tried] at ran
      cases ran
      obtain ⟨-, ⟨_, _, same⟩ | ⟨wrong, _⟩⟩ := queueInsert_pending tried
      · change insert ∈ middle.actions.inserts at due
        rw [same] at due
        exact .inl due
      · cases wrong
    · rw [tried] at ran
      rcases queueReleased_inserts rest middle ran due with early | ⟨queueing, same, late⟩
      · obtain ⟨state, asked, nulled, rfl⟩ := queueInsert_ok tried
        have kept : asked.actions = s.actions := ((Nullifier.nullifyAll_asks _ _ _ s).of_exec nulled).actions
        change insert ∈ asked.actions.inserts ++ _ at early
        rw [kept] at early
        rcases List.mem_append.mp early with old | new
        · exact .inl old
        · let queueing : Queueing := ⟨⟨_, _, state⟩, parked.early, true, s, asked, nulled⟩
          exact .inr ⟨queueing, (List.mem_singleton.mp new).symm, @Released.first parked rest queueing rfl rfl rfl rfl⟩
      · exact .inr ⟨queueing, same, .later tried late⟩

theorem queueReady_inserts {answer : Except Error Unit} (ran : (takeReady >>= queueReleased).exec s = (answer, after))
    (due : insert ∈ after.actions.inserts) : insert ∈ s.actions.inserts ∨
      ∃ queueing, queueing.insert = insert ∧
        Released s.actions.takeReady.1 (s.mapActions fun _ => s.actions.takeReady.2) queueing := by
  rw [exec_bind_ok _ (takeReady_exec s)] at ran
  exact queueReleased_inserts _ _ ran due

theorem executeInsert_inserts {next : Insert} {answer : Except Error Unit}
    (ran : (executeInsert writer next).exec s = (answer, after)) (due : insert ∈ after.actions.inserts) :
    insert ∈ s.actions.inserts ∨ ∃ row queueing, (writeInsert writer next).exec s = (.ok (), row) ∧
      queueing.insert = insert ∧ ReleasedBy next.handle row queueing := by
  rcases executeInsert_cases ran with ⟨_, _, failed⟩ | ⟨row, wrote, released⟩
  · rw [writeInsert_actions failed] at due
    exact .inl due
  · rw [releaseParked_exec] at released
    rcases queueReleased_inserts _ _ released due with old | ⟨queueing, same, new⟩
    · change insert ∈ row.actions.inserts at old
      rw [writeInsert_actions wrote] at old
      exact .inl old
    · exact .inr ⟨row, queueing, wrote, same, new⟩

end Action

namespace InsertRun
variable {writer : Writer} {s after : State} {written : List Insert}

theorem releases (run : InsertRun writer s written after) {queueing : Queueing}
    (later : Releases writer after queueing) : Releases writer s queueing := by
  induction run with
  | done s => exact later
  | step next wrote run ih => exact .later next wrote (ih later)

/-- An insert that was written, or is left in the queue, was queued before or released on the way. -/
theorem queued (run : InsertRun writer s written after) {insert : Insert}
    (due : insert ∈ written ∨ insert ∈ after.actions.inserts) :
    insert ∈ s.actions.inserts ∨ ∃ queueing, queueing.insert = insert ∧ Releases writer s queueing := by
  induction run with
  | done s => exact due.elim (fun none_ => nomatch none_) .inl
  | @step s middle after first rest written next wrote run ih =>
    have later (due : insert ∈ written ∨ insert ∈ after.actions.inserts) :
        insert ∈ s.actions.inserts ∨ ∃ queueing, queueing.insert = insert ∧ Releases writer s queueing := by
      rcases ih due with old | ⟨queueing, same, releases⟩
      · rcases executeInsert_inserts wrote old with older | ⟨row, queueing, recorded, same, released⟩
        · rw [next]
          exact .inl (List.mem_cons_of_mem _ older)
        · exact .inr ⟨queueing, same, .now next recorded released⟩
      · exact .inr ⟨queueing, same, .later next wrote releases⟩
    rcases due with member | left
    · rcases List.mem_cons.mp member with rfl | others
      · rw [next]
        exact .inl List.mem_cons_self
      · exact later (.inl others)
    · exact later (.inr left)

end InsertRun

namespace Action
variable {writer : Writer} {s after : State} {insert : Insert}

theorem phase_inserts {ready middle : State} {written : List Insert}
    (began : (takeReady >>= queueReleased).exec s = (.ok (), ready)) (run : InsertRun writer ready written middle)
    (due : insert ∈ written ∨ insert ∈ middle.actions.inserts) :
    insert ∈ s.actions.inserts ∨ ∃ queueing, queueing.insert = insert ∧ (Move.flush writer).Queues s queueing := by
  rcases run.queued due with old | ⟨queueing, same, releases⟩
  · rcases queueReady_inserts began old with older | ⟨queueing, same, released⟩
    · exact .inl older
    · exact .inr ⟨queueing, same, .ready released⟩
  · exact .inr ⟨queueing, same, .released began releases⟩

theorem flush_inserts {answer : Except Error FlushResult} (ran : (flush writer).exec s = (answer, after))
    (due : insert ∈ after.actions.inserts) :
    insert ∈ s.actions.inserts ∨ ∃ queueing, queueing.insert = insert ∧ (Move.flush writer).Queues s queueing := by
  cases flush_cases ran with
  | unqueued failed =>
    rcases queueReady_inserts failed due with old | ⟨queueing, same, released⟩
    · exact .inl old
    · exact .inr ⟨queueing, same, .ready released⟩
  | @stopped e ready middle after written rest next began run first failed =>
    rcases executeInsert_inserts failed due with old | ⟨row, queueing, recorded, same, released⟩
    · apply phase_inserts began run
      rw [first]
      exact .inr (List.mem_cons_of_mem _ old)
    · exact .inr ⟨queueing, same, .released began (run.releases (.now first recorded released))⟩
  | blocked began run drained waiting =>
    rw [drained] at due
    cases due
  | @undeleted e ready middle last after written gone rest delete began run drained free scheduled deleted failed =>
    rw [executeDelete_actions failed, deleted.actions] at due
    change insert ∈ middle.actions.inserts at due
    rw [drained] at due
    cases due
  | @done ready middle after written began run drained free deleted =>
    rw [deleted.actions] at due
    change insert ∈ middle.actions.inserts at due
    rw [drained] at due
    cases due

end Action

namespace Move
variable {s : State} {insert : Insert}

theorem save_inserts {h : Handle} {early : Bool} {answer : Except Error Unit} {after : State}
    (ran : (Action.save h early).exec s = (answer, after)) (due : insert ∈ after.actions.inserts) :
    insert ∈ s.actions.inserts ∨ ∃ queueing, queueing.insert = insert ∧ (Move.save h early).Queues s queueing := by
  cases save_cases ran with
  | known => exact .inl due
  | refused => exact .inl due
  | @undone d key context e middle unknown mapped keyed added failed =>
    obtain ⟨-, ⟨_, _, same⟩ | ⟨wrong, _⟩⟩ := scheduleInsert_pending failed
    · change insert ∈ middle.actions.inserts at due
      rw [same] at due
      exact .inl due
    · cases wrong
  | @scheduled d key context after unknown mapped keyed added ran =>
    have asking := dependencies_asks d.name h (s.heap.values h) (early || d.identifier.generator = .identity)
      (s.mapContext fun _ => context)
    rcases scheduleInsert_cases ran with ⟨_, wrong, _⟩ | ⟨asked, free, queued⟩ | ⟨waits, asked, collected, _, _, rfl⟩
    · cases wrong
    · obtain ⟨state, judged, nulled, rfl⟩ := queueInsert_ok queued
      have kept : judged.actions = s.actions :=
        ((Nullifier.nullifyAll_asks _ _ _ asked).of_exec nulled).actions.trans (asking.of_exec free).actions
      change insert ∈ judged.actions.inserts ++ _ at due
      rw [kept] at due
      rcases List.mem_append.mp due with old | new
      · exact .inl old
      · let queueing : Queueing :=
          ⟨⟨h, d, state⟩, early || d.identifier.generator = .identity, false, asked, judged, nulled⟩
        exact .inr ⟨queueing, (List.mem_singleton.mp new).symm,
          @Queues.saved s early d key context queueing unknown mapped added free rfl rfl rfl⟩
    · have kept : asked.actions = s.actions := (asking.of_exec collected).actions
      change insert ∈ asked.actions.inserts at due
      rw [kept] at due
      exact .inl due

/-- A move queues the inserts that are in the queue after it and were not before. -/
theorem perform_inserts (move : Move) (sound : s.Sound) (allowed : move.Allowed s)
    (due : insert ∈ (move.perform s).actions.inserts) :
    insert ∈ s.actions.inserts ∨ ∃ queueing, queueing.insert = insert ∧ move.Queues s queueing := by
  have performs := move.performs sound allowed
  generalize move.perform s = after at *
  cases performs with
  | saved ran => exact save_inserts ran due
  | deleted ran =>
    cases delete_cases ran with
    | canceled => exact .inl (List.mem_filter.mp due).1
    | refused | gone | scheduled => exact .inl due
  | flushed ran => exact flush_inserts ran due
  | loaded spares => exact .inl (spares.actions ▸ due)
  | attached => exact .inl due
  | cleared => exact absurd due List.not_mem_nil
  | aside _ aside => exact .inl (aside.beside.actions ▸ due)

end Move

theorem Run.origin {start s : State} {moves : List Move} (run : Run start moves s) (initial : start.Sound)
    (none_ : start.actions.inserts = []) : ∀ insert ∈ s.actions.inserts,
      ∃ queueing, queueing.insert = insert ∧ Origin start moves s queueing := by
  induction run with
  | start =>
    intro insert due
    rw [none_] at due
    cases due
  | @step moves s move run allowed ih =>
    intro insert due
    rcases move.perform_inserts (run.sound initial) allowed due with old | ⟨queueing, rfl, queues⟩
    · obtain ⟨queueing, rfl, earlier, before, first, later, rfl, began, could, queues, awaits⟩ := ih insert old
      refine ⟨queueing, rfl, earlier, before, first, later ++ [move], ?_, began, could, queues, .step awaits allowed due⟩
      rw [List.append_assoc, List.cons_append]
    · exact ⟨queueing, rfl, moves, s, move, [], rfl, run, allowed, queues, .start due⟩

/-- A flush passes to the writer what was queued before it and what it queues itself. -/
theorem Action.flush_passes {writer : Writer} {s after : State} {answer : Except Error FlushResult}
    (ran : (flush writer).exec s = (answer, after)) : ∃ inserts, Passes s after inserts ∧ ∀ insert ∈ inserts,
      insert ∈ s.actions.inserts ∨ ∃ queueing, queueing.insert = insert ∧ (Move.flush writer).Queues s queueing := by
  have readied {ready : State} {answer : Except Error Unit}
      (began : (takeReady >>= queueReleased).exec s = (answer, ready)) : Passes s ready [] :=
    .of_wrote (.of_requeues (queueReady_pending began).1)
  cases flush_cases ran with
  | unqueued failed => exact ⟨[], readied failed, fun insert none_ => nomatch none_⟩
  | @stopped e ready middle after written rest insert began run next failed =>
    have last : Passes middle after [insert] := executeInsert_passes (s := middle.taking rest) failed
    refine ⟨written ++ [insert], ((readied began).trans run.passes).trans last, fun other member => ?_⟩
    rcases List.mem_append.mp member with early | late
    · exact phase_inserts began run (.inl early)
    · rw [List.mem_singleton.mp late]
      exact phase_inserts began run (.inr (next ▸ List.mem_cons_self))
  | blocked began run drained waiting =>
    exact ⟨_, (readied began).trans run.passes, fun insert member => phase_inserts began run (.inl member)⟩
  | @undeleted e ready middle last after written gone rest delete began run drained free scheduled deleted failed =>
    have deleting : Passes middle last [] := .of_wrote deleted.wrote
    have stopped : Passes last after [] := .of_wrote (executeDelete_wrote failed)
    refine ⟨_, (((readied began).trans run.passes).trans deleting).trans stopped, fun insert member => ?_⟩
    simp only [List.nil_append, List.append_nil] at member
    exact phase_inserts began run (.inl member)
  | @done ready middle after written began run drained free deleted =>
    have deleting : Passes middle after [] := .of_wrote deleted.wrote
    refine ⟨_, ((readied began).trans run.passes).trans deleting, fun insert member => ?_⟩
    simp only [List.nil_append, List.append_nil] at member
    exact phase_inserts began run (.inl member)

end UnitOfWork
