import UnitOfWork.Proofs.InsertOrigin
import UnitOfWork.Proofs.Ledger
import UnitOfWork.Proofs.ParkedDependencies

/-! An insert is of an entity type of the session, from its save on. -/

namespace UnitOfWork
open UnitOfWork.Action

namespace State

/-- The session maps an entity of this name to this descriptor. -/
def Maps (s : State) (d : Descriptor) : Prop := s.session.descriptor d.name = .ok d

theorem Maps.congr {s after : State} {d : Descriptor} (maps : s.Maps d)
    (same : after.session.factory = s.session.factory) : after.Maps d := by
  unfold Maps Session.descriptor at *
  rw [same]
  exact maps

/-- The pending inserts are of entities of the session. -/
structure Described (s : State) : Prop where
  inserts : ∀ insert ∈ s.actions.inserts, s.Maps insert.descriptor
  parked : ∀ insert ∈ s.actions.parked, s.Maps insert.descriptor

end State

/-- An insert is queued for a parked one. -/
def Queueing.For (queueing : Queueing) (parked : ParkedInsert) : Prop :=
  queueing.insert.handle = parked.handle ∧ queueing.insert.descriptor = parked.descriptor

theorem Released.source {released : List ParkedInsert} {s : State} {queueing : Queueing}
    (queued : Released released s queueing) : ∃ insert ∈ released, queueing.For insert := by
  induction queued with
  | first handle descriptor _ _ => exact ⟨_, List.mem_cons_self, handle, descriptor⟩
  | later _ _ ih =>
    obtain ⟨insert, member, same⟩ := ih
    exact ⟨insert, List.mem_cons_of_mem _ member, same⟩

theorem Releases.source {writer : Writer} {s : State} {queueing : Queueing} (releases : Releases writer s queueing) :
    ∃ insert ∈ s.actions.parked, queueing.For insert := by
  induction releases with
  | @now s row insert rest queueing next wrote released =>
    obtain ⟨_, member, same⟩ := Released.source released
    obtain ⟨old, here, rfl⟩ := List.mem_map.mp member
    have there := (List.mem_filter.mp here).1
    rw [writeInsert_actions wrote] at there
    exact ⟨old, there, same⟩
  | later next wrote releases ih =>
    obtain ⟨insert, member, same⟩ := ih
    rcases executeInsert_resolves wrote with ⟨_, wrong, _⟩ | ⟨-, resolves⟩
    · cases wrong
    · obtain ⟨old, here, rfl⟩ := resolves.parked insert member
      exact ⟨old, here, same⟩

theorem Action.flush_factory {writer : Writer} {s after : State} {answer : Except Error FlushResult}
    (ran : (flush writer).exec s = (answer, after)) : after.session.factory = s.session.factory := by
  cases flush_cases ran with
  | unqueued failed => exact (queueReady_advances failed).factory
  | stopped began run next failed =>
    exact (((queueReady_advances began).trans run.advances).trans (nextInsert_advances failed)).factory
  | blocked began run drained waiting => exact ((queueReady_advances began).trans run.advances).factory
  | undeleted began run drained free scheduled deleted failed =>
    rw [executeDelete_error failed]
    exact deleted.unchanged.2.1.trans ((queueReady_advances began).trans run.advances).factory
  | done began run drained free deleted =>
    exact deleted.unchanged.2.1.trans ((queueReady_advances began).trans run.advances).factory

namespace Move
variable {s : State} {move : Move}

/-- An insert is queued by the save of its instance, or had been parked. -/
theorem Queues.source {queueing : Queueing} (queues : move.Queues s queueing) :
    (∃ early, move = .save queueing.insert.handle early ∧ s.context.isTracked queueing.insert.handle = false ∧
      s.session.descriptor (s.heap.entity queueing.insert.handle) = .ok queueing.insert.descriptor) ∨
    ∃ insert ∈ s.actions.parked, queueing.For insert := by
  cases queues with
  | saved unknown mapped _ _ descriptor _ _ =>
    rw [← descriptor] at mapped
    exact .inl ⟨_, rfl, unknown, mapped⟩
  | ready released =>
    obtain ⟨insert, member, same⟩ := Released.source released
    exact .inr ⟨insert, (List.mem_filter.mp member).1, same⟩
  | released began releases =>
    obtain ⟨insert, member, same⟩ := releases.source
    obtain ⟨old, here, rfl⟩ := (queueReady_resolves began).parked insert member
    exact .inr ⟨old, here, same⟩

theorem Queues.described {queueing : Queueing} (queues : move.Queues s queueing) (described : s.Described) :
    s.Maps queueing.insert.descriptor := by
  rcases queues.source with ⟨_, -, -, mapped⟩ | ⟨insert, member, -, same⟩
  · exact Session.descriptor_name mapped
  · rw [same]
    exact described.parked insert member

theorem Plain.factory (plain : move.Plain) : (move.perform s).session.factory = s.session.factory := by
  cases move with
  | save h early => exact (save_continues rfl).factory
  | delete h =>
    rcases ran : (Action.delete h).exec s with ⟨answer, after⟩
    rw [delete_perform ran]
    cases delete_cases ran <;> rfl
  | flush writer =>
    rcases ran : (Action.flush writer).exec s with ⟨answer, after⟩
    rw [Move.flush_perform ran]
    exact flush_factory ran
  | _ => cases plain

end Move

theorem State.Described.step {s : State} {move : Move} (described : s.Described) (sound : s.Sound)
    (allowed : move.Allowed s) (same : (move.perform s).session.factory = s.session.factory) :
    (move.perform s).Described := by
  constructor
  · intro insert due
    rcases move.perform_inserts sound allowed due with old | ⟨queueing, rfl, queues⟩
    · exact (described.inserts insert old).congr same
    · exact (queues.described described).congr same
  · intro insert member
    rcases (move.performs sound allowed).resolves sound with resolves | ⟨new, early, -, -, mapped, -, grown, -⟩
    · obtain ⟨old, here, rfl⟩ := resolves.parked insert member
      exact (described.parked old here).congr same
    · rw [grown] at member
      rcases List.mem_append.mp member with old | last
      · exact (described.parked insert old).congr same
      · rw [List.mem_singleton.mp last]
        exact State.Maps.congr (Session.descriptor_name mapped) same

theorem State.Fresh.described {s : State} (fresh : s.Fresh) : s.Described where
  inserts insert due := by
    rw [fresh.actions] at due
    cases due
  parked insert member := by
    rw [fresh.actions] at member
    cases member

theorem Run.described {start s : State} {moves : List Move} (run : Run start moves s) (fresh : start.Fresh)
    (plain : ∀ move ∈ moves, move.Plain) : s.Described :=
  run.preserves fresh.sound plain fresh.described fun described sound plain allowed =>
    described.step sound allowed plain.factory

end UnitOfWork
