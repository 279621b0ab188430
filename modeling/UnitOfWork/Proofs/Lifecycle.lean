import UnitOfWork.Proofs.EntryTurns

/-! Between any two operations the parts of every entry agree with its status: whether there is a snapshot to compare
the instance with, whether its row exists, and whether references to its row are kept back. -/

namespace UnitOfWork
open UnitOfWork.Action

/-- What the status of an entry says about the rest of it; `marked` are the keys of rows that are about to be
deleted. No operation leaves an entry that is still loading or of which the row is gone. -/
def Entry.Orderly (marked : EntityKey → Bool) (entry : Entry) : Prop :=
  match entry.status with
  | .loading | .gone => False
  | .saving => entry.snapshot = none ∧ entry.existsInDatabase = false
  | .managed => entry.snapshot.isSome = true
  | .readOnly => entry.snapshot = none
  | .deleted => ∃ key, entry.key = some key ∧ marked key = true

theorem Entry.Orderly.remarked {before after : EntityKey → Bool} {entry : Entry} (orderly : entry.Orderly before)
    (lasts : ∀ key, entry.key = some key → before key = true → after key = true) : entry.Orderly after := by
  unfold Entry.Orderly at *
  cases status : entry.status with
  | deleted =>
    rw [status] at orderly
    obtain ⟨key, keyed, marked⟩ := orderly
    exact ⟨key, keyed, lasts key keyed marked⟩
  | _ =>
    rw [status] at orderly
    exact orderly

def State.Orderly (s : State) : Prop :=
  ∀ h entry, s.context.entry? h = some entry → entry.Orderly s.context.isNullifiableKey

theorem State.Orderly.step {s : State} {move : Move} (orderly : s.Orderly) (sound : s.Sound) (own : move.Own)
    (allowed : move.Allowed s) : (move.perform s).Orderly := by
  intro h entry found
  have untracked (now : (move.perform s).context.entry? h = none) : False := by
    rw [now] at found
    cases found
  cases move.turns sound allowed h with
  | kept same =>
    have tracked := same.symm.trans found
    refine (orderly h entry tracked).remarked fun key keyed marked => ?_
    refine move.mark_lasts own sound ((sound.coherent key h).mpr ?_) marked (by rw [found]; exact nofun)
    rw [Context.key?, tracked]
    change entry.key.any (· == key) = true
    rw [keyed]
    exact BEq.rfl
  | saved _ _ now =>
    cases found.symm.trans now
    exact ⟨rfl, rfl⟩
  | scheduled _ _ keyed _ now marked _ =>
    cases found.symm.trans now
    exact ⟨_, keyed, marked⟩
  | inserted _ _ now =>
    cases found.symm.trans now
    rfl
  | @loaded _ _ options d row readOnly state _ _ now =>
    cases found.symm.trans now
    cases readOnly <;> rfl
  | @switched readOnly entry d state _ _ _ now =>
    cases found.symm.trans now
    cases readOnly <;> rfl
  | canceled _ now | removed _ now | cleared now => exact (untracked now).elim
  | attached => exact own.elim

theorem State.Fresh.orderly {s : State} (fresh : s.Fresh) : s.Orderly := by
  intro h entry tracked
  rw [fresh.context] at tracked
  cases tracked

theorem Run.orderly {start s : State} {moves : List Move} (fresh : start.Fresh) (run : Run start moves s)
    (own : ∀ move ∈ moves, move.Own) : s.Orderly :=
  run.preserves fresh.sound own fresh.orderly State.Orderly.step

/-- After any operations of a session, whether they succeed or fail, every entry is orderly. -/
theorem entries_are_orderly {start s : State} {moves : List Move} (fresh : start.Fresh) (run : Run start moves s)
    (own : ∀ move ∈ moves, move.Own) {h : Handle} {entry : Entry} (tracked : s.context.entry? h = some entry) :
    entry.Orderly s.context.isNullifiableKey :=
  run.orderly fresh own h entry tracked

namespace Sample

def undeleted : List Move := [.save ⟨0⟩ false, .flush writer, .delete ⟨0⟩, .flush refusing]

def undeletedState : State := undeleted.foldl (fun s move => move.perform s) (start #[newCustomer])

theorem undeleted_run : Run (start #[newCustomer]) undeleted undeletedState := by
  have created : (⟨0⟩ : Handle) ∈ (start #[newCustomer]).heap := Nat.zero_lt_one
  exact (Run.start : Run (start #[newCustomer]) [] _)
    |>.extend (.save ⟨0⟩ false) created
    |>.extend (.flush writer) trivial
    |>.extend (.delete ⟨0⟩) trivial
    |>.extend (.flush refusing) trivial

end Sample

open Sample in
theorem entries_are_orderly_undeleted : ∃ entry, Run (start #[newCustomer]) undeleted undeletedState ∧
    (∀ move ∈ undeleted, move.Own) ∧ undeletedState.context.entry? ⟨0⟩ = some entry ∧ entry.status = .deleted ∧
    entry.Orderly undeletedState.context.isNullifiableKey := by
  have own : ∀ move ∈ undeleted, move.Own := by simp [undeleted, Move.Own]
  obtain ⟨entry, tracked, deleted⟩ : ∃ entry, undeletedState.context.entry? ⟨0⟩ = some entry ∧
      entry.status = .deleted := ⟨_, rfl, rfl⟩
  exact ⟨entry, undeleted_run, own, tracked, deleted, entries_are_orderly (start_fresh _) undeleted_run own tracked⟩

end UnitOfWork
