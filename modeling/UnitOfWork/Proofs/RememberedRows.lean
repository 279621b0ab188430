import UnitOfWork.Proofs.EntryTurns

/-! What a session remembers of the rows it has looked for, also of those it did not find. An answer lasts for as long
as the instance is tracked that stands for the row; then the row is looked for again. -/

namespace UnitOfWork
open UnitOfWork.Action

/-- An answer that was not known was selected. -/
structure Discovers (before after : State) : Prop where
  journal : before.session.journal <+: after.session.journal
  learns : ∀ key row, after.context.databaseSnapshot? key = some row → before.context.databaseSnapshot? key = some row ∨
    before.Selects Descriptor.Keys after.session.journal key row

theorem State.Selects.within {s later : State} {fits : Descriptor → EntityKey → Prop} {until_ longer : Journal}
    {key : EntityKey} {row : Option (List Value)} (selects : later.Selects fits until_ key row)
    (source : later.session.snapshotSource = s.session.snapshotSource)
    (from_ : s.session.journal <+: later.session.journal) (extended : until_ <+: longer) : s.Selects fits longer key row := by
  obtain ⟨select, d, asked, moment, held, fit, same, after, before, found⟩ := selects
  exact ⟨select, d, asked, moment, source ▸ held, fit, same, from_.trans after, before.trans extended, found⟩

variable {a b c : State}

theorem Discovers.trans (source : b.session.snapshotSource = a.session.snapshotSource) (first : Discovers a b)
    (second : Discovers b c) : Discovers a c where
  journal := first.journal.trans second.journal
  learns key row held := by
    rcases second.learns key row held with known | selects
    · refine (first.learns key row known).imp_right fun selects => ?_
      exact selects.within rfl (List.prefix_refl _) second.journal
    · exact .inr (selects.within source first.journal (List.prefix_refl _))

structure Recalls (before after : State) : Prop extends Discovers before after where
  remembers : ∀ key row, before.context.databaseSnapshot? key = some row → after.context.databaseSnapshot? key = some row

namespace Recalls

theorem of_same (journal : a.session.journal <+: b.session.journal)
    (rows : ∀ key, b.context.databaseSnapshot? key = a.context.databaseSnapshot? key) : Recalls a b where
  journal := journal
  remembers key _ held := (rows key).trans held
  learns key _ held := .inl ((rows key).symm.trans held)

theorem trans (source : b.session.snapshotSource = a.session.snapshotSource) (first : Recalls a b) (second : Recalls b c) :
    Recalls a c where
  toDiscovers := first.toDiscovers.trans source second.toDiscovers
  remembers key row held := second.remembers key row (first.remembers key row held)

theorem of_asks (asks : Asks a b) : Recalls a b := by
  obtain ⟨calls, rows, statistics, -, remembers, learns⟩ := asks
  exact ⟨⟨List.prefix_append _ _, learns⟩, remembers⟩

end Recalls

structure Learns (before after : State) : Prop extends Recalls before after where
  source : after.session.snapshotSource = before.session.snapshotSource

namespace Learns

theorem refl (s : State) : Learns s s := ⟨.of_same (List.prefix_refl _) fun _ => rfl, rfl⟩

theorem trans (first : Learns a b) (second : Learns b c) : Learns a c :=
  ⟨first.toRecalls.trans first.source second.toRecalls, second.source.trans first.source⟩

theorem of_requeues (moved : Requeues a b) : Learns a b := by
  obtain ⟨asks, inserts, parked⟩ := moved
  have recalls := Recalls.of_asks asks
  cases asks
  exact ⟨⟨⟨recalls.journal, recalls.learns⟩, recalls.remembers⟩, rfl⟩

theorem mapContext (s : State) {change : Context → Context}
    (same : (change s.context).databaseSnapshots = s.context.databaseSnapshots) : Learns s (s.mapContext change) := by
  refine ⟨.of_same (List.prefix_refl _) fun key => ?_, rfl⟩
  exact congrArg (·.find? key) same

end Learns

namespace Context

theorem databaseSnapshots_removeEntry (context : Context) (h : Handle) :
    (context.removeEntry h).databaseSnapshots = context.databaseSnapshots := by
  unfold removeEntry
  split <;> rfl

theorem databaseSnapshot?_removeEntity (context : Context) (key other : EntityKey) :
    (context.removeEntity key).databaseSnapshot? other =
      if (key == other) = true ∧ context.entity? key ≠ none then none else context.databaseSnapshot? other := by
  unfold removeEntity databaseSnapshot?
  split
  next missing => rw [if_neg fun both => both.2 missing]
  next h standing =>
    dsimp only
    rw [Registry.find?_erase]
    simp [standing]

end Context

namespace Action
variable {writer : Writer} {s after : State} {h : Handle}

theorem writeInsert_learns {insert : Insert} {answer : Except Error Unit}
    (ran : (writeInsert writer insert).exec s = (answer, after)) : Learns s after := by
  cases answer with
  | error e =>
    obtain ⟨-, _, rfl⟩ := writeInsert_error ran
    exact ⟨.of_same (List.prefix_append _ _) fun _ => rfl, rfl⟩
  | ok _ =>
    obtain ⟨_, _, context, _, -, -, assigned, rfl⟩ := writeInsert_ok ran
    refine ⟨.of_same (List.prefix_append _ _) fun key => ?_, rfl⟩
    have same : context.databaseSnapshots = s.context.databaseSnapshots := by
      obtain ⟨_, _, -, -, ⟨-, rfl⟩ | ⟨-, -, adds⟩⟩ := Context.assignKey_ok assigned
      · rfl
      · exact adds.databaseSnapshots
    exact congrArg (·.find? key) same

theorem executeInsert_learns {insert : Insert} {answer : Except Error Unit}
    (ran : (executeInsert writer insert).exec s = (answer, after)) : Learns s after := by
  rcases executeInsert_cases ran with ⟨_, _, failed⟩ | ⟨row, wrote, released⟩
  · exact writeInsert_learns failed
  · exact (writeInsert_learns wrote).trans (.of_requeues (releaseParked_pending released).1)

theorem nextInsert_learns {insert : Insert} {rest : List Insert} {answer : Except Error Unit}
    (ran : (executeInsert writer insert).exec (s.taking rest) = (answer, after)) : Learns s after := by
  have taken : Learns s (s.taking rest) := ⟨.of_same (List.prefix_refl _) fun _ => rfl, rfl⟩
  exact taken.trans (executeInsert_learns ran)

theorem save_learns {early : Bool} {answer : Except Error Unit} (ran : (save h early).exec s = (answer, after)) :
    Learns s after := by
  have tracks {d : Descriptor} {key : Option EntityKey} {context : Context}
      (added : s.context.addEntity h (.saved d key) = .ok context) : Learns s (s.mapContext fun _ => context) :=
    .mapContext s (Context.addEntity_ok added).databaseSnapshots
  cases save_cases ran with
  | known => exact Learns.refl s
  | refused => exact Learns.refl s
  | scheduled _ _ _ added ran => exact (tracks added).trans (.of_requeues (scheduleInsert_pending ran).1)
  | @undone _ _ _ _ middle _ _ _ added failed =>
    have scheduled := (tracks added).trans (.of_requeues (scheduleInsert_pending failed).1)
    exact scheduled.trans (.mapContext middle (Context.databaseSnapshots_removeEntry _ h))

end Action

/-- Inserts are written: rows are looked for, and what is tracked stays so under its key. -/
structure Proceeds (before after : State) : Prop extends Learns before after where
  keys : before.context.KeepsKeys after.context
  tracked : ∀ h, after.context.entry? h = none ↔ before.context.entry? h = none
  pending : ∀ h ∈ after.actions.pending, h ∈ before.actions.pending

namespace Proceeds
variable {writer : Writer}

theorem refl (s : State) : Proceeds s s := ⟨.refl s, .refl _, fun _ => .rfl, fun _ due => due⟩

theorem trans (first : Proceeds a b) (second : Proceeds b c) : Proceeds a c where
  toLearns := first.toLearns.trans second.toLearns
  keys := first.keys.trans second.keys
  tracked h := (second.tracked h).trans (first.tracked h)
  pending h due := first.pending h (second.pending h due)

theorem of_requeues (moved : Requeues a b) (conserved : b.actions.pending.Perm a.actions.pending) : Proceeds a b where
  toLearns := .of_requeues moved
  keys := requeues_keepsKeys moved
  tracked h := by rw [moved.entry_eq]
  pending _ due := conserved.mem_iff.mp due

theorem next {insert : Insert} {rest : List Insert} {answer : Except Error Unit}
    (next : a.actions.inserts = insert :: rest)
    (ran : (executeInsert writer insert).exec (a.taking rest) = (answer, b)) : Proceeds a b where
  toLearns := nextInsert_learns ran
  keys := executeInsert_keepsKeys (s := a.taking rest) ran
  tracked := (nextInsert_advances ran).tracked
  pending _ due := (executeInsert_conserves next ran).mem_iff.mp (List.mem_cons_of_mem _ due)

theorem run {written : List Insert} (run : InsertRun writer a written b) : Proceeds a b := by
  induction run with
  | done s => exact .refl s
  | step first wrote run ih => exact (next first wrote).trans ih

theorem holder (proceeds : Proceeds a b) (before : a.Sound) (after : b.Sound) {h : Handle} {key : EntityKey}
    (holder : a.context.entity? key = some h) : b.context.entity? key = some h := by
  refine proceeds.keys.holder before.coherent after.coherent holder ?_
  rw [Ne, proceeds.tracked]
  exact Option.ne_none_iff_exists'.mpr (before.coherent.tracked holder)

end Proceeds

theorem InsertStage.proceeds {writer : Writer} {s middle : State} {written : List Handle}
    (stage : InsertStage writer s written middle) : Proceeds s middle := by
  have readied {ready : State} {answer : Except Error Unit}
      (began : (takeReady >>= queueReleased).exec s = (answer, ready)) : Proceeds s ready := by
    obtain ⟨moved, conserved⟩ := queueReady_pending began
    exact .of_requeues moved conserved
  cases stage with
  | unqueued failed => exact readied failed
  | passed began run _ => exact (readied began).trans (.run run)
  | stopped began run next failed => exact ((readied began).trans (.run run)).trans (.next next failed)

namespace DeleteRun
variable {writer : Writer} {s after : State} {deletes : List Delete}

theorem known (run : DeleteRun writer s deletes after) {key : EntityKey} {row : Option (List Value)}
    (known : after.context.databaseSnapshot? key = some row) : s.context.databaseSnapshot? key = some row := by
  induction run with
  | done s => exact known
  | @step s middle after delete rest wrote run ih =>
    obtain ⟨shared, naturalIds, reads, -, rfl⟩ := executeDelete_ok wrote
    have before := ih known
    have forgets := (s.context.setStatus delete.handle .gone).databaseSnapshot?_removeEntity delete.key key
    rw [State.context, forgets] at before
    split at before
    · cases before
    · exact before

theorem source (run : DeleteRun writer s deletes after) : after.session.snapshotSource = s.session.snapshotSource := by
  induction run with
  | done s => rfl
  | step wrote run ih =>
    obtain ⟨shared, naturalIds, reads, -, rfl⟩ := executeDelete_ok wrote
    exact ih

theorem discovers (run : DeleteRun writer s deletes after) : Discovers s after where
  journal := by
    obtain ⟨calls, extended, -⟩ := run.wrote
    exact ⟨calls, extended.symm⟩
  learns _ _ held := .inl (run.known held)

theorem remembers (run : DeleteRun writer s deletes after) (coherent : s.context.Coherent) (standing : Standing s deletes)
    {h : Handle} {key : EntityKey} (holder : s.context.entity? key = some h) :
    after.context.databaseSnapshot? key = if after.context.isTracked h then s.context.databaseSnapshot? key else none := by
  induction run with
  | done s =>
    have tracked : s.context.isTracked h = true := by
      rw [Context.isTracked_eq, Option.isSome_iff_exists]
      exact coherent.tracked holder
    rw [if_pos tracked]
  | @step s middle after delete rest wrote run ih =>
    obtain ⟨entries, later⟩ := executeDelete_forgets standing wrote
    obtain ⟨shared, naturalIds, reads, -, rfl⟩ := executeDelete_ok wrote
    have marked : (s.context.setStatus delete.handle .gone).Coherent := coherent.updateEntry _ fun _ => rfl
    have forgets := (s.context.setStatus delete.handle .gone).databaseSnapshot?_removeEntity delete.key key
    by_cases same : (delete.key == key) = true
    · have held : s.context.entity? delete.key = some h := (s.context.entity?_congr same).trans holder
      have here : delete.handle = h := standing.handle List.mem_cons_self holder same
      have untracked : after.context.isTracked h = false := by
        rw [untracked_iff, run.entry? later h, entries h, if_pos here, ite_self]
      have forgotten : ((s.context.setStatus delete.handle .gone).removeEntity delete.key).databaseSnapshot? key = none := by
        refine forgets.trans (if_pos ⟨same, ?_⟩)
        exact fun missing => Option.some_ne_none h (held.symm.trans missing)
      rw [untracked]
      refine Option.eq_none_iff_forall_ne_some.mpr fun row known => ?_
      cases forgotten.symm.trans (run.known known)
    · have others := (s.context.setStatus delete.handle .gone).entity?_removeEntity delete.key key
      rw [if_neg same] at others
      refine (ih (marked.removeEntity delete.key) later (others.trans holder)).trans ?_
      rw [if_neg fun both => same both.1] at forgets
      exact congrArg (fun row => if after.context.isTracked h = true then row else none) forgets

end DeleteRun

/-- A flush from some point among its inserts: the others follow, and then deletes. -/
inductive Finishes (s after : State) : Prop where
  | intro {writer : Writer} {middle last : State} {gone : List Delete} (proceeds : Proceeds s middle)
      (sound : middle.Sound) (scheduled : gone <+: middle.actions.deletes)
      (deleted : DeleteRun writer middle.withoutDeletes gone last) (ends : Ends last after) : Finishes s after

theorem Action.flush_finishes {writer : Writer} {s after : State} {answer : Except Error FlushResult} (sound : s.Sound)
    (ran : (flush writer).exec s = (answer, after)) : Finishes s after := by
  obtain ⟨written, middle, gone, last, stage, scheduled, deleted, ends⟩ := flush_stages ran
  exact .intro stage.proceeds (stage.sound sound) scheduled deleted ends

namespace Finishes
variable {s after : State}

theorem discovers (finishes : Finishes s after) : Discovers s after := by
  cases finishes with
  | @intro writer middle last gone proceeds sound scheduled deleted ends =>
    have ended : Recalls last after := .of_same ends.journal fun key => congrArg (·.databaseSnapshot? key) ends.context
    have deletes : Discovers middle last := ⟨deleted.discovers.journal, deleted.discovers.learns⟩
    exact proceeds.toDiscovers.trans proceeds.source (deletes.trans deleted.source ended.toDiscovers)

theorem source (finishes : Finishes s after) : after.session.snapshotSource = s.session.snapshotSource := by
  obtain ⟨proceeds, -, -, deleted, ends⟩ := finishes
  exact (ends.source.trans deleted.source).trans proceeds.source

theorem pending (finishes : Finishes s after) {h : Handle} (due : h ∈ after.actions.pending) : h ∈ s.actions.pending := by
  obtain ⟨proceeds, -, -, deleted, ends⟩ := finishes
  rw [ends.pending, deleted.actions] at due
  exact proceeds.pending h due

theorem keepsKeys (finishes : Finishes s after) : s.context.KeepsKeys after.context := by
  obtain ⟨proceeds, -, -, deleted, ends⟩ := finishes
  rw [ends.context]
  exact proceeds.keys.trans deleted.keepsKeys

/-- The answer about a row lasts until the instance is deleted that stands for it. -/
theorem remembers (finishes : Finishes s after) (sound : s.Sound) {h : Handle} {key : EntityKey}
    (holder : s.context.entity? key = some h) :
    (after.context.isTracked h = false → after.context.databaseSnapshot? key = none) ∧
      (after.context.isTracked h = true → ∀ row, s.context.databaseSnapshot? key = some row →
        after.context.databaseSnapshot? key = some row) := by
  obtain ⟨proceeds, later, scheduled, deleted, ends⟩ := finishes
  have remembers := deleted.remembers later.coherent (later.standing_early scheduled) (proceeds.holder sound later holder)
  rw [ends.context]
  refine ⟨fun gone => ?_, fun still row known => ?_⟩
  · rw [remembers, if_neg (Bool.eq_false_iff.mp gone)]
  · rw [remembers, if_pos still]
    exact proceeds.remembers key row known

end Finishes

namespace Move
variable {s : State}

/-- The session itself looks for rows, each under a key of the descriptor. -/
def Keyed : Move → Prop
  | .annotate _ _ _ _ => False
  | .ask (.databaseSnapshot d key) => d.Keys key
  | _ => True

theorem recalls (move : Move) (keyed : move.Keyed) (sound : s.Sound) (calm : ∀ writer, move ≠ .flush writer)
    (kept : move ≠ .clear) : Recalls s (move.perform s) := by
  have quiet (same : (move.perform s).session.journal = s.session.journal)
      (rows : (move.perform s).context.databaseSnapshots = s.context.databaseSnapshots) : Recalls s (move.perform s) := by
    refine .of_same ⟨[], ?_⟩ fun key => congrArg (·.find? key) rows
    rw [same, List.append_nil]
  cases move with
  | save h early => exact (save_learns rfl).toRecalls
  | delete h =>
    rcases ran : (Action.delete h).exec s with ⟨answer, after⟩
    rw [delete_perform ran] at quiet ⊢
    cases delete_cases ran with
    | refused | gone => exact quiet rfl rfl
    | canceled => exact quiet rfl (s.context.databaseSnapshots_removeEntry h)
    | scheduled => exact quiet rfl rfl
  | load entity rows options =>
    rcases ran : (Action.load entity rows options).exec s with ⟨answer, after⟩
    obtain ⟨_, _, _, _, _, same⟩ := load_session sound ran
    obtain ⟨calls, extended, -⟩ := (load_spares sound ran).reads
    rw [load_perform ran]
    refine .of_same ⟨calls, extended.symm⟩ fun key => ?_
    rw [State.context, same]
    rfl
  | flush writer => exact absurd rfl (calm writer)
  | setReadOnly h readOnly =>
    unfold perform operation at *
    rcases setReadOnly_cases h readOnly s with same | ⟨_, _, _, -, -, -, same⟩ <;> rw [same] at quiet ⊢ <;>
      exact quiet rfl rfl
  | ask question =>
    refine .of_asks (asking_asksBy (fun _ _ keys => keys) question (fun d key same => ?_) s)
    subst same
    exact keyed
  | endTransaction | configure | outside => exact quiet rfl rfl
  | clear => exact absurd rfl kept
  | attach h entry =>
    rcases attach_cases h entry s with same | ⟨context, adds, same⟩ <;> rw [same] at quiet ⊢
    · exact quiet rfl rfl
    · exact quiet rfl adds.databaseSnapshots
  | annotate => exact keyed.elim

theorem discovers (move : Move) (keyed : move.Keyed) (sound : s.Sound) : Discovers s (move.perform s) := by
  cases move with
  | flush writer =>
    rcases ran : (Action.flush writer).exec s with ⟨answer, after⟩
    exact flush_perform ran ▸ (flush_finishes sound ran).discovers
  | clear => exact ⟨List.prefix_refl _, nofun⟩
  | _ => exact (recalls _ keyed sound nofun nofun).toDiscovers

/-- The answer about a row lasts as long as the instance is tracked that stands for it, and goes with it. -/
theorem remembers (move : Move) (keyed : move.Keyed) (sound : s.Sound) (allowed : move.Allowed s) {h : Handle}
    {key : EntityKey} (holder : s.context.entity? key = some h) (idle : h ∉ s.actions.pending) :
    ((move.perform s).context.isTracked h = false → (move.perform s).context.databaseSnapshot? key = none) ∧
      ((move.perform s).context.isTracked h = true → ∀ row, s.context.databaseSnapshot? key = some row →
        (move.perform s).context.databaseSnapshot? key = some row) := by
  by_cases flushing : ∃ writer, move = .flush writer
  · obtain ⟨writer, rfl⟩ := flushing
    rcases ran : (Action.flush writer).exec s with ⟨answer, after⟩
    exact flush_perform ran ▸ (flush_finishes sound ran).remembers sound holder
  constructor
  · intro gone
    rw [untracked_iff] at gone
    obtain ⟨entry, tracked⟩ := sound.coherent.tracked holder
    rcases (move.turns sound allowed h).leaves tracked gone with due | flushes | rfl
    · exact absurd due idle
    · exact absurd flushes flushing
    · rfl
  · intro still row known
    have kept : move ≠ .clear := by
      rintro rfl
      cases still
    exact (move.recalls keyed sound (fun writer same => flushing ⟨writer, same⟩) kept).remembers key row known

end Move

end UnitOfWork
