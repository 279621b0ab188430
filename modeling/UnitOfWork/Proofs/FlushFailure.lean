import UnitOfWork.Proofs.FlushConservation

/-! What a failed flush leaves undone and forgets. Released inserts that cannot be queued are parked again,
but an insert that fails has been taken off the queue, and so have all deletes when one of them fails. -/

namespace UnitOfWork
open UnitOfWork.Action

/-- What the session had to do it has done, or has still to do. -/
structure NoWorkLost (before after : State) : Prop where
  inserts : ∀ h ∈ before.actions.pending, h ∈ after.actions.pending ∨ after.Written h
  deletes : ∀ delete ∈ before.actions.deletes,
    delete ∈ after.actions.deletes ∨ after.context.entry? delete.handle = none

/-- A flush gets to an insert whose row cannot be written. -/
def DropsInsert (writer : Writer) (s : State) : Prop :=
  ∃ ready written middle insert rest e, (takeReady >>= queueReleased).exec s = (.ok (), ready) ∧
    InsertRun writer ready written middle ∧ middle.actions.inserts = insert :: rest ∧
    InsertFault writer insert (middle.taking rest) e

/-- A flush gets to a delete that the writer refuses, and this one or one after it is not of an instance
whose row the flush has deleted before. -/
def DropsDelete (writer : Writer) (s : State) : Prop :=
  ∃ ready written middle gone delete rest last e, (takeReady >>= queueReleased).exec s = (.ok (), ready) ∧
    InsertRun writer ready written middle ∧ middle.actions.inserts = [] ∧ middle.actions.parked = [] ∧
    middle.actions.deletes = gone ++ delete :: rest ∧ DeleteRun writer middle.withoutDeletes gone last ∧
    writer.delete last.session.journal delete.descriptor delete.key.id = .error e ∧
    ∃ lost ∈ delete :: rest, lost.handle ∉ gone.map (·.handle)

namespace Action
variable {writer : Writer} {s after : State} {insert : Insert}

theorem executeInsert_entries {answer : Except Error Unit} (ran : (executeInsert writer insert).exec s = (answer, after))
    {h : Handle} (other : h ≠ insert.handle) : after.context.entry? h = s.context.entry? h := by
  rcases executeInsert_cases ran with ⟨_, _, failed⟩ | ⟨written, wrote, released⟩
  · obtain ⟨-, _, rfl⟩ := writeInsert_error failed
    rfl
  · exact ((releaseParked_pending released).1.entry_eq h).trans ((writeInsert_entries wrote).2 h other)

theorem releaseParked_written {h : Handle} {answer : Except Error Unit}
    (ran : (releaseParked h).exec s = (answer, after)) {other : Handle} (written : s.Written other) :
    after.Written other := by
  unfold State.Written at *
  rw [(releaseParked_pending ran).1.entry_eq]
  exact written

theorem executeDelete_fails_iff {delete : Delete} {e : Error} :
    (executeDelete writer delete).exec s = (.error e, s.record (deleteCall delete)) ↔
      writer.delete s.session.journal delete.descriptor delete.key.id = .error e := by
  unfold executeDelete
  rw [exec_get_bind, exec_record_bind]
  constructor
  · intro ran
    rcases bind_error ran with refused | ⟨_, _, accepted, ran⟩
    · exact (lift_error refused).1
    · obtain ⟨-, rfl⟩ := lift_ok accepted
      obtain ⟨_, _, _, -, recorded⟩ := recordDelete_exec delete (s.record (deleteCall delete))
      rw [deleteCall] at recorded
      rw [exec_bind_ok _ recorded] at ran
      cases ran
  · intro refused
    rw [refused]
    rfl

end Action

namespace InsertRun
variable {writer : Writer} {s after : State} {written : List Insert}

theorem entry? (run : InsertRun writer s written after) {h : Handle} (other : h ∉ written.map (·.handle)) :
    after.context.entry? h = s.context.entry? h := by
  induction run with
  | done s => rfl
  | step next wrote run ih =>
    rw [List.map_cons, List.mem_cons, not_or] at other
    exact (ih other.2).trans (executeInsert_entries wrote other.1)

theorem recorded (run : InsertRun writer s written after) (sound : s.Sound) :
    ∀ h ∈ written.map (·.handle), after.Written h := by
  induction run with
  | done s => exact fun h member => nomatch member
  | @step s middle after insert rest written next wrote run ih =>
    obtain ⟨taken, idle, -⟩ := sound.taking next
    intro h member
    rcases List.mem_cons.mp member with rfl | later
    · have here : middle.Written insert.handle := by
        rcases executeInsert_cases wrote with ⟨_, wrong, _⟩ | ⟨row, recorded, released⟩
        · cases wrong
        · exact releaseParked_written released (writeInsert_entries recorded).1
      have once : insert.handle ∉ written.map (·.handle) := fun again =>
        idle ((executeInsert_pending wrote).1.mem_iff.mp (run.pending.mem_iff.mp (List.mem_append_left _ again)))
      unfold State.Written
      rw [run.entry? once]
      exact here
    · exact ih (executeInsert_sound taken idle wrote) h later

end InsertRun

/-- The instances of some deletes are under the keys of the deletes, unless they are forgotten already. -/
def Standing (s : State) (deletes : List Delete) : Prop :=
  ∀ delete ∈ deletes, s.context.entity? delete.key = some delete.handle ∨
    s.context.entity? delete.key = none ∧ s.context.entry? delete.handle = none

theorem State.Sound.standing {s : State} (sound : s.Sound) : Standing s s.actions.deletes :=
  fun delete member => .inl (sound.scheduled delete member)

theorem State.Sound.standing_early {s : State} (sound : s.Sound) {gone : List Delete}
    (scheduled : gone <+: s.actions.deletes) : Standing s.withoutDeletes gone :=
  fun delete member => sound.standing delete (scheduled.subset member)

theorem Standing.handle {s : State} {delete : Delete} {deletes : List Delete} {h : Handle} {key : EntityKey}
    (standing : Standing s deletes) (member : delete ∈ deletes) (holder : s.context.entity? key = some h)
    (same : (delete.key == key) = true) : delete.handle = h := by
  have held : s.context.entity? delete.key = some h := (Registry.find?_congr _ same).trans holder
  rcases standing delete member with standing | ⟨missing, -⟩
  · exact Option.some.inj (standing.symm.trans held)
  · cases missing.symm.trans held

namespace Action
variable {writer : Writer} {s after : State}

theorem executeDelete_forgets {delete : Delete} {rest : List Delete} (standing : Standing s (delete :: rest))
    (ran : (executeDelete writer delete).exec s = (.ok (), after)) :
    (∀ h, after.context.entry? h = if delete.handle = h then none else s.context.entry? h) ∧ Standing after rest := by
  obtain ⟨shared, naturalIds, reads, -, rfl⟩ := executeDelete_ok ran
  have gone (h : Handle) : Context.entry? (s.context.setStatus delete.handle .gone) h =
      if delete.handle = h then (s.context.entry? h).map fun entry => { entry with status := .gone }
      else s.context.entry? h := Context.entry?_updateEntry _ _ _ _
  have entities (key : EntityKey) : ((s.context.setStatus delete.handle .gone).removeEntity delete.key).entity? key =
      if delete.key == key then none else s.context.entity? key := Context.entity?_removeEntity _ _ _
  have forgets (h : Handle) : Context.entry? ((s.context.setStatus delete.handle .gone).removeEntity delete.key) h =
      if delete.handle = h then none else s.context.entry? h := by
    rcases standing delete List.mem_cons_self with held | ⟨unheld, untracked⟩
    · have held : (s.context.setStatus delete.handle .gone).entity? delete.key = some delete.handle := held
      rw [Context.entry?_removeEntity _ h held, gone]
      split <;> rfl
    · rw [Context.removeEntity, show (s.context.setStatus delete.handle .gone).entity? delete.key = none from unheld]
      dsimp only
      rw [gone]
      split
      next same =>
        rw [← same, untracked]
        rfl
      next => rfl
  refine ⟨forgets, fun other member => ?_⟩
  change ((s.context.setStatus delete.handle .gone).removeEntity delete.key).entity? other.key = _ ∨
    ((s.context.setStatus delete.handle .gone).removeEntity delete.key).entity? other.key = none ∧
    Context.entry? ((s.context.setStatus delete.handle .gone).removeEntity delete.key) other.handle = none
  rw [entities, forgets]
  rcases standing other (List.mem_cons_of_mem _ member) with held | ⟨unheld, untracked⟩
  · by_cases same : (delete.key == other.key) = true
    · -- two deletes under one key are of one instance
      rw [if_pos same]
      exact .inr ⟨rfl, if_pos (standing.handle List.mem_cons_self held same)⟩
    · rw [if_neg same]
      exact .inl held
  · refine .inr ⟨?_, ?_⟩
    · split
      · rfl
      · exact unheld
    · split
      · rfl
      · exact untracked

end Action

namespace DeleteRun
variable {writer : Writer} {s after : State} {deletes : List Delete}

theorem entry? (run : DeleteRun writer s deletes after) (standing : Standing s deletes) (h : Handle) :
    after.context.entry? h = if h ∈ deletes.map (·.handle) then none else s.context.entry? h := by
  induction run with
  | done s => rfl
  | step wrote run ih =>
    obtain ⟨forgets, later⟩ := executeDelete_forgets standing wrote
    rw [ih later, forgets]
    simp only [List.map_cons, List.mem_cons, eq_comm (a := h)]
    split
    next late => rw [if_pos (.inr late)]
    next =>
      split
      next now => rw [if_pos (.inl now)]
      next never late => rw [if_neg (not_or.mpr ⟨late, never⟩)]

end DeleteRun

namespace Action
variable {writer : Writer} {s after : State}

theorem ready_sound {ready : State} {answer : Except Error Unit} (sound : s.Sound)
    (began : (takeReady >>= queueReleased).exec s = (answer, ready)) : ready.Sound :=
  sound.requeues (queueReady_pending began).1 (queueReady_pending began).2

/-- Work is lost where a flush gives up with an insert or with deletes in hand. -/
theorem lost_of_drops {e : Error} (sound : s.Sound) (failed : (flush writer).exec s = (.error e, after))
    (kept : NoWorkLost s after) : ¬DropsInsert writer s ∧ ¬DropsDelete writer s := by
  constructor
  · rintro ⟨ready, written, middle, insert, rest, fault, began, run, next, faulty⟩
    obtain ⟨stopped, ran⟩ := faulty.exec
    have executed : (executeInsert writer insert).exec (middle.taking rest) = (.error fault, stopped) := by
      rw [executeInsert_eq, exec_bind_error _ ran]
    have outcome := (Flushes.stopped began run next executed).exec
    rw [failed] at outcome
    cases outcome
    have later := run.sound (ready_sound sound began)
    obtain ⟨-, idle, due⟩ := later.taking next
    have pending : insert.handle ∈ s.actions.pending :=
      (InsertPhase.of_run began run).conserved.mem_iff.mp (List.mem_append_right _ due)
    rcases kept.inserts _ pending with still | ⟨entry, found, -, exists_⟩
    · rw [writeInsert_actions ran] at still
      exact idle still
    · obtain ⟨key, standing⟩ := later.unwritten _ due
      obtain ⟨-, given, rfl⟩ := writeInsert_error ran
      rw [State.standing?, show middle.context.entry? insert.handle = some entry from found] at standing
      have missing : entry.existsInDatabase = false := congrArg Prod.snd (Option.some.inj standing)
      rw [missing] at exists_
      cases exists_
  · rintro ⟨ready, written, middle, gone, delete, rest, last, fault, began, run, drained, free, scheduled, deleted,
      refused, lost, member, spared⟩
    have executed := executeDelete_fails_iff.mpr refused
    have outcome := (Flushes.undeleted began run drained free scheduled deleted executed).exec
    rw [failed] at outcome
    cases outcome
    have later := run.sound (ready_sound sound began)
    have due : lost ∈ middle.actions.deletes := by
      rw [scheduled]
      exact List.mem_append_right _ member
    have standing : Standing middle.withoutDeletes gone := later.standing_early ⟨_, scheduled.symm⟩
    rcases kept.deletes lost ((InsertPhase.of_run began run).deletes ▸ due) with still | forgotten
    · change lost ∈ last.actions.deletes at still
      rw [deleted.actions] at still
      cases still
    · change last.context.entry? lost.handle = none at forgotten
      rw [deleted.entry? standing, if_neg spared] at forgotten
      exact later.tracked (.inr ⟨lost, due, rfl⟩) forgotten

theorem kept_of_stopped {ready middle : State} {written rest : List Insert} {insert : Insert} {e : Error}
    (sound : s.Sound) (began : (takeReady >>= queueReleased).exec s = (.ok (), ready))
    (run : InsertRun writer ready written middle) (next : middle.actions.inserts = insert :: rest)
    (failed : (executeInsert writer insert).exec (middle.taking rest) = (.error e, after))
    (writable : ∀ fault, ¬InsertFault writer insert (middle.taking rest) fault) : NoWorkLost s after := by
  have phase := InsertPhase.of_run began run
  have started := ready_sound sound began
  obtain ⟨-, -, due⟩ := (run.sound started).taking next
  rcases executeInsert_cases failed with ⟨fault, _, unwritten⟩ | ⟨row, wrote, released⟩
  · exact absurd (writeInsert_error unwritten).1 (writable fault)
  · refine ⟨fun h pending => ?_, fun delete due => .inl ?_⟩
    · rcases List.mem_append.mp (phase.conserved.mem_iff.mpr pending) with early | still
      · right
        have distinct := (List.nodup_append.mp (phase.conserved.nodup_iff.mpr sound.distinct)).2.2
        unfold State.Written
        rw [executeInsert_entries failed (distinct h early insert.handle due)]
        exact run.recorded started h early
      · rcases List.mem_cons.mp ((executeInsert_conserves next failed).mem_iff.mpr still) with rfl | others
        · exact .inr (releaseParked_written released (writeInsert_entries wrote).1)
        · exact .inl others
    · rw [(executeInsert_pending failed).2]
      exact phase.deletes ▸ due

theorem kept_of_undeleted {ready middle last : State} {written : List Insert} {gone rest : List Delete} {delete : Delete}
    {e : Error} (sound : s.Sound) (began : (takeReady >>= queueReleased).exec s = (.ok (), ready))
    (run : InsertRun writer ready written middle) (drained : middle.actions.inserts = [])
    (free : middle.actions.parked = []) (scheduled : middle.actions.deletes = gone ++ delete :: rest)
    (deleted : DeleteRun writer middle.withoutDeletes gone last)
    (failed : (executeDelete writer delete).exec last = (.error e, after))
    (needless : ∀ late ∈ delete :: rest, late.handle ∈ gone.map (·.handle)) : NoWorkLost s after := by
  have phase := InsertPhase.of_run began run
  have started := ready_sound sound began
  have standing : Standing middle.withoutDeletes gone := (run.sound started).standing_early ⟨_, scheduled.symm⟩
  have left (h : Handle) : after.context.entry? h =
      if h ∈ gone.map (·.handle) then none else middle.context.entry? h := by
    rw [executeDelete_error failed]
    exact deleted.entry? standing h
  refine ⟨fun h due => .inr ?_, fun other due => .inr ?_⟩
  · rcases List.mem_append.mp (phase.conserved.mem_iff.mpr due) with early | still
    · have spared : h ∉ gone.map (·.handle) := by
        intro member
        obtain ⟨other, removed, rfl⟩ := List.mem_map.mp member
        refine sound.separate other ?_ due
        rw [← phase.deletes, scheduled]
        exact List.mem_append_left _ removed
      unfold State.Written
      rw [left, if_neg spared]
      exact run.recorded started h early
    · rw [pending_eq_nil drained free] at still
      cases still
  · rw [left, if_pos]
    rw [← phase.deletes, scheduled] at due
    rcases List.mem_append.mp due with early | late
    · exact List.mem_map_of_mem early
    · exact needless other late

theorem kept_of_not_drops {e : Error} (sound : s.Sound) (failed : (flush writer).exec s = (.error e, after))
    (inserted : ¬DropsInsert writer s) (deleted : ¬DropsDelete writer s) : NoWorkLost s after := by
  cases flush_cases failed with
  | unqueued failed =>
    obtain ⟨moved, conserved⟩ := queueReady_pending failed
    exact ⟨fun h due => .inl (conserved.mem_iff.mpr due), fun delete due => .inl (moved.deletes ▸ due)⟩
  | blocked began run drained waiting =>
    have phase := InsertPhase.of_run began run
    have recorded := run.recorded (ready_sound sound began)
    refine ⟨fun h due => ?_, fun delete due => .inl (phase.deletes ▸ due)⟩
    rcases List.mem_append.mp (phase.conserved.mem_iff.mpr due) with early | still
    · exact .inr (recorded h early)
    · exact .inl still
  | @stopped _ ready middle _ written rest insert began run next failed =>
    refine kept_of_stopped sound began run next failed fun fault faulty => inserted ?_
    exact ⟨ready, written, middle, insert, rest, fault, began, run, next, faulty⟩
  | @undeleted _ ready middle last _ written gone rest delete began run drained free scheduled ran failed =>
    have refused : writer.delete last.session.journal delete.descriptor delete.key.id = .error e :=
      executeDelete_fails_iff.mp (executeDelete_error failed ▸ failed)
    refine kept_of_undeleted sound began run drained free scheduled ran failed fun late member => ?_
    apply Classical.byContradiction
    intro spared
    exact deleted ⟨ready, written, middle, gone, delete, rest, last, e, began, run, drained, free, scheduled, ran,
      refused, late, member, spared⟩

end Action

/-- A failed flush loses work exactly when it gets to an insert that cannot be written, or to a delete that is
refused while it or a later one is still needed. -/
theorem flush_loses_nothing_iff {start s after : State} {moves : List Move} {writer : Writer} {e : Error}
    (fresh : start.Fresh) (run : Run start moves s) (failed : (flush writer).exec s = (.error e, after)) :
    NoWorkLost s after ↔ ¬DropsInsert writer s ∧ ¬DropsDelete writer s := by
  have sound := run.sound fresh.sound
  constructor
  · exact lost_of_drops sound failed
  · rintro ⟨inserted, deleted⟩
    exact kept_of_not_drops sound failed inserted deleted

namespace Sample

def refusing : Writer where
  insert _ _ _ _ := .error (.database "insert failed")
  delete _ _ _ := .error (.database "delete failed")

end Sample

open Sample in
theorem flush_loses_nothing_iff_refused : ∃ s after, Run (start #[newCustomer]) [.save ⟨0⟩ false] s ∧
    (flush refusing).exec s = (.error (.database "insert failed"), after) ∧
      (NoWorkLost s after ↔ ¬DropsInsert refusing s ∧ ¬DropsDelete refusing s) := by
  have created : (⟨0⟩ : Handle) ∈ (start #[newCustomer]).heap := Nat.zero_lt_one
  have run := (Run.start : Run (start #[newCustomer]) [] _).extend (.save ⟨0⟩ false) created
  have failed : (flush refusing).exec ((Move.save ⟨0⟩ false).perform (start #[newCustomer])) =
      (.error (.database "insert failed"), _) := Prod.ext rfl rfl
  exact ⟨_, _, run, failed, flush_loses_nothing_iff (start_fresh _) run failed⟩

open Sample in
/-- The insert that failed is gone: the customer has no row, and the next flush has nothing to do. So are two
deletes, of which the first was refused and the second not tried. -/
theorem failed_flush_loses_work :
    (∃ s after, Run (start #[newCustomer]) [.save ⟨0⟩ false] s ∧
      (flush refusing).exec s = (.error (.database "insert failed"), after) ∧ ¬NoWorkLost s after ∧
      ((flush writer).exec after).1 = .ok { inserted := 0, deleted := 0 }) ∧
    ∃ s after, Run (start #[newCustomer, newCustomer])
        [.save ⟨0⟩ false, .save ⟨1⟩ false, .flush writer, .delete ⟨0⟩, .delete ⟨1⟩] s ∧
      (flush refusing).exec s = (.error (.database "delete failed"), after) ∧ ¬NoWorkLost s after ∧
      ((flush writer).exec after).1 = .ok { inserted := 0, deleted := 0 } := by
  constructor
  · have created : (⟨0⟩ : Handle) ∈ (start #[newCustomer]).heap := Nat.zero_lt_one
    have run := (Run.start : Run (start #[newCustomer]) [] _).extend (.save ⟨0⟩ false) created
    refine ⟨_, _, run, Prod.ext rfl rfl, fun kept => ?_, rfl⟩
    rcases kept.inserts ⟨0⟩ (List.mem_singleton.mpr rfl) with still | ⟨entry, found, -, written⟩
    · exact absurd still List.not_mem_nil
    · cases found
      cases written
  · have created (h : Nat) (inside : h < 2) : (⟨h⟩ : Handle) ∈ (start #[newCustomer, newCustomer]).heap := inside
    have run := (Run.start : Run (start #[newCustomer, newCustomer]) [] _)
      |>.extend (.save ⟨0⟩ false) (created 0 (by decide))
      |>.extend (.save ⟨1⟩ false) (created 1 (by decide))
      |>.extend (.flush writer) trivial
      |>.extend (.delete ⟨0⟩) trivial
      |>.extend (.delete ⟨1⟩) trivial
    refine ⟨_, _, run, Prod.ext rfl rfl, fun kept => ?_, rfl⟩
    rcases kept.deletes ⟨⟨1⟩, _, customer⟩ (List.mem_cons_of_mem _ (List.mem_singleton.mpr rfl)) with still | forgotten
    · exact absurd still List.not_mem_nil
    · cases forgotten

end UnitOfWork
