import UnitOfWork.Proofs.History

/-! A flush writes each pending insert at most once and keeps the others pending, whatever fails on the way.
When it succeeds nothing is left to do: it has written every insert and then carried out every delete, in
the order in which they were scheduled. -/

namespace UnitOfWork
open UnitOfWork.Action

/-- What was written between two states. -/
def Wrote (before after : State) (inserted : List Handle) (deleted : List (Handle × Identifier)) : Prop :=
  ∃ calls, after.session.journal = before.session.journal ++ calls ∧
    calls.filterMap Call.inserted? = inserted ∧ calls.filterMap Call.deleted? = deleted

namespace Wrote
variable {a b c : State} {inserted inserted' : List Handle} {deleted deleted' : List (Handle × Identifier)}

theorem trans (first : Wrote a b inserted deleted) (second : Wrote b c inserted' deleted') :
    Wrote a c (inserted ++ inserted') (deleted ++ deleted') := by
  obtain ⟨calls, extended, rfl, rfl⟩ := first
  obtain ⟨others, extended', rfl, rfl⟩ := second
  refine ⟨calls ++ others, ?_, List.filterMap_append, List.filterMap_append⟩
  rw [extended', extended, List.append_assoc]

theorem silent {reads : Journal} (quiet : ∀ call ∈ reads, call.isWrite = false) :
    reads.filterMap Call.inserted? = [] ∧ reads.filterMap Call.deleted? = [] := by
  have neither (call : Call) (member : call ∈ reads) : call.inserted? = none ∧ call.deleted? = none := by
    have unwritten := quiet call member
    rw [Call.isWrite, Bool.or_eq_false_iff, Option.isSome_eq_false_iff, Option.isSome_eq_false_iff,
      Option.isNone_iff_eq_none, Option.isNone_iff_eq_none] at unwritten
    exact unwritten
  exact ⟨List.filterMap_eq_nil_iff.mpr fun call member => (neither call member).1,
    List.filterMap_eq_nil_iff.mpr fun call member => (neither call member).2⟩

theorem of_requeues (moved : Requeues a b) : Wrote a b [] [] := by
  obtain ⟨reads, extended, quiet⟩ := moved.journal
  exact ⟨reads, extended, silent quiet⟩

end Wrote

def Delete.row (delete : Delete) : Handle × Identifier := (delete.handle, delete.key.id)

namespace Action
variable {writer : Writer} {s after : State}

/-- An insert is passed to the writer once, also when it fails. -/
theorem executeInsert_wrote {insert : Insert} {answer : Except Error Unit}
    (ran : (executeInsert writer insert).exec s = (answer, after)) : Wrote s after [insert.handle] [] := by
  have called {answer : Except Error Unit} {written : State}
      (ran : (writeInsert writer insert).exec s = (answer, written)) : Wrote s written [insert.handle] [] := by
    cases answer with
    | error e =>
      obtain ⟨-, _, rfl⟩ := writeInsert_error ran
      exact ⟨[s.insertCall insert], rfl, rfl, rfl⟩
    | ok _ =>
      obtain ⟨_, _, _, _, _, _, _, rfl⟩ := writeInsert_ok ran
      exact ⟨[s.insertCall insert], rfl, rfl, rfl⟩
  rcases executeInsert_cases ran with ⟨_, _, failed⟩ | ⟨written, wrote, released⟩
  · exact called failed
  · exact (called wrote).trans (.of_requeues (releaseParked_pending released).1)

theorem executeDelete_wrote {delete : Delete} {answer : Except Error Unit}
    (ran : (executeDelete writer delete).exec s = (answer, after)) : Wrote s after [] [delete.row] := by
  cases answer with
  | error e =>
    rw [executeDelete_error ran]
    exact ⟨[deleteCall delete], rfl, rfl, rfl⟩
  | ok _ =>
    obtain ⟨shared, naturalIds, reads, quiet, rfl⟩ := executeDelete_ok ran
    obtain ⟨noInserts, noDeletes⟩ := Wrote.silent quiet
    refine ⟨deleteCall delete :: reads, rfl, ?_, ?_⟩
    · rw [List.filterMap_cons_none rfl, noInserts]
    · change delete.row :: reads.filterMap Call.deleted? = _
      rw [noDeletes]

end Action

theorem InsertRun.wrote {writer : Writer} {s after : State} {written : List Insert}
    (run : InsertRun writer s written after) : Wrote s after (written.map (·.handle)) [] := by
  induction run with
  | done s => exact ⟨[], (List.append_nil _).symm, rfl, rfl⟩
  | @step s middle after insert rest written next wrote run ih =>
    have first : Wrote (s.taking rest) middle [insert.handle] [] := executeInsert_wrote wrote
    exact first.trans ih

theorem DeleteRun.wrote {writer : Writer} {s after : State} {deletes : List Delete}
    (run : DeleteRun writer s deletes after) : Wrote s after [] (deletes.map Delete.row) := by
  induction run with
  | done s => exact ⟨[], (List.append_nil _).symm, rfl, rfl⟩
  | step wrote run ih => exact (executeDelete_wrote wrote).trans ih

/-- The calls between two states pass only these inserts to the writer. -/
def Passes (before after : State) (inserts : List Insert) : Prop :=
  ∃ calls, after.session.journal = before.session.journal ++ calls ∧
    ∀ h entity id state, .insert h entity id state ∈ calls →
      ∃ insert ∈ inserts, insert.handle = h ∧ insert.descriptor.name = entity ∧ insert.state = state

namespace Passes
variable {a b c : State} {inserts inserts' : List Insert}

theorem trans (first : Passes a b inserts) (second : Passes b c inserts') : Passes a c (inserts ++ inserts') := by
  obtain ⟨calls, extended, passed⟩ := first
  obtain ⟨others, extended', passed'⟩ := second
  refine ⟨calls ++ others, by rw [extended', extended, List.append_assoc], fun h entity id state member => ?_⟩
  rcases List.mem_append.mp member with early | late
  · obtain ⟨insert, here, same⟩ := passed h entity id state early
    exact ⟨insert, List.mem_append_left _ here, same⟩
  · obtain ⟨insert, here, same⟩ := passed' h entity id state late
    exact ⟨insert, List.mem_append_right _ here, same⟩

theorem of_wrote {deleted : List (Handle × Identifier)} (wrote : Wrote a b [] deleted) : Passes a b [] := by
  obtain ⟨calls, extended, none_, -⟩ := wrote
  refine ⟨calls, extended, fun h entity id state member => ?_⟩
  cases (List.filterMap_eq_nil_iff.mp none_ _ member : some h = none)

end Passes

namespace Action
variable {writer : Writer} {s after : State}

theorem executeInsert_passes {insert : Insert} {answer : Except Error Unit}
    (ran : (executeInsert writer insert).exec s = (answer, after)) : Passes s after [insert] := by
  have called {written : State} (extended : written.session.journal = s.session.journal ++ [s.insertCall insert]) :
      Passes s written [insert] := by
    refine ⟨[s.insertCall insert], extended, fun h entity id state member => ?_⟩
    cases List.mem_singleton.mp member
    exact ⟨insert, List.mem_singleton_self _, rfl, rfl, rfl⟩
  rcases executeInsert_cases ran with ⟨_, _, failed⟩ | ⟨written, wrote, released⟩
  · obtain ⟨-, _, rfl⟩ := writeInsert_error failed
    exact called rfl
  · have row : Passes s written [insert] := by
      obtain ⟨_, _, _, _, _, _, _, rfl⟩ := writeInsert_ok wrote
      exact called rfl
    exact row.trans (.of_wrote (.of_requeues (releaseParked_pending released).1))

end Action

theorem InsertRun.passes {writer : Writer} {s after : State} {written : List Insert}
    (run : InsertRun writer s written after) : Passes s after written := by
  induction run with
  | done s => exact .of_wrote ⟨[], (List.append_nil _).symm, rfl, rfl⟩
  | @step s middle after insert rest written next wrote run ih =>
    have first : Passes (s.taking rest) middle [insert] := executeInsert_passes wrote
    exact first.trans ih

/-- How far the inserts of a flush came: some were passed to the writer, the others are pending still. -/
structure InsertPhase (s after : State) (written : List Handle) : Prop where
  wrote : Wrote s after written []
  conserved : (written ++ after.actions.pending).Perm s.actions.pending
  deletes : after.actions.deletes = s.actions.deletes

theorem InsertPhase.of_run {writer : Writer} {s ready middle : State} {written : List Insert}
    (began : (takeReady >>= queueReleased).exec s = (.ok (), ready)) (run : InsertRun writer ready written middle) :
    InsertPhase s middle (written.map (·.handle)) where
  wrote := (Wrote.of_requeues (queueReady_pending began).1).trans run.wrote
  conserved := run.pending.trans (queueReady_pending began).2
  deletes := run.deletes.trans (queueReady_pending began).1.deletes

namespace Action
variable {writer : Writer} {s after : State}

theorem flush_phases {answer : Except Error FlushResult} (ran : (flush writer).exec s = (answer, after)) :
    ∃ written deleted middle, InsertPhase s middle written ∧ Wrote middle after [] deleted ∧
      after.actions.pending = middle.actions.pending ∧
      ∀ result, answer = .ok result → after.actions.isEmpty = true ∧ result.inserted = written.length ∧
        result.deleted = s.actions.deletes.length ∧ deleted = s.actions.deletes.map Delete.row := by
  have still (s : State) : Wrote s s [] [] := ⟨[], (List.append_nil _).symm, rfl, rfl⟩
  cases flush_cases ran with
  | unqueued failed =>
    obtain ⟨moved, conserved⟩ := queueReady_pending failed
    exact ⟨[], [], after, ⟨.of_requeues moved, conserved, moved.deletes⟩, still after, rfl, nofun⟩
  | @stopped e ready middle after written rest insert began run next failed =>
    have phase := InsertPhase.of_run began run
    have last : Wrote middle after [insert.handle] [] := executeInsert_wrote (s := middle.taking rest) failed
    refine ⟨written.map (·.handle) ++ [insert.handle], [], after, ⟨phase.wrote.trans last, ?_, ?_⟩, still after,
      rfl, nofun⟩
    · rw [List.append_assoc]
      exact List.Perm.trans (List.Perm.append_left _ (executeInsert_conserves next failed)) phase.conserved
    · exact (executeInsert_pending failed).2.trans phase.deletes
  | blocked began run drained waiting => exact ⟨_, [], after, .of_run began run, still after, rfl, nofun⟩
  | @undeleted e ready middle last after written gone rest delete began run drained free scheduled deleted failed =>
    have early : Wrote middle last [] (gone.map Delete.row) := deleted.wrote
    have same : after.actions = middle.withoutDeletes.actions := (executeDelete_actions failed).trans deleted.actions
    refine ⟨_, _, middle, .of_run began run, early.trans (executeDelete_wrote failed), ?_, nofun⟩
    rw [same]
    rfl
  | @done ready middle after written began run drained free deleted =>
    have phase := InsertPhase.of_run began run
    have same := deleted.actions
    have all : Wrote middle after [] (middle.actions.deletes.map Delete.row) := deleted.wrote
    refine ⟨_, _, middle, phase, all, by rw [same]; rfl, fun result done => ?_⟩
    cases done
    refine ⟨?_, by rw [List.length_map], by rw [phase.deletes], by rw [phase.deletes]⟩
    rw [same, ActionQueue.isEmpty]
    change (middle.actions.inserts.isEmpty && middle.actions.parked.isEmpty && true) = true
    rw [drained, free]
    rfl

end Action

namespace Action
variable {writer : Writer} {s after : State}

/-- A flush carries out all scheduled deletes it can, or none. -/
theorem flush_deletes {answer : Except Error FlushResult} (ran : (flush writer).exec s = (answer, after)) :
    after.actions.deletes = s.actions.deletes ∨ after.actions.deletes = [] := by
  cases flush_cases ran with
  | unqueued failed => exact .inl (queueReady_pending failed).1.deletes
  | stopped began run next failed =>
    exact .inl ((executeInsert_pending failed).2.trans (InsertPhase.of_run began run).deletes)
  | blocked began run drained waiting => exact .inl (InsertPhase.of_run began run).deletes
  | undeleted began run drained free scheduled deleted failed =>
    rw [executeDelete_actions failed, deleted.actions]
    exact .inr rfl
  | done began run drained free deleted =>
    rw [deleted.actions]
    exact .inr rfl

theorem save_deletes {h : Handle} {early : Bool} {answer : Except Error Unit}
    (ran : (save h early).exec s = (answer, after)) : after.actions.deletes = s.actions.deletes := by
  cases save_cases ran with
  | known => rfl
  | refused => rfl
  | scheduled _ _ _ _ ran => exact (scheduleInsert_pending ran).1.deletes
  | undone _ _ _ _ failed => exact (scheduleInsert_pending failed).1.deletes

end Action

namespace Move
variable {s : State}

theorem perform_deletes (move : Move) (sound : s.Sound) (allowed : move.Allowed s) :
    (move.perform s).actions.deletes = s.actions.deletes ∨ (move.perform s).actions.deletes = [] ∨
      ∃ delete, move = .delete delete.handle ∧
        (move.perform s).actions.deletes = s.actions.deletes ++ [delete] := by
  have performs := move.performs sound allowed
  generalize move.perform s = after at *
  cases performs with
  | saved ran => exact .inl (save_deletes ran)
  | deleted ran =>
    cases delete_cases ran with
    | canceled | refused | gone => exact .inl rfl
    | scheduled => exact .inr (.inr ⟨⟨_, _, _⟩, rfl, rfl⟩)
  | flushed ran => exact (flush_deletes ran).imp_right .inl
  | loaded spares => exact .inl (congrArg ActionQueue.deletes spares.actions)
  | attached => exact .inl rfl
  | cleared => exact .inr (.inl rfl)
  | aside _ aside => exact .inl (congrArg ActionQueue.deletes aside.beside.actions)

end Move

/-- The scheduled deletes are in the order of the calls that scheduled them, which all came after the last
time there were none. -/
theorem Run.scheduled {start s : State} {moves : List Move} (run : Run start moves s) (initial : start.Sound)
    (none_ : start.actions.deletes = []) : ∃ earlier middle later, moves = earlier ++ later ∧
      Run start earlier middle ∧ middle.actions.deletes = [] ∧ Run middle later s ∧
      (s.actions.deletes.map (·.handle)).Sublist (later.filterMap Move.deleted?) := by
  induction run with
  | start => exact ⟨[], start, [], rfl, .start, none_, .start, by rw [none_]; exact .slnil⟩
  | @step moves s move run allowed ih =>
    obtain ⟨earlier, middle, later, rfl, before, empty, after, ordered⟩ := ih
    have longer : (later.filterMap Move.deleted?).Sublist ((later ++ [move]).filterMap Move.deleted?) := by
      rw [List.filterMap_append]
      exact List.sublist_append_left _ _
    rcases move.perform_deletes (run.sound initial) allowed with same | gone | ⟨delete, rfl, more⟩
    · refine ⟨earlier, middle, later ++ [move], List.append_assoc _ _ _, before, empty, .step after allowed, ?_⟩
      rw [same]
      exact ordered.trans longer
    · refine ⟨earlier ++ later ++ [move], _, [], (List.append_nil _).symm, .step run allowed, gone, .start, ?_⟩
      rw [gone]
      exact .slnil
    · refine ⟨earlier, middle, later ++ [.delete delete.handle], List.append_assoc _ _ _, before, empty,
        .step after allowed, ?_⟩
      rw [more, List.map_append, List.filterMap_append]
      exact ordered.append (.refl _)

/-- A flush passes no instance to the writer twice, and what it does not pass stays pending. Its loop ends by
itself. A flush that succeeds leaves nothing to do; its deletes follow its inserts, in the order in which
they were scheduled. -/
theorem flush_conserves {start s after : State} {moves : List Move} {writer : Writer}
    {answer : Except Error FlushResult} (fresh : start.Fresh) (run : Run start moves s)
    (ran : (flush writer).exec s = (answer, after)) :
    ∃ calls, after.session.journal = s.session.journal ++ calls ∧
      (calls.filterMap Call.inserted?).Nodup ∧
      (calls.filterMap Call.inserted? ++ after.actions.pending).Perm s.actions.pending ∧
      (∀ bound, s.actions.pendingInserts ≤ bound → (flushWithin writer bound).exec s = (answer, after)) ∧
      ∀ result, answer = .ok result →
        after.actions.isEmpty = true ∧
        result.inserted = s.actions.pendingInserts ∧
        result.deleted = s.actions.deletes.length ∧
        calls.filterMap Call.deleted? = s.actions.deletes.map Delete.row ∧
        (∃ inserts deletes, calls = inserts ++ deletes ∧ inserts.filterMap Call.deleted? = [] ∧
          deletes.filterMap Call.inserted? = []) ∧
        ∃ earlier middle later, moves = earlier ++ later ∧ Run start earlier middle ∧
          middle.actions.deletes = [] ∧ Run middle later s ∧
          (s.actions.deletes.map (·.handle)).Sublist (later.filterMap Move.deleted?) := by
  have sound := run.sound fresh.sound
  obtain ⟨written, deleted, middle, phase, deletes, remaining, finished⟩ := flush_phases ran
  obtain ⟨first, extended, inserted, undeleted⟩ := phase.wrote
  obtain ⟨second, extended', uninserted, removed⟩ := deletes
  have writes : (first ++ second).filterMap Call.inserted? = written := by
    rw [List.filterMap_append, inserted, uninserted, List.append_nil]
  refine ⟨first ++ second, by rw [extended', extended, List.append_assoc], ?_, ?_, fun bound enough => ?_,
    fun result done => ?_⟩
  · rw [writes]
    exact (List.nodup_append.mp (phase.conserved.nodup_iff.mpr sound.distinct)).1
  · rw [writes, remaining]
    exact phase.conserved
  · rw [← flush_exec writer s enough]
    exact ran
  · obtain ⟨empty, inserts, count, rows⟩ := finished result done
    have none_ : after.actions.pending = [] := by
      simp only [ActionQueue.isEmpty, Bool.and_eq_true, List.isEmpty_iff] at empty
      rw [ActionQueue.pending, empty.1.1, empty.1.2]
      rfl
    have conserved := phase.conserved.length_eq
    rw [← remaining, none_, List.append_nil, ActionQueue.length_pending] at conserved
    refine ⟨empty, inserts.trans conserved, count, ?_, ⟨first, second, rfl, undeleted, uninserted⟩, ?_⟩
    · rw [List.filterMap_append, undeleted, removed, rows]
      rfl
    · exact run.scheduled fresh.sound (by rw [fresh.actions])

namespace Sample

def customer : Descriptor where
  name := "Customer"
  identifier := { name := "id" }

def order : Descriptor where
  name := "Order"
  identifier := { name := "id" }
  attributes := [(Attribute.manyToOne "customer" "Customer").withStorage fun storage =>
    { storage with nullable := false }]

/-- Never fails, and gives out an identifier that no earlier call was given. -/
def writer : Writer where
  insert journal _ _ _ := .ok (some (.ofColumns (List.replicate (journal.length + 1) (.bool true))))
  delete _ _ _ := .ok ()

def start (instances : Array Instance) : State where
  heap := ⟨instances⟩
  shared := {}
  session := { factory := { metamodel := ⟨[customer, order]⟩ } }

theorem start_fresh (instances : Array Instance) : (start instances).Fresh := ⟨rfl, rfl, rfl⟩

def newCustomer : Instance := { entity := "Customer", values := [] }

def newOrder (customer : Handle) : Instance := { entity := "Order", values := [.reference (.loaded customer)] }

end Sample

open Sample in
/-- One customer takes the place of another: the new one is written before the old one is deleted. -/
theorem flush_conserves_replaced : ∃ s after,
    Run (start #[newCustomer, newCustomer]) [.save ⟨0⟩ false, .flush writer, .delete ⟨0⟩, .save ⟨1⟩ false] s ∧
      (flush writer).exec s = (.ok { inserted := 1, deleted := 1 }, after) ∧
      ∃ calls, after.session.journal = s.session.journal ++ calls ∧ (calls.filterMap Call.inserted?).Nodup ∧
        (calls.filterMap Call.inserted? ++ after.actions.pending).Perm [⟨1⟩] ∧ after.actions.isEmpty = true := by
  have created (h : Nat) (inside : h < 2) : (⟨h⟩ : Handle) ∈ (start #[newCustomer, newCustomer]).heap := inside
  have run := (Run.start : Run (start #[newCustomer, newCustomer]) [] _)
    |>.extend (.save ⟨0⟩ false) (created 0 (by decide))
    |>.extend (.flush writer) trivial
    |>.extend (.delete ⟨0⟩) trivial
    |>.extend (.save ⟨1⟩ false) (created 1 (by decide))
  obtain ⟨s, run, answered, pending⟩ : ∃ s, Run (start #[newCustomer, newCustomer])
      [.save ⟨0⟩ false, .flush writer, .delete ⟨0⟩, .save ⟨1⟩ false] s ∧
      ((flush writer).exec s).1 = .ok { inserted := 1, deleted := 1 } ∧ s.actions.pending = [⟨1⟩] :=
    ⟨_, run, rfl, rfl⟩
  have ran : (flush writer).exec s = (.ok { inserted := 1, deleted := 1 }, ((flush writer).exec s).2) :=
    Prod.ext answered rfl
  obtain ⟨calls, extended, distinct, conserved, -, finished⟩ := flush_conserves (start_fresh _) run ran
  exact ⟨s, _, run, ran, calls, extended, distinct, pending ▸ conserved, (finished _ rfl).1⟩

end UnitOfWork
