import UnitOfWork.Proofs.ParkedDependencies

/-! No insert waits for nothing. One that is parked waits for what its save found, less the rows that flushes
have recorded since, so a flush that ends with inserts parked can say what the first of them waits for. -/

namespace UnitOfWork
open UnitOfWork.Action

theorem State.recordedBy_append (s : State) (first second : List Move) : s.recordedBy (first ++ second) =
    s.recordedBy first ++ (first.foldl (fun s move => move.perform s) s).recordedBy second := by
  induction first generalizing s with
  | nil => rfl
  | cons move rest ih => simp [recordedBy, ih]

theorem Through.recordedBy {holds : State → Prop} {start s : State} {moves : List Move}
    (through : Through holds start moves s) (move : Move) :
    start.recordedBy (moves ++ [move]) = start.recordedBy moves ++ s.recordedUntil (move.perform s) := by
  have performed : moves.foldl (fun s move => move.perform s) start = s := by
    induction through with
    | start => rfl
    | step _ _ _ ih => rw [List.foldl_append, ih, List.foldl_cons, List.foldl_nil]
  rw [State.recordedBy_append, performed, State.recordedBy, State.recordedBy, List.append_nil]

/-- These moves were followed by the save that parked an insert, which has been parked since. It waits for what it
waited for then, less the rows recorded since. -/
def Parked (start : State) (moves : List Move) (s : State) (earlier : List Move) (insert : ParkedInsert) : Prop :=
  ∃ before early later waits, moves = earlier ++ .save insert.handle early :: later ∧ Run start earlier before ∧
    ((Move.save insert.handle early).perform before).actions.parked =
      before.actions.parked ++ [{ insert with dependencies := waits }] ∧
    waits ≠ [] ∧
    Through (fun s => insert.handle ∈ s.actions.parked.map (·.handle))
      ((Move.save insert.handle early).perform before) later s ∧
    insert.dependencies =
      Dependencies.remaining waits (((Move.save insert.handle early).perform before).recordedBy later)

def ParkedBefore (start : State) (moves : List Move) (s : State) (first second : ParkedInsert) : Prop :=
  ∃ earlier later, Parked start moves s earlier first ∧ Parked start moves s later second ∧ earlier.length < later.length

namespace Parked
variable {start s : State} {moves earlier : List Move} {move : Move} {insert : ParkedInsert}

theorem length_lt (parked : Parked start moves s earlier insert) : earlier.length < moves.length := by
  obtain ⟨_, _, _, _, rfl, _⟩ := parked
  simp

theorem step (parked : Parked start moves s earlier insert) (allowed : move.Allowed s)
    (still : insert.once (s.recordedUntil (move.perform s)) ∈ (move.perform s).actions.parked) :
    Parked start (moves ++ [move]) (move.perform s) earlier (insert.once (s.recordedUntil (move.perform s))) := by
  obtain ⟨before, early, later, waits, rfl, run, grown, some_, through, left⟩ := parked
  refine ⟨before, early, later ++ [move], waits, ?_, run, grown, some_, ?_, ?_⟩
  · rw [List.append_assoc]
    rfl
  · exact through.extend move allowed (List.mem_map.mpr ⟨_, still, rfl⟩)
  · change Dependencies.remaining insert.dependencies _ = _
    rw [left, ← Dependencies.remaining_append]
    exact congrArg (Dependencies.remaining waits) (through.recordedBy move).symm

theorem new {early : Bool} (run : Run start moves s) (some_ : insert.dependencies ≠ [])
    (grown : ((Move.save insert.handle early).perform s).actions.parked = s.actions.parked ++ [insert]) :
    Parked start (moves ++ [.save insert.handle early]) ((Move.save insert.handle early).perform s) moves insert := by
  refine ⟨s, early, [], insert.dependencies, rfl, run, grown, some_, .start ?_, ?_⟩
  · rw [grown]
    simp
  · exact (Dependencies.remaining_nil _).symm

end Parked

structure Parkings (start : State) (moves : List Move) (s : State) : Prop where
  origin : ∀ insert ∈ s.actions.parked, ∃ earlier, Parked start moves s earlier insert
  ordered : s.waiting.Pairwise (ParkedBefore start moves s)

namespace Parkings
variable {start s : State} {moves : List Move} {move : Move}

theorem resolved (parkings : Parkings start moves s) (allowed : move.Allowed s)
    (resolves : Resolves (s.recordedUntil (move.perform s)) s (move.perform s)) :
    Parkings start (moves ++ [move]) (move.perform s) := by
  have kept {earlier : List Move} {insert : ParkedInsert} (parked : Parked start moves s earlier insert) :=
    parked.step allowed
  constructor
  · intro insert member
    obtain ⟨old, here, rfl⟩ := resolves.parked insert member
    obtain ⟨earlier, parked⟩ := parkings.origin old here
    exact ⟨earlier, kept parked member⟩
  · obtain ⟨left, fewer, same⟩ := resolves.ordered
    have still {old : ParkedInsert} (member : old ∈ left) :
        old.once (s.recordedUntil (move.perform s)) ∈ (move.perform s).actions.parked := by
      have waits : old.once (s.recordedUntil (move.perform s)) ∈ (move.perform s).waiting :=
        same ▸ List.mem_map_of_mem member
      exact (List.mem_filter.mp waits).1
    rw [same, List.pairwise_map]
    refine (parkings.ordered.sublist fewer).imp_of_mem fun {a b} here there sooner => ?_
    obtain ⟨earlier, later, first, second, before⟩ := sooner
    exact ⟨earlier, later, kept first (still here), kept second (still there), before⟩

theorem parked {insert : ParkedInsert} {early : Bool} (parkings : Parkings start moves s) (run : Run start moves s)
    (allowed : (Move.save insert.handle early).Allowed s) (some_ : insert.dependencies ≠ [])
    (grown : ((Move.save insert.handle early).perform s).actions.parked = s.actions.parked ++ [insert])
    (nothing : s.recordedUntil ((Move.save insert.handle early).perform s) = []) :
    Parkings start (moves ++ [.save insert.handle early]) ((Move.save insert.handle early).perform s) := by
  have old {other : ParkedInsert} {earlier : List Move} (member : other ∈ s.actions.parked)
      (parked : Parked start moves s earlier other) : Parked start (moves ++ [.save insert.handle early])
        ((Move.save insert.handle early).perform s) earlier other := by
    have still := parked.step allowed
    rw [nothing, ParkedInsert.once_nil] at still
    exact still (by rw [grown]; exact List.mem_append_left _ member)
  have newest := Parked.new run some_ grown
  constructor
  · intro other member
    rw [grown] at member
    rcases List.mem_append.mp member with before | last
    · obtain ⟨earlier, parked⟩ := parkings.origin other before
      exact ⟨earlier, old before parked⟩
    · rw [List.mem_singleton.mp last]
      exact ⟨moves, newest⟩
  · have waits : ((Move.save insert.handle early).perform s).waiting = s.waiting ++ [insert] := by
      rw [State.waiting, grown, List.filter_append]
      simp [State.waiting, ParkedInsert.isReady, some_]
    rw [waits, List.pairwise_append]
    refine ⟨?_, List.pairwise_singleton _ _, fun other member last here => ?_⟩
    · refine parkings.ordered.imp_of_mem fun {a b} here there sooner => ?_
      obtain ⟨earlier, later, first, second, before⟩ := sooner
      exact ⟨earlier, later, old (List.mem_filter.mp here).1 first, old (List.mem_filter.mp there).1 second, before⟩
    · rw [List.mem_singleton.mp here]
      have before := (List.mem_filter.mp member).1
      obtain ⟨earlier, parked⟩ := parkings.origin other before
      exact ⟨earlier, moves, old before parked, newest, parked.length_lt⟩

end Parkings

theorem Run.parkings {start s : State} {moves : List Move} (run : Run start moves s) (initial : start.Sound)
    (none_ : start.actions.parked = []) : Parkings start moves s := by
  induction run with
  | start =>
    constructor
    · intro insert member
      rw [none_] at member
      cases member
    · rw [State.waiting, none_]
      exact .nil
  | @step moves s move run allowed ih =>
    have sound := run.sound initial
    rcases (move.performs sound allowed).resolves sound with resolves | ⟨_, _, rfl, -, -, some_, grown, nothing⟩
    · exact ih.resolved allowed resolves
    · exact ih.parked run allowed some_ grown nothing

/-- How a flush ends that gets through its inserts and leaves some parked. -/
structure LeavesParked (start : State) (moves : List Move) (s : State) (writer : Writer) (after : State) : Prop where
  waits : ∀ insert ∈ after.actions.parked, insert.dependencies ≠ []
  drained : after.actions.inserts = []
  undeleted : after.actions.deletes = s.actions.deletes
  /-- Of the pending inserts, those that were queued and those released were written, and no row was deleted. -/
  wrote : ∃ calls, after.session.journal = s.session.journal ++ calls ∧ calls.filterMap Call.deleted? = [] ∧
    (calls.filterMap Call.inserted? ++ after.actions.parked.map (·.handle)).Perm s.actions.pending ∧
    (∀ h ∈ calls.filterMap Call.inserted?, after.Written h) ∧
    ∀ insert ∈ s.actions.inserts, insert.handle ∈ calls.filterMap Call.inserted?
  /-- It fails with what the insert that was parked first waits for first. -/
  reported : ∃ first rest dependency others, after.actions.parked = first :: rest ∧
    first.dependencies = dependency :: others ∧
    (∀ later ∈ rest, ParkedBefore start (moves ++ [.flush writer]) after first later) ∧
    (flush writer).exec s =
      (.error (.transientProperty first.descriptor.name dependency.path (dependency.reference.describe after.heap)), after)

theorem ParkedInsert.waits {insert : ParkedInsert} (blocked : insert.isReady = false) :
    ∃ dependency others, insert.dependencies = dependency :: others := by
  rw [isReady, List.isEmpty_eq_false_iff] at blocked
  exact List.exists_cons_of_ne_nil blocked

theorem InsertRun.writes_queued {writer : Writer} {s ready after : State} {written : List Insert} (sound : s.Sound)
    (began : (takeReady >>= queueReleased).exec s = (.ok (), ready)) (run : InsertRun writer ready written after)
    (drained : after.actions.inserts = []) {insert : Insert} (queued : insert ∈ s.actions.inserts) :
    insert.handle ∈ written.map (·.handle) := by
  have conserved := (InsertPhase.of_run began run).conserved
  rw [ActionQueue.pending, drained, List.map_nil, List.nil_append] at conserved
  have due : insert.handle ∈ s.actions.pending := List.mem_append_left _ (List.mem_map_of_mem queued)
  rcases List.mem_append.mp (conserved.mem_iff.mpr due) with row | still
  · exact row
  · obtain ⟨other, here, same⟩ := List.mem_map.mp still
    obtain ⟨old, there, rfl⟩ := ((queueReady_resolves began).trans run.resolves).parked other here
    have distinct := (List.nodup_append.mp sound.distinct).2.2
    exact absurd same.symm (distinct _ (List.mem_map_of_mem queued) old.handle (List.mem_map_of_mem there))

namespace Run
variable {start s after : State} {moves : List Move} {writer : Writer} {count : Nat}

theorem reports_first {first : ParkedInsert} {rest : List ParkedInsert} (run : Run start moves s) (fresh : start.Fresh)
    (ran : (insertPhase writer).exec s = (.ok count, after)) (parked : after.actions.parked = first :: rest) :
    ∃ dependency others, first.dependencies = dependency :: others ∧
      (∀ later ∈ rest, ParkedBefore start (moves ++ [.flush writer]) after first later) ∧
      (flush writer).exec s = (.error (.transientProperty first.descriptor.name dependency.path
        (dependency.reference.describe after.heap)), after) := by
  have wait := insertPhase_waits ran
  obtain ⟨ready, written, began, inserts, drained, -⟩ := insertPhase_ok.mp ran
  obtain ⟨dependency, others, waits⟩ := ParkedInsert.waits (wait first (by rw [parked]; exact List.mem_cons_self))
  have failed : (flush writer).exec s = (.error (.transientProperty first.descriptor.name dependency.path
      (dependency.reference.describe after.heap)), after) := by
    refine (Flushes.blocked began inserts drained ?_).exec
    rw [ActionQueue.firstError?, parked, List.head?_cons, Option.map_some, waits]
    rfl
  have later := (run.extend (.flush writer) trivial).parkings fresh.sound (by rw [fresh.actions])
  rw [Move.flush_perform failed] at later
  have all : after.waiting = first :: rest := by
    rw [State.waiting, ← parked]
    exact List.filter_eq_self.mpr fun insert member => by rw [wait insert member]; rfl
  have ordered := later.ordered
  rw [all, List.pairwise_cons] at ordered
  exact ⟨dependency, others, waits, ordered.1, failed⟩

theorem leavesParked (run : Run start moves s) (fresh : start.Fresh)
    (ran : (insertPhase writer).exec s = (.ok count, after)) (left : after.actions.parked ≠ []) :
    LeavesParked start moves s writer after := by
  have sound := run.sound fresh.sound
  obtain ⟨ready, written, began, inserts, drained, -⟩ := insertPhase_ok.mp ran
  have phase := InsertPhase.of_run began inserts
  obtain ⟨calls, extended, inserted, undeleted⟩ := phase.wrote
  have conserved := phase.conserved
  rw [ActionQueue.pending, drained, List.map_nil, List.nil_append] at conserved
  refine ⟨fun insert member => ?_, drained, phase.deletes, ⟨calls, extended, undeleted, ?_, ?_, ?_⟩, ?_⟩
  · obtain ⟨_, _, waits⟩ := ParkedInsert.waits (insertPhase_waits ran insert member)
    rw [waits]
    exact List.cons_ne_nil _ _
  · rw [inserted]
    exact conserved
  · rw [inserted]
    exact inserts.recorded (ready_sound sound began)
  · rw [inserted]
    exact fun insert queued => inserts.writes_queued sound began drained queued
  · cases parked : after.actions.parked with
    | nil => exact absurd parked left
    | cons first rest =>
      obtain ⟨dependency, others, waits, ordered, failed⟩ := run.reports_first fresh ran parked
      exact ⟨first, rest, dependency, others, rfl, waits, ordered, failed⟩

end Run

theorem Action.flush_nothingUnresolved {writer : Writer} {s after : State} {entity : String}
    (failed : (flush writer).exec s = (.error (.nothingUnresolved entity), after)) :
    FailedBy writer s (.nothingUnresolved entity) := by
  cases flush_error failed with
  | asking fault => exact fault.nothingUnresolved
  | inserting fault => exact fault.nothingUnresolved
  | deleting refused => exact .delete refused
  | waiting inserted blocked =>
    obtain ⟨first, parked, same⟩ := Option.map_eq_some_iff.mp blocked
    obtain ⟨_, _, waits⟩ := ParkedInsert.waits (insertPhase_waits inserted first (List.mem_of_head? parked))
    rw [waits] at same
    cases same

/-- In every state of a session a parked insert waits for exactly what its save found, in that order, less the
instances whose inserts flushes have recorded since. A flush that gets through its inserts and leaves some parked
has written all that were queued and deleted nothing; what it leaves still waits, and it fails with what the one
parked first waits for. It never fails because an insert waits for nothing, unless a collaborator says so. -/
theorem parked_inserts_wait_for_what_is_unwritten {start s : State} {moves : List Move} (fresh : start.Fresh)
    (run : Run start moves s) :
    (∀ insert ∈ s.actions.parked, ∃ earlier, Parked start moves s earlier insert) ∧
      (∀ writer count after, (insertPhase writer).exec s = (.ok count, after) → after.actions.parked ≠ [] →
        LeavesParked start moves s writer after) ∧
      ∀ writer entity after, (flush writer).exec s = (.error (.nothingUnresolved entity), after) →
        FailedBy writer s (.nothingUnresolved entity) := by
  have parkings := run.parkings fresh.sound (by rw [fresh.actions])
  exact ⟨parkings.origin, fun writer count after ran left => run.leavesParked fresh ran left,
    fun writer entity after failed => flush_nothingUnresolved failed⟩

namespace Sample

/-- Two orders are saved, and of their customers only the second's. -/
def abandoned : List Move := [.save ⟨0⟩ false, .save ⟨1⟩ false, .save ⟨3⟩ false]

def abandonedState : State :=
  abandoned.foldl (fun s move => move.perform s) (start #[newOrder ⟨2⟩, newOrder ⟨3⟩, newCustomer, newCustomer])

theorem abandoned_run :
    Run (start #[newOrder ⟨2⟩, newOrder ⟨3⟩, newCustomer, newCustomer]) abandoned abandonedState := by
  have created (h : Nat) (inside : h < 4) :
      (⟨h⟩ : Handle) ∈ (start #[newOrder ⟨2⟩, newOrder ⟨3⟩, newCustomer, newCustomer]).heap := inside
  exact (Run.start : Run (start #[newOrder ⟨2⟩, newOrder ⟨3⟩, newCustomer, newCustomer]) [] _)
    |>.extend (.save ⟨0⟩ false) (created 0 (by decide))
    |>.extend (.save ⟨1⟩ false) (created 1 (by decide))
    |>.extend (.save ⟨3⟩ false) (created 3 (by decide))

/-- Takes the words out of the session's mouth. -/
def contrary : Writer where
  insert _ d _ _ := .error (.nothingUnresolved d.name)
  delete := writer.delete

theorem abandoned_insertPhase :
    (insertPhase writer).exec abandonedState = (.ok 2, ((insertPhase writer).exec abandonedState).2) :=
  exec_of_toOption (by decide +kernel)

theorem abandoned_parked :
    ((insertPhase writer).exec abandonedState).2.actions.parked.map (·.handle) = [⟨0⟩] := by decide +kernel

end Sample

open Sample in
/-- The customer of the first order is missing when the second order and its customer are written. -/
theorem parked_inserts_wait_for_what_is_unwritten_abandoned : ∃ after stopped,
    Run (start #[newOrder ⟨2⟩, newOrder ⟨3⟩, newCustomer, newCustomer]) abandoned abandonedState ∧
      (∀ insert ∈ abandonedState.actions.parked, ∃ earlier,
        Parked (start #[newOrder ⟨2⟩, newOrder ⟨3⟩, newCustomer, newCustomer]) abandoned abandonedState earlier insert) ∧
      (insertPhase writer).exec abandonedState = (.ok 2, after) ∧ after.actions.parked ≠ [] ∧
      LeavesParked (start #[newOrder ⟨2⟩, newOrder ⟨3⟩, newCustomer, newCustomer]) abandoned abandonedState writer after ∧
      (flush contrary).exec abandonedState = (.error (.nothingUnresolved "Customer"), stopped) ∧
      FailedBy contrary abandonedState (.nothingUnresolved "Customer") := by
  obtain ⟨origin, leaves, blames⟩ := parked_inserts_wait_for_what_is_unwritten (start_fresh _) abandoned_run
  have left : ((insertPhase writer).exec abandonedState).2.actions.parked ≠ [] := by
    intro none_
    have parked := abandoned_parked
    rw [none_] at parked
    cases parked
  have refused : (flush contrary).exec abandonedState =
      (.error (.nothingUnresolved "Customer"), ((flush contrary).exec abandonedState).2) := rfl
  exact ⟨_, _, abandoned_run, origin, abandoned_insertPhase, left, leaves _ _ _ abandoned_insertPhase left, refused,
    blames _ _ _ refused⟩

end UnitOfWork
