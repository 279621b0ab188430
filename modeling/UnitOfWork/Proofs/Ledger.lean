import UnitOfWork.Proofs.SessionRows
import UnitOfWork.Proofs.SingleInserts

/-! A session that only saves, deletes and flushes, with writers that fail at nothing, knows its rows: the instances
that have one are those that are tracked without a pending insert. -/

namespace UnitOfWork
open UnitOfWork.Action

/-- The writer fails at nothing. -/
structure Writer.Reliable (writer : Writer) : Prop where
  insert : ∀ journal d current state, ∃ given, writer.insert journal d current state = .ok given
  delete : ∀ journal d id, writer.delete journal d id = .ok ()

/-- A save, a delete, or a flush whose writer fails at nothing. -/
def Move.Plain : Move → Prop
  | .save _ _ | .delete _ => True
  | .flush writer => writer.Reliable
  | _ => False

/-- What the session knows about its instances and rows. -/
structure Ledger (s : State) : Prop where
  rows : ∀ h, s.hasRow h = true ↔ s.context.entry? h ≠ none ∧ h ∉ s.actions.pending
  saving : ∀ h ∈ s.actions.pending, ¬s.Established h
  marked : ∀ delete ∈ s.actions.deletes, s.context.isNullifiableKey delete.key = true
  identified : ∀ h, s.heap.id? h ≠ none → h ∈ s.session.journal.filterMap Call.inserted?
  interceptor : s.session.interceptor = none

theorem Continues.marked {a b : State} (continues : Continues a b)
    (marked : ∀ delete ∈ a.actions.deletes, a.context.isNullifiableKey delete.key = true) :
    ∀ delete ∈ b.actions.deletes, b.context.isNullifiableKey delete.key = true := by
  intro delete member
  rw [continues.isNullifiableKey]
  exact marked delete (continues.deletes ▸ member)

theorem Continues.known {a b : State} (continues : Continues a b)
    (identified : ∀ h, a.heap.id? h ≠ none → h ∈ a.session.journal.filterMap Call.inserted?) :
    ∀ h, b.heap.id? h ≠ none → h ∈ b.session.journal.filterMap Call.inserted? := by
  intro h has
  obtain ⟨calls, extended, known⟩ := continues.identified
  rw [extended, List.filterMap_append]
  rcases known h has with before | given
  · exact List.mem_append_left _ (identified h before)
  · exact List.mem_append_right _ given

theorem Ledger.continued {s after : State} (ledger : Ledger s) (continues : Continues s after)
    (rows : ∀ h, after.hasRow h = true ↔ after.context.entry? h ≠ none ∧ h ∉ after.actions.pending)
    (saving : ∀ h ∈ after.actions.pending, ¬after.Established h) : Ledger after :=
  ⟨rows, saving, continues.marked ledger.marked, continues.known ledger.identified,
    continues.interceptor.trans ledger.interceptor⟩

namespace Action
variable {s after : State} {h : Handle}

theorem save_continues {early : Bool} {answer : Except Error Unit} (ran : (save h early).exec s = (answer, after)) :
    Continues s after := by
  have tracks {d : Descriptor} {key : Option EntityKey} {context : Context}
      (added : s.context.addEntity h (.saved d key) = .ok context) : Continues s (s.mapContext fun _ => context) :=
    .mapContext s (Context.addEntity_ok added).nullifiable
  cases save_cases ran with
  | known => exact .refl s
  | refused => exact .refl s
  | scheduled _ _ _ added ran => exact (tracks added).trans (.of_requeues (scheduleInsert_pending ran).1)
  | @undone _ _ _ _ middle _ _ _ added failed =>
    exact ((tracks added).trans (.of_requeues (scheduleInsert_pending failed).1)).trans (.removeEntry middle h)

/-- What a save does to the entries: it adds one for an instance whose insert it makes pending, or none. -/
theorem save_books {early : Bool} {answer : Except Error Unit} (ran : (save h early).exec s = (answer, after)) :
    ((∀ x, after.context.entry? x = s.context.entry? x) ∧ after.actions.pending = s.actions.pending) ∨
      s.context.entry? h = none ∧
        (∃ d key, s.session.descriptor (s.heap.entity h) = .ok d ∧ after.context.entry? h = some (.saved d key)) ∧
        (∀ x, x ≠ h → after.context.entry? x = s.context.entry? x) ∧
        after.actions.pending.Perm (h :: s.actions.pending) := by
  have entries {d : Descriptor} {key : Option EntityKey} {flag : Bool} {context : Context} {answer : Except Error Unit}
      {middle : State} (added : s.context.addEntity h (.saved d key) = .ok context)
      (ran : (scheduleInsert h d flag).exec (s.mapContext fun _ => context) = (answer, middle)) (x : Handle) :
      middle.context.entry? x = if h = x then some (.saved d key) else s.context.entry? x := by
    have adds := Context.addEntity_ok added
    rw [(scheduleInsert_pending ran).1.entry_eq]
    exact adds.entry? x
  cases save_cases ran with
  | known => exact .inl ⟨fun _ => rfl, rfl⟩
  | refused => exact .inl ⟨fun _ => rfl, rfl⟩
  | @scheduled d key context after unknown mapped _ added ran =>
    obtain ⟨-, ⟨_, wrong, _⟩ | ⟨-, grown⟩⟩ := scheduleInsert_pending ran
    · cases wrong
    · refine .inr ⟨(untracked_iff s h).mp unknown, ⟨d, key, mapped, ?_⟩, fun x other => ?_, grown⟩
      · rw [entries added ran, if_pos rfl]
      · rw [entries added ran, if_neg other.symm]
  | @undone d key context e middle unknown _ _ added failed =>
    obtain ⟨-, ⟨_, _, same⟩ | ⟨wrong, _⟩⟩ := scheduleInsert_pending failed
    · refine .inl ⟨fun x => ?_, congrArg ActionQueue.pending same⟩
      change Context.entry? (middle.context.removeEntry h) x = _
      rw [Context.entry?_removeEntry, entries added failed]
      split
      next here => rw [← here, (untracked_iff s h).mp unknown]
      next => rfl
    · cases wrong

end Action

namespace Ledger
variable {s after : State}

theorem save {h : Handle} {early : Bool} {answer : Except Error Unit} (ledger : Ledger s)
    (ran : (Action.save h early).exec s = (answer, after)) : Ledger after := by
  have rows (x : Handle) : after.hasRow x = true ↔ s.hasRow x = true := (save_reads ran).hasRow
  rcases save_books ran with ⟨entries, pending⟩ | ⟨unknown, ⟨d, key, -, saved⟩, others, grown⟩
  · refine ledger.continued (save_continues ran) (fun x => ?_) fun x due known => ?_
    · rw [rows, ledger.rows, entries, pending]
    · exact ledger.saving x (pending ▸ due) (known.congr (entries x).symm)
  · refine ledger.continued (save_continues ran) (fun x => ?_) fun x due known => ?_
    · rw [rows, ledger.rows, grown.mem_iff, List.mem_cons]
      by_cases here : x = h
      · simp [here, unknown]
      · simp [here, others x here]
    · by_cases here : x = h
      · subst here
        obtain ⟨entry, tracked, unsaved⟩ := known
        rw [saved] at tracked
        cases tracked
        exact unsaved rfl
      · rcases List.mem_cons.mp (grown.mem_iff.mp due) with same | old
        · exact here same
        · exact ledger.saving x old (known.congr (others x here).symm)

theorem cancel {h : Handle} (ledger : Ledger s) (due : h ∈ s.actions.pending) :
    Ledger ((s.mapActions fun queue => queue.cancelInsert h).mapContext fun context => context.removeEntry h) := by
  have remaining : (s.actions.cancelInsert h).pending = s.actions.pending.filter (· ≠ h) :=
    ActionQueue.pending_cancelInsert _ _
  have dropped : Requeues s (s.mapActions fun queue => queue.cancelInsert h) := .mapActions s rfl
  refine ledger.continued ((Continues.of_requeues dropped).trans (.removeEntry _ h)) (fun x => ?_) fun x left known => ?_
  · refine (ledger.rows x).trans ?_
    change _ ↔ Context.entry? (s.context.removeEntry h) x ≠ none ∧ x ∉ (s.actions.cancelInsert h).pending
    rw [Context.entry?_removeEntry, remaining, List.mem_filter]
    by_cases here : h = x
    · simp [← here, due]
    · simp [here, Ne.symm here]
  · change x ∈ (s.actions.cancelInsert h).pending at left
    rw [remaining, List.mem_filter] at left
    refine ledger.saving x left.1 (known.congr ?_)
    change _ = Context.entry? (s.context.removeEntry h) x
    rw [Context.entry?_removeEntry, if_neg (Ne.symm (of_decide_eq_true left.2))]

theorem schedule {delete : Delete} (ledger : Ledger s) (absent : delete.handle ∉ s.actions.pending) :
    Ledger ((s.mapContext fun context => (context.setStatus delete.handle .deleted).markNullifiable delete.key).mapActions
      fun queue => { queue with deletes := queue.deletes ++ [delete] }) := by
  refine ⟨fun x => ?_, fun x due known => ?_, fun other member => ?_, ledger.identified, ledger.interceptor⟩
  · refine (ledger.rows x).trans ?_
    change _ ↔ Context.entry? ((s.context.setStatus delete.handle .deleted).markNullifiable delete.key) x ≠ none ∧
      x ∉ s.actions.pending
    rw [Context.entry?_scheduled]
    split
    · simp
    · rfl
  · refine ledger.saving x due (known.congr ?_)
    change _ = Context.entry? ((s.context.setStatus delete.handle .deleted).markNullifiable delete.key) x
    rw [Context.entry?_scheduled, if_neg fun here : delete.handle = x => absent (here ▸ due)]
  · refine (s.context.isNullifiableKey_scheduled delete.handle delete.key other.key).trans ?_
    rw [Bool.or_eq_true]
    rcases List.mem_append.mp member with old | new
    · exact .inr (ledger.marked other old)
    · rw [List.mem_singleton.mp new]
      exact .inl BEq.rfl

theorem delete {h : Handle} {answer : Except Error Unit} (ledger : Ledger s)
    (ran : (Action.delete h).exec s = (answer, after)) : Ledger after := by
  cases delete_cases ran with
  | refused => exact ledger
  | gone => exact ledger
  | canceled pending => exact ledger.cancel ((ActionQueue.hasInsert_iff _ h).mp pending)
  | @scheduled entry key d idle tracked keyed =>
    have absent : h ∉ s.actions.pending := by
      rw [← ActionQueue.hasInsert_iff, idle]
      exact Bool.false_ne_true
    exact @schedule s ⟨h, key, d⟩ ledger absent

theorem insertPhase {written : List Handle} (ledger : Ledger s) (sound : s.Sound) (advances : Advances s after)
    (phase : InsertPhase s after written) (others : ∀ h, h ∉ written → after.context.entry? h = s.context.entry? h) :
    Ledger after := by
  -- what was pending is now either written or still pending
  have distinct := (List.nodup_append.mp (phase.conserved.nodup_iff.mpr sound.distinct)).2.2
  have pending (h : Handle) : h ∈ s.actions.pending ↔ h ∈ written ∨ h ∈ after.actions.pending := by
    rw [← phase.conserved.mem_iff, List.mem_append]
  refine ledger.continued advances.toContinues (fun h => ?_) fun h due known => ?_
  · rw [phase.wrote.hasRow_inserts, ledger.rows, Ne, Ne, advances.tracked, pending]
    constructor
    · rintro (⟨tracked, idle⟩ | row)
      · exact ⟨tracked, fun due => idle (.inr due)⟩
      · exact ⟨sound.tracked (.inl ((pending h).mpr (.inl row))), fun due => distinct h row h due rfl⟩
    · rintro ⟨tracked, idle⟩
      by_cases row : h ∈ written
      · exact .inr row
      · exact .inl ⟨tracked, not_or.mpr ⟨row, idle⟩⟩
  · have unwritten : h ∉ written := fun row => distinct h row h due rfl
    exact ledger.saving h ((pending h).mpr (.inr due)) (known.congr (others h unwritten).symm)

end Ledger

theorem DeleteRun.unchanged {writer : Writer} {s after : State} {deletes : List Delete}
    (run : DeleteRun writer s deletes after) : after.heap = s.heap ∧ after.session.factory = s.session.factory ∧
      after.session.interceptor = s.session.interceptor := by
  induction run with
  | done s => exact ⟨rfl, rfl, rfl⟩
  | step wrote run ih =>
    obtain ⟨_, _, _, _, rfl⟩ := executeDelete_ok wrote
    exact ih

theorem Writer.Reliable.not_refused {writer : Writer} (reliable : writer.Reliable) {s after : State} {delete : Delete}
    {e : Error} : (executeDelete writer delete).exec s ≠ (.error e, after) := by
  intro failed
  have refused := executeDelete_fails_iff.mp (executeDelete_error failed ▸ failed)
  rw [reliable.delete] at refused
  cases refused

namespace Ledger
variable {s after : State}

theorem deletePhase {writer : Writer} (ledger : Ledger s) (sound : s.Sound) (idle : s.actions.pending = [])
    (run : DeleteRun writer s.withoutDeletes s.actions.deletes after) : Ledger after := by
  have wrote : Wrote s after [] (s.actions.deletes.map Delete.row) := run.wrote
  have standing : Standing s.withoutDeletes s.actions.deletes := sound.standing
  have still : after.actions.pending = [] := by
    rw [run.actions]
    exact idle
  obtain ⟨heap, -, interceptor⟩ := run.unchanged
  have handles : (s.actions.deletes.map Delete.row).map Prod.fst = s.actions.deletes.map (·.handle) := by
    rw [List.map_map]
    rfl
  refine ⟨fun h => ?_, fun h due => ?_, fun delete member => ?_, fun h known => ?_, interceptor.trans ledger.interceptor⟩
  · have entries : after.context.entry? h =
        if h ∈ s.actions.deletes.map (·.handle) then none else s.context.entry? h := run.entry? standing h
    rw [wrote.hasRow_deletes, handles, ledger.rows, entries, idle, still]
    split
    next gone => simp [gone]
    next stays => simp [stays]
  · rw [still] at due
    cases due
  · rw [run.actions] at member
    cases member
  · obtain ⟨calls, extended, -⟩ := wrote
    rw [heap] at known
    rw [extended, List.filterMap_append]
    exact List.mem_append_left _ (ledger.identified h known)

theorem flush {writer : Writer} {answer : Except Error FlushResult} (ledger : Ledger s) (sound : s.Sound)
    (reliable : writer.Reliable) (ran : (Action.flush writer).exec s = (answer, after)) : Ledger after := by
  have readied {ready : State} {answer : Except Error Unit}
      (began : (takeReady >>= queueReleased).exec s = (answer, ready)) (h : Handle) :
      ready.context.entry? h = s.context.entry? h := (queueReady_pending began).1.entry_eq h
  have inserted {ready middle : State} {written : List Insert}
      (began : (takeReady >>= queueReleased).exec s = (.ok (), ready)) (run : InsertRun writer ready written middle) :
      Ledger middle :=
    ledger.insertPhase sound ((queueReady_advances began).trans run.advances) (.of_run began run)
      fun h other => (run.entry? other).trans (readied began h)
  cases flush_cases ran with
  | unqueued failed =>
    obtain ⟨moved, conserved⟩ := queueReady_pending failed
    exact ledger.insertPhase sound (queueReady_advances failed) ⟨.of_requeues moved, conserved, moved.deletes⟩
      fun h _ => readied failed h
  | @stopped e ready middle after written rest insert began run next failed =>
    have phase := InsertPhase.of_run began run
    have last : Wrote middle after [insert.handle] [] := executeInsert_wrote (s := middle.taking rest) failed
    have advances := ((queueReady_advances began).trans run.advances).trans (nextInsert_advances failed)
    have phase : InsertPhase s after (written.map (·.handle) ++ [insert.handle]) := by
      refine ⟨phase.wrote.trans last, ?_, (executeInsert_pending failed).2.trans phase.deletes⟩
      rw [List.append_assoc]
      exact List.Perm.trans (List.Perm.append_left _ (executeInsert_conserves next failed)) phase.conserved
    refine ledger.insertPhase sound advances phase fun h other => ?_
    rw [List.mem_append, List.mem_singleton, not_or] at other
    exact (executeInsert_entries failed other.2).trans ((run.entry? other.1).trans (readied began h))
  | blocked began run drained waiting => exact inserted began run
  | undeleted began run drained free scheduled deleted failed => exact absurd failed reliable.not_refused
  | done began run drained free deleted =>
    exact (inserted began run).deletePhase (run.sound (ready_sound sound began)) (pending_eq_nil drained free) deleted

theorem step {move : Move} (ledger : Ledger s) (sound : s.Sound) (plain : move.Plain) : Ledger (move.perform s) := by
  cases move with
  | save h early => exact ledger.save rfl
  | delete h => exact ledger.delete rfl
  | flush writer =>
    rcases ran : (Action.flush writer).exec s with ⟨answer, after⟩
    exact Move.flush_perform ran ▸ ledger.flush sound plain ran
  | _ => cases plain

end Ledger

/-- A session that has called nobody and asks no interceptor, over instances without identifiers. -/
structure State.Blank (s : State) : Prop extends s.Fresh where
  journal : s.session.journal = []
  interceptor : s.session.interceptor = none
  unidentified : ∀ h, s.heap.id? h = none

theorem State.Blank.ledger {s : State} (blank : s.Blank) : Ledger s where
  rows h := by
    rw [hasRow, blank.journal, blank.context]
    exact iff_of_false Bool.false_ne_true fun row => row.1 rfl
  saving h due := by
    rw [blank.actions] at due
    cases due
  marked delete member := by
    rw [blank.actions] at member
    cases member
  identified h known := absurd (blank.unidentified h) known
  interceptor := blank.interceptor

namespace Run
variable {start s : State} {moves : List Move}

theorem ledger (run : Run start moves s) (blank : start.Blank) (plain : ∀ move ∈ moves, move.Plain) : Ledger s :=
  run.preserves blank.toFresh.sound plain blank.ledger fun ledger sound plain _ => ledger.step sound plain

end Run

/-- After a flush that succeeds, the instances with a row are those that were tracked and not to be deleted. -/
theorem Ledger.flush_rows {s after : State} {writer : Writer} {result : FlushResult} (ledger : Ledger s) (sound : s.Sound)
    (reliable : writer.Reliable) (ran : (Action.flush writer).exec s = (.ok result, after)) (h : Handle) :
    after.hasRow h = true ↔ s.context.entry? h ≠ none ∧ h ∉ s.actions.deletes.map (·.handle) := by
  have later := ledger.flush sound reliable ran
  cases flush_cases ran with
  | @done ready middle after written began run drained free deleted =>
    have advances := (queueReady_advances began).trans run.advances
    have standing : Standing middle.withoutDeletes middle.actions.deletes :=
      (run.sound (ready_sound sound began)).standing
    have idle : after.actions.pending = [] := by
      rw [deleted.actions]
      exact pending_eq_nil drained free
    have entries : after.context.entry? h =
        if h ∈ middle.actions.deletes.map (·.handle) then none else middle.context.entry? h := deleted.entry? standing h
    rw [later.rows, idle, entries, advances.deletes, Ne, Ne, ← advances.tracked h]
    split
    next gone => simp [gone]
    next stays => simp [stays]

end UnitOfWork
