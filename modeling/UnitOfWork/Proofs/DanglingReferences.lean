import UnitOfWork.Proofs.FlushOrder
import UnitOfWork.Proofs.InsertDescriptors
import UnitOfWork.Proofs.WrittenReferences

/-! References written to rows that are gone by the end of the flush. What may be written is decided when an insert is
queued and not looked at again, so a target that is scheduled for deletion later on is deleted after the row that
refers to it has been written. -/

namespace UnitOfWork
open UnitOfWork.Action

namespace Action
variable {writer : Writer} {s after : State}

theorem executeInsert_requeues {insert : Insert} {row : State} {answer : Except Error Unit}
    (wrote : (writeInsert writer insert).exec s = (.ok (), row))
    (ran : (executeInsert writer insert).exec s = (answer, after)) : Requeues row after := by
  rw [executeInsert_eq, exec_bind_ok _ wrote] at ran
  exact (releaseParked_pending ran).1

theorem runInserts_advances {bound : Nat} {answer : Except Error Nat} (enough : s.actions.pendingInserts ≤ bound)
    (ran : (runInserts writer bound).exec s = (answer, after)) : Advances s after := by
  rcases runInserts_cases bound enough ran with ⟨written, run, -⟩ | ⟨e, written, middle, next, rest, run, -, failed, -⟩
  · exact run.advances
  · exact run.advances.trans (nextInsert_advances failed)

end Action

theorem Releases.onward {writer : Writer} {s after : State} {queueing : Queueing} (releases : Releases writer s queueing)
    {bound : Nat} {answer : Except Error Nat} (enough : s.actions.pendingInserts ≤ bound)
    (ran : (runInserts writer bound).exec s = (answer, after)) {h : Handle} (known : queueing.moment.Established h) :
    after.Established h := by
  -- along the rows up to the one that releases it; what is left of the bound covers what is left in the queue
  induction releases generalizing bound answer with
  | @now s row insert rest queueing next wrote released =>
    have remaining := pendingInserts_taking next
    obtain ⟨bound, rfl⟩ : ∃ fewer, bound = fewer + 1 := ⟨bound - 1, by omega⟩
    have moved := ReleasedBy.requeues released
    have recorded : row.Established h := known.congr (moved.entry_eq h).symm
    rcases runInserts_step next ran with ⟨e, failed⟩ | ⟨middle, answer, done, others⟩
    · exact recorded.congr ((executeInsert_requeues wrote failed).entry_eq h)
    · have decreases := executeInsert_decreases next done
      have later : middle.Established h := recorded.congr ((executeInsert_requeues wrote done).entry_eq h)
      exact (runInserts_advances (by omega) others).established h later
  | @later s middle insert rest queueing next wrote releases ih =>
    have remaining := pendingInserts_taking next
    obtain ⟨bound, rfl⟩ : ∃ fewer, bound = fewer + 1 := ⟨bound - 1, by omega⟩
    rcases runInserts_step next ran with ⟨e, failed⟩ | ⟨other, answer, done, others⟩
    · rw [wrote] at failed
      cases failed
    · rw [wrote] at done
      cases done
      have decreases := executeInsert_decreases next wrote
      exact ih (by omega) others known

namespace Action
variable {writer : Writer} {s after : State}

theorem flush_unfinished {answer : Except Error FlushResult} (ran : (flush writer).exec s = (answer, after))
    (due : after.actions.inserts ≠ []) :
    Advances s after ∧ ∀ ready, (takeReady >>= queueReleased).exec s = (.ok (), ready) →
      ∃ answer, (runInserts writer ready.actions.pendingInserts).exec ready = (answer, after) := by
  cases flush_cases ran with
  | unqueued failed =>
    refine ⟨queueReady_advances failed, fun ready began => ?_⟩
    rw [began] at failed
    cases failed
  | @stopped e ready middle after written rest insert began run next failed =>
    refine ⟨?_, fun other again => ?_⟩
    · exact ((queueReady_advances began).trans run.advances).trans (nextInsert_advances failed)
    · rw [began] at again
      cases again
      exact ⟨_, run.exec_error next failed _ (Nat.le_refl _)⟩
  | blocked began run drained waiting => exact absurd drained due
  | @undeleted e ready middle last after written gone rest delete began run drained free scheduled deleted failed =>
    rw [executeDelete_actions failed, deleted.actions] at due
    exact absurd drained due
  | done began run drained free deleted =>
    rw [deleted.actions] at due
    exact absurd drained due

end Action

namespace Ledger
variable {s after : State} {h : Handle}

theorem delete_established {x : Handle} {answer : Except Error Unit} (ledger : Ledger s)
    (ran : (Action.delete x).exec s = (answer, after)) (known : s.Established h) : after.Established h := by
  cases delete_cases ran with
  | refused => exact known
  | gone => exact known
  | canceled pending =>
    have other : x ≠ h := by
      rintro rfl
      exact ledger.saving x ((ActionQueue.hasInsert_iff _ x).mp pending) known
    refine known.congr ?_
    change Context.entry? (s.context.removeEntry x) h = _
    rw [Context.entry?_removeEntry, if_neg other]
  | @scheduled entry key d idle tracked keyed =>
    obtain ⟨mine, here, unsaved⟩ := known
    unfold State.Established
    change ∃ entry, Context.entry? ((s.context.setStatus x .deleted).markNullifiable key) h = some entry ∧ _
    rw [Context.entry?_scheduled, here]
    split
    · exact ⟨_, rfl, nofun⟩
    · exact ⟨mine, rfl, unsaved⟩

theorem established {move : Move} (ledger : Ledger s) (plain : move.Plain)
    (due : (move.perform s).actions.inserts ≠ []) (known : s.Established h) : (move.perform s).Established h := by
  cases move with
  | save x early => exact known.congr (save_entries rfl known.tracked)
  | delete x => exact ledger.delete_established rfl known
  | flush writer =>
    rcases ran : (Action.flush writer).exec s with ⟨answer, after⟩
    rw [Move.flush_perform ran] at due ⊢
    exact (flush_unfinished ran due).1.established h known
  | _ => cases plain

end Ledger

theorem Awaits.first {insert : Insert} {start s : State} {moves : List Move} (awaits : Awaits insert start moves s) :
    insert ∈ start.actions.inserts := by
  induction awaits with
  | start due => exact due
  | step _ _ _ ih => exact ih

theorem Awaits.established {insert : Insert} {start s : State} {moves : List Move} (awaits : Awaits insert start moves s)
    (sound : start.Sound) (ledger : Ledger start) (plain : ∀ move ∈ moves, move.Plain) {h : Handle}
    (known : start.Established h) : s.Sound ∧ Ledger s ∧ s.Established h := by
  induction awaits with
  | start => exact ⟨sound, ledger, known⟩
  | @step moves s move awaits allowed due ih =>
    obtain ⟨sound, ledger, known⟩ := ih fun move member => plain move (List.mem_append_left _ member)
    have plainly := plain move (List.mem_append_right _ (List.mem_singleton_self _))
    exact ⟨move.perform_sound sound allowed, ledger.step sound plainly,
      ledger.established plainly (List.ne_nil_of_mem due) known⟩

theorem Move.Queues.onward {s : State} {move : Move} {queueing : Queueing} (queues : move.Queues s queueing)
    (ledger : Ledger s) (plain : move.Plain) (due : (move.perform s).actions.inserts ≠ []) {h : Handle}
    (known : queueing.moment.Established h) : (move.perform s).Established h := by
  cases queues with
  | @saved early d key context queueing unknown mapped added free _ _ _ =>
    have adds := Context.addEntity_ok added
    have entries : queueing.moment.context.entry? h =
        if queueing.insert.handle = h then some (.saved d key) else s.context.entry? h := by
      rw [(Requeues.of_asks ((dependencies_asks _ _ _ _ _).of_exec free)).entry_eq]
      exact adds.entry? h
    split at entries
    next =>
      obtain ⟨entry, tracked, unsaved⟩ := known
      rw [entries] at tracked
      cases tracked
      exact absurd rfl unsaved
    next => exact ledger.established plain due (known.congr entries.symm)
  | ready released =>
    have moved : Requeues s queueing.moment := (Requeues.mapActions s rfl).trans (Released.requeues released)
    exact ledger.established plain due (known.congr (moved.entry_eq h).symm)
  | @released writer ready queueing began releases =>
    rcases ran : (Action.flush writer).exec s with ⟨answer, after⟩
    rw [Move.flush_perform ran] at due ⊢
    obtain ⟨answer, looped⟩ := (flush_unfinished ran due).2 ready began
    exact releases.onward (Nat.le_refl _) looped known

theorem Origin.established {start s : State} {moves : List Move} {queueing : Queueing}
    (origin : Origin start moves s queueing) (blank : start.Blank) (plain : ∀ move ∈ moves, move.Plain) {h : Handle}
    (known : queueing.moment.Established h) : s.Established h := by
  obtain ⟨earlier, before, move, later, rfl, run, allowed, queues, awaits⟩ := origin
  have ledger := run.ledger blank fun move member => plain move (List.mem_append_left _ member)
  have sound := run.sound blank.toFresh.sound
  have plainly := plain move (List.mem_append_right _ List.mem_cons_self)
  have onward := queues.onward ledger plainly (List.ne_nil_of_mem awaits.first) known
  exact (awaits.established (move.perform_sound sound allowed) (ledger.step sound plainly)
    (fun move member => plain move (List.mem_append_right _ (List.mem_cons_of_mem _ member))) onward).2.2

/-- Why a reference is written to an instance that a flush leaves without a row. -/
inductive Dangles (s : State) (queueing : Queueing) (t : Handle) : Prop where
  /-- It was scheduled for deletion after the insert had been queued. -/
  | late (scheduled : t ∈ s.actions.deletes.map (·.handle))
      (unscheduled : t ∉ queueing.moment.actions.deletes.map (·.handle)) : Dangles s queueing t
  /-- An early insert does not ask what is going to be deleted. -/
  | early (early : queueing.early = true) (scheduled : t ∈ s.actions.deletes.map (·.handle)) : Dangles s queueing t
  /-- It had been inserted and deleted by then, and was taken for a row because of its identifier. -/
  | forgotten (untracked : s.context.entry? t = none) (unknown : queueing.moment.context.entry? t = none)
      (inserted : t ∈ queueing.moment.session.journal.filterMap Call.inserted?) : Dangles s queueing t

/-- What a flush writes was queued by a move of the session, and what had a row then is tracked when the flush starts. -/
theorem Queueing.source {start s : State} {moves : List Move} {writer : Writer} {queueing : Queueing}
    (blank : start.Blank) (run : Run start moves s) (plain : ∀ move ∈ moves, move.Plain)
    (origin : Origin start moves s queueing ∨ (Move.flush writer).Queues s queueing) :
    ∃ before, ∃ move : Move, before.Sound ∧ Ledger before ∧ move.Allowed before ∧ move.Queues before queueing ∧
      ∀ h, queueing.moment.Established h → s.context.entry? h ≠ none := by
  rcases origin with origin | queues
  · have lasting (h : Handle) (known : queueing.moment.Established h) := (origin.established blank plain known).tracked
    obtain ⟨earlier, before, move, later, rfl, run, allowed, queues, -⟩ := origin
    have ledger := run.ledger blank fun move member => plain move (List.mem_append_left _ member)
    exact ⟨before, move, run.sound blank.toFresh.sound, ledger, allowed, queues, lasting⟩
  · have sound := run.sound blank.toFresh.sound
    refine ⟨s, .flush writer, sound, run.ledger blank plain, trivial, queues, fun h known => ?_⟩
    obtain ⟨base, -, -, moved, advances⟩ := queues.base sound trivial
    have tracked := known.tracked
    rwa [moved.entry_eq, Ne, (advances writer rfl).tracked] at tracked

theorem Move.Queues.dangles {before s : State} {move : Move} {queueing : Queueing} {t : Handle}
    (queues : move.Queues before queueing) (sound : before.Sound) (ledger : Ledger before)
    (allowed : move.Allowed before) (lasting : ∀ h, queueing.moment.Established h → s.context.entry? h ≠ none)
    {leaf : Leaf} (member : leaf ∈ queueing.written) (reference : leaf.value = .reference (.loaded t))
    (other : t ≠ queueing.insert.handle)
    (gone : s.context.entry? t = none ∨ t ∈ s.actions.deletes.map (·.handle)) : Dangles s queueing t := by
  have continues := queues.continues sound allowed
  have quiet := continues.interceptor.trans ledger.interceptor
  -- what is to be deleted is still tracked then, under a key that references must not be written to
  have tracks (scheduled : t ∈ queueing.moment.actions.deletes.map (·.handle)) :
      ∃ entry, queueing.moment.context.entry? t = some entry ∧
        entry.key.any queueing.moment.context.isNullifiableKey = true := by
    obtain ⟨delete, here, rfl⟩ := List.mem_map.mp scheduled
    exact queues.scheduled sound allowed ledger here
  rcases queueing.kept quiet member reference other with ⟨entry, tracked, row⟩ | ⟨untracked, identified⟩
  · have unsaved : entry.status ≠ .saving := by
      intro saving
      rw [Context.isNullifiable, if_pos saving] at row
      cases row
    rcases gone with untracked | scheduled
    · exact absurd untracked (lasting t ⟨entry, tracked, unsaved⟩)
    · by_cases before_ : t ∈ queueing.moment.actions.deletes.map (·.handle)
      · refine .early ?_ scheduled
        obtain ⟨_, same, marked⟩ := tracks before_
        rw [tracked] at same
        cases same
        cases early : queueing.early with
        | true => rfl
        | false =>
          rw [Context.isNullifiable, if_neg unsaved, early, marked] at row
          cases row
      · exact .late scheduled before_
  · rcases gone with gone | scheduled
    · exact .forgotten gone untracked (continues.known ledger.identified t identified)
    · refine .late scheduled fun before_ => ?_
      obtain ⟨_, tracked, _⟩ := tracks before_
      rw [untracked] at tracked
      cases tracked

theorem Dangles.gone {s : State} {queueing : Queueing} {t : Handle} (dangles : Dangles s queueing t) :
    s.context.entry? t = none ∨ t ∈ s.actions.deletes.map (·.handle) := by
  cases dangles with
  | late scheduled _ => exact .inr scheduled
  | early _ scheduled => exact .inr scheduled
  | forgotten untracked _ _ => exact .inl untracked

/-- In a session that saves, deletes and flushes new instances with writers that fail at nothing, a flush that
succeeds leaves a reference that it has written without a row in exactly three cases: its target was scheduled for
deletion after the insert had been queued, or before an early one, or had been deleted by an earlier flush. -/
theorem written_reference_dangles_iff {start s after : State} {moves : List Move} {writer : Writer} {result : FlushResult}
    (blank : start.Blank) (run : Run start moves s) (plain : ∀ move ∈ moves, move.Plain) (reliable : writer.Reliable)
    (ran : (flush writer).exec s = (.ok result, after)) :
    ∃ calls, after.session.journal = s.session.journal ++ calls ∧
      ∀ h entity id state, .insert h entity id state ∈ calls →
        ∃ queueing : Queueing, queueing.insert.handle = h ∧ queueing.insert.descriptor.name = entity ∧
          queueing.insert.state = state ∧ s.Maps queueing.insert.descriptor ∧
          (Origin start moves s queueing ∨ (Move.flush writer).Queues s queueing) ∧
          ∀ leaf ∈ queueing.written, ∀ t, leaf.value = .reference (.loaded t) →
            (after.hasRow t = false ↔ Dangles s queueing t) := by
  have sound := run.sound blank.toFresh.sound
  have rows := (run.ledger blank plain).flush_rows sound reliable ran
  have described := run.described blank.toFresh plain
  have none_ : start.actions.inserts = [] := by rw [blank.actions]
  have rowless (t : Handle) : after.hasRow t = false ↔
      s.context.entry? t = none ∨ t ∈ s.actions.deletes.map (·.handle) := by
    rw [← Bool.not_eq_true, rows, Classical.not_and_iff_not_or_not, Classical.not_not, Classical.not_not]
  obtain ⟨inserts, ⟨calls, extended, passed⟩, queued⟩ := flush_passes ran
  obtain ⟨calls', extended', -, once⟩ := (Move.Performs.flushed ran).inserts sound
  obtain rfl : calls' = calls := List.append_cancel_left (extended'.symm.trans extended)
  refine ⟨calls', extended, fun h entity id state member => ?_⟩
  have due : h ∈ s.actions.pending := (once h (List.mem_filterMap.mpr ⟨_, member, rfl⟩)).1
  obtain ⟨insert, here, rfl, name, same⟩ := passed h entity id state member
  have sourced : ∃ queueing : Queueing, queueing.insert = insert ∧ s.Maps insert.descriptor ∧
      (Origin start moves s queueing ∨ (Move.flush writer).Queues s queueing) := by
    rcases queued insert here with old | ⟨queueing, rfl, queues⟩
    · obtain ⟨queueing, rfl, origin⟩ := run.origin blank.toFresh.sound none_ insert old
      exact ⟨queueing, rfl, described.inserts _ old, .inl origin⟩
    · exact ⟨queueing, rfl, queues.described described, .inr queues⟩
  obtain ⟨queueing, rfl, maps, origin⟩ := sourced
  refine ⟨queueing, rfl, name, same, maps, origin, fun leaf written t reference => ?_⟩
  rw [rowless]
  refine ⟨fun gone => ?_, Dangles.gone⟩
  obtain ⟨before, move, sound', ledger, allowed, queues, lasting⟩ := Queueing.source blank run plain origin
  refine queues.dangles sound' ledger allowed lasting written reference ?_ gone
  -- a reference to the inserted instance itself is to a row that this flush writes and does not delete
  rintro rfl
  rcases gone with untracked | scheduled
  · exact sound.tracked (.inl due) untracked
  · obtain ⟨delete, there, same⟩ := List.mem_map.mp scheduled
    exact sound.separate delete there (same ▸ due)

namespace Sample

def visit : Descriptor where
  name := "Visit"
  identifier := { name := "id" }
  attributes := [.manyToOne "customer" "Customer"]

def newVisit (customer : Handle) : Instance := { entity := "Visit", values := [.reference (.loaded customer)] }

/-- A customer and its visit. -/
def visited : State where
  heap := ⟨#[newCustomer, newVisit ⟨0⟩]⟩
  shared := {}
  session := { factory := { metamodel := ⟨[customer, visit]⟩ } }

theorem visited_blank : visited.Blank where
  toFresh := ⟨rfl, rfl, rfl⟩
  journal := rfl
  interceptor := rfl
  unidentified h := by
    obtain ⟨index⟩ := h
    match index with
    | 0 | 1 | _ + 2 => rfl

theorem writer_reliable : writer.Reliable := ⟨fun _ _ _ _ => ⟨_, rfl⟩, fun _ _ _ => rfl⟩

/-- The customer is deleted when its visit has been saved. -/
def forgetful : List Move := [.save ⟨0⟩ false, .flush writer, .save ⟨1⟩ false, .delete ⟨0⟩]

/-- The customer is deleted before its visit is saved. -/
def careful : List Move := [.save ⟨0⟩ false, .flush writer, .delete ⟨0⟩, .save ⟨1⟩ false]

def forgetfulState : State := forgetful.foldl (fun s move => move.perform s) visited

def carefulState : State := careful.foldl (fun s move => move.perform s) visited

theorem visited_created {s : State} (two : s.heap.size = 2) (h : Nat) (inside : h < 2) : (⟨h⟩ : Handle) ∈ s.heap :=
  Nat.lt_of_lt_of_eq inside two.symm

theorem forgetful_run : Run visited forgetful forgetfulState :=
  (Run.start : Run visited [] _)
    |>.extend (.save ⟨0⟩ false) (visited_created rfl 0 (by decide))
    |>.extend (.flush writer) trivial
    |>.extend (.save ⟨1⟩ false) (visited_created rfl 1 (by decide))
    |>.extend (.delete ⟨0⟩) trivial

theorem careful_run : Run visited careful carefulState :=
  (Run.start : Run visited [] _)
    |>.extend (.save ⟨0⟩ false) (visited_created rfl 0 (by decide))
    |>.extend (.flush writer) trivial
    |>.extend (.delete ⟨0⟩) trivial
    |>.extend (.save ⟨1⟩ false) (visited_created rfl 1 (by decide))

theorem forgetful_plain : ∀ move ∈ forgetful, move.Plain := by simp [forgetful, Move.Plain, writer_reliable]

theorem careful_plain : ∀ move ∈ careful, move.Plain := by simp [careful, Move.Plain, writer_reliable]

def visitCalls (customer : AttributeValue) : Journal :=
  [.insert ⟨1⟩ "Visit" none [customer], .delete ⟨0⟩ "Customer" (.ofColumns [.bool true])]

theorem forgetful_flush : ∃ after, (flush writer).exec forgetfulState = (.ok { inserted := 1, deleted := 1 }, after) ∧
    after.session.journal = forgetfulState.session.journal ++ visitCalls (.reference (.loaded ⟨0⟩)) ∧
    after.hasRow ⟨0⟩ = false := ⟨_, exec_of_toOption (by decide +kernel), rfl, rfl⟩

theorem careful_flush : ∃ after, (flush writer).exec carefulState = (.ok { inserted := 1, deleted := 1 }, after) ∧
    after.session.journal = carefulState.session.journal ++ visitCalls .null :=
  ⟨_, exec_of_toOption (by decide +kernel), rfl⟩

end Sample

open Sample in
/-- The visit refers to the customer, which was scheduled for deletion after it had been queued. -/
theorem written_reference_dangles_iff_visited : ∃ after queueing leaf, Run visited forgetful forgetfulState ∧
    (flush writer).exec forgetfulState = (.ok { inserted := 1, deleted := 1 }, after) ∧
    queueing.insert.handle = ⟨1⟩ ∧
    (Origin visited forgetful forgetfulState queueing ∨ (Move.flush writer).Queues forgetfulState queueing) ∧
    leaf ∈ queueing.written ∧ leaf.value = .reference (.loaded ⟨0⟩) ∧ after.hasRow ⟨0⟩ = false ∧
    Dangles forgetfulState queueing ⟨0⟩ := by
  obtain ⟨after, ran, journal, gone⟩ := forgetful_flush
  obtain ⟨calls, extended, traced⟩ :=
    written_reference_dangles_iff visited_blank forgetful_run forgetful_plain writer_reliable ran
  obtain rfl := List.append_cancel_left (extended.symm.trans journal)
  obtain ⟨queueing, handle, name, state, maps, origin, dangles⟩ := traced _ _ _ _ List.mem_cons_self
  have descriptor : queueing.insert.descriptor = visit := by
    rw [State.Maps, name] at maps
    exact (Except.ok.inj maps).symm
  have written : queueing.written = Leaf.among "" visit.attributes [.reference (.loaded ⟨0⟩)] := by
    rw [Queueing.written, Queueing.attributes, descriptor, state]
  obtain ⟨leaf, member, reference⟩ : ∃ leaf ∈ queueing.written, leaf.value = .reference (.loaded ⟨0⟩) := by
    rw [written]
    exact ⟨_, List.mem_cons_self, rfl⟩
  exact ⟨after, queueing, leaf, forgetful_run, ran, handle, origin, member, reference, gone,
    (dangles leaf member _ reference).mp gone⟩

open Sample in
/-- Whether the visit is written with its customer, whose row the same flush deletes, is up to which was first, the
save of the visit or the delete of the customer. -/
theorem deleted_customer_is_referred_to : visited.Blank ∧ writer.Numbers ∧ writer.Reliable ∧
    (∀ move ∈ forgetful ++ careful, move.Plain) ∧ Run visited forgetful forgetfulState ∧
    Run visited careful carefulState ∧
    (∃ after, (flush writer).exec forgetfulState = (.ok { inserted := 1, deleted := 1 }, after) ∧
      after.session.journal = forgetfulState.session.journal ++ visitCalls (.reference (.loaded ⟨0⟩)) ∧
      after.hasRow ⟨0⟩ = false) ∧
    ∃ after, (flush writer).exec carefulState = (.ok { inserted := 1, deleted := 1 }, after) ∧
      after.session.journal = carefulState.session.journal ++ visitCalls .null := by
  refine ⟨visited_blank, writer_numbers, writer_reliable, fun move member => ?_, forgetful_run, careful_run,
    forgetful_flush, careful_flush⟩
  exact (List.mem_append.mp member).elim (forgetful_plain move) (careful_plain move)

end UnitOfWork
