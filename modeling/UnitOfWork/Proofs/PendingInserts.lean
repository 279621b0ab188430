import UnitOfWork.Proofs.Asking
import UnitOfWork.Session.Flush

/-! Inserts that have not been written stand in the queue or wait in the parking lot. Releasing them moves
them from one to the other, and parks them again when they cannot be queued; none is lost or doubled on
the way. -/

namespace UnitOfWork

theorem ParkedInsert.isReady_eq_false {insert : ParkedInsert} (blocked : insert.dependencies ≠ []) :
    insert.isReady = false := by
  rw [isReady, List.isEmpty_eq_false_iff]
  exact blocked

namespace ActionQueue
variable (queue : ActionQueue)

/-- The instances whose inserts have not been written. -/
def pending : List Handle := queue.inserts.map (·.handle) ++ queue.parked.map (·.handle)

theorem length_pending : queue.pending.length = queue.pendingInserts := by
  simp [pending, pendingInserts]

theorem hasInsert_iff (h : Handle) : queue.hasInsert h = true ↔ h ∈ queue.pending := by
  simp [hasInsert, pending]

theorem pending_cancelInsert (h : Handle) : (queue.cancelInsert h).pending = queue.pending.filter (· ≠ h) := by
  simp only [pending, cancelInsert, List.filter_append, List.filter_map, Function.comp_def]

theorem pending_park (inserts : List ParkedInsert) :
    (queue.park inserts).pending = queue.pending ++ inserts.map (·.handle) := by
  simp [pending, park]

theorem pending_release (h : Handle) :
    ((queue.release h).1.map (·.handle) ++ (queue.release h).2.pending).Perm queue.pending := by
  have resolved : (fun insert : ParkedInsert => (insert.resolve h).handle) = (·.handle) := rfl
  have parted := (List.filter_append_perm (·.isReleasedBy h) queue.parked).map (·.handle)
  simp only [pending, release, List.map_map, Function.comp_def, resolved]
  rw [← List.append_assoc]
  refine (List.Perm.append_right _ List.perm_append_comm).trans ?_
  rw [List.append_assoc, ← List.map_append]
  exact parted.append_left _

theorem pending_takeReady :
    (queue.takeReady.1.map (·.handle) ++ queue.takeReady.2.pending).Perm queue.pending := by
  have parted := (List.filter_append_perm ParkedInsert.isReady queue.parked).map (·.handle)
  simp only [pending, takeReady]
  rw [← List.append_assoc]
  refine (List.Perm.append_right _ List.perm_append_comm).trans ?_
  rw [List.append_assoc, ← List.map_append]
  exact parted.append_left _

end ActionQueue

/-- Nothing but the pending inserts changes, apart from what asking changes. -/
inductive Requeues (before : State) : State → Prop where
  | intro {middle : State} (asks : Asks before middle) (inserts : List Insert) (parked : List ParkedInsert) :
      Requeues before (middle.mapActions fun queue => { queue with inserts, parked })

namespace Requeues
variable {before after : State}

theorem of_asks (asks : Asks before after) : Requeues before after :=
  .intro asks after.actions.inserts after.actions.parked

theorem refl (s : State) : Requeues s s := .of_asks (.refl s)

theorem trans {a b c : State} (first : Requeues a b) (second : Requeues b c) : Requeues a c := by
  obtain ⟨early, inserts, parked⟩ := first
  obtain ⟨late, inserts', parked'⟩ := second
  obtain ⟨calls, rows, statistics, reads, remembers, learns⟩ := late
  exact .intro (early.trans (.intro calls rows statistics reads remembers learns)) inserts' parked'

theorem mapActions (s : State) {change : ActionQueue → ActionQueue}
    (same : (change s.actions).deletes = s.actions.deletes) : Requeues s (s.mapActions change) := by
  have moved := Requeues.intro (AsksBy.refl s) (change s.actions).inserts (change s.actions).parked
  rw [State.mapActions, State.mapSession] at moved ⊢
  change (change s.session.actions).deletes = s.session.actions.deletes at same
  rw [← same] at moved
  exact moved

theorem heap (moved : Requeues before after) : after.heap = before.heap := by
  obtain ⟨⟨⟩, _, _⟩ := moved
  rfl

theorem entries (moved : Requeues before after) : after.context.entries = before.context.entries := by
  obtain ⟨⟨⟩, _, _⟩ := moved
  rfl

theorem entities (moved : Requeues before after) : after.context.entities = before.context.entities := by
  obtain ⟨⟨⟩, _, _⟩ := moved
  rfl

theorem entry_eq (moved : Requeues before after) (h : Handle) : after.context.entry? h = before.context.entry? h := by
  unfold Context.entry?
  rw [moved.entries]

theorem deletes (moved : Requeues before after) : after.actions.deletes = before.actions.deletes := by
  obtain ⟨⟨⟩, _, _⟩ := moved
  rfl

theorem journal (moved : Requeues before after) :
    ∃ reads, after.session.journal = before.session.journal ++ reads ∧ ∀ call ∈ reads, call.isWrite = false := by
  obtain ⟨⟨calls, _, _, reads, _⟩, _, _⟩ := moved
  exact ⟨calls, rfl, fun call member => Call.isWrite_of_isQuestion (reads call member)⟩

end Requeues

namespace Action
variable {h : Handle} {d : Descriptor} {early : Bool} {s after : State}

theorem queueInsert_ok (ran : (queueInsert h d early).exec s = (.ok (), after)) :
    ∃ state asked,
      (Nullifier.nullifyAll ⟨some h, false, early⟩ d.attributes (s.heap.values h)).exec s = (.ok state, asked) ∧
      after = asked.mapActions fun queue =>
        { queue with inserts := queue.inserts ++ [{ handle := h, descriptor := d, state }] } := by
  unfold queueInsert at ran
  rw [exec_get_bind] at ran
  obtain ⟨state, asked, nulled, queued⟩ := bind_ok ran
  cases queued
  exact ⟨state, asked, nulled, rfl⟩

theorem queueInsert_error {e : Error} (ran : (queueInsert h d early).exec s = (.error e, after)) :
    (Nullifier.nullifyAll ⟨some h, false, early⟩ d.attributes (s.heap.values h)).exec s = (.error e, after) := by
  unfold queueInsert at ran
  rw [exec_get_bind] at ran
  rcases bind_error ran with failed | ⟨state, asked, nulled, queued⟩
  · exact failed
  · cases queued

/-- What an attempt to queue an insert leaves: the queue grows by it, or nothing happens to the queue. -/
theorem queueInsert_pending {answer : Except Error Unit} (ran : (queueInsert h d early).exec s = (answer, after)) :
    Requeues s after ∧
      ((∃ e, answer = .error e ∧ after.actions = s.actions) ∨
        answer = .ok () ∧ after.actions.pending.Perm (h :: s.actions.pending)) := by
  have asking := Nullifier.nullifyAll_asks ⟨some h, false, early⟩ d.attributes (s.heap.values h) s
  cases answer with
  | error e =>
    have asks := asking.of_exec (queueInsert_error ran)
    exact ⟨.of_asks asks, .inl ⟨e, rfl, asks.actions⟩⟩
  | ok answer =>
    obtain ⟨state, asked, nulled, rfl⟩ := queueInsert_ok ran
    have asks := asking.of_exec nulled
    refine ⟨(Requeues.of_asks asks).trans (.mapActions asked rfl), .inr ⟨rfl, ?_⟩⟩
    obtain ⟨⟩ := asks
    simp only [State.asking, State.actions, State.mapActions, State.mapSession, ActionQueue.pending,
      List.map_append, List.map_cons, List.map_nil, List.append_assoc, List.singleton_append]
    exact List.perm_middle

/-- Released inserts are pending afterwards, all of them, whether they could be queued or not. -/
theorem queueReleased_pending {answer : Except Error Unit} : ∀ (released : List ParkedInsert) (s : State),
    (queueReleased released).exec s = (answer, after) →
      Requeues s after ∧ after.actions.pending.Perm (released.map (·.handle) ++ s.actions.pending)
  | [], s, ran => by
    cases ran
    exact ⟨.refl _, .refl _⟩
  | insert :: rest, s, ran => by
    have parked (e : Error) (s : State) : ((do
        modify fun s => s.mapActions fun queue => queue.park (insert :: rest)
        throw e : Action Unit)).exec s =
          (.error e, s.mapActions fun queue => queue.park (insert :: rest)) := rfl
    unfold queueReleased at ran
    rw [exec_bind, exec_tryCatch] at ran
    rcases tried : (queueInsert insert.handle insert.descriptor insert.early).exec s with ⟨e | _, middle⟩
    · rw [tried] at ran
      dsimp only at ran
      rw [parked] at ran
      cases ran
      obtain ⟨moved, ⟨_, _, same⟩ | ⟨wrong, _⟩⟩ := queueInsert_pending tried
      · refine ⟨moved.trans (.mapActions middle rfl), ?_⟩
        rw [show (middle.mapActions _).actions = middle.actions.park (insert :: rest) from rfl, same,
          ActionQueue.pending_park]
        exact List.perm_append_comm
      · cases wrong
    · rw [tried] at ran
      obtain ⟨moved, ⟨_, wrong, _⟩ | ⟨_, queued⟩⟩ := queueInsert_pending tried
      · cases wrong
      · obtain ⟨others, conserved⟩ := queueReleased_pending rest middle ran
        refine ⟨moved.trans others, conserved.trans ?_⟩
        exact (queued.append_left _).trans List.perm_middle

theorem releaseParked_exec (h : Handle) (s : State) : (releaseParked h).exec s =
    (queueReleased (s.actions.release h).1).exec (s.mapActions fun _ => (s.actions.release h).2) := rfl

theorem releaseParked_pending {answer : Except Error Unit} (ran : (releaseParked h).exec s = (answer, after)) :
    Requeues s after ∧ after.actions.pending.Perm s.actions.pending := by
  rw [releaseParked_exec] at ran
  obtain ⟨moved, conserved⟩ := queueReleased_pending _ _ ran
  exact ⟨(Requeues.mapActions s rfl).trans moved, conserved.trans (ActionQueue.pending_release _ h)⟩

theorem takeReady_exec (s : State) :
    takeReady.exec s = (.ok s.actions.takeReady.1, s.mapActions fun _ => s.actions.takeReady.2) := rfl

/-- Inserts that waited for nothing are pending again, all of them. -/
theorem queueReady_pending {answer : Except Error Unit} (ran : (takeReady >>= queueReleased).exec s = (answer, after)) :
    Requeues s after ∧ after.actions.pending.Perm s.actions.pending := by
  rw [exec_bind_ok _ (takeReady_exec s)] at ran
  obtain ⟨moved, conserved⟩ := queueReleased_pending _ _ ran
  exact ⟨(Requeues.mapActions s rfl).trans moved, conserved.trans (ActionQueue.pending_takeReady _)⟩

end Action

end UnitOfWork
