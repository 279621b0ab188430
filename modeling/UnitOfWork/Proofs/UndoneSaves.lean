import UnitOfWork.Proofs.FlushConservation

/-! Saving an instance that is not tracked tracks it and schedules its insert, and both can be taken back. A
save that fails takes back the first itself; a delete right after a save that succeeds takes back both. Either
way the session is where it was, up to what it has asked for on the way. -/

namespace UnitOfWork
open UnitOfWork.Action

theorem Registry.erase_insert {κ α : Type} [BEq κ] [ReflBEq κ] {r : Registry κ α} {key : κ}
    (absent : r.contains key = false) (value : α) : (r.insert key value).erase key = r := by
  have others : r.entries.filter (fun entry => !(entry.1 == key)) = r.entries := by
    refine List.filter_eq_self.mpr fun entry member => ?_
    simp only [contains, List.any_eq_false] at absent
    simpa using absent entry member
  unfold insert
  rw [dif_pos absent]
  simp only [erase, List.filter_append, others, List.filter_cons, BEq.rfl, Bool.not_true, Bool.false_eq_true,
    if_false, List.filter_nil, List.append_nil]

namespace Context
variable {context after : Context} {h : Handle}

theorem entities_unclaimed {key : EntityKey} (coherent : context.Coherent) (untracked : context.entry? h = none)
    (claimed : context.claim h key = .ok after) :
    context.entities.contains key = false ∧ after = { context with entities := context.entities.insert key h } := by
  rcases claim_ok claimed with ⟨standing, -⟩ | ⟨unclaimed, same⟩
  · obtain ⟨entry, tracked⟩ := coherent.tracked standing
    rw [untracked] at tracked
    cases tracked
  · rw [Registry.contains_eq_isSome]
    exact ⟨Option.isSome_eq_false_iff.mpr (Option.isNone_iff_eq_none.mpr unclaimed), same⟩

theorem removeEntry_addEntity {entry : Entry} (coherent : context.Coherent) (untracked : context.entry? h = none)
    (added : context.addEntity h entry = .ok after) (rows : Registry EntityKey (Option (List Value))) :
    Context.removeEntry { after with databaseSnapshots := rows } h = { context with databaseSnapshots := rows } := by
  have absent : context.entries.contains h = false := (isTracked_eq context h).trans (by rw [untracked]; rfl)
  have adds := addEntity_ok added
  have tracked : after.entry? h = some entry := by rw [adds.entry?, if_pos rfl]
  have found : Context.entry? { after with databaseSnapshots := rows } h = some entry := tracked
  unfold removeEntry
  rw [found]
  unfold addEntity at added
  cases keyed : entry.key with
  | none =>
    rw [keyed] at added
    cases added
    simp only [keyed, Registry.erase_insert absent]
  | some key =>
    rw [keyed] at added
    dsimp only at added
    cases claimed : context.claim h key with
    | error e => rw [claimed] at added; cases added
    | ok middle =>
      rw [claimed] at added
      cases added
      obtain ⟨free, rfl⟩ := entities_unclaimed coherent untracked claimed
      simp only [keyed, Registry.erase_insert absent, Registry.erase_insert free]

end Context

namespace ActionQueue
variable {queue : ActionQueue} {h : Handle}

theorem cancelInsert_idle (idle : h ∉ queue.pending) : queue.cancelInsert h = queue := by
  rw [pending, List.mem_append, not_or] at idle
  obtain ⟨unqueued, unparked⟩ := idle
  have inserts : queue.inserts.filter (fun insert => insert.handle ≠ h) = queue.inserts :=
    List.filter_eq_self.mpr fun insert member => decide_eq_true fun same => unqueued (same ▸ List.mem_map_of_mem member)
  have parked : queue.parked.filter (fun insert => insert.handle ≠ h) = queue.parked :=
    List.filter_eq_self.mpr fun insert member => decide_eq_true fun same => unparked (same ▸ List.mem_map_of_mem member)
  rw [cancelInsert, inserts, parked]

theorem cancelInsert_queued (idle : h ∉ queue.pending) (d : Descriptor) (state : List AttributeValue) :
    ActionQueue.cancelInsert { queue with inserts := queue.inserts ++ [⟨h, d, state⟩] } h = queue := by
  have unchanged := cancelInsert_idle idle
  simp only [cancelInsert, List.filter_append, List.filter_cons, decide_not, decide_true, Bool.not_true,
    Bool.false_eq_true, if_false, List.filter_nil, List.append_nil] at unchanged ⊢
  exact unchanged

theorem cancelInsert_parked (idle : h ∉ queue.pending) (d : Descriptor) (early : Bool) (waits : List Dependency) :
    (queue.park [⟨h, d, early, waits⟩]).cancelInsert h = queue := by
  have unchanged := cancelInsert_idle idle
  simp only [park, cancelInsert, List.filter_append, List.filter_cons, decide_not, decide_true, Bool.not_true,
    Bool.false_eq_true, if_false, List.filter_nil, List.append_nil] at unchanged ⊢
  exact unchanged

end ActionQueue

theorem State.mapActions_restored {s : State} {change undo : ActionQueue → ActionQueue}
    (restored : undo (change s.actions) = s.actions) : (s.mapActions change).mapActions undo = s := by
  change { s with session := { s.session with actions := undo (change s.actions) } } = s
  rw [restored]
  rfl

/-- What was asked after an instance was tracked might as well have been asked before. -/
theorem Asks.forgetting {s middle : State} {h : Handle} {entry : Entry} {context : Context}
    (coherent : s.context.Coherent) (untracked : s.context.entry? h = none)
    (added : s.context.addEntity h entry = .ok context) (asks : Asks (s.mapContext fun _ => context) middle) :
    Asks s (middle.mapContext fun context => context.removeEntry h) := by
  have snapshots := (Context.addEntity_ok added).databaseSnapshots
  have known (key : EntityKey) : context.databaseSnapshot? key = s.context.databaseSnapshot? key := by
    unfold Context.databaseSnapshot?
    rw [snapshots]
  obtain ⟨calls, rows, statistics, reads, remembers, learns⟩ := asks
  have forgotten : ((s.mapContext fun _ => context).asking calls rows statistics).mapContext
      (fun context => context.removeEntry h) = s.asking calls rows statistics := by
    change { s.asking calls rows statistics with
      session := { (s.asking calls rows statistics).session with
        context := Context.removeEntry { context with databaseSnapshots := rows } h } } = _
    rw [Context.removeEntry_addEntity coherent untracked added rows]
    rfl
  rw [forgotten]
  refine .intro calls rows statistics reads (fun key row held => ?_) fun key row held => ?_
  · exact remembers key row ((known key).trans held)
  · rw [← known]
    exact learns key row held

namespace Action
variable {s after : State} {h : Handle} {d : Descriptor} {early : Bool}

theorem scheduleInsert_canceled (idle : h ∉ s.actions.pending)
    (ran : (scheduleInsert h d early).exec s = (.ok (), after)) :
    after.actions.hasInsert h = true ∧ Asks s (after.mapActions fun queue => queue.cancelInsert h) := by
  have asking := dependencies_asks d.name h (s.heap.values h) early s
  rcases scheduleInsert_cases ran with ⟨e, wrong, -⟩ | ⟨asked, collected, queued⟩ | ⟨waits, asked, collected, -, -, rfl⟩
  · cases wrong
  · obtain ⟨state, nulled, nulling, rfl⟩ := queueInsert_ok queued
    have asks : Asks s nulled :=
      (asking.of_exec collected).trans ((Nullifier.nullifyAll_asks _ d.attributes _ asked).of_exec nulling)
    rw [← asks.actions] at idle
    refine ⟨by simp [State.mapActions, State.mapSession, State.actions, ActionQueue.hasInsert], ?_⟩
    rwa [State.mapActions_restored (ActionQueue.cancelInsert_queued idle d state)]
  · have asks := asking.of_exec collected
    rw [← asks.actions] at idle
    refine ⟨by simp [State.mapActions, State.mapSession, State.actions, ActionQueue.hasInsert, ActionQueue.park], ?_⟩
    rwa [State.mapActions_restored (ActionQueue.cancelInsert_parked idle d early waits)]

theorem scheduleInsert_failed {e : Error} (ran : (scheduleInsert h d early).exec s = (.error e, after)) :
    Asks s after := by
  have asking := dependencies_asks d.name h (s.heap.values h) early s
  rcases scheduleInsert_cases ran with ⟨_, -, failed⟩ | ⟨asked, collected, queued⟩ | ⟨_, _, _, _, wrong, _⟩
  · exact asking.of_exec failed
  · exact (asking.of_exec collected).trans
      ((Nullifier.nullifyAll_asks _ d.attributes _ asked).of_exec (queueInsert_error queued))
  · cases wrong

theorem delete_pending (pending : s.actions.hasInsert h = true) : (delete h).exec s =
    (.ok (), (s.mapActions fun queue => queue.cancelInsert h).mapContext fun context => context.removeEntry h) := by
  unfold delete
  rw [exec_get_bind, if_pos pending]
  rfl

end Action

/-- Entries, keys and pending work are as they were, and so is all else that asking leaves alone. -/
structure Restored (before after : State) : Prop where
  asks : Asks before after
  entries : after.context.entries = before.context.entries
  entities : after.context.entities = before.context.entities
  inserts : after.actions.inserts = before.actions.inserts
  parked : after.actions.parked = before.actions.parked
  deletes : after.actions.deletes = before.actions.deletes

theorem Restored.of_asks {before after : State} (asks : Asks before after) : Restored before after := by
  refine ⟨asks, ?_, ?_, ?_, ?_, ?_⟩ <;> cases asks <;> rfl

/-- A save that fails has changed nothing. After one that succeeds, deleting the instance takes it back, and
leaves all other pending work in its order. -/
theorem save_is_atomic_and_undone {start s : State} {moves : List Move} {h : Handle} (fresh : start.Fresh)
    (run : Run start moves s) (untracked : s.context.isTracked h = false) (early : Bool) :
    (∀ e after, (save h early).exec s = (.error e, after) → Restored s after) ∧
      ∀ after, (save h early).exec s = (.ok (), after) →
        ∃ restored, (delete h).exec after = (.ok (), restored) ∧ Restored s restored := by
  have sound := run.sound fresh.sound
  have absent := (untracked_iff s h).mp untracked
  refine ⟨fun e after failed => ?_, fun after saved => ?_⟩
  · cases save_cases failed with
    | refused => exact .of_asks (.refl s)
    | undone _ _ _ added stopped =>
      exact .of_asks (Asks.forgetting sound.coherent absent added (scheduleInsert_failed stopped))
  · cases save_cases saved with
    | known tracked =>
      rw [untracked] at tracked
      cases tracked
    | @scheduled d key context _ _ _ _ added ran =>
      have idle : h ∉ (s.mapContext fun _ => context).actions.pending := fun due => sound.tracked (.inl due) absent
      obtain ⟨pending, asks⟩ := scheduleInsert_canceled idle ran
      exact ⟨_, delete_pending pending, .of_asks (Asks.forgetting sound.coherent absent added asks)⟩

namespace Sample

/-- The cards of guests are numbered by the application, so only the database knows which of them exist. -/
def card : Descriptor where
  name := "Card"
  identifier := { name := "number", generator := .assigned }

/-- A customer with an order, and an order for the holder of a card. -/
def desk : State where
  heap := ⟨#[newCustomer, newOrder ⟨0⟩, newOrder ⟨3⟩, { entity := "Card", values := [], id := some (.ofValue (.bool true)) }]⟩
  shared := {}
  session := { factory := { metamodel := ⟨[customer, order, card]⟩ } }

def customerSaved : State := (Move.save ⟨0⟩ false).perform desk

end Sample

open Sample in
/-- Without a database the order for the card cannot be saved; the other is parked, and then taken back. -/
theorem save_is_atomic_and_undone_desk :
    (∃ e after, (save ⟨2⟩ false).exec customerSaved = (.error e, after) ∧ Restored customerSaved after) ∧
      ∃ after restored, (save ⟨1⟩ false).exec customerSaved = (.ok (), after) ∧
        after.actions.parked.map (·.handle) = [⟨1⟩] ∧
        (delete ⟨1⟩).exec after = (.ok (), restored) ∧ Restored customerSaved restored := by
  have run : Run desk [.save ⟨0⟩ false] customerSaved := .extend .start (.save ⟨0⟩ false) (Nat.zero_lt_succ 3)
  have fresh : desk.Fresh := ⟨rfl, rfl, rfl⟩
  have failing := (save_is_atomic_and_undone (h := ⟨2⟩) fresh run rfl false).1
  have succeeding := (save_is_atomic_and_undone (h := ⟨1⟩) fresh run rfl false).2
  have saved : (save ⟨1⟩ false).exec customerSaved = (.ok (), ((save ⟨1⟩ false).exec customerSaved).2) := Prod.ext rfl rfl
  obtain ⟨restored, deleted, same⟩ := succeeding _ saved
  exact ⟨⟨_, _, rfl, failing _ _ rfl⟩, _, restored, saved, rfl, deleted, same⟩

end UnitOfWork
