import UnitOfWork.Proofs.SessionInvariant

/-! Saving and deleting taken apart, and what they keep. A save that fails forgets the instance again; a
delete of an instance whose insert is pending takes back the insert. -/

namespace UnitOfWork

section Descriptors
variable {session : Session} {entity : String} {d : Descriptor}

theorem Session.of_descriptor (mapped : session.descriptor entity = .ok d) :
    d ∈ session.factory.metamodel.descriptors ∧ d.name = entity := by
  unfold Session.descriptor Metamodel.descriptor at mapped
  split at mapped
  next other found =>
    cases mapped
    exact ⟨List.mem_of_find?_eq_some found, by simpa using List.find?_some found⟩
  next => cases mapped

theorem Session.descriptor_name (mapped : session.descriptor entity = .ok d) : session.descriptor d.name = .ok d := by
  rw [(of_descriptor mapped).2]
  exact mapped

end Descriptors

def Entry.saved (d : Descriptor) (key : Option EntityKey) : Entry where
  key
  entity := d.name
  status := .saving
  loadedState := none
  version := none
  lock := .none
  existsInDatabase := false
  isMutable := d.isMutable
  snapshot := none

namespace Action
variable {s after : State} {h : Handle} {d : Descriptor} {early : Bool}

/-- An insert is queued when it has to wait for nothing, and parked otherwise. -/
theorem scheduleInsert_cases {answer : Except Error Unit}
    (ran : (scheduleInsert h d early).exec s = (answer, after)) :
    (∃ e, answer = .error e ∧ (dependencies d.name h (s.heap.values h) early).exec s = (.error e, after)) ∨
      (∃ asked, (dependencies d.name h (s.heap.values h) early).exec s = (.ok [], asked) ∧
        (queueInsert h d early).exec asked = (answer, after)) ∨
      ∃ waits asked, (dependencies d.name h (s.heap.values h) early).exec s = (.ok waits, asked) ∧ waits ≠ [] ∧
        answer = .ok () ∧ after = asked.mapActions fun queue =>
          queue.park [{ handle := h, descriptor := d, early, dependencies := waits }] := by
  unfold scheduleInsert at ran
  rw [exec_get_bind] at ran
  dsimp only at ran
  rw [exec_bind] at ran
  rcases collected : (dependencies d.name h (s.heap.values h) early).exec s with ⟨e | waits, asked⟩
  · rw [collected] at ran
    cases ran
    exact .inl ⟨e, rfl, rfl⟩
  · rw [collected] at ran
    dsimp only at ran
    cases waits with
    | nil => exact .inr (.inl ⟨asked, rfl, ran⟩)
    | cons first rest =>
      cases ran
      exact .inr (.inr ⟨first :: rest, asked, rfl, List.cons_ne_nil _ _, rfl, rfl⟩)

theorem keyToSave_exec (d : Descriptor) (h : Handle) (s : State) : ((keyToSave d h).exec s).2 = s := by
  unfold keyToSave
  rw [exec_get_bind]
  repeat' split
  all_goals rfl

/-- A save does nothing, or tracks the instance and schedules its insert. -/
inductive Saves (h : Handle) (early : Bool) (s : State) : Except Error Unit → State → Prop where
  | known (tracked : s.context.isTracked h = true) : Saves h early s (.ok ()) s
  | refused (e : Error) (unknown : s.context.isTracked h = false) : Saves h early s (.error e) s
  | scheduled {d : Descriptor} {key : Option EntityKey} {context : Context} {after : State}
      (unknown : s.context.isTracked h = false)
      (mapped : s.session.descriptor (s.heap.entity h) = .ok d)
      (keyed : (keyToSave d h).exec s = (.ok key, s))
      (added : s.context.addEntity h (Entry.saved d key) = .ok context)
      (ran : (scheduleInsert h d (early || d.identifier.generator = .identity)).exec
        (s.mapContext fun _ => context) = (.ok (), after)) : Saves h early s (.ok ()) after
  | undone {d : Descriptor} {key : Option EntityKey} {context : Context} {e : Error} {middle : State}
      (unknown : s.context.isTracked h = false)
      (mapped : s.session.descriptor (s.heap.entity h) = .ok d)
      (keyed : (keyToSave d h).exec s = (.ok key, s))
      (added : s.context.addEntity h (Entry.saved d key) = .ok context)
      (failed : (scheduleInsert h d (early || d.identifier.generator = .identity)).exec
        (s.mapContext fun _ => context) = (.error e, middle)) :
      Saves h early s (.error e) (middle.mapContext fun context => context.removeEntry h)

theorem save_cases {answer : Except Error Unit} (ran : (save h early).exec s = (answer, after)) :
    Saves h early s answer after := by
  unfold save at ran
  rw [exec_get_bind] at ran
  cases tracked : s.context.isTracked h with
  | true =>
    rw [tracked] at ran
    cases ran
    exact .known tracked
  | false =>
    rw [tracked, if_neg Bool.false_ne_true] at ran
    rw [exec_bind, exec_descriptor] at ran
    cases mapped : s.session.descriptor (s.heap.entity h) with
    | error e =>
      rw [mapped] at ran
      cases ran
      exact .refused e tracked
    | ok d =>
      rw [mapped] at ran
      dsimp only at ran
      rw [exec_bind] at ran
      have same := keyToSave_exec d h s
      rcases keyed : (keyToSave d h).exec s with ⟨e | key, middle⟩
      · rw [keyed] at ran same
        obtain rfl : s = middle := same.symm
        cases ran
        exact .refused e tracked
      · rw [keyed] at ran same
        obtain rfl : s = middle := same.symm
        dsimp only at ran
        rcases tracking : (changeContext fun context => context.addEntity h (Entry.saved d key)).exec s
          with ⟨e | _, middle⟩
        · obtain ⟨-, rfl⟩ := changeContext_error tracking
          unfold Entry.saved at tracking
          rw [exec_bind_error _ tracking] at ran
          cases ran
          exact .refused e tracked
        · obtain ⟨context, added, rfl⟩ := changeContext_ok tracking
          unfold Entry.saved at tracking
          rw [exec_bind_ok _ tracking] at ran
          rw [exec_tryCatch] at ran
          rcases scheduled : (scheduleInsert h d (early || d.identifier.generator = .identity)).exec
            (s.mapContext fun _ => context) with ⟨e | _, middle⟩
          · rw [scheduled] at ran
            cases ran
            exact .undone tracked mapped keyed added scheduled
          · rw [scheduled] at ran
            cases ran
            exact .scheduled tracked mapped keyed added scheduled

theorem untracked_iff (s : State) (h : Handle) : s.context.isTracked h = false ↔ s.context.entry? h = none := by
  rw [Context.isTracked_eq, Option.isSome_eq_false_iff, Option.isNone_iff_eq_none]

theorem scheduleInsert_pending {answer : Except Error Unit}
    (ran : (scheduleInsert h d early).exec s = (answer, after)) :
    Requeues s after ∧
      ((∃ e, answer = .error e ∧ after.actions = s.actions) ∨
        answer = .ok () ∧ after.actions.pending.Perm (h :: s.actions.pending)) := by
  have asking := dependencies_asks d.name h (s.heap.values h) early s
  rcases scheduleInsert_cases ran with ⟨e, rfl, failed⟩ | ⟨asked, collected, queued⟩ | ⟨waits, asked, collected, _, rfl, rfl⟩
  · have asks := asking.of_exec failed
    exact ⟨.of_asks asks, .inl ⟨e, rfl, asks.actions⟩⟩
  · have asks := asking.of_exec collected
    obtain ⟨moved, outcome⟩ := queueInsert_pending queued
    have same : asked.actions = s.actions := asks.actions
    rw [same] at outcome
    exact ⟨(Requeues.of_asks asks).trans moved, outcome⟩
  · have asks := asking.of_exec collected
    refine ⟨(Requeues.of_asks asks).trans (.mapActions asked rfl), .inr ⟨rfl, ?_⟩⟩
    have same : asked.actions = s.actions := asks.actions
    change (asked.actions.park _).pending.Perm _
    rw [ActionQueue.pending_park, same]
    exact List.perm_append_comm

theorem scheduleInsert_sound {answer : Except Error Unit} (sound : s.Sound) (idle : h ∉ s.actions.pending)
    (tracked : ∃ key, s.standing? h = some (key, false))
    (unscheduled : ∀ delete ∈ s.actions.deletes, delete.handle ≠ h)
    (ran : (scheduleInsert h d early).exec s = (answer, after)) : after.Sound := by
  obtain ⟨moved, ⟨e, _, same⟩ | ⟨_, grown⟩⟩ := scheduleInsert_pending ran
  · exact sound.requeues moved (by rw [same])
  · -- the new insert is counted before the queue is rearranged
    have added : (s.mapActions fun queue =>
        { queue with inserts := { handle := h, descriptor := d, state := [] } :: queue.inserts }).Sound := by
      refine ⟨sound.coherent, sound.allocated, List.nodup_cons.mpr ⟨idle, sound.distinct⟩, fun other member => ?_,
        sound.scheduled, fun delete member due => ?_⟩
      · rcases List.mem_cons.mp member with rfl | member
        · exact tracked
        · exact sound.unwritten other member
      · rcases List.mem_cons.mp due with same | due
        · exact unscheduled delete member same
        · exact sound.separate delete member due
    have entries (h : Handle) : after.context.entry? h = s.context.entry? h := by
      unfold Context.entry?
      rw [moved.entries]
    refine added.requeued (fun other => ?_) (fun key => ?_) (Nat.le_of_eq (by rw [moved.heap]; rfl)) grown moved.deletes
    · unfold State.standing?
      rw [entries]
      rfl
    · unfold Context.entity?
      rw [moved.entities]
      rfl

theorem save_entries {x : Handle} {answer : Except Error Unit}
    (ran : (save x early).exec s = (answer, after)) (tracked : s.context.entry? h ≠ none) :
    after.context.entry? h = s.context.entry? h := by
  have others (unknown : s.context.isTracked x = false) : x ≠ h := by
    rintro rfl
    exact tracked ((untracked_iff s x).mp unknown)
  have scheduling {d : Descriptor} {key : Option EntityKey} {flag : Bool} {context : Context} {answer : Except Error Unit}
      {middle : State} (unknown : s.context.isTracked x = false)
      (added : s.context.addEntity x (.saved d key) = .ok context)
      (ran : (scheduleInsert x d flag).exec (s.mapContext fun _ => context) = (answer, middle)) :
      middle.context.entry? h = s.context.entry? h := by
    have moved := (scheduleInsert_pending ran).1
    rw [moved.entry_eq]
    have adds := Context.addEntity_ok added
    change context.entry? h = _
    rw [adds.entry?, if_neg (others unknown)]
  cases save_cases ran with
  | known => rfl
  | refused => rfl
  | scheduled unknown _ _ added ran => exact scheduling unknown added ran
  | @undone d key context e middle unknown _ _ added failed =>
    change Context.entry? (middle.context.removeEntry x) h = _
    rw [Context.entry?_removeEntry, if_neg (others unknown)]
    exact scheduling unknown added failed

theorem save_sound {answer : Except Error Unit} (sound : s.Sound) (allocated : h ∈ s.heap)
    (ran : (save h early).exec s = (answer, after)) : after.Sound := by
  have outcome := save_cases ran
  have idle (unknown : s.context.isTracked h = false) : h ∉ s.actions.pending :=
    fun due => sound.tracked (.inl due) ((untracked_iff s h).mp unknown)
  have unscheduled (unknown : s.context.isTracked h = false) : ∀ delete ∈ s.actions.deletes, delete.handle ≠ h :=
    fun delete member same => sound.tracked (.inr ⟨delete, member, same⟩) ((untracked_iff s h).mp unknown)
  have tracks {d : Descriptor} {key : Option EntityKey} {context : Context}
      (unknown : s.context.isTracked h = false) (added : s.context.addEntity h (Entry.saved d key) = .ok context) :
      (s.mapContext fun _ => context).Sound ∧ (s.mapContext fun _ => context).standing? h = some (key, false) := by
    have adds := Context.addEntity_ok added
    refine ⟨sound.adds allocated (Context.key?_eq_none ((untracked_iff s h).mp unknown)) (idle unknown) adds, ?_⟩
    unfold State.standing?
    change (context.entry? h).map _ = _
    rw [adds.entry?, if_pos rfl]
    rfl
  cases outcome with
  | known => exact sound
  | refused => exact sound
  | scheduled unknown mapped keyed added ran =>
    obtain ⟨tracked, standing⟩ := tracks unknown added
    exact scheduleInsert_sound tracked (idle unknown) ⟨_, standing⟩ (unscheduled unknown) ran
  | @undone d key context e middle unknown mapped keyed added failed =>
    obtain ⟨tracked, standing⟩ := tracks unknown added
    have scheduled := scheduleInsert_sound tracked (idle unknown) ⟨_, standing⟩ (unscheduled unknown) failed
    obtain ⟨moved, ⟨_, _, same⟩ | ⟨wrong, _⟩⟩ := scheduleInsert_pending failed
    · apply scheduled.removeEntry
      · rw [same]
        exact idle unknown
      · rw [same]
        exact unscheduled unknown
    · cases wrong

/-- A delete takes back a pending insert, does nothing, or schedules the delete of the row. -/
inductive Unsaves (h : Handle) (s : State) : Except Error Unit → State → Prop where
  | canceled (pending : s.actions.hasInsert h = true) : Unsaves h s (.ok ())
      ((s.mapActions fun queue => queue.cancelInsert h).mapContext fun context => context.removeEntry h)
  | refused (e : Error) : Unsaves h s (.error e) s
  | gone : Unsaves h s (.ok ()) s
  | scheduled {entry : Entry} {key : EntityKey} {d : Descriptor} (idle : s.actions.hasInsert h = false)
      (tracked : s.context.entry? h = some entry) (keyed : entry.key = some key)
      (alive : entry.status.isDeletedOrGone = false) (mapped : s.session.descriptor entry.entity = .ok d) :
      Unsaves h s (.ok ())
      ((s.mapContext fun context => (context.setStatus h .deleted).markNullifiable key).mapActions
        fun queue => { queue with deletes := queue.deletes ++ [⟨h, key, d⟩] })

theorem delete_cases {answer : Except Error Unit} (ran : (delete h).exec s = (answer, after)) :
    Unsaves h s answer after := by
  unfold delete at ran
  rw [exec_get_bind] at ran
  cases pending : s.actions.hasInsert h with
  | true =>
    rw [pending] at ran
    cases ran
    exact .canceled pending
  | false =>
    rw [pending, if_neg Bool.false_ne_true] at ran
    cases tracked : s.context.entry? h with
    | none =>
      rw [tracked] at ran
      cases ran
      exact .refused _
    | some entry =>
      rw [tracked] at ran
      dsimp only at ran
      split at ran
      · cases ran
        exact .gone
      next alive =>
        cases keyed : entry.key with
        | none =>
          rw [keyed] at ran
          cases ran
          exact .refused _
        | some key =>
          rw [keyed] at ran
          dsimp only at ran
          rw [exec_bind, exec_descriptor] at ran
          cases mapped : s.session.descriptor entry.entity with
          | error e =>
            rw [mapped] at ran
            cases ran
            exact .refused e
          | ok d =>
            rw [mapped] at ran
            cases ran
            exact .scheduled pending tracked keyed (Bool.eq_false_iff.mpr alive) mapped

theorem delete_sound {answer : Except Error Unit} (sound : s.Sound) (ran : (delete h).exec s = (answer, after)) :
    after.Sound := by
  cases delete_cases ran with
  | refused => exact sound
  | gone => exact sound
  | canceled pending =>
    have canceled : (s.mapActions fun queue => queue.cancelInsert h).Sound := by
      have remaining : (s.actions.cancelInsert h).pending = s.actions.pending.filter (· ≠ h) :=
        ActionQueue.pending_cancelInsert _ _
      refine ⟨sound.coherent, sound.allocated, ?_, fun other member => ?_, sound.scheduled, fun delete member due => ?_⟩
      · change (s.actions.cancelInsert h).pending.Nodup
        rw [remaining]
        exact sound.distinct.filter _
      · change other ∈ (s.actions.cancelInsert h).pending at member
        rw [remaining] at member
        exact sound.unwritten other (List.mem_filter.mp member).1
      · change delete.handle ∈ (s.actions.cancelInsert h).pending at due
        rw [remaining] at due
        exact sound.separate delete member (List.mem_filter.mp due).1
    apply canceled.removeEntry
    · change h ∉ (s.actions.cancelInsert h).pending
      rw [ActionQueue.pending_cancelInsert]
      intro member
      exact absurd rfl (of_decide_eq_true (List.mem_filter.mp member).2)
    · intro delete member same
      exact sound.separate delete member (same ▸ (ActionQueue.hasInsert_iff _ h).mp pending)
  | @scheduled entry key d idle tracked keyed =>
    have absent : h ∉ s.actions.pending := by
      rw [← ActionQueue.hasInsert_iff, idle]
      exact Bool.false_ne_true
    have marked := sound.updateEntry (fun entry => { entry with status := .deleted }) absent fun _ => rfl
    have standing : s.context.entity? key = some h := by
      apply (sound.coherent key h).mpr
      rw [Context.key?, tracked]
      change entry.key.any (· == key) = true
      rw [keyed]
      exact BEq.rfl
    refine ⟨marked.coherent, marked.allocated, marked.distinct, marked.unwritten, fun delete member => ?_,
      fun delete member => ?_⟩
    · rcases List.mem_append.mp member with old | new
      · exact sound.scheduled delete old
      · rw [List.mem_singleton.mp new]
        exact standing
    · rcases List.mem_append.mp member with old | new
      · exact sound.separate delete old
      · rw [List.mem_singleton.mp new]
        exact absent

end Action

end UnitOfWork
