import UnitOfWork.Proofs.SessionInvariant
import UnitOfWork.Session.Load

/-! A load registers instances that it creates itself and touches no other entry, so that what the session
has to do stays as it was, also when the load fails half way and forgets its instances again. -/

namespace UnitOfWork

theorem Heap.size_edit (heap : Heap) (edits : List (Handle × Instance)) : (heap.edit edits).size = heap.size := by
  unfold Heap.edit
  induction edits generalizing heap with
  | nil => rfl
  | cons edit rest ih =>
    rw [List.foldl_cons, ih]
    exact heap.size_update _ _

/-- The calls made in between write no row. -/
def Reads (before after : State) : Prop :=
  ∃ calls, after.session.journal = before.session.journal ++ calls ∧ ∀ call ∈ calls, call.isWrite = false

namespace Reads
variable {a b c : State}

theorem of_same (same : b.session.journal = a.session.journal) : Reads a b :=
  ⟨[], by rw [same, List.append_nil], fun _ none_ => nomatch none_⟩

theorem refl (s : State) : Reads s s := of_same rfl

theorem trans (first : Reads a b) (second : Reads b c) : Reads a c := by
  obtain ⟨calls, extended, quiet⟩ := first
  obtain ⟨others, extended', quiet'⟩ := second
  refine ⟨calls ++ others, by rw [extended', extended, List.append_assoc], fun call member => ?_⟩
  rcases List.mem_append.mp member with early | late
  · exact quiet call early
  · exact quiet' call late

theorem record (s : State) {call : Call} (quiet : call.isWrite = false) : Reads s (s.record call) :=
  ⟨[call], rfl, by simpa using quiet⟩

theorem of_asks {fits : Descriptor → EntityKey → Prop} (asks : AsksBy fits a b) : Reads a b := by
  obtain ⟨calls, _, _, questions, _⟩ := asks
  exact ⟨calls, rfl, fun call member => Call.isWrite_of_isQuestion (questions call member)⟩

end Reads

/-- Besides leaving alone what the session has to do, no row is written. -/
structure Aside (before after : State) : Prop where
  beside : Beside before after
  reads : Reads before after

namespace Aside

theorem frame : Frame Aside where
  refl s := ⟨.refl s, .refl s⟩
  trans first second := ⟨first.beside.trans second.beside, first.reads.trans second.reads⟩

theorem silent {before after : State} (beside : Beside before after)
    (same : after.session.journal = before.session.journal) : Aside before after := ⟨beside, .of_same same⟩

theorem record (s : State) {call : Call} (quiet : call.isWrite = false) : Aside s (s.record call) :=
  ⟨⟨fun _ => rfl, fun _ => rfl, Nat.le_refl _, rfl⟩, .record s quiet⟩

theorem mapStatistics (s : State) (change : Statistics → Statistics) : Aside s (s.mapStatistics change) :=
  silent ⟨fun _ => rfl, fun _ => rfl, Nat.le_refl _, rfl⟩ rfl

theorem setRegion (s : State) (name : String) (region : MemoryRegion) : Aside s (s.setRegion name region) :=
  silent ⟨fun _ => rfl, fun _ => rfl, Nat.le_refl _, rfl⟩ rfl

theorem updateEntry (s : State) (h : Handle) {change : Entry → Entry}
    (same : ∀ entry, (change entry).standing = entry.standing) :
    Aside s (s.mapContext fun context => context.updateEntry h change) :=
  silent (.updateEntry s h same) rfl

end Aside

namespace Action
open Aside (frame)

theorem mapHeap_aside {change : Heap → Heap} (same : ∀ heap : Heap, (change heap).size = heap.size) (s : State) :
    Keeps Aside (modify fun s => s.mapHeap change : Action PUnit) s :=
  .silent ⟨fun _ => rfl, fun _ => rfl, Nat.le_of_eq (same s.heap).symm, rfl⟩ rfl

theorem resolveReference_aside (batch : Batch) (entity : String) (id : Identifier) (s : State) :
    Keeps Aside (resolveReference batch entity id) s := by
  refine .bind frame (.lift frame _ s) fun d s _ => .get_bind ?_
  split
  · split <;> exact .pure frame _ _
  · split
    · exact .pure frame _ _
    · refine .bind frame ?_ fun _ s _ => .pure frame _ s
      exact .silent ⟨fun _ => rfl, fun _ => rfl, Nat.le_refl _, rfl⟩ rfl

mutual

theorem resolve_aside (batch : Batch) (entity : String) (a : Attribute) : ∀ (value : AttributeValue) (s : State),
    Keeps Aside (resolve batch entity a value) s
  | .foreignKey id, s => by
    unfold resolve
    split
    · exact resolveReference_aside batch _ id s
    · exact .throw frame _ s
  | .anyKey target id, s => by
    unfold resolve
    exact resolveReference_aside batch target id s
  | .embedded children, s => by
    unfold resolve
    split
    · exact .bind frame (resolveAll_aside batch entity _ children s) fun _ s _ => .pure frame _ s
    · exact .pure frame _ s
  | .null, s | .basic _, s | .reference _, s | .unfetched, s => .pure frame _ s

theorem resolveAll_aside (batch : Batch) (entity : String) : ∀ (attributes : List Attribute)
    (values : List AttributeValue) (s : State), Keeps Aside (resolveAll batch entity attributes values) s
  | a :: attributes, value :: values, s => by
    unfold resolveAll
    refine .bind frame (resolve_aside batch entity a value s) fun _ s _ => ?_
    exact .bind frame (resolveAll_aside batch entity attributes values s) fun _ s _ => .pure frame _ s
  | [], values, s => by
    unfold resolveAll
    exact .pure frame _ s
  | _ :: _, [], s => .pure frame _ s

end

theorem firePreLoad_aside (listeners : List PreLoadListener) (position : Nat) (event : PreLoadEvent) (s : State) :
    Keeps Aside (firePreLoad listeners position event) s := by
  induction listeners generalizing position event s with
  | nil => exact .pure frame _ s
  | cons listener rest ih =>
    refine .get_bind (.bind frame (Aside.record s rfl) fun _ s _ => ?_)
    refine .bind frame (mapHeap_aside (Heap.size_edit · _) s) fun _ s _ => ?_
    exact .bind frame (.lift frame _ s) fun state s _ => ih _ _ s

theorem firePostLoad_aside (listeners : List PostLoadListener) (position : Nat) (event : PostLoadEvent)
    (s : State) : Keeps Aside (firePostLoad listeners position event) s := by
  induction listeners generalizing position s with
  | nil => exact .pure frame _ s
  | cons listener rest ih =>
    refine .get_bind (.bind frame (Aside.record s rfl) fun _ s _ => ?_)
    refine .bind frame (mapHeap_aside (Heap.size_edit · _) s) fun _ s _ => ?_
    exact .bind frame (.lift frame _ s) fun _ s _ => ih _ s

theorem warnUnidentified_aside (handles : List Handle) (s : State) : Keeps Aside (warnUnidentified handles) s := by
  induction handles generalizing s with
  | nil => exact .pure frame _ s
  | cons h rest ih => exact .get_bind (.bind frame (Aside.record s rfl) fun _ s _ => ih s)

theorem offerToRegion_aside (name : String) (region : Region) (key : EntityKey) (cacheKey : CacheKey)
    (item : Versioned) (s : State) : Keeps Aside (offerToRegion name region key cacheKey item) s := by
  apply Keeps.get_bind
  cases region with
  | external accepts => exact .bind frame (Aside.record s rfl) fun _ s _ => .pure frame _ s
  | memory region => exact .bind frame (Aside.setRegion s _ _) fun _ s _ => .pure frame _ s

theorem cacheLoaded_aside (d : Descriptor) (key : EntityKey) (state : List AttributeValue) (s : State) :
    Keeps Aside (cacheLoaded d key state) s := by
  apply Keeps.get_bind
  split
  · split
    · exact .pure frame _ s
    · refine .bind frame (warnUnidentified_aside _ s) fun _ s _ => ?_
      refine .bind frame (offerToRegion_aside _ _ _ _ _ s) fun accepted s _ => ?_
      split
      · exact Aside.mapStatistics s _
      · exact .pure frame _ s
  · exact .pure frame _ s

theorem runHook_aside (d : Descriptor) (h : Handle) (s : State) : Keeps Aside (runHook d h) s := by
  unfold runHook
  split
  · exact .pure frame _ s
  · refine .get_bind (.bind frame (Aside.record s rfl) fun _ s _ => ?_)
    exact mapHeap_aside (Heap.size_edit · _) s

/-- The end of initializing an instance, once its state is known. -/
def install (d : Descriptor) (key : EntityKey) (options : LoadOptions) (h : Handle) (state : List AttributeValue) :
    Action Unit := do
  modify fun s => s.mapHeap fun heap => heap.update h fun x => { x with values := state }
  cacheLoaded d key state
  modify fun s => s.mapSession fun session =>
    { session with naturalIds := session.naturalIds.record s.heap d key.id state }
  modify fun s => s.mapContext fun context =>
    context.updateEntry h (loadedEntry d state (loadsReadOnly s.session d key options))
  runHook d h
  modify fun s => s.mapStatistics fun statistics => statistics.increment .entityLoads d.name

theorem install_aside (d : Descriptor) (key : EntityKey) (options : LoadOptions) (h : Handle)
    (state : List AttributeValue) (s : State) : Keeps Aside (install d key options h state) s := by
  refine .bind frame (mapHeap_aside (Heap.size_update · h _) s) fun _ s _ => ?_
  refine .bind frame (cacheLoaded_aside _ _ _ s) fun _ s _ => ?_
  have recorded : Aside s (s.mapSession fun session =>
      { session with naturalIds := session.naturalIds.record s.heap d key.id state }) :=
    .silent ⟨fun _ => rfl, fun _ => rfl, Nat.le_refl _, rfl⟩ rfl
  refine .bind frame recorded fun _ s _ => ?_
  refine .bind frame (Aside.updateEntry s h fun _ => rfl) fun _ s _ => ?_
  exact .bind frame (runHook_aside d h s) fun _ s _ => Aside.mapStatistics s _

theorem materialize_eq (batch : Batch) (options : LoadOptions) (entity : LoadingEntity) :
    materialize batch options entity = (do
      let key := (batch.keyFor? entity.handle).getD entity.key
      if !(← get).context.isTracked entity.handle then trackLoading entity key options
      let resolved ← resolveAll batch entity.descriptor.name entity.descriptor.attributes entity.hydrated
      let session := (← get).session
      let state ← if session.config.eventSource then
          firePreLoad session.preLoad 0
            { entity := entity.handle, id := key.id, descriptor := entity.descriptor, state := resolved }
        else pure resolved
      install entity.descriptor key options entity.handle state) := rfl

theorem materialize_aside (batch : Batch) (options : LoadOptions) (entity : LoadingEntity) (s : State)
    (tracked : s.context.isTracked entity.handle = true) : Keeps Aside (materialize batch options entity) s := by
  rw [materialize_eq]
  apply Keeps.get_bind
  rw [tracked, Bool.not_true, if_neg Bool.false_ne_true]
  refine .bind frame (resolveAll_aside _ _ _ _ s) fun resolved s _ => .get_bind ?_
  dsimp only
  split
  · exact .bind frame (firePreLoad_aside _ _ _ s) fun state s _ => install_aside _ _ _ _ state s
  · exact .bind frame (.pure frame _ s) fun state s _ => install_aside _ _ _ _ state s

theorem isTracked_eq_standing (s : State) (h : Handle) : s.context.isTracked h = (s.standing? h).isSome := by
  rw [Context.isTracked_eq, State.standing?, Option.isSome_map]

theorem materializeAll_aside (batch : Batch) (options : LoadOptions) (entities : List LoadingEntity) (s : State)
    (tracked : ∀ entity ∈ entities, s.context.isTracked entity.handle = true) :
    Keeps Aside (materializeAll batch options entities) s := by
  induction entities generalizing s with
  | nil => exact .pure frame _ s
  | cons entity rest ih =>
    have first := materialize_aside batch options entity s (tracked entity List.mem_cons_self)
    refine .bind frame first fun _ middle ran => ih middle fun other member => ?_
    have kept := first.of_exec ran
    rw [isTracked_eq_standing, kept.beside.standing, ← isTracked_eq_standing]
    exact tracked other (List.mem_cons_of_mem _ member)

theorem announceLoaded_aside (entities : List LoadingEntity) (s : State) : Keeps Aside (announceLoaded entities) s := by
  induction entities generalizing s with
  | nil => exact .pure frame _ s
  | cons entity rest ih =>
    exact .get_bind (.bind frame (firePostLoad_aside _ _ _ s) fun _ s _ => ih s)

theorem finishUp_aside (batch : Batch) (options : LoadOptions) (s : State)
    (tracked : ∀ entity ∈ batch.entities, s.context.isTracked entity.handle = true) :
    Keeps Aside (finishUp batch options) s := by
  refine .bind frame (materializeAll_aside batch options batch.entities s tracked) fun _ s _ => .get_bind ?_
  split
  · exact announceLoaded_aside _ s
  · exact .pure frame _ s

end Action

/-- What was there at the start of a load is as it was: what the session has to do, and what it knows about
the rows of instances. No row has been written. -/
structure Spares (start s : State) : Prop where
  sound : s.Sound
  actions : s.actions = start.actions
  size : start.heap.size ≤ s.heap.size
  standing : ∀ h ∈ start.heap, s.standing? h = start.standing? h
  reads : Reads start s

/-- A load on its way: the instances of the batch are tracked and new. -/
structure Loading (start : State) (batch : Batch) (s : State) : Prop extends Spares start s where
  created : ∀ entity ∈ batch.entities, entity.handle ∉ start.heap
  tracked : ∀ entity ∈ batch.entities, s.context.isTracked entity.handle = true

namespace Spares
variable {start s after : State}

theorem aside (spares : Spares start s) (aside : Aside s after) : Spares start after where
  sound := spares.sound.beside aside.beside
  actions := aside.beside.actions.trans spares.actions
  size := Nat.le_trans spares.size aside.beside.size
  standing h old := (aside.beside.standing h).trans (spares.standing h old)
  reads := spares.reads.trans aside.reads

/-- An instance that was not there at the start is owed nothing. -/
theorem idle (initial : start.Sound) (spares : Spares start s) {h : Handle} (created : h ∉ start.heap) :
    h ∉ s.actions.pending ∧ ∀ delete ∈ s.actions.deletes, delete.handle ≠ h := by
  rw [spares.actions]
  exact ⟨fun due => created (initial.allocated h (initial.tracked (.inl due))),
    fun delete member same => created (initial.allocated h (initial.tracked (.inr ⟨delete, member, same⟩)))⟩

/-- The instances of a failed load are forgotten; they are owed nothing, having not been there at its start. -/
theorem discard (initial : start.Sound) (entities : List LoadingEntity) (s : State) (spares : Spares start s)
    (created : ∀ entity ∈ entities, entity.handle ∉ start.heap) :
    Spares start (s.mapContext fun context =>
      entities.foldl (fun context entity => context.removeEntry entity.handle) context) := by
  induction entities generalizing s with
  | nil => exact spares
  | cons entity rest ih =>
    have new := created entity List.mem_cons_self
    obtain ⟨absent, unscheduled⟩ := spares.idle initial new
    have forgotten : Spares start (s.mapContext fun context => context.removeEntry entity.handle) := by
      refine ⟨spares.sound.removeEntry absent unscheduled, spares.actions, spares.size, fun h old => ?_, spares.reads⟩
      rw [← spares.standing h old, State.standing?]
      change (Context.entry? (s.context.removeEntry entity.handle) h).map _ = _
      rw [Context.entry?_removeEntry, if_neg fun same : entity.handle = h => new (same ▸ old)]
      rfl
    exact ih _ forgotten fun other member => created other (List.mem_cons_of_mem _ member)

end Spares

namespace Loading
variable {start s after : State} {batch : Batch}

theorem aside (loading : Loading start batch s) (aside : Aside s after) : Loading start batch after where
  toSpares := loading.toSpares.aside aside
  created := loading.created
  tracked entity member := by
    rw [Action.isTracked_eq_standing, aside.beside.standing, ← Action.isTracked_eq_standing]
    exact loading.tracked entity member

theorem joins (loading : Loading start batch s) {entity : LoadingEntity} (created : entity.handle ∉ start.heap)
    (tracked : s.context.isTracked entity.handle = true) : Loading start ⟨batch.entities ++ [entity]⟩ s := by
  refine ⟨loading.toSpares, fun other member => ?_, fun other member => ?_⟩
  · rcases List.mem_append.mp member with old | new
    · exact loading.created other old
    · rw [List.mem_singleton.mp new]
      exact created
  · rcases List.mem_append.mp member with old | new
    · exact loading.tracked other old
    · rw [List.mem_singleton.mp new]
      exact tracked

end Loading

namespace Heap

theorem next_not_mem (heap : Heap) : (⟨heap.size⟩ : Handle) ∉ heap := Nat.lt_irrefl _

theorem size_create (heap : Heap) (x : Instance) : (heap.create x).2.size = heap.size + 1 := Array.size_push _

theorem next_mem_create (heap : Heap) (x : Instance) : (⟨heap.size⟩ : Handle) ∈ (heap.create x).2 := by
  change heap.size < (heap.create x).2.size
  rw [heap.size_create]
  exact Nat.lt_succ_self _

end Heap

theorem Aside.create (s : State) (x : Instance) : Aside s (s.mapHeap fun _ => (s.heap.create x).2) := by
  refine .silent ⟨fun _ => rfl, fun _ => rfl, ?_, rfl⟩ rfl
  change s.heap.size ≤ (s.heap.create x).2.size
  rw [s.heap.size_create]
  exact Nat.le_succ _

theorem State.Sound.untracked {s : State} (sound : s.Sound) {h : Handle} (outside : h ∉ s.heap) :
    s.context.entry? h = none := by
  apply Classical.byContradiction
  intro tracked
  exact outside (sound.allocated h tracked)

theorem State.Sound.next_unknown {s : State} (sound : s.Sound) : s.context.entry? ⟨s.heap.size⟩ = none :=
  sound.untracked s.heap.next_not_mem

namespace Action
open Aside (frame)
variable {start s after : State} {d : Descriptor} {options : LoadOptions} {progress : LoadProgress}
  {key : EntityKey} {hydrated : List AttributeValue}

theorem registerLoading_exec (batch : Batch) (entity : LoadingEntity) (s : State) :
    ∃ asked, Aside s asked ∧ (registerLoading batch entity).exec s = (.ok (batch.register entity), asked) := by
  unfold registerLoading
  rcases batch.register entity with ⟨registration, grown⟩
  dsimp only
  split
  · exact ⟨_, Aside.record s rfl, rfl⟩
  · exact ⟨s, frame.refl s, rfl⟩

theorem trackLoading_loading {entity : LoadingEntity} {answer : Except Error Unit} {batch : Batch}
    (initial : start.Sound) (loading : Loading start batch s) (created : entity.handle ∉ start.heap)
    (allocated : entity.handle ∈ s.heap) (unknown : s.context.entry? entity.handle = none)
    (ran : (trackLoading entity key options).exec s = (answer, after)) :
    Loading start batch after ∧ (answer = .ok () → after.context.isTracked entity.handle = true) := by
  cases answer with
  | error e =>
    obtain ⟨-, rfl⟩ := changeContext_error ran
    exact ⟨loading, nofun⟩
  | ok _ =>
    obtain ⟨context, added, rfl⟩ := changeContext_ok ran
    have adds := Context.addEntity_ok added
    have grown (other : Handle) (tracked : s.context.isTracked other = true) : context.isTracked other = true := by
      rw [Context.isTracked_eq, adds.entry?]
      rw [Context.isTracked_eq] at tracked
      split
      · rfl
      · exact tracked
    refine ⟨⟨⟨?_, loading.actions, loading.size, fun other old => ?_, loading.reads⟩, loading.created,
      fun other member => grown _ (loading.tracked other member)⟩, fun _ => ?_⟩
    · exact loading.sound.adds allocated (Context.key?_eq_none unknown) (loading.idle initial created).1 adds
    · rw [← loading.standing other old, State.standing?]
      change (context.entry? other).map _ = _
      rw [adds.entry?, if_neg fun same : entity.handle = other => created (same ▸ old)]
      rfl
    · change context.isTracked entity.handle = true
      rw [Context.isTracked_eq, adds.entry?, if_pos rfl]
      rfl

def batchAfter (before : LoadProgress) : Except Error LoadProgress → Batch
  | .ok progress => progress.batch
  | .error _ => before.batch

theorem admitRow_loading {answer : Except Error LoadProgress} (initial : start.Sound)
    (loading : Loading start progress.batch s)
    (ran : (admitRow d options progress key hydrated).exec s = (answer, after)) :
    Loading start (batchAfter progress answer) after := by
  unfold admitRow at ran
  rw [exec_get_bind] at ran
  split at ran
  next existing _ =>
    cases ran
    exact loading
  next =>
    have enlarged := Aside.create s (d.instantiate (some key.id))
    have allocated := s.heap.next_mem_create (d.instantiate (some key.id))
    have unknown := loading.sound.next_unknown
    have fresh : (⟨s.heap.size⟩ : Handle) ∉ start.heap := Nat.not_lt.mpr loading.size
    have loading := loading.aside enlarged
    obtain ⟨asked, quiet, registered⟩ := registerLoading_exec progress.batch ⟨key, d, ⟨s.heap.size⟩, hydrated⟩
      (s.mapHeap fun _ => (s.heap.create (d.instantiate (some key.id))).2)
    change (do
      set (s.mapHeap fun _ => (s.heap.create (d.instantiate (some key.id))).2)
      let registered ← registerLoading progress.batch ⟨key, d, ⟨s.heap.size⟩, hydrated⟩
      if registered.1 = .added then
        trackLoading ⟨key, d, ⟨s.heap.size⟩, hydrated⟩ key options
        return { batch := registered.2, results := progress.results ++ [⟨s.heap.size⟩] }
      else
        modify fun s => s.mapStatistics Statistics.duplicateHydration
        return { batch := registered.2, results := progress.results ++ (registered.2.handle? key).toList } :
        Action LoadProgress).exec s = (answer, after) at ran
    rw [exec_bind, exec_set] at ran
    dsimp only at ran
    rw [exec_bind_ok _ registered] at ran
    have loading := loading.aside quiet
    have known : (⟨s.heap.size⟩ : Handle) ∈ asked.heap := Nat.lt_of_lt_of_le allocated quiet.beside.size
    have untracked : asked.context.entry? ⟨s.heap.size⟩ = none := by
      rw [← State.standing?_eq_none, quiet.beside.standing, enlarged.beside.standing, State.standing?_eq_none]
      exact unknown
    unfold Batch.register at ran
    split at ran
    next held found =>
      have spare : (if held.handle = ⟨s.heap.size⟩ then Registration.repeated else .duplicate) ≠ .added := by
        split <;> decide
      dsimp only at ran
      rw [if_neg spare] at ran
      cases ran
      exact loading.aside (Aside.mapStatistics asked _)
    next missing =>
      dsimp only at ran
      rw [if_pos rfl, exec_bind] at ran
      rcases tracking : (trackLoading ⟨key, d, ⟨s.heap.size⟩, hydrated⟩ key options).exec asked with ⟨e | _, middle⟩
      · rw [tracking] at ran
        cases ran
        exact (trackLoading_loading initial loading fresh known untracked tracking).1
      · rw [tracking] at ran
        cases ran
        obtain ⟨last, tracked⟩ := trackLoading_loading initial loading fresh known untracked tracking
        exact last.joins fresh (tracked rfl)

/-- What follows an action whose answer is read runs from that answer. -/
private theorem bind_of_exec {α β : Type} {action : Action α} {rest : Except Error α → StateM State β}
    {s middle : State} {answer : Except Error α} (ran : action.exec s = (answer, middle)) :
    (ExceptT.run action >>= rest) s = rest answer middle := by
  have began : ExceptT.run action s = (answer, middle) := ran
  simp only [bind, StateT.bind, began]

theorem hydrateRows_loading (initial : start.Sound) : ∀ (rows : List (Except Error Row)) (progress : LoadProgress)
    (s : State) (outcome : Except Error Unit) (last : LoadProgress) (after : State),
    Loading start progress.batch s → hydrateRows d options rows progress s = ((outcome, last), after) →
      Loading start last.batch after
  | [], progress, s, _, _, _, loading, ran => by
    cases ran
    exact loading
  | .error _ :: _, progress, s, _, _, _, loading, ran => by
    cases ran
    exact loading
  | .ok row :: rest, progress, s, outcome, last, after, loading, ran => by
    unfold hydrateRows at ran
    cases hydrated : d.hydrateRow row with
    | error e =>
      rw [hydrated] at ran
      cases ran
      exact loading
    | ok found =>
      obtain ⟨key, state⟩ := found
      rw [hydrated] at ran
      dsimp only at ran
      rcases admitted : (admitRow d options progress key state).exec s with ⟨e | grown, middle⟩
      · rw [bind_of_exec admitted] at ran
        cases ran
        exact admitRow_loading initial loading admitted
      · rw [bind_of_exec admitted] at ran
        exact hydrateRows_loading initial rest grown middle outcome last after
          (admitRow_loading initial loading admitted) ran

theorem load_spares {entity : String} {rows : List (Except Error Row)} {answer : Except Error (List Handle)}
    (sound : s.Sound) (ran : (load entity rows options).exec s = (answer, after)) : Spares s after := by
  have still : Spares s s := ⟨sound, rfl, Nat.le_refl _, fun _ _ => rfl, .refl s⟩
  unfold load at ran
  split at ran
  · rw [exec_bind, exec_descriptor] at ran
    cases mapped : s.session.descriptor entity with
    | error e =>
      rw [mapped] at ran
      cases ran
      exact still
    | ok d =>
      rw [mapped] at ran
      dsimp only at ran
      rcases hydrated : hydrateRows d options rows {} s with ⟨⟨outcome, progress⟩, middle⟩
      have passed : exec (ExceptT.lift (hydrateRows d options rows {})) s = (.ok (outcome, progress), middle) :=
        congrArg (fun found : (Except Error Unit × LoadProgress) × State => (Except.ok found.1, found.2)) hydrated
      have loading : Loading s progress.batch middle := by
        refine hydrateRows_loading sound rows {} s outcome progress middle ?_ hydrated
        exact ⟨still, fun _ member => absurd member List.not_mem_nil, fun _ member => absurd member List.not_mem_nil⟩
      rw [exec_bind_ok _ passed] at ran
      dsimp only at ran
      rw [exec_tryCatch] at ran
      have finished : Keeps Aside (do
          let _ ← (outcome : Except Error Unit)
          finishUp progress.batch options
          return progress.results : Action (List Handle)) middle := by
        refine .bind frame (.lift frame _ middle) fun _ last done => ?_
        obtain ⟨-, rfl⟩ := lift_ok done
        exact .bind frame (finishUp_aside _ _ _ loading.tracked) fun _ s _ => .pure frame _ s
      rcases second : (do
          let _ ← (outcome : Except Error Unit)
          finishUp progress.batch options
          return progress.results : Action (List Handle)).exec middle with ⟨e | results, last⟩
      · rw [second] at ran
        cases ran
        have loading := loading.aside (finished.of_exec second)
        exact loading.toSpares.discard sound _ last loading.created
      · rw [second] at ran
        cases ran
        exact (loading.aside (finished.of_exec second)).toSpares
  · cases ran
    exact still

theorem load_sound {entity : String} {rows : List (Except Error Row)} {answer : Except Error (List Handle)}
    (sound : s.Sound) (ran : (load entity rows options).exec s = (answer, after)) :
    after.Sound ∧ after.actions = s.actions :=
  ⟨(load_spares sound ran).sound, (load_spares sound ran).actions⟩

end Action

end UnitOfWork
