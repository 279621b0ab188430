import UnitOfWork.Proofs.RowAdmission

/-! The second pass of a load. One instance after the other gets the state of its row, as its keys are resolved
and as load listeners leave it, and its entry says so. Whatever listeners and hooks do meanwhile, the entries
and keys of other instances stay as they are. -/

namespace UnitOfWork

namespace Heap
variable (heap : Heap)

theorem read_update (h : Handle) (change : Instance → Instance) (inside : h ∈ heap) :
    (heap.update h change).read h = change (heap.read h) := by
  have inside : h.index < heap.instances.size := inside
  simp only [update, read, Array.getD_eq_getD_getElem?, Array.getElem?_modify, if_true]
  rw [Array.getElem?_eq_getElem inside]
  rfl

theorem update_outside {h : Handle} (change : Instance → Instance) (outside : h ∉ heap) :
    heap.update h change = heap := by
  have beyond : heap.instances.size ≤ h.index := Nat.le_of_not_lt outside
  unfold update
  congr 1
  apply Array.ext_getElem?
  intro position
  rw [Array.getElem?_modify]
  split
  next same =>
    subst position
    rw [Array.getElem?_eq_none beyond]
    rfl
  next => rfl

theorem read_update_of_ne {h other : Handle} (change : Instance → Instance) (different : h ≠ other) :
    (heap.update h change).read other = heap.read other := by
  have elsewhere : h.index ≠ other.index := fun same => different (congrArg Handle.mk same)
  simp [update, read, Array.getD_eq_getD_getElem?, Array.getElem?_modify, elsewhere]

theorem read_edit {edits : List (Handle × Instance)} {h : Handle} (elsewhere : ∀ edit ∈ edits, edit.1 ≠ h) :
    (heap.edit edits).read h = heap.read h := by
  unfold edit
  induction edits generalizing heap with
  | nil => rfl
  | cons edit rest ih =>
    rw [List.foldl_cons, ih _ fun other member => elsewhere other (List.mem_cons_of_mem _ member)]
    exact heap.read_update_of_ne _ (elsewhere edit List.mem_cons_self)

end Heap

/-! Which instances application code may give new contents, seen from the instance it is called for. -/

section
variable (may : Handle → Handle → Prop)

def PreLoadListener.Writes (listener : PreLoadListener) : Prop :=
  ∀ journal event heap, ∀ edit ∈ (listener.call journal event heap).2, may event.entity edit.1

def PostLoadListener.Writes (listener : PostLoadListener) : Prop :=
  ∀ journal event heap, ∀ edit ∈ (listener.call journal event heap).2, may event.entity edit.1

def Hook.Writes (hook : Hook) : Prop := ∀ journal h heap, ∀ edit ∈ hook.run journal h heap, may h edit.1

def Session.preLoadListeners (session : Session) : List PreLoadListener :=
  if session.config.eventSource then session.preLoad else []

def Session.postLoadListeners (session : Session) : List PostLoadListener :=
  if session.config.eventSource then session.postLoad else []

/-- The listeners of a session and the hook of an entity write no more than this. -/
structure State.Writes (s : State) (d : Descriptor) : Prop where
  preLoad : ∀ listener ∈ s.session.preLoadListeners, listener.Writes may
  postLoad : ∀ listener ∈ s.session.postLoadListeners, listener.Writes may
  hook : ∀ hook, d.afterInitialize = some hook → hook.Writes may

end

/-- Listeners answer one after the other, each on the state that the one before it left. -/
inductive PreLoadEvent.Answered : PreLoadEvent → List PreLoadListener → List AttributeValue → Prop where
  | done (event : PreLoadEvent) : event.Answered [] event.state
  | heard {event : PreLoadEvent} {listener : PreLoadListener} {rest : List PreLoadListener}
      {state last : List AttributeValue} (journal : Journal) (heap : Heap)
      (answer : (listener.call journal event heap).1 = .ok state)
      (others : PreLoadEvent.Answered { event with state } rest last) : event.Answered (listener :: rest) last

/-- What serving a load may change besides the instances it creates: the journal, what instances hold, and
what sessions share, but for the counts of the load itself. -/
structure Serves (before after : State) : Prop where
  session : ∃ journal, after.session = { before.session with journal }
  size : after.heap.size = before.heap.size
  enabled : after.shared.statistics.enabled = before.shared.statistics.enabled
  duplicates : after.shared.statistics.duplicates = before.shared.statistics.duplicates
  loads : ∀ name, after.shared.statistics.counter .entityLoads name = before.shared.statistics.counter .entityLoads name

namespace Serves

theorem refl (s : State) : Serves s s := ⟨⟨_, rfl⟩, rfl, rfl, rfl, fun _ => rfl⟩

theorem trans {a b c : State} (first : Serves a b) (second : Serves b c) : Serves a c where
  session := by
    obtain ⟨_, same⟩ := first.session
    obtain ⟨journal, changed⟩ := second.session
    exact ⟨journal, by rw [changed, same]⟩
  size := second.size.trans first.size
  enabled := second.enabled.trans first.enabled
  duplicates := second.duplicates.trans first.duplicates
  loads name := (second.loads name).trans (first.loads name)

theorem frame : Frame Serves := ⟨refl, trans⟩

theorem record (s : State) (call : Call) : Serves s (s.record call) := ⟨⟨_, rfl⟩, rfl, rfl, rfl, fun _ => rfl⟩

theorem edit (s : State) (edits : List (Handle × Instance)) : Serves s (s.mapHeap fun heap => heap.edit edits) :=
  ⟨⟨_, rfl⟩, s.heap.size_edit edits, rfl, rfl, fun _ => rfl⟩

theorem setRegion (s : State) (name : String) (region : MemoryRegion) : Serves s (s.setRegion name region) :=
  ⟨⟨_, rfl⟩, rfl, rfl, rfl, fun _ => rfl⟩

theorem countPut (s : State) (name : String) :
    Serves s (s.mapStatistics fun statistics => statistics.increment .cachePuts name) where
  session := ⟨_, rfl⟩
  size := rfl
  enabled := Statistics.enabled_increment _ _ _
  duplicates := Statistics.duplicates_increment _ _ _
  loads label := by
    cases counting : s.shared.statistics.enabled with
    | true =>
      refine (Statistics.counter_increment _ _ _ counting _ _).trans ?_
      simp
    | false =>
      change (s.shared.statistics.increment .cachePuts name).counter _ _ = _
      rw [Statistics.increment, counting, if_neg Bool.false_ne_true]

end Serves

/-- The instances with this property hold what they held. -/
def Leaves (kept : Handle → Prop) (before after : State) : Prop :=
  ∀ h, kept h → after.heap.read h = before.heap.read h

namespace Leaves
variable {kept : Handle → Prop}

theorem frame : Frame (Leaves kept) where
  refl _ _ _ := rfl
  trans first second h held := (second h held).trans (first h held)

theorem of_same {before after : State} (same : after.heap = before.heap) : Leaves kept before after :=
  fun h _ => congrArg (·.read h) same

theorem edit {edits : List (Handle × Instance)} (s : State) (elsewhere : ∀ edit ∈ edits, ¬ kept edit.1) :
    Leaves kept s (s.mapHeap fun heap => heap.edit edits) :=
  fun _ held => s.heap.read_edit fun edit member same => elsewhere edit member (same ▸ held)

end Leaves

namespace Action
variable {may : Handle → Handle → Prop} {kept : Handle → Prop}

def prepare (event : PreLoadEvent) : Action (List AttributeValue) := do
  let session := (← get).session
  if session.config.eventSource then firePreLoad session.preLoad 0 event else pure event.state

theorem firePreLoad_serves (listeners : List PreLoadListener) (position : Nat) (event : PreLoadEvent) (s : State) :
    Keeps Serves (firePreLoad listeners position event) s := by
  induction listeners generalizing position event s with
  | nil => exact .pure Serves.frame _ s
  | cons listener rest ih =>
    refine .get_bind (.bind Serves.frame (Serves.record s _) fun _ s _ => ?_)
    refine .bind Serves.frame (Serves.edit s _) fun _ s _ => ?_
    exact .bind Serves.frame (.lift Serves.frame _ s) fun state s _ => ih _ _ s

theorem firePreLoad_leaves {listeners : List PreLoadListener} (writes : ∀ listener ∈ listeners, listener.Writes may)
    (position : Nat) (event : PreLoadEvent) (elsewhere : ∀ h, may event.entity h → ¬ kept h) (s : State) :
    Keeps (Leaves kept) (firePreLoad listeners position event) s := by
  induction listeners generalizing position event s with
  | nil => exact .pure Leaves.frame _ s
  | cons listener rest ih =>
    refine .get_bind (.bind Leaves.frame (Leaves.of_same rfl) fun _ s _ => ?_)
    have written := writes listener List.mem_cons_self
    refine .bind Leaves.frame (Leaves.edit s fun edit member => elsewhere _ (written _ _ _ edit member)) fun _ s _ => ?_
    refine .bind Leaves.frame (.lift Leaves.frame _ s) fun state s _ => ?_
    exact ih (fun other member => writes other (List.mem_cons_of_mem _ member)) (position + 1)
      { event with state } elsewhere s

theorem firePreLoad_ok {listeners : List PreLoadListener} {position : Nat} {event : PreLoadEvent}
    {state : List AttributeValue} {s after : State}
    (ran : (firePreLoad listeners position event).exec s = (.ok state, after)) : event.Answered listeners state := by
  induction listeners generalizing position event s with
  | nil =>
    cases ran
    exact .done event
  | cons listener rest ih =>
    unfold firePreLoad at ran
    rw [exec_get_bind, exec_record_bind, exec_modify_bind] at ran
    obtain ⟨answer, middle, answered, rested⟩ := bind_ok ran
    exact .heard _ _ (lift_ok answered).1 (ih rested)

theorem prepare_serves (event : PreLoadEvent) (s : State) : Keeps Serves (prepare event) s := by
  apply Keeps.get_bind
  dsimp only
  split
  · exact firePreLoad_serves _ _ _ s
  · exact .pure Serves.frame _ s

theorem prepare_leaves {event : PreLoadEvent} {s : State} {d : Descriptor} (writes : s.Writes may d)
    (elsewhere : ∀ h, may event.entity h → ¬ kept h) : Keeps (Leaves kept) (prepare event) s := by
  have writes := writes.preLoad
  unfold Session.preLoadListeners at writes
  apply Keeps.get_bind
  dsimp only
  split
  next heard =>
    rw [if_pos heard] at writes
    exact firePreLoad_leaves writes _ _ elsewhere s
  next => exact .pure Leaves.frame _ s

theorem prepare_ok {event : PreLoadEvent} {state : List AttributeValue} {s after : State}
    (ran : (prepare event).exec s = (.ok state, after)) : event.Answered s.session.preLoadListeners state := by
  unfold prepare at ran
  rw [exec_get_bind] at ran
  dsimp only at ran
  unfold Session.preLoadListeners
  split at ran
  next heard =>
    rw [if_pos heard]
    exact firePreLoad_ok ran
  next unheard =>
    rw [if_neg unheard]
    cases ran
    exact .done event

theorem firePostLoad_serves (listeners : List PostLoadListener) (position : Nat) (event : PostLoadEvent) (s : State) :
    Keeps Serves (firePostLoad listeners position event) s := by
  induction listeners generalizing position s with
  | nil => exact .pure Serves.frame _ s
  | cons listener rest ih =>
    refine .get_bind (.bind Serves.frame (Serves.record s _) fun _ s _ => ?_)
    refine .bind Serves.frame (Serves.edit s _) fun _ s _ => ?_
    exact .bind Serves.frame (.lift Serves.frame _ s) fun _ s _ => ih _ s

theorem announceLoaded_serves (entities : List LoadingEntity) (s : State) : Keeps Serves (announceLoaded entities) s := by
  induction entities generalizing s with
  | nil => exact .pure Serves.frame _ s
  | cons entity rest ih =>
    exact .get_bind (.bind Serves.frame (firePostLoad_serves _ _ _ s) fun _ s _ => ih s)

theorem firePostLoad_leaves {listeners : List PostLoadListener} (writes : ∀ listener ∈ listeners, listener.Writes may)
    (position : Nat) (event : PostLoadEvent) (elsewhere : ∀ h, may event.entity h → ¬ kept h) (s : State) :
    Keeps (Leaves kept) (firePostLoad listeners position event) s := by
  induction listeners generalizing position s with
  | nil => exact .pure Leaves.frame _ s
  | cons listener rest ih =>
    refine .get_bind (.bind Leaves.frame (Leaves.of_same rfl) fun _ s _ => ?_)
    have written := writes listener List.mem_cons_self
    refine .bind Leaves.frame (Leaves.edit s fun edit member => elsewhere _ (written _ _ _ edit member)) fun _ s _ => ?_
    refine .bind Leaves.frame (.lift Leaves.frame _ s) fun _ s _ => ?_
    exact ih (fun other member => writes other (List.mem_cons_of_mem _ member)) (position + 1) s

end Action

structure Caches (before after : State) : Prop extends Serves before after where
  heap : after.heap = before.heap

theorem Caches.refl (s : State) : Caches s s := ⟨.refl s, rfl⟩

theorem Caches.trans {a b c : State} (first : Caches a b) (second : Caches b c) : Caches a c :=
  ⟨first.toServes.trans second.toServes, second.heap.trans first.heap⟩

namespace State
variable (s : State) (d : Descriptor) (key : EntityKey) (state : List AttributeValue)

/-- What a region is given for a loaded state. -/
def cacheItem : Versioned :=
  let entry : CacheEntry := ⟨d.name, d.versionOf state, CachedValue.ofAttributes s.heap state⟩
  ⟨if s.session.factory.config.structuredEntries then .structured (entry.structured d) else .entry entry,
    d.versionOf state⟩

/-- What becomes of a region that an entry is offered to. -/
def offering (region : MemoryRegion) (cacheKey : CacheKey) (item : Versioned) : MemoryRegion :=
  if s.context.wasInserted key then (region.update cacheKey item).2
  else (region.put cacheKey item (s.session.factory.config.minimalPuts && s.session.config.cacheMode != .refresh)).2

/-- The regions once a loaded state has been offered to that of its entity. -/
def caching : Registry String Region :=
  if s.session.config.cacheMode.writes then
    match s.region? d with
    | some (name, .memory region) => s.shared.regions.insert name
        (.memory (s.offering key region (s.session.cacheKey d key.id) (s.cacheItem d state)))
    | _ => s.shared.regions
  else s.shared.regions

end State

namespace Action
variable {s : State}

theorem warnUnidentified_exec (handles : List Handle) (s : State) :
    ∃ after, (warnUnidentified handles).exec s = (.ok (), after) ∧ Caches s after ∧ after.shared = s.shared := by
  induction handles generalizing s with
  | nil => exact ⟨s, rfl, .refl s, rfl⟩
  | cons h rest ih =>
    have warned : Caches s (s.record (.warn (.unidentifiedReference (s.heap.describe h)))) := ⟨.record s _, rfl⟩
    obtain ⟨after, ran, caches, same⟩ := ih (s.record (.warn (.unidentifiedReference (s.heap.describe h))))
    exact ⟨after, ran, warned.trans caches, same⟩

theorem offerToRegion_exec (name : String) (region : Region) (key : EntityKey) (cacheKey : CacheKey) (item : Versioned)
    (s : State) : ∃ accepted after, (offerToRegion name region key cacheKey item).exec s = (.ok accepted, after) ∧
      Caches s after ∧ after.shared.regions = match region with
        | .memory region => s.shared.regions.insert name (.memory (s.offering key region cacheKey item))
        | .external _ => s.shared.regions := by
  cases region with
  | external accepts => exact ⟨_, _, rfl, ⟨.record s _, rfl⟩, rfl⟩
  | memory region =>
    have offered : (offerToRegion name (.memory region) key cacheKey item).exec s =
        (.ok (if s.context.wasInserted key then region.update cacheKey item else region.put cacheKey item
          (s.session.factory.config.minimalPuts && s.session.config.cacheMode != .refresh)).1,
        s.setRegion name (s.offering key region cacheKey item)) := by
      unfold offerToRegion State.offering
      rw [exec_get_bind]
      dsimp only
      split <;> rfl
    exact ⟨_, _, offered, ⟨.setRegion s _ _, rfl⟩, rfl⟩

/-- The region may refuse an entry, but the load goes on. -/
theorem cacheLoaded_exec (d : Descriptor) (key : EntityKey) (state : List AttributeValue) (s : State) :
    ∃ cached, (cacheLoaded d key state).exec s = (.ok (), cached) ∧ Caches s cached ∧
      cached.shared.regions = s.caching d key state := by
  unfold cacheLoaded State.caching
  rw [exec_get_bind]
  split
  · split
    next unmapped =>
      rw [unmapped]
      exact ⟨s, rfl, .refl s, rfl⟩
    next name region mapped =>
      obtain ⟨warned, first, quiet, same⟩ := warnUnidentified_exec (AttributeValue.unidentifiedAmong s.heap state) s
      obtain ⟨accepted, cached, offered, caches, changed⟩ := offerToRegion_exec name region key
        (s.session.cacheKey d key.id) (s.cacheItem d state) warned
      have alike : warned.offering key = s.offering key := by
        obtain ⟨_, unchanged⟩ := quiet.session
        unfold State.offering State.context
        rw [unchanged]
      rw [alike, same] at changed
      have counted : ∃ last, (if accepted then modify fun s => s.mapStatistics fun statistics =>
            statistics.increment .cachePuts name else return () : Action Unit).exec cached = (.ok (), last) ∧
          Caches cached last ∧ last.shared.regions = cached.shared.regions := by
        cases accepted with
        | true => exact ⟨_, rfl, ⟨.countPut cached name, rfl⟩, rfl⟩
        | false => exact ⟨_, rfl, .refl cached, rfl⟩
      obtain ⟨last, ended, counts, kept⟩ := counted
      refine ⟨last, ?_, (quiet.trans caches).trans counts, kept.trans (changed.trans ?_)⟩
      · dsimp only
        rw [exec_bind_ok _ first]
        exact (exec_bind_ok _ offered).trans ended
      · rw [mapped]
        cases region <;> rfl
  · exact ⟨s, rfl, .refl s, rfl⟩

theorem runHook_exec (d : Descriptor) (h : Handle) (s : State) :
    ∃ after, (runHook d h).exec s = (.ok (), after) ∧ Serves s after ∧ after.shared = s.shared ∧
      (d.afterInitialize = none → after = s) ∧
      ∀ may kept, (∀ hook, d.afterInitialize = some hook → hook.Writes may) → (∀ other, may h other → ¬ kept other) →
        Leaves kept s after := by
  unfold runHook
  split
  next absent => exact ⟨s, rfl, .refl s, rfl, fun _ => rfl, fun _ _ _ _ => .of_same rfl⟩
  next hook given =>
    refine ⟨_, rfl, (Serves.record s _).trans (.edit _ _), rfl, ?_, fun may kept writes elsewhere => ?_⟩
    · intro absent
      rw [given] at absent
      cases absent
    · have recorded : Leaves kept s (s.record (.initialized h (s.heap.values h))) := .of_same rfl
      refine Leaves.frame.trans recorded (Leaves.edit _ fun edit member => ?_)
      exact elsewhere _ (writes hook given _ _ _ edit member)

end Action

namespace LoadingEntity

/-- The rows that the keys of the entity lead to. -/
def keys (entity : LoadingEntity) (model : Metamodel) : List EntityKey :=
  model.keysAmong entity.descriptor.attributes entity.hydrated

def leads (entity : LoadingEntity) (model : Metamodel) : Bool :=
  model.leadAll entity.descriptor.attributes entity.hydrated

def resolved (entity : LoadingEntity) (s : State) : List AttributeValue :=
  s.session.factory.metamodel.resolvedAll s.context.referenceTo entity.descriptor.attributes entity.hydrated

def event (entity : LoadingEntity) (s : State) : PreLoadEvent where
  entity := entity.handle
  id := entity.key.id
  descriptor := entity.descriptor
  state := entity.resolved s

end LoadingEntity

namespace State
variable (s : State) (options : LoadOptions) (entity : LoadingEntity) (state : List AttributeValue)

/-- The state in which the instance holds its attributes. -/
def filling : State := s.mapHeap fun heap => heap.update entity.handle fun x => { x with values := state }

/-- The state in which the entry of the instance says so. -/
def entering : State :=
  (s.mapSession fun session => { session with
    naturalIds := session.naturalIds.record s.heap entity.descriptor entity.key.id state }).mapContext fun context =>
      context.updateEntry entity.handle (Action.loadedEntry entity.descriptor state
        (Action.loadsReadOnly s.session entity.descriptor entity.key options))

end State

/-- An instance has been given a state, and its entry says so. -/
structure Installs (options : LoadOptions) (entity : LoadingEntity) (state : List AttributeValue)
    (before after : State) : Prop where
  session : ∃ journal naturalIds, after.session = { before.session with
    journal, naturalIds
    context := before.context.updateEntry entity.handle (Action.loadedEntry entity.descriptor state
      (Action.loadsReadOnly before.session entity.descriptor entity.key options)) }
  size : after.heap.size = before.heap.size
  enabled : after.shared.statistics.enabled = before.shared.statistics.enabled
  duplicates : after.shared.statistics.duplicates = before.shared.statistics.duplicates
  loads : before.shared.statistics.enabled = true → ∀ name, after.shared.statistics.counter .entityLoads name =
    before.shared.statistics.counter .entityLoads name + if entity.descriptor.name = name then 1 else 0
  leaves : ∀ may kept, before.Writes may entity.descriptor → ¬ kept entity.handle →
    (∀ other, may entity.handle other → ¬ kept other) → Leaves kept before after
  filled : entity.handle ∈ before.heap → before.Writes (fun _ _ => False) entity.descriptor →
    after.heap.read entity.handle = { before.heap.read entity.handle with values := state }
  unhooked : entity.descriptor.afterInitialize = none →
    after.heap = (before.filling entity state).heap ∧
      after.shared.regions = (before.filling entity state).caching entity.descriptor entity.key state

namespace Action
variable {options : LoadOptions} {entity : LoadingEntity} {state : List AttributeValue} {batch : Batch} {s after : State}

theorem install_exec (options : LoadOptions) (entity : LoadingEntity) (state : List AttributeValue) (s : State) :
    ∃ after, (install entity.descriptor entity.key options entity.handle state).exec s = (.ok (), after) ∧
      Installs options entity state s after := by
  obtain ⟨cached, cacheRan, caches, regions⟩ :=
    cacheLoaded_exec entity.descriptor entity.key state (s.filling entity state)
  obtain ⟨hooked, hookRan, serves, shared, unhooked, leaves⟩ :=
    runHook_exec entity.descriptor entity.handle (cached.entering options entity state)
  have statistics : hooked.shared.statistics = cached.shared.statistics := congrArg Shared.statistics shared
  refine ⟨hooked.mapStatistics fun statistics => statistics.increment .entityLoads entity.descriptor.name, ?_, ?_⟩
  · unfold install
    rw [exec_modify_bind]
    change (cacheLoaded entity.descriptor entity.key state >>= _).exec (s.filling entity state) = _
    rw [exec_bind_ok _ cacheRan, exec_modify_bind, exec_modify_bind]
    exact exec_bind_ok _ hookRan
  constructor
  case session =>
    obtain ⟨_, same⟩ := caches.session
    obtain ⟨journal, changed⟩ := serves.session
    refine ⟨journal, (cached.entering options entity state).session.naturalIds, changed.trans ?_⟩
    unfold State.entering State.mapContext State.mapSession
    rw [same]
    rfl
  case size =>
    change hooked.heap.size = _
    rw [serves.size]
    change cached.heap.size = _
    rw [caches.heap]
    exact s.heap.size_update _ _
  case enabled =>
    refine (Statistics.enabled_increment _ _ _).trans ?_
    rw [statistics]
    exact caches.enabled
  case duplicates =>
    refine (Statistics.duplicates_increment _ _ _).trans ?_
    rw [statistics]
    exact caches.duplicates
  case loads =>
    intro counting name
    have still : hooked.shared.statistics.enabled = true := by
      rw [statistics, caches.enabled]
      exact counting
    refine (Statistics.counter_increment _ _ _ still _ _).trans ?_
    rw [statistics, caches.loads]
    simp only [true_and]
    rfl
  case leaves =>
    intro may kept writes elsewhere others h held
    have quiet := leaves may kept writes.hook others h held
    refine quiet.trans ?_
    change cached.heap.read h = _
    rw [caches.heap]
    exact s.heap.read_update_of_ne _ fun same => elsewhere (same ▸ held)
  case filled =>
    intro inside writes
    have quiet := leaves (fun _ _ => False) (fun _ => True) writes.hook (fun _ none_ => none_.elim) entity.handle trivial
    refine quiet.trans ?_
    change cached.heap.read entity.handle = _
    rw [caches.heap]
    exact s.heap.read_update _ _ inside
  case unhooked =>
    intro absent
    rw [unhooked absent]
    exact ⟨caches.heap, regions⟩

theorem prepare_bind {α : Type} (event : PreLoadEvent) (rest : List AttributeValue → Action α) (s : State) :
    (prepare event >>= rest).exec s = if s.session.config.eventSource
      then (firePreLoad s.session.preLoad 0 event >>= rest).exec s else (rest event.state).exec s := by
  rw [exec_bind, prepare, exec_get_bind]
  dsimp only
  by_cases heard : s.session.config.eventSource = true
  · rw [if_pos heard, if_pos heard, exec_bind]
  · rw [if_neg heard, if_neg heard]
    rfl

theorem materialize_exec (batch : Batch) (options : LoadOptions) {entity : LoadingEntity}
    (keyed : batch.keyFor? entity.handle = some entity.key) (tracked : s.context.isTracked entity.handle = true) :
    (materialize batch options entity).exec s = (do
      let resolved ← resolveAll batch entity.descriptor.name entity.descriptor.attributes entity.hydrated
      let state ← prepare
        { entity := entity.handle, id := entity.key.id, descriptor := entity.descriptor, state := resolved }
      install entity.descriptor entity.key options entity.handle state).exec s := by
  rw [materialize_eq, keyed, Option.getD_some]
  dsimp only
  rw [exec_get_bind, tracked, Bool.not_true, if_neg Bool.false_ne_true]
  rw [exec_bind, exec_bind]
  rcases (resolveAll batch entity.descriptor.name entity.descriptor.attributes entity.hydrated).exec s with
    ⟨e | resolved, middle⟩
  · rfl
  · dsimp only
    rw [prepare_bind, exec_get_bind]
    split <;> rfl

inductive Materializes (options : LoadOptions) (entity : LoadingEntity) (s : State) : Except Error Unit → State → Prop
  | lost {e : Error} {some_ : List EntityKey} (among : some_ ⊆ entity.keys s.session.factory.metamodel)
      (unsound : entity.leads s.session.factory.metamodel = false) :
      Materializes options entity s (.error e) (s.proxying some_)
  | refused {e : Error} {after : State} (sound : entity.leads s.session.factory.metamodel = true)
      (ran : (prepare (entity.event s)).exec (s.proxying (entity.keys s.session.factory.metamodel)) =
        (.error e, after)) :
      Materializes options entity s (.error e) after
  | done {state : List AttributeValue} {prepared after : State}
      (sound : entity.leads s.session.factory.metamodel = true)
      (ran : (prepare (entity.event s)).exec (s.proxying (entity.keys s.session.factory.metamodel)) =
        (.ok state, prepared))
      (installs : Installs options entity state prepared after) :
      Materializes options entity s (.ok ()) after

theorem materialize_cases {answer : Except Error Unit} (known : batch.Known s.context)
    (keyed : batch.keyFor? entity.handle = some entity.key) (tracked : s.context.isTracked entity.handle = true)
    (ran : (materialize batch options entity).exec s = (answer, after)) : Materializes options entity s answer after := by
  rw [materialize_exec batch options keyed tracked] at ran
  cases resolveAll_resolution batch entity.descriptor.name entity.descriptor.attributes entity.hydrated s known with
  | lost e some_ among unsound lost =>
    rw [exec_bind_error _ lost] at ran
    cases ran
    exact .lost among unsound
  | done sound resolved =>
    rw [exec_bind_ok _ resolved] at ran
    change (prepare (entity.event s) >>= install entity.descriptor entity.key options entity.handle).exec
      (s.proxying (entity.keys s.session.factory.metamodel)) = _ at ran
    rcases prepared : (prepare (entity.event s)).exec (s.proxying (entity.keys s.session.factory.metamodel)) with
      ⟨e | state, middle⟩
    · rw [exec_bind_error _ prepared] at ran
      cases ran
      exact .refused sound prepared
    · rw [exec_bind_ok _ prepared] at ran
      obtain ⟨last, installed, installs⟩ := install_exec options entity state middle
      rw [installed] at ran
      cases ran
      exact .done sound prepared installs

end Action

/-- An instance has been initialized: its keys are resolved, listeners have had their say, and it is given the
state that they left. -/
structure Materialized (options : LoadOptions) (entity : LoadingEntity) (state : List AttributeValue)
    (before after : State) : Prop where
  answered : (entity.event before).Answered before.session.preLoadListeners state
  session : ∃ journal naturalIds, after.session = { before.session with
    journal, naturalIds
    context := (before.proxying (entity.keys before.session.factory.metamodel)).context.updateEntry entity.handle
      (Action.loadedEntry entity.descriptor state (Action.loadsReadOnly
        (before.proxying (entity.keys before.session.factory.metamodel)).session entity.descriptor entity.key options)) }
  size : after.heap.size = before.heap.size
  enabled : after.shared.statistics.enabled = before.shared.statistics.enabled
  duplicates : after.shared.statistics.duplicates = before.shared.statistics.duplicates
  loads : before.shared.statistics.enabled = true → ∀ name, after.shared.statistics.counter .entityLoads name =
    before.shared.statistics.counter .entityLoads name + if entity.descriptor.name = name then 1 else 0
  filled : entity.handle ∈ before.heap → before.Writes (fun _ _ => False) entity.descriptor →
    after.heap.read entity.handle = { before.heap.read entity.handle with values := state }

theorem State.Writes.of_session {may : Handle → Handle → Prop} {d : Descriptor} {before after : State}
    (writes : before.Writes may d) (preLoad : after.session.preLoadListeners = before.session.preLoadListeners)
    (postLoad : after.session.postLoadListeners = before.session.postLoadListeners) : after.Writes may d :=
  ⟨preLoad ▸ writes.preLoad, postLoad ▸ writes.postLoad, writes.hook⟩

theorem Serves.writes {may : Handle → Handle → Prop} {d : Descriptor} {before after : State} (serves : Serves before after)
    (writes : before.Writes may d) : after.Writes may d := by
  obtain ⟨_, same⟩ := serves.session
  refine writes.of_session ?_ ?_ <;> rw [same] <;> rfl

namespace Action

theorem announceLoaded_leaves {may : Handle → Handle → Prop} {kept : Handle → Prop} {entities : List LoadingEntity}
    {s : State} (heard : s.session.config.eventSource = true)
    (writes : ∀ entity ∈ entities, s.Writes may entity.descriptor)
    (elsewhere : ∀ entity ∈ entities, ∀ h, may entity.handle h → ¬ kept h) :
    Keeps (Leaves kept) (announceLoaded entities) s := by
  induction entities generalizing s with
  | nil => exact .pure Leaves.frame _ s
  | cons entity rest ih =>
    have hears : s.session.postLoadListeners = s.session.postLoad := if_pos heard
    have written := (writes entity List.mem_cons_self).postLoad
    rw [hears] at written
    refine .get_bind (.bind Leaves.frame ?_ fun _ middle ran => ?_)
    · exact firePostLoad_leaves written _ _ (elsewhere entity List.mem_cons_self) s
    · have serves := (firePostLoad_serves _ _ _ s).of_exec ran
      refine ih ?_ (fun other member => serves.writes (writes other (List.mem_cons_of_mem _ member))) ?_
      · obtain ⟨_, same⟩ := serves.session
        rw [same]
        exact heard
      · exact fun other member => elsewhere other (List.mem_cons_of_mem _ member)

namespace Materializes
variable {options : LoadOptions} {entity : LoadingEntity} {s after : State} {answer : Except Error Unit}

theorem materialized (ended : Materializes options entity s (.ok ()) after) :
    entity.leads s.session.factory.metamodel = true ∧ ∃ state, Materialized options entity state s after := by
  cases ended with
  | @done state prepared _ sound ran installs =>
    have serves := (prepare_serves _ _).of_exec ran
    obtain ⟨_, same⟩ := serves.session
    refine ⟨sound, state, ?_⟩
    constructor
    case answered =>
      have answered := prepare_ok ran
      exact answered
    case session =>
      obtain ⟨journal, naturalIds, changed⟩ := installs.session
      refine ⟨journal, naturalIds, changed.trans ?_⟩
      unfold State.context
      rw [same]
      rfl
    case size => exact installs.size.trans serves.size
    case enabled => exact installs.enabled.trans serves.enabled
    case duplicates => exact installs.duplicates.trans serves.duplicates
    case loads =>
      intro counting name
      rw [installs.loads (serves.enabled.trans counting) name, serves.loads name]
      rfl
    case filled =>
      intro inside writes
      have inside : entity.handle ∈ prepared.heap := Nat.lt_of_lt_of_eq inside serves.size.symm
      have writes : (s.proxying (entity.keys s.session.factory.metamodel)).Writes (fun _ _ => False) entity.descriptor :=
        writes.of_session rfl rfl
      have quiet : Leaves (fun _ => True) (s.proxying (entity.keys s.session.factory.metamodel)) prepared :=
        (prepare_leaves writes fun _ none_ => none_.elim).of_exec ran
      rw [installs.filled inside (serves.writes writes), quiet entity.handle trivial]
      rfl

theorem leaves {may : Handle → Handle → Prop} {kept : Handle → Prop} (ended : Materializes options entity s answer after)
    (writes : s.Writes may entity.descriptor) (other : ¬ kept entity.handle)
    (elsewhere : ∀ h, may entity.handle h → ¬ kept h) : Leaves kept s after := by
  have began : Leaves kept s (s.proxying (entity.keys s.session.factory.metamodel)) := .of_same rfl
  have writes : (s.proxying (entity.keys s.session.factory.metamodel)).Writes may entity.descriptor :=
    writes.of_session rfl rfl
  cases ended with
  | lost => exact .of_same rfl
  | refused _ ran => exact Leaves.frame.trans began ((prepare_leaves writes elsewhere).of_exec ran)
  | done _ ran installs =>
    have prepared := Leaves.frame.trans began ((prepare_leaves writes elsewhere).of_exec ran)
    have serves := (prepare_serves _ _).of_exec ran
    exact Leaves.frame.trans prepared (installs.leaves may kept (serves.writes writes) other elsewhere)

end Materializes

end Action

end UnitOfWork
