import UnitOfWork.Proofs.RememberedRows

/-! What the operations of a session consist of. Apart from the deletes of a flush and from clearing the session, every
one of them selects rows, makes other calls, records natural ids, and for the rest does nothing that says anything of a
row. A relation that allows these steps holds around any operation, however it ends. -/

namespace UnitOfWork

/-- No call is made, and nothing is learned of a row. -/
structure State.Uneventful (before after : State) : Prop where
  journal : after.session.journal = before.session.journal
  naturalIds : after.session.naturalIds = before.session.naturalIds
  rows : after.context.databaseSnapshots = before.context.databaseSnapshots
  factory : after.session.factory = before.session.factory
  source : after.session.snapshotSource = before.session.snapshotSource

/-- A relation that the operations of a session cannot leave. -/
structure Permits (fits : State → Descriptor → EntityKey → Prop) (relation : State → State → Prop) : Prop
    extends AdmitsKeys fits relation where
  silent : ∀ {before after}, State.Uneventful before after → relation before after
  tell : ∀ s {call : Call}, call.isProbe = false → relation s (s.record call)
  name : ∀ (s : State) d id state, relation s (s.mapSession fun session =>
    { session with naturalIds := session.naturalIds.record s.heap d id state })

namespace Context
variable {context after : Context} {h : Handle} {key : EntityKey}

theorem databaseSnapshots_assignKey {entity : String} (assigned : context.assignKey h entity key = .ok after) :
    after.databaseSnapshots = context.databaseSnapshots := by
  obtain ⟨_, _, -, -, ⟨-, rfl⟩ | ⟨-, -, adds⟩⟩ := assignKey_ok assigned
  · rfl
  · exact adds.databaseSnapshots

theorem databaseSnapshots_removeAll (entities : List LoadingEntity) (context : Context) :
    (entities.foldl (fun context entity => context.removeEntry entity.handle) context).databaseSnapshots =
      context.databaseSnapshots := by
  induction entities generalizing context with
  | nil => rfl
  | cons entity rest ih => exact (ih _).trans (context.databaseSnapshots_removeEntry entity.handle)

end Context

namespace Action

section
variable {fits : State → Descriptor → EntityKey → Prop} {relation : State → State → Prop} (permits : Permits fits relation)
include permits

theorem modify_keeps {change : State → State} (s : State) (silent : State.Uneventful s (change s)) :
    Keeps relation (modify change : Action PUnit) s := permits.silent silent

theorem mapHeap_keeps (change : Heap → Heap) (s : State) :
    Keeps relation (modify fun s => s.mapHeap change : Action PUnit) s := modify_keeps permits s ⟨rfl, rfl, rfl, rfl, rfl⟩

theorem mapActions_keeps (change : ActionQueue → ActionQueue) (s : State) :
    Keeps relation (modify fun s => s.mapActions change : Action PUnit) s := modify_keeps permits s ⟨rfl, rfl, rfl, rfl, rfl⟩

theorem mapStatistics_keeps (change : Statistics → Statistics) (s : State) :
    Keeps relation (modify fun s => s.mapStatistics change : Action PUnit) s :=
  modify_keeps permits s ⟨rfl, rfl, rfl, rfl, rfl⟩

theorem mapContext_keeps {change : Context → Context} (s : State)
    (same : (change s.context).databaseSnapshots = s.context.databaseSnapshots) :
    Keeps relation (modify fun s => s.mapContext change : Action PUnit) s :=
  modify_keeps permits s ⟨rfl, rfl, same, rfl, rfl⟩

theorem changeContext_keeps {change : Context → Except Error Context} (s : State)
    (same : ∀ context, change s.context = .ok context → context.databaseSnapshots = s.context.databaseSnapshots) :
    Keeps relation (changeContext change) s := by
  unfold Keeps
  rw [exec_changeContext]
  cases changed : change s.context with
  | ok context => exact permits.silent ⟨rfl, rfl, same context changed, rfl, rfl⟩
  | error e => exact permits.frame.refl s

theorem addEntity_keeps (h : Handle) (entry : Entry) (s : State) :
    Keeps relation (changeContext fun context => context.addEntity h entry) s :=
  changeContext_keeps permits s fun _ added => (Context.addEntity_ok added).databaseSnapshots

/-! Inserts are queued and written. -/

theorem queueInsert_keeps (h : Handle) (d : Descriptor) (early : Bool) (s : State) :
    Keeps relation (queueInsert h d early) s := by
  refine .get_bind (.bind permits.frame (Nullifier.nullifyAll_keeps permits.toAdmitsKeys _ _ _ s) fun state s _ => ?_)
  exact mapActions_keeps permits _ s

theorem queueReleased_keeps (released : List ParkedInsert) (s : State) : Keeps relation (queueReleased released) s := by
  induction released generalizing s with
  | nil => exact .pure permits.frame _ s
  | cons insert rest ih =>
    have queued : Keeps relation (tryCatch (queueInsert insert.handle insert.descriptor insert.early) fun e => do
        modify fun s => s.mapActions fun queue => queue.park (insert :: rest)
        throw e) s := by
      refine .tryCatch permits.frame (queueInsert_keeps permits _ _ _ s) fun e s _ => ?_
      exact .bind permits.frame (mapActions_keeps permits _ s) fun _ s _ => .throw permits.frame _ s
    exact .bind permits.frame queued fun _ s _ => ih s

theorem releaseParked_keeps (h : Handle) (s : State) : Keeps relation (releaseParked h) s := by
  refine .get_bind (.bind permits.frame ?_ fun _ s _ => queueReleased_keeps permits _ s)
  exact mapActions_keeps permits _ s

theorem insertedIdentifier_keeps (h : Handle) (current given : Option Identifier) (s : State) :
    Keeps relation (insertedIdentifier h current given) s := by
  unfold insertedIdentifier
  split
  · exact .bind permits.frame (mapHeap_keeps permits _ s) fun _ s _ => .pure permits.frame _ s
  · exact .pure permits.frame _ s
  · exact .get_bind (.throw permits.frame _ s)

theorem recordInsert_keeps (insert : Insert) (key : EntityKey) (s : State) : Keeps relation (recordInsert insert key) s :=
  permits.frame.trans (permits.name s insert.descriptor key.id insert.state)
    (permits.silent ⟨rfl, rfl, rfl, rfl, rfl⟩)

theorem writeInsert_keeps (writer : Writer) (insert : Insert) (s : State) : Keeps relation (writeInsert writer insert) s := by
  refine .get_bind (.bind permits.frame (permits.tell s rfl) fun _ s _ => ?_)
  refine .bind permits.frame (.lift permits.frame _ s) fun given s _ => ?_
  refine .bind permits.frame (insertedIdentifier_keeps permits _ _ given s) fun id s _ => ?_
  refine .bind permits.frame ?_ fun _ s _ => recordInsert_keeps permits insert _ s
  exact changeContext_keeps permits s fun _ assigned => Context.databaseSnapshots_assignKey assigned

theorem executeInsert_keeps (writer : Writer) (insert : Insert) (s : State) :
    Keeps relation (executeInsert writer insert) s := by
  rw [executeInsert_eq]
  exact .bind permits.frame (writeInsert_keeps permits writer insert s) fun _ s _ => releaseParked_keeps permits _ s

theorem queueReady_keeps (s : State) : Keeps relation (takeReady >>= queueReleased) s := by
  refine .bind permits.frame ?_ fun ready s _ => queueReleased_keeps permits ready s
  exact .get_bind (.bind permits.frame (mapActions_keeps permits _ s) fun _ s _ => .pure permits.frame _ s)

theorem nextInsert_keeps {writer : Writer} {insert : Insert} {rest : List Insert} {answer : Except Error Unit}
    {s after : State} (ran : (executeInsert writer insert).exec (s.taking rest) = (answer, after)) : relation s after := by
  have taken : relation s (s.taking rest) := permits.silent ⟨rfl, rfl, rfl, rfl, rfl⟩
  exact permits.frame.trans taken ((executeInsert_keeps permits writer insert (s.taking rest)).of_exec ran)

/-! An instance is saved, deleted or switched. -/

theorem scheduleInsert_keeps (h : Handle) (d : Descriptor) (early : Bool) (s : State) :
    Keeps relation (scheduleInsert h d early) s := by
  refine .get_bind (.bind permits.frame (dependencies_keeps permits.toAdmitsKeys _ _ _ _ s) fun waits s _ => ?_)
  split
  · exact queueInsert_keeps permits h d early s
  · exact mapActions_keeps permits _ s

theorem keyToSave_keeps (d : Descriptor) (h : Handle) (s : State) : Keeps relation (keyToSave d h) s := by
  apply Keeps.get_bind
  split
  · split
    · exact .pure permits.frame _ s
    · split
      · exact .throw permits.frame _ s
      · exact .pure permits.frame _ s
  · split
    · exact .throw permits.frame _ s
    · exact .pure permits.frame _ s

theorem save_keeps (h : Handle) (early : Bool) (s : State) : Keeps relation (save h early) s := by
  apply Keeps.get_bind
  split
  · exact .pure permits.frame _ s
  · refine .bind permits.frame (.lift permits.frame _ s) fun d s _ => ?_
    refine .bind permits.frame (keyToSave_keeps permits d h s) fun key s _ => ?_
    refine .bind permits.frame (addEntity_keeps permits h _ s) fun _ s _ => ?_
    refine .tryCatch permits.frame (scheduleInsert_keeps permits h d _ s) fun e s _ => ?_
    refine .bind permits.frame ?_ fun _ s _ => .throw permits.frame _ s
    exact mapContext_keeps permits s (Context.databaseSnapshots_removeEntry _ h)

theorem delete_keeps (h : Handle) (s : State) : Keeps relation (delete h) s := by
  rcases ran : (delete h).exec s with ⟨answer, after⟩
  unfold Keeps
  rw [ran]
  cases delete_cases ran with
  | refused | gone => exact permits.frame.refl s
  | canceled => exact permits.silent ⟨rfl, rfl, Context.databaseSnapshots_removeEntry _ h, rfl, rfl⟩
  | scheduled => exact permits.silent ⟨rfl, rfl, rfl, rfl, rfl⟩

theorem setReadOnly_keeps (h : Handle) (readOnly : Bool) (s : State) : Keeps relation (setReadOnly h readOnly) s := by
  unfold Keeps
  rcases setReadOnly_cases h readOnly s with same | ⟨_, _, _, -, -, -, same⟩ <;> rw [same]
  · exact permits.frame.refl s
  · exact permits.silent ⟨rfl, rfl, rfl, rfl, rfl⟩

/-! Rows are loaded. -/

theorem resolveReference_keeps (batch : Batch) (entity : String) (id : Identifier) (s : State) :
    Keeps relation (resolveReference batch entity id) s := by
  refine .bind permits.frame (.lift permits.frame _ s) fun d s _ => .get_bind ?_
  split
  · split <;> exact .pure permits.frame _ _
  · split
    · exact .pure permits.frame _ _
    · refine .bind permits.frame ?_ fun _ s _ => .pure permits.frame _ s
      exact modify_keeps permits s ⟨rfl, rfl, rfl, rfl, rfl⟩

mutual

theorem resolve_keeps (batch : Batch) (entity : String) (a : Attribute) : ∀ (value : AttributeValue) (s : State),
    Keeps relation (resolve batch entity a value) s
  | .foreignKey id, s => by
    unfold resolve
    split
    · exact resolveReference_keeps permits batch _ id s
    · exact .throw permits.frame _ s
  | .anyKey target id, s => by
    unfold resolve
    exact resolveReference_keeps permits batch target id s
  | .embedded children, s => by
    unfold resolve
    split
    · exact .bind permits.frame (resolveAll_keeps batch entity _ children s) fun _ s _ => .pure permits.frame _ s
    · exact .pure permits.frame _ s
  | .null, s | .basic _, s | .reference _, s | .unfetched, s => .pure permits.frame _ s

theorem resolveAll_keeps (batch : Batch) (entity : String) : ∀ (attributes : List Attribute)
    (values : List AttributeValue) (s : State), Keeps relation (resolveAll batch entity attributes values) s
  | a :: attributes, value :: values, s => by
    unfold resolveAll
    refine .bind permits.frame (resolve_keeps batch entity a value s) fun _ s _ => ?_
    exact .bind permits.frame (resolveAll_keeps batch entity attributes values s) fun _ s _ => .pure permits.frame _ s
  | [], values, s => by
    unfold resolveAll
    exact .pure permits.frame _ s
  | _ :: _, [], s => .pure permits.frame _ s

end

theorem firePreLoad_keeps (listeners : List PreLoadListener) (position : Nat) (event : PreLoadEvent) (s : State) :
    Keeps relation (firePreLoad listeners position event) s := by
  induction listeners generalizing position event s with
  | nil => exact .pure permits.frame _ s
  | cons listener rest ih =>
    refine .get_bind (.bind permits.frame (permits.tell s rfl) fun _ s _ => ?_)
    refine .bind permits.frame (mapHeap_keeps permits _ s) fun _ s _ => ?_
    exact .bind permits.frame (.lift permits.frame _ s) fun state s _ => ih _ _ s

theorem firePostLoad_keeps (listeners : List PostLoadListener) (position : Nat) (event : PostLoadEvent) (s : State) :
    Keeps relation (firePostLoad listeners position event) s := by
  induction listeners generalizing position s with
  | nil => exact .pure permits.frame _ s
  | cons listener rest ih =>
    refine .get_bind (.bind permits.frame (permits.tell s rfl) fun _ s _ => ?_)
    refine .bind permits.frame (mapHeap_keeps permits _ s) fun _ s _ => ?_
    exact .bind permits.frame (.lift permits.frame _ s) fun _ s _ => ih _ s

theorem warnUnidentified_keeps (handles : List Handle) (s : State) : Keeps relation (warnUnidentified handles) s := by
  induction handles generalizing s with
  | nil => exact .pure permits.frame _ s
  | cons h rest ih => exact .get_bind (.bind permits.frame (permits.tell s rfl) fun _ s _ => ih s)

theorem offerToRegion_keeps (name : String) (region : Region) (key : EntityKey) (cacheKey : CacheKey) (item : Versioned)
    (s : State) : Keeps relation (offerToRegion name region key cacheKey item) s := by
  apply Keeps.get_bind
  cases region with
  | external accepts => exact .bind permits.frame (permits.tell s rfl) fun _ s _ => .pure permits.frame _ s
  | memory region =>
    refine .bind permits.frame ?_ fun _ s _ => .pure permits.frame _ s
    exact modify_keeps permits s ⟨rfl, rfl, rfl, rfl, rfl⟩

theorem cacheLoaded_keeps (d : Descriptor) (key : EntityKey) (state : List AttributeValue) (s : State) :
    Keeps relation (cacheLoaded d key state) s := by
  apply Keeps.get_bind
  split
  · split
    · exact .pure permits.frame _ s
    · refine .bind permits.frame (warnUnidentified_keeps permits _ s) fun _ s _ => ?_
      refine .bind permits.frame (offerToRegion_keeps permits _ _ _ _ _ s) fun accepted s _ => ?_
      split
      · exact mapStatistics_keeps permits _ s
      · exact .pure permits.frame _ s
  · exact .pure permits.frame _ s

theorem runHook_keeps (d : Descriptor) (h : Handle) (s : State) : Keeps relation (runHook d h) s := by
  unfold runHook
  split
  · exact .pure permits.frame _ s
  · refine .get_bind (.bind permits.frame (permits.tell s rfl) fun _ s _ => ?_)
    exact mapHeap_keeps permits _ s

theorem install_keeps (d : Descriptor) (key : EntityKey) (options : LoadOptions) (h : Handle) (state : List AttributeValue)
    (s : State) : Keeps relation (install d key options h state) s := by
  refine .bind permits.frame (mapHeap_keeps permits _ s) fun _ s _ => ?_
  refine .bind permits.frame (cacheLoaded_keeps permits _ _ _ s) fun _ s _ => ?_
  refine .bind permits.frame (permits.name s d key.id state) fun _ s _ => ?_
  refine .bind permits.frame (modify_keeps permits s ⟨rfl, rfl, rfl, rfl, rfl⟩) fun _ s _ => ?_
  exact .bind permits.frame (runHook_keeps permits d h s) fun _ s _ => mapStatistics_keeps permits _ s

theorem trackLoading_keeps (entity : LoadingEntity) (key : EntityKey) (options : LoadOptions) (s : State) :
    Keeps relation (trackLoading entity key options) s := addEntity_keeps permits entity.handle _ s

theorem materialize_keeps (batch : Batch) (options : LoadOptions) (entity : LoadingEntity) (s : State) :
    Keeps relation (materialize batch options entity) s := by
  have rest (key : EntityKey) (s : State) : Keeps relation (do
      let resolved ← resolveAll batch entity.descriptor.name entity.descriptor.attributes entity.hydrated
      let session := (← get).session
      let state ← if session.config.eventSource then
          firePreLoad session.preLoad 0
            { entity := entity.handle, id := key.id, descriptor := entity.descriptor, state := resolved }
        else pure resolved
      install entity.descriptor key options entity.handle state : Action Unit) s := by
    refine .bind permits.frame (resolveAll_keeps permits batch _ _ _ s) fun resolved s _ => .get_bind ?_
    dsimp only
    split
    · exact .bind permits.frame (firePreLoad_keeps permits _ _ _ s) fun state s _ => install_keeps permits _ _ _ _ state s
    · exact .bind permits.frame (.pure permits.frame _ s) fun state s _ => install_keeps permits _ _ _ _ state s
  rw [materialize_eq]
  apply Keeps.get_bind
  split
  · exact .bind permits.frame (trackLoading_keeps permits entity _ options s) fun _ s _ => rest _ s
  · exact rest _ s

theorem materializeAll_keeps (batch : Batch) (options : LoadOptions) (entities : List LoadingEntity) (s : State) :
    Keeps relation (materializeAll batch options entities) s := by
  induction entities generalizing s with
  | nil => exact .pure permits.frame _ s
  | cons entity rest ih => exact .bind permits.frame (materialize_keeps permits batch options entity s) fun _ s _ => ih s

theorem announceLoaded_keeps (entities : List LoadingEntity) (s : State) : Keeps relation (announceLoaded entities) s := by
  induction entities generalizing s with
  | nil => exact .pure permits.frame _ s
  | cons entity rest ih => exact .get_bind (.bind permits.frame (firePostLoad_keeps permits _ _ _ s) fun _ s _ => ih s)

theorem finishUp_keeps (batch : Batch) (options : LoadOptions) (s : State) : Keeps relation (finishUp batch options) s := by
  refine .bind permits.frame (materializeAll_keeps permits batch options _ s) fun _ s _ => .get_bind ?_
  split
  · exact announceLoaded_keeps permits _ s
  · exact .pure permits.frame _ s

theorem registerLoading_keeps (batch : Batch) (entity : LoadingEntity) (s : State) :
    Keeps relation (registerLoading batch entity) s := by
  unfold registerLoading
  rcases batch.register entity with ⟨registration, grown⟩
  dsimp only
  split
  · exact .get_bind (.bind permits.frame (permits.tell s rfl) fun _ s _ => .pure permits.frame _ s)
  · exact .pure permits.frame _ s

theorem admitRow_keeps (d : Descriptor) (options : LoadOptions) (progress : LoadProgress) (key : EntityKey)
    (hydrated : List AttributeValue) (s : State) : Keeps relation (admitRow d options progress key hydrated) s := by
  apply Keeps.get_bind
  split
  · exact .pure permits.frame _ s
  · refine .bind permits.frame (permits.silent ⟨rfl, rfl, rfl, rfl, rfl⟩) fun _ s _ => ?_
    refine .bind permits.frame (registerLoading_keeps permits _ _ s) fun registered s _ => ?_
    obtain ⟨registration, batch⟩ := registered
    dsimp only
    split
    · exact .bind permits.frame (trackLoading_keeps permits _ key options s) fun _ s _ => .pure permits.frame _ s
    · exact .bind permits.frame (mapStatistics_keeps permits _ s) fun _ s _ => .pure permits.frame _ s

theorem hydrateRows_keeps (d : Descriptor) (options : LoadOptions) : ∀ (rows : List (Except Error Row))
    (progress : LoadProgress) (s : State), relation s (hydrateRows d options rows progress s).2
  | [], _, s | .error _ :: _, _, s => permits.frame.refl s
  | .ok row :: rest, progress, s => by
    cases hydrated : d.hydrateRow row with
    | error e =>
      rw [hydrateRows_refused rest hydrated]
      exact permits.frame.refl s
    | ok found =>
      rcases ran : (admitRow d options progress found.1 found.2).exec s with ⟨answer, middle⟩
      have first : relation s middle := (admitRow_keeps permits d options progress found.1 found.2 s).of_exec ran
      rw [hydrateRows_step ⟨found.1, found.2⟩ rest hydrated ran]
      cases answer with
      | error e => exact first
      | ok grown => exact permits.frame.trans first (hydrateRows_keeps d options rest grown middle)

theorem discard_keeps (batch : Batch) (s : State) : Keeps relation (discard batch) s :=
  mapContext_keeps permits s (Context.databaseSnapshots_removeAll batch.entities s.context)

theorem load_keeps (entity : String) (rows : List (Except Error Row)) (options : LoadOptions) (s : State) :
    Keeps relation (load entity rows options) s := by
  unfold load
  split
  · refine .bind permits.frame (.lift permits.frame _ s) fun d s _ => ?_
    refine .bind permits.frame (hydrateRows_keeps permits d options rows {} s) fun found s _ => ?_
    obtain ⟨outcome, progress⟩ := found
    refine .tryCatch permits.frame ?_ fun e s _ => ?_
    · refine .bind permits.frame (.lift permits.frame _ s) fun _ s _ => ?_
      exact .bind permits.frame (finishUp_keeps permits _ _ s) fun _ s _ => .pure permits.frame _ s
    · exact .bind permits.frame (discard_keeps permits _ s) fun _ s _ => .throw permits.frame _ s
  · exact .throw permits.frame _ s

end

end Action

open UnitOfWork.Action

section
variable {fits : State → Descriptor → EntityKey → Prop} {relation : State → State → Prop} (permits : Permits fits relation)
  {writer : Writer} {s after : State}
include permits

theorem InsertRun.keeps {written : List Insert} (run : InsertRun writer s written after) : relation s after := by
  induction run with
  | done s => exact permits.frame.refl s
  | step next wrote run ih => exact permits.frame.trans (nextInsert_keeps permits wrote) ih

theorem InsertStage.keeps {written : List Handle} (stage : InsertStage writer s written after) : relation s after := by
  have readied {ready : State} {answer : Except Error Unit}
      (began : (takeReady >>= queueReleased).exec s = (answer, ready)) : relation s ready :=
    (queueReady_keeps permits s).of_exec began
  cases stage with
  | unqueued failed => exact readied failed
  | passed began run _ => exact permits.frame.trans (readied began) (run.keeps permits)
  | stopped began run next failed =>
    exact permits.frame.trans (permits.frame.trans (readied began) (run.keeps permits)) (nextInsert_keeps permits failed)

/-- One operation of the session, and not a flush. -/
def Move.Operates : Move → Prop
  | .flush _ | .clear | .annotate _ _ _ _ | .configure _ _ _ _ _ => False
  | _ => True

theorem Move.perform_keeps (move : Move) (operates : move.Operates) (s : State)
    (asked : ∀ d key, move = .ask (.databaseSnapshot d key) → fits s d key) : relation s (move.perform s) := by
  cases move with
  | save h early => exact save_keeps permits h early s
  | delete h => exact delete_keeps permits h s
  | load entity rows options =>
    exact Keeps.bind permits.frame (load_keeps permits entity rows options s) fun _ s _ => .pure permits.frame _ s
  | setReadOnly h readOnly => exact setReadOnly_keeps permits h readOnly s
  | ask question => exact asking_keeps permits.toAdmitsKeys question s fun d key same => asked d key (congrArg _ same)
  | attach h entry => exact addEntity_keeps permits h entry s
  | endTransaction | outside => exact permits.silent ⟨rfl, rfl, rfl, rfl, rfl⟩
  | flush | clear | annotate | configure => exact operates.elim

end

end UnitOfWork
