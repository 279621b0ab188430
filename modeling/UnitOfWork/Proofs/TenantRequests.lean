import UnitOfWork.Proofs.Initialization
import UnitOfWork.Proofs.LoadInvariant
import UnitOfWork.Proofs.TenantRegions
import UnitOfWork.Session.Flush

/-! The operations of a session, from asking whether there is a row to loading and flushing, are blind to other tenants.
The cache is read in one place, to classify an instance, and written in two, when a row is loaded and when one is
deleted. Each time the key is one of the session's own tenant. -/

namespace UnitOfWork

namespace MemoryRegion
variable {region other : MemoryRegion} {key : CacheKey} (item : Versioned)

/-- Whether a value is taken in hangs on what is held under its key. -/
theorem put_congr (minimal : Bool) (same : other.items.find? key = region.items.find? key) :
    (other.put key item minimal).1 = (region.put key item minimal).1 := by
  unfold put
  rw [same]
  split
  · rfl
  · split <;> rfl
  · rfl

theorem update_congr (same : other.items.find? key = region.items.find? key) :
    (other.update key item).1 = (region.update key item).1 := by
  unfold update
  rw [same]
  split
  · rfl
  · split <;> rfl
  · rfl

end MemoryRegion

namespace Action
open State (Alike Confined)

theorem interceptorOpinion_blind (h : Handle) : Blind (interceptorOpinion h) := by
  refine .get_bind (fun _ _ => rfl) fun s => ?_
  split
  · exact .pure none
  · exact .bind (.record _) fun _ => .pure _

theorem readRegion_blind (name : String) (region : Region) (key : CacheKey) : Blind (readRegion name region key) := by
  cases region with
  | memory region => exact .pure _
  | external accepts => exact .get_bind (fun _ _ => rfl) fun _ => .bind (.record _) fun _ => .pure _

theorem cacheOpinion_blind (d : Descriptor) (id : Identifier) : Blind (cacheOpinion d id) := by
  intro s t alike
  apply InStep.get_bind
  have key : t.session.cacheKey d id = s.session.cacheKey d id := by
    rw [alike.session]
  rw [key, alike.session]
  split
  · rcases alike.region? d with ⟨here, there⟩ | ⟨name, accepts, here, there⟩ |
      ⟨name, region, other, here, there, -, items⟩
    · rw [here, there]
      exact Blind.pure none s t alike
    · rw [here, there]
      refine Blind.bind (readRegion_blind name _ _) (fun value => ?_) s t alike
      cases value <;> exact .bind (.mapStatistics _) fun _ => .pure _
    · have same : other.get? (s.session.cacheKey d id) = region.get? (s.session.cacheKey d id) := by
        unfold MemoryRegion.get?
        rw [items (s.session.cacheKey d id) rfl]
      have read : readRegion name (.memory other) (s.session.cacheKey d id) =
          readRegion name (.memory region) (s.session.cacheKey d id) := congrArg Pure.pure same
      rw [here, there]
      dsimp only
      rw [read]
      refine Blind.bind (readRegion_blind name _ _) (fun value => ?_) s t alike
      cases value <;> exact .bind (.mapStatistics _) fun _ => .pure _
  · exact Blind.pure none s t alike

theorem typeOpinion_blind (d : Descriptor) (h : Handle) : Blind (typeOpinion d h) := by
  refine .get_bind (fun _ _ => rfl) fun s => ?_
  dsimp only
  split
  · exact .pure _
  · split
    · exact cacheOpinion_blind d _
    · exact .pure none

theorem databaseSnapshot_blind (d : Descriptor) (key : EntityKey) : Blind (databaseSnapshot d key) := by
  refine .get_bind (fun _ _ => rfl) fun s => ?_
  split
  · exact .throw _
  · split
    · exact .pure _
    · refine .bind (.record _) fun _ => ?_
      split
      · exact .throw _
      · exact .bind (.mapContext _) fun _ => .pure _

theorem classifyInstance_blind (h : Handle) (assumed : Option Bool) : Blind (classifyInstance h assumed) := by
  refine .bind (interceptorOpinion_blind h) fun opinion => ?_
  split
  · exact .pure _
  · refine .get_bind (fun _ _ => rfl) fun s => .bind (.descriptor _) fun d => ?_
    refine .bind (typeOpinion_blind d h) fun opinion => ?_
    split
    · exact .pure _
    · split
      · exact .pure _
      · refine .get_bind (fun _ _ => rfl) fun s => ?_
        split
        · exact .pure _
        · exact .bind (databaseSnapshot_blind d _) fun row => .pure _

theorem classify_blind (value : AttributeValue) (assumed : Option Bool) : Blind (classify value assumed) := by
  unfold classify
  split
  · exact classifyInstance_blind _ assumed
  · exact .get_bind (fun _ _ => rfl) fun s => .throw _
  · exact .get_bind (fun _ _ => rfl) fun s => .throw _
  all_goals exact .pure _

theorem isNullifiable_blind (nullifier : Nullifier) (value : AttributeValue) :
    Blind (nullifier.isNullifiable value) := by
  refine .get_bind (fun _ _ => rfl) fun s => ?_
  split
  · split
    · exact .pure _
    · split
      · exact .pure _
      · exact .bind (classify_blind _ none) fun state => .pure _
  · exact .pure _
  · exact .pure _

mutual

theorem nullify_blind (nullifier : Nullifier) (a : Attribute) : ∀ value, Blind (nullifier.nullify a value)
  | .embedded children => by
    unfold Nullifier.nullify
    split
    · exact .bind (nullifyAll_blind nullifier _ children) fun replaced => .pure _
    · exact .pure _
  | .reference r => by
    have replaced : Blind (do
        if ← nullifier.isNullifiable (.reference r) then return AttributeValue.null
        else return .reference r) := by
      refine .bind (isNullifiable_blind nullifier _) fun nullifiable => ?_
      split
      · exact .pure _
      · exact .pure _
    unfold Nullifier.nullify
    split
    · exact replaced
    · exact replaced
    · exact .pure _
  | .null | .basic _ | .foreignKey _ | .anyKey _ _ | .unfetched => .pure _

theorem nullifyAll_blind (nullifier : Nullifier) : ∀ attributes values, Blind (nullifier.nullifyAll attributes values)
  | _, [] => by
    unfold Nullifier.nullifyAll
    exact .pure []
  | [], value :: values => .pure _
  | a :: attributes, value :: values => by
    unfold Nullifier.nullifyAll
    refine .bind (nullify_blind nullifier a value) fun first => ?_
    exact .bind (nullifyAll_blind nullifier attributes values) fun rest => .pure _

end

mutual

theorem collect_blind (nullifier : Nullifier) (path : String) (a : Attribute) :
    ∀ value, Blind (nullifier.collect path a value)
  | .embedded children => by
    unfold Nullifier.collect
    split
    · exact collectAll_blind nullifier _ _ children
    · exact .pure []
  | .reference r => by
    have asked : Blind (do
        if a.nullable then return []
        else do
          if ← nullifier.isNullifiable (.reference r) then return [(⟨path, r⟩ : Dependency)]
          else return []) := by
      split
      · exact .pure []
      · refine .bind (isNullifiable_blind nullifier _) fun nullifiable => ?_
        split
        · exact .pure _
        · exact .pure []
    unfold Nullifier.collect
    split
    · exact asked
    · exact asked
    · exact .pure []
  | .null | .basic _ | .foreignKey _ | .anyKey _ _ | .unfetched => .pure []

theorem collectAll_blind (nullifier : Nullifier) (stem : String) :
    ∀ attributes values, Blind (nullifier.collectAll stem attributes values)
  | a :: attributes, value :: values => by
    unfold Nullifier.collectAll
    refine .bind (collect_blind nullifier _ a value) fun first => ?_
    exact .bind (collectAll_blind nullifier stem attributes values) fun rest => .pure _
  | [], _ => by
    unfold Nullifier.collectAll
    exact .pure []
  | _ :: _, [] => .pure []

end

/-! Saving and deleting. -/

theorem queueInsert_blind (h : Handle) (d : Descriptor) (early : Bool) : Blind (queueInsert h d early) := by
  refine .get_bind (fun _ _ => rfl) fun s => .bind (nullifyAll_blind _ _ _) fun state => ?_
  exact .mapActions _

theorem queueReleased_blind (inserts : List ParkedInsert) : Blind (queueReleased inserts) := by
  induction inserts with
  | nil => exact .pure ()
  | cons insert rest ih =>
    refine .bind (.tryCatch (queueInsert_blind _ _ _) fun e => ?_) fun _ => ih
    exact .bind (.mapActions _) fun _ => .throw e

theorem scheduleInsert_blind (h : Handle) (d : Descriptor) (early : Bool) : Blind (scheduleInsert h d early) := by
  refine .get_bind (fun _ _ => rfl) fun s => ?_
  refine .bind (.bind (.descriptor _) fun _ => collectAll_blind _ _ _ _) fun waits => ?_
  split
  · exact queueInsert_blind h d early
  · exact .mapActions _

theorem keyToSave_blind (d : Descriptor) (h : Handle) : Blind (keyToSave d h) := by
  refine .get_bind (fun _ _ => rfl) fun s => ?_
  repeat' split
  all_goals first | exact .pure _ | exact .throw _

theorem save_blind (h : Handle) (early : Bool) : Blind (save h early) := by
  refine .get_bind (fun _ _ => rfl) fun s => ?_
  split
  · exact .pure ()
  · refine .bind (.descriptor _) fun d => .bind (keyToSave_blind d h) fun key => ?_
    refine .bind (.changeContext _) fun _ => .tryCatch (scheduleInsert_blind h d _) fun e => ?_
    exact .bind (.mapContext _) fun _ => .throw e

theorem delete_blind (h : Handle) : Blind (delete h) := by
  intro s t alike
  apply InStep.get_bind
  rw [alike.actions, alike.context, alike.heap]
  split
  · have cancelled := Alike.change alike (f := fun s =>
      (s.mapActions fun queue => queue.cancelInsert h).mapContext fun context => context.removeEntry h)
    exact .set (cancelled (fun _ _ => rfl) rfl) (.of_shared rfl rfl)
  · refine (?_ : Blind _) s t alike
    split
    · exact .throw _
    · split
      · exact .pure ()
      · split
        · exact .throw _
        · exact .bind (.descriptor _) fun d => .change (fun _ _ => rfl) fun _ => rfl

/-! Flushing. -/

theorem insertedIdentifier_blind (h : Handle) (current given : Option Identifier) :
    Blind (insertedIdentifier h current given) := by
  unfold insertedIdentifier
  split
  · exact .bind (.mapHeap _) fun _ => .pure _
  · exact .pure _
  · exact .get_bind (fun _ _ => rfl) fun s => .throw _

theorem releaseParked_blind (h : Handle) : Blind (releaseParked h) := by
  refine .get_bind (fun _ _ => rfl) fun s => ?_
  exact .bind (.mapActions _) fun _ => queueReleased_blind _

theorem executeInsert_blind (writer : Writer) (insert : Insert) : Blind (executeInsert writer insert) := by
  refine .get_bind (fun _ _ => rfl) fun s => .bind (.record _) fun _ => ?_
  refine .bind (.lift _) fun given => .bind (insertedIdentifier_blind _ _ given) fun id => ?_
  refine .bind (.changeContext _) fun _ => .bind (.change (fun _ _ => rfl) fun _ => rfl) fun _ => ?_
  exact releaseParked_blind _

theorem runInserts_blind (writer : Writer) (bound : Nat) : Blind (runInserts writer bound) := by
  induction bound with
  | zero => exact .pure 0
  | succ bound ih =>
    refine .get_bind (fun _ _ => rfl) fun s => ?_
    split
    · exact .pure 0
    · refine .bind (.mapActions _) fun _ => ?_
      exact .bind (executeInsert_blind writer _) fun _ => .bind ih fun others => .pure _

/-- A deleted row goes out of the cache under its key. -/
theorem recordDelete_blind (delete : Delete) : Blind (recordDelete delete) := by
  refine .bind (.change (fun _ _ => rfl) fun _ => rfl) fun _ s t alike => ?_
  apply InStep.get_bind
  have key : t.session.cacheKey delete.descriptor delete.key.id = s.session.cacheKey delete.descriptor delete.key.id := by
    rw [alike.session]
  rcases alike.region? delete.descriptor with ⟨here, there⟩ | ⟨name, accepts, here, there⟩ |
    ⟨name, region, other, here, there, found, items⟩
  · rw [here, there]
    exact Blind.pure () s t alike
  · rw [here, there, key]
    exact Blind.record _ s t alike
  · rw [here, there]
    have owned : s.Owns (s.session.cacheKey delete.descriptor delete.key.id) := rfl
    have evicted (region : MemoryRegion) (x : CacheKey) := Registry.find?_erase region.items
      (s.session.cacheKey delete.descriptor delete.key.id) x
    refine .modify (alike.setRegion items (evicted region) ?_) (.setRegion found owned (evicted region))
    rw [key]
    exact evicted other

theorem executeDelete_blind (writer : Writer) (delete : Delete) : Blind (executeDelete writer delete) := by
  refine .get_bind (fun _ _ => rfl) fun s => .bind (.record _) fun _ => .bind (.lift _) fun _ => ?_
  exact .bind (recordDelete_blind delete) fun _ => .mapContext _

theorem runDeletes_blind (writer : Writer) (deletes : List Delete) : Blind (runDeletes writer deletes) := by
  induction deletes with
  | nil => exact .pure 0
  | cons delete rest ih =>
    exact .bind (executeDelete_blind writer delete) fun _ => .bind ih fun others => .pure _

theorem flush_blind (writer : Writer) : Blind (flush writer) := by
  have taken : Blind takeReady := .get_bind (fun _ _ => rfl) fun s =>
    .bind (.mapActions _) fun _ => .pure _
  have due : Blind takeDeletes := .get_bind (fun _ _ => rfl) fun s =>
    .bind (.mapActions _) fun _ => .pure _
  refine .bind taken fun ready => .bind (queueReleased_blind ready) fun _ => .get_bind (fun _ _ => rfl) fun s => ?_
  refine .bind (runInserts_blind writer _) fun inserted => .get_bind (fun _ _ => rfl) fun s => ?_
  split
  · exact .throw _
  · exact .bind due fun deletes => .bind (runDeletes_blind writer deletes) fun deleted => .pure _

/-! Loading. -/

theorem resolveReference_blind (batch : Batch) (entity : String) (id : Identifier) :
    Blind (resolveReference batch entity id) := by
  refine .bind (.descriptor entity) fun d => .get_bind (fun _ _ => rfl) fun s => ?_
  split
  · split
    · exact .pure _
    · exact .pure _
  · split
    · exact .pure _
    · exact .bind (.change (fun _ _ => rfl) fun _ => rfl) fun _ => .pure _

mutual

theorem resolve_blind (batch : Batch) (entity : String) (a : Attribute) :
    ∀ value, Blind (resolve batch entity a value)
  | .foreignKey id => by
    unfold resolve
    split
    · exact resolveReference_blind batch _ id
    · exact .throw _
  | .anyKey target id => by
    unfold resolve
    exact resolveReference_blind batch target id
  | .embedded children => by
    unfold resolve
    split
    · exact .bind (resolveAll_blind batch entity _ children) fun resolved => .pure _
    · exact .pure _
  | .null | .basic _ | .reference _ | .unfetched => .pure _

theorem resolveAll_blind (batch : Batch) (entity : String) :
    ∀ attributes values, Blind (resolveAll batch entity attributes values)
  | a :: attributes, value :: values => by
    unfold resolveAll
    refine .bind (resolve_blind batch entity a value) fun first => ?_
    exact .bind (resolveAll_blind batch entity attributes values) fun rest => .pure _
  | [], _ => by
    unfold resolveAll
    exact .pure []
  | _ :: _, [] => .pure []

end

theorem firePreLoad_blind (listeners : List PreLoadListener) (position : Nat) (event : PreLoadEvent) :
    Blind (firePreLoad listeners position event) := by
  induction listeners generalizing position event with
  | nil => exact .pure _
  | cons listener rest ih =>
    refine .get_bind (fun _ _ => rfl) fun s => .bind (.record _) fun _ => ?_
    exact .bind (.mapHeap _) fun _ => .bind (.lift _) fun state => ih _ _

theorem firePostLoad_blind (listeners : List PostLoadListener) (position : Nat) (event : PostLoadEvent) :
    Blind (firePostLoad listeners position event) := by
  induction listeners generalizing position with
  | nil => exact .pure ()
  | cons listener rest ih =>
    refine .get_bind (fun _ _ => rfl) fun s => .bind (.record _) fun _ => ?_
    exact .bind (.mapHeap _) fun _ => .bind (.lift _) fun _ => ih _

theorem warnUnidentified_blind (handles : List Handle) : Blind (warnUnidentified handles) := by
  induction handles with
  | nil => exact .pure ()
  | cons h rest ih => exact .get_bind (fun _ _ => rfl) fun s => .bind (.record _) fun _ => ih

theorem trackLoading_blind (entity : LoadingEntity) (key : EntityKey) (options : LoadOptions) :
    Blind (trackLoading entity key options) := .changeContext _

theorem runHook_blind (d : Descriptor) (h : Handle) : Blind (runHook d h) := by
  unfold runHook
  split
  · exact .pure ()
  · refine .get_bind (fun _ _ => rfl) fun s => .bind (.record _) fun _ => ?_
    exact .mapHeap _

/-- A region takes in the entry of a loaded row, or not, by what it holds under its key. -/
theorem offerToRegion_inStep {s t : State} (alike : s.Alike t) {name : String} {region other : MemoryRegion}
    {cacheKey : CacheKey} (found : s.shared.regions.find? name = some (.memory region)) (owned : s.Owns cacheKey)
    (items : ∀ x, s.Owns x → other.items.find? x = region.items.find? x) (key : EntityKey) (item : Versioned) :
    InStep (offerToRegion name (.memory region) key cacheKey item)
      (offerToRegion name (.memory other) key cacheKey item) s t := by
  have held := items cacheKey owned
  apply InStep.get_bind
  rw [alike.context, alike.session]
  cases s.context.wasInserted key with
  | true =>
    have written (x : CacheKey) := region.find?_update cacheKey x item
    have written' (x : CacheKey) := other.find?_update cacheKey x item
    rw [held] at written'
    refine .bind (.modify (alike.setRegion items written written') (.setRegion found owned written)) fun _ a b _ alike => ?_
    exact .pure alike (MemoryRegion.update_congr item held)
  | false =>
    let minimal := s.session.factory.config.minimalPuts && s.session.config.cacheMode != .refresh
    have written (x : CacheKey) := region.find?_put cacheKey x item minimal
    have written' (x : CacheKey) := other.find?_put cacheKey x item minimal
    rw [held] at written'
    refine .bind (.modify (alike.setRegion items written written') (.setRegion found owned written)) fun _ a b _ alike => ?_
    exact .pure alike (MemoryRegion.put_congr item minimal held)

theorem cacheLoaded_blind (d : Descriptor) (key : EntityKey) (state : List AttributeValue) :
    Blind (cacheLoaded d key state) := by
  intro s t alike
  apply InStep.get_bind
  have keyed : t.session.cacheKey d key.id = s.session.cacheKey d key.id := by
    rw [alike.session]
  rw [keyed, alike.session, alike.heap]
  split
  · have counted (name : String) (accepted : Bool) : Blind (if accepted then
        modify fun s => s.mapStatistics fun statistics => statistics.increment .cachePuts name else return ()) := by
      split
      · exact .mapStatistics _
      · exact .pure ()
    rcases alike.region? d with ⟨here, there⟩ | ⟨name, accepts, here, there⟩ |
      ⟨name, region, other, here, there, found, items⟩
    · rw [here, there]
      exact Blind.pure () s t alike
    · rw [here, there]
      refine (?_ : Blind _) s t alike
      refine .bind (warnUnidentified_blind _) fun _ => .bind (.get_bind (fun _ _ => rfl) fun s => ?_) (counted name)
      exact .bind (.record _) fun _ => .pure _
    · rw [here, there]
      refine (warnUnidentified_blind _ s t alike).bind fun _ a b warned alike => ?_
      refine InStep.bind ?_ fun accepted a b _ alike => counted name accepted a b alike
      obtain ⟨a, ran, quiet, same⟩ := warnUnidentified_exec (AttributeValue.unidentifiedAmong s.heap state) s
      cases ran.symm.trans warned
      have config : a.session.config = s.session.config := by
        obtain ⟨_, unchanged⟩ := quiet.session
        rw [unchanged]
      have owns (x : CacheKey) (owned : a.Owns x) : s.Owns x := owned.trans (congrArg SessionConfig.tenant config)
      refine offerToRegion_inStep alike (same ▸ found) ?_ (fun x owned => items x (owns x owned)) key _
      exact congrArg SessionConfig.tenant config.symm
  · exact Blind.pure () s t alike

theorem install_blind (d : Descriptor) (key : EntityKey) (options : LoadOptions) (h : Handle)
    (state : List AttributeValue) : Blind (install d key options h state) := by
  refine .bind (.mapHeap _) fun _ => .bind (cacheLoaded_blind d key state) fun _ => ?_
  refine .bind (.change (fun _ _ => rfl) fun _ => rfl) fun _ => .bind (.change (fun _ _ => rfl) fun _ => rfl) fun _ => ?_
  exact .bind (runHook_blind d h) fun _ => .mapStatistics _

theorem materialize_blind (batch : Batch) (options : LoadOptions) (entity : LoadingEntity) :
    Blind (materialize batch options entity) := by
  let key := (batch.keyFor? entity.handle).getD entity.key
  have initialized : Blind (do
      let resolved ← resolveAll batch entity.descriptor.name entity.descriptor.attributes entity.hydrated
      let session := (← get).session
      let state ← if session.config.eventSource then
          firePreLoad session.preLoad 0
            { entity := entity.handle, id := key.id, descriptor := entity.descriptor, state := resolved }
        else pure resolved
      install entity.descriptor key options entity.handle state) := by
    refine .bind (resolveAll_blind batch _ _ _) fun resolved => .get_bind (fun _ _ => rfl) fun s => ?_
    dsimp only
    split
    · exact .bind (firePreLoad_blind _ _ _) fun state => install_blind _ _ _ _ state
    · exact .bind (.pure _) fun state => install_blind _ _ _ _ state
  rw [materialize_eq]
  refine .get_bind (fun _ _ => rfl) fun s => ?_
  dsimp only
  split
  · exact .bind (trackLoading_blind entity key options) fun _ => initialized
  · exact initialized

theorem materializeAll_blind (batch : Batch) (options : LoadOptions) (entities : List LoadingEntity) :
    Blind (materializeAll batch options entities) := by
  induction entities with
  | nil => exact .pure ()
  | cons entity rest ih => exact .bind (materialize_blind batch options entity) fun _ => ih

theorem announceLoaded_blind (entities : List LoadingEntity) : Blind (announceLoaded entities) := by
  induction entities with
  | nil => exact .pure ()
  | cons entity rest ih => exact .get_bind (fun _ _ => rfl) fun s => .bind (firePostLoad_blind _ _ _) fun _ => ih

theorem finishUp_blind (batch : Batch) (options : LoadOptions) : Blind (finishUp batch options) := by
  refine .bind (materializeAll_blind batch options _) fun _ => .get_bind (fun _ _ => rfl) fun s => ?_
  split
  · exact announceLoaded_blind _
  · exact .pure ()

theorem registerLoading_blind (batch : Batch) (entity : LoadingEntity) : Blind (registerLoading batch entity) := by
  unfold registerLoading
  dsimp only
  split
  · exact .get_bind (fun _ _ => rfl) fun s => .bind (.record _) fun _ => .pure _
  · exact .pure _

theorem admitRow_blind (d : Descriptor) (options : LoadOptions) (progress : LoadProgress) (row : HydratedRow) :
    Blind (admitRow d options progress row.key row.values) := by
  rw [admitRow_eq]
  intro s t alike
  apply InStep.get_bind
  rw [alike.context]
  split
  · exact .pure alike rfl
  · have created := Alike.change alike (f := fun s => s.creating d row) (fun _ _ => rfl) rfl
    have loading : t.loading d row = s.loading d row := by
      unfold State.loading
      rw [alike.heap]
    unfold admitNew
    rw [loading, alike.heap]
    refine InStep.bind (.set created (.of_shared rfl rfl)) fun _ a b _ alike => ?_
    refine (?_ : Blind _) a b alike
    refine .bind (registerLoading_blind _ _) fun registered => ?_
    split
    · exact .bind (trackLoading_blind _ _ options) fun _ => .pure _
    · exact .bind (.mapStatistics _) fun _ => .pure _

theorem exec_passed {α : Type} (pass : StateM State α) (s : State) :
    exec (ExceptT.lift pass) s = (.ok (pass s).1, (pass s).2) := rfl

/-- The first pass of a load goes through the same rows. -/
theorem hydrateRows_blind (d : Descriptor) (options : LoadOptions) : ∀ (rows : List (Except Error Row))
    (progress : LoadProgress), Blind (ExceptT.lift (hydrateRows d options rows progress))
  | [], _ => .pure _
  | .error _ :: _, _ => .pure _
  | .ok row :: rest, progress => by
    intro s t alike
    unfold InStep
    rw [exec_passed, exec_passed]
    cases hydrated : d.hydrateRow row with
    | error e =>
      rw [hydrateRows_refused rest hydrated, hydrateRows_refused rest hydrated]
      exact Blind.pure _ s t alike
    | ok found =>
      obtain ⟨answer, a, b, ran, ran', alike, confined⟩ :=
        admitRow_blind d options progress ⟨found.1, found.2⟩ s t alike
      rw [hydrateRows_step ⟨found.1, found.2⟩ rest hydrated ran, hydrateRows_step ⟨found.1, found.2⟩ rest hydrated ran']
      cases answer with
      | error e => exact ⟨_, a, b, rfl, rfl, alike, confined⟩
      | ok grown =>
        obtain ⟨answer, after, last, passed, passed', alike, confined'⟩ :=
          hydrateRows_blind d options rest grown a b alike
        exact ⟨answer, after, last, passed, passed', alike, Confined.frame.trans confined confined'⟩

theorem load_blind (entity : String) (rows : List (Except Error Row)) (options : LoadOptions) :
    Blind (load entity rows options) := by
  unfold load
  split
  · refine .bind (.descriptor entity) fun d => .bind (hydrateRows_blind d options rows {}) fun passed => ?_
    refine .tryCatch (.bind (.lift _) fun _ => .bind (finishUp_blind _ options) fun _ => .pure _) fun e => ?_
    exact .bind (.mapContext _) fun _ => .throw e
  · exact .throw _

end Action

end UnitOfWork
