import UnitOfWork.Proofs.Lockstep

/-! A load in step with itself: operation by operation, a load after a failure does under other names what it would have
done without the failure. -/

namespace UnitOfWork
open AttributeValue (renameAll)

section
variable (names : Handle → Handle)

def LoadingEntity.rename (entity : LoadingEntity) : LoadingEntity :=
  { entity with
    handle := names entity.handle
    hydrated := renameAll names entity.hydrated }

def Batch.rename (batch : Batch) : Batch := ⟨batch.entities.map (LoadingEntity.rename names)⟩

def Action.LoadProgress.rename (progress : Action.LoadProgress) : Action.LoadProgress :=
  ⟨progress.batch.rename names, progress.results.map names⟩

end

namespace Batch
variable {names : Handle → Handle} (batch : Batch)

theorem find?_rename (key : EntityKey) :
    (batch.rename names).find? key = (batch.find? key).map (LoadingEntity.rename names) := by
  unfold Batch.find? rename
  rw [List.find?_map]
  rfl

theorem handle?_rename (key : EntityKey) : (batch.rename names).handle? key = (batch.handle? key).map names := by
  unfold handle?
  rw [find?_rename, Option.map_map, Option.map_map]
  rfl

theorem contains_rename (key : EntityKey) : (batch.rename names).contains key = batch.contains key := by
  rw [contains_eq_isSome, contains_eq_isSome, find?_rename, Option.isSome_map]

theorem keyFor?_rename (injective : ∀ x y, names x = names y → x = y) (h : Handle) :
    (batch.rename names).keyFor? (names h) = batch.keyFor? h := by
  have same : ((fun entity : LoadingEntity => decide (entity.handle = names h)) ∘ LoadingEntity.rename names) =
      fun entity => decide (entity.handle = h) := by
    funext entity
    exact decide_eq_decide.mpr ⟨injective _ _, congrArg names⟩
  unfold keyFor? rename
  rw [← List.map_reverse, List.find?_map, same, Option.map_map]
  rfl

theorem register_rename (injective : ∀ x y, names x = names y → x = y) (entity : LoadingEntity) :
    (batch.rename names).register (entity.rename names) =
      ((batch.register entity).1, (batch.register entity).2.rename names) := by
  unfold register
  have key : (entity.rename names).key = entity.key := rfl
  rw [key, find?_rename]
  cases batch.find? entity.key with
  | none =>
    unfold rename
    rw [Option.map_none, List.map_append]
    rfl
  | some held =>
    have same : (held.rename names).handle = (entity.rename names).handle ↔ held.handle = entity.handle :=
      ⟨injective _ _, congrArg names⟩
    simp only [Option.map_some, same]

end Batch

namespace Action
variable {s failed a b : State}

section
variable (mirrors : Mirrors s failed a b)
include mirrors

theorem descriptor_follows (entity : String) :
    Follows (Mirrors s failed) Eq (descriptor entity) (descriptor entity) a b := by
  intro d after ran
  obtain ⟨mapped, rfl⟩ := Prod.mk.inj ((exec_descriptor entity a).symm.trans ran)
  refine ⟨d, b, ?_, rfl, mirrors⟩
  rw [exec_descriptor, ← mapped]
  unfold Session.descriptor
  rw [mirrors.factory]

theorem resolveReference_follows (batch : Batch) (entity : String) (id : Identifier) :
    Follows (Mirrors s failed) (fun value other => other = value.rename (s.shift failed))
      (resolveReference batch entity id) (resolveReference (batch.rename (s.shift failed)) entity id) a b := by
  refine (descriptor_follows mirrors entity).bind fun d d' a b same mirrors => ?_
  subst d'
  apply Follows.get_bind
  rw [mirrors.context.standing]
  cases a.context.entity? (d.keyFor id) with
  | some h =>
    simp only [Option.map_some, mirrors.context.deleted (s.shift_renaming failed)]
    split
    · exact .pure mirrors rfl
    · exact .pure mirrors rfl
  | none =>
    rw [Batch.handle?_rename]
    cases batch.handle? (d.keyFor id) with
    | some h => exact .pure mirrors rfl
    | none =>
      refine Follows.bind (.modify ?_) fun _ _ a b _ mirrors => .pure mirrors rfl
      rw [mirrors.config]
      exact mirrors.mapContext _ _ (mirrors.context.addProxy (d.keyFor id) a.session.config.readOnly)

end

mutual

theorem resolve_follows (batch : Batch) (entity : String) (a : Attribute) : ∀ (value : AttributeValue) (x y : State),
    Mirrors s failed x y → Follows (Mirrors s failed) (fun value other => other = value.rename (s.shift failed))
      (resolve batch entity a value) (resolve (batch.rename (s.shift failed)) entity a (value.rename (s.shift failed))) x y
  | .foreignKey id, x, y, mirrors => by
    change Follows _ _ (resolve batch entity a (.foreignKey id)) (resolve _ entity a (.foreignKey id)) x y
    unfold resolve
    cases a.kind.target? with
    | some target => exact resolveReference_follows mirrors batch target id
    | none => exact .throw _ _
  | .anyKey target id, x, y, mirrors => by
    change Follows _ _ (resolve batch entity a (.anyKey target id)) (resolve _ entity a (.anyKey target id)) x y
    unfold resolve
    exact resolveReference_follows mirrors batch target id
  | .embedded children, x, y, mirrors => by
    change Follows _ _ (resolve batch entity a (.embedded children))
      (resolve _ entity a (.embedded (renameAll (s.shift failed) children))) x y
    unfold resolve
    cases a.kind with
    | embedded name attributes =>
      refine (resolveAll_follows batch entity attributes children x y mirrors).bind fun held other x y same mirrors => ?_
      subst other
      exact .pure mirrors rfl
    | basic | manyToOne _ | oneToOne _ | any => exact .pure mirrors rfl
  | .null, x, y, mirrors | .basic _, x, y, mirrors | .reference _, x, y, mirrors | .unfetched, x, y, mirrors =>
    .pure mirrors rfl

/-- Keys are resolved to the instances that have the names of those they would have been resolved to. -/
theorem resolveAll_follows (batch : Batch) (entity : String) : ∀ (attributes : List Attribute)
    (values : List AttributeValue) (x y : State), Mirrors s failed x y →
      Follows (Mirrors s failed) (fun values others => others = renameAll (s.shift failed) values)
        (resolveAll batch entity attributes values)
        (resolveAll (batch.rename (s.shift failed)) entity attributes (renameAll (s.shift failed) values)) x y
  | a :: attributes, value :: values, x, y, mirrors => by
    unfold resolveAll renameAll
    refine (resolve_follows batch entity a value x y mirrors).bind fun held other x y same mirrors => ?_
    subst other
    refine (resolveAll_follows batch entity attributes values x y mirrors).bind fun held other x y same mirrors => ?_
    subst other
    exact .pure mirrors rfl
  | [], values, x, y, mirrors => by
    unfold resolveAll
    exact .pure mirrors rfl
  | _ :: _, [], x, y, mirrors => .pure mirrors rfl

end

theorem firePreLoad_follows {listeners others : List PreLoadListener} (heard : List.Forall₂
    (PreLoadListener.Mirrors (s.shift failed) s.session.journal failed.session.journal) listeners others)
    (position : Nat) (event : PreLoadEvent) (a b : State) (mirrors : Mirrors s failed a b) :
    Follows (Mirrors s failed) (fun state other => other = renameAll (s.shift failed) state)
      (firePreLoad listeners position event) (firePreLoad others position (event.rename (s.shift failed))) a b := by
  induction heard generalizing position event a b with
  | nil => exact .pure mirrors rfl
  | @cons listener other rest rest' takes _ ih =>
    unfold firePreLoad
    apply Follows.get_bind
    obtain ⟨since, since', here, there, told⟩ := mirrors.journal
    rcases called : listener.call a.session.journal event a.heap with ⟨e | state, edits⟩
    · intro state after ran
      rw [exec_record_bind, exec_modify_bind, exec_bind_error _ (exec_lift _ _)] at ran
      cases ran
    · have called' := takes since since' event a.heap b.heap state edits told mirrors.heap (here ▸ called)
      rw [← there] at called'
      rw [called']
      have values : (b.heap.values (s.shift failed event.entity)) =
          renameAll (s.shift failed) (a.heap.values event.entity) :=
        congrArg Instance.values (mirrors.heap.reads event.entity)
      refine Follows.bind (.modify (mirrors.record ?_)) fun _ _ a b _ mirrors => ?_
      · exact congrArg (fun values => [Call.preLoad _ _ _ _ _ values]) values
      · refine Follows.bind (.modify (mirrors.mapHeap _ _ (mirrors.heap.edit (s.shift_renaming failed).injective edits)
          (Heap.size_edit _ _) (Heap.size_edit _ _))) fun _ _ a b _ mirrors => ?_
        have answered : Follows (Mirrors s failed) (fun state other => other = renameAll (s.shift failed) state)
            (liftM (Except.ok state : Except Error _)) (liftM (Except.ok _ : Except Error _)) a b :=
          .pure mirrors rfl
        refine answered.bind fun state other a b same mirrors => ?_
        subst other
        exact ih (position + 1) { event with state } a b mirrors

theorem firePostLoad_follows {listeners others : List PostLoadListener} (heard : List.Forall₂
    (PostLoadListener.Mirrors (s.shift failed) s.session.journal failed.session.journal) listeners others)
    (position : Nat) (event : PostLoadEvent) (a b : State) (mirrors : Mirrors s failed a b) :
    Follows (Mirrors s failed) (fun _ _ => True) (firePostLoad listeners position event)
      (firePostLoad others position (event.rename (s.shift failed))) a b := by
  induction heard generalizing position a b with
  | nil => exact .pure mirrors trivial
  | @cons listener other rest rest' takes _ ih =>
    unfold firePostLoad
    apply Follows.get_bind
    obtain ⟨since, since', here, there, told⟩ := mirrors.journal
    rcases called : listener.call a.session.journal event a.heap with ⟨e | _, edits⟩
    · intro _ after ran
      rw [exec_record_bind, exec_modify_bind, exec_bind_error _ (exec_lift _ _)] at ran
      cases ran
    · have called' := takes since since' event a.heap b.heap edits told mirrors.heap (here ▸ called)
      rw [← there] at called'
      rw [called']
      have values : (b.heap.values (s.shift failed event.entity)) =
          renameAll (s.shift failed) (a.heap.values event.entity) :=
        congrArg Instance.values (mirrors.heap.reads event.entity)
      refine Follows.bind (.modify (mirrors.record ?_)) fun _ _ a b _ mirrors => ?_
      · exact congrArg (fun values => [Call.postLoad _ _ _ _ values]) values
      · refine Follows.bind (.modify (mirrors.mapHeap _ _ (mirrors.heap.edit (s.shift_renaming failed).injective edits)
          (Heap.size_edit _ _) (Heap.size_edit _ _))) fun _ _ a b _ mirrors => ?_
        have answered : Follows (Mirrors s failed) (fun _ _ => True) (liftM (Except.ok () : Except Error Unit))
            (liftM (Except.ok () : Except Error Unit)) a b := .pure mirrors trivial
        exact answered.bind fun _ _ a b _ mirrors => ih (position + 1) a b mirrors

theorem announceLoaded_follows (entities : List LoadingEntity) (a b : State) (mirrors : Mirrors s failed a b) :
    Follows (Mirrors s failed) (fun _ _ => True) (announceLoaded entities)
      (announceLoaded (entities.map (LoadingEntity.rename (s.shift failed)))) a b := by
  induction entities generalizing a b with
  | nil => exact .pure mirrors trivial
  | cons entity rest ih =>
    refine .get_bind ?_
    refine (firePostLoad_follows mirrors.postLoad 0 _ a b mirrors).bind fun _ _ a b _ mirrors => ?_
    exact ih a b mirrors

end Action

/-- Listeners and hooks are told nothing. -/
def Silent (before after : State) : Prop :=
  ∃ calls, after.session.journal = before.session.journal ++ calls ∧ Journal.notices calls = []

namespace Silent

theorem of_same {before after : State} (same : after.session.journal = before.session.journal) : Silent before after :=
  ⟨[], by rw [same, List.append_nil], rfl⟩

theorem frame : Frame Silent where
  refl _ := of_same rfl
  trans := by
    rintro a b c ⟨calls, first, quiet⟩ ⟨others, second, quiet'⟩
    refine ⟨calls ++ others, by rw [second, first, List.append_assoc], ?_⟩
    unfold Journal.notices at *
    rw [List.filter_append, quiet, quiet', List.append_nil]

theorem record (s : State) {call : Call} (quiet : call.isNotice = false) : Silent s (s.record call) :=
  ⟨[call], rfl, by simp [Journal.notices, quiet]⟩

end Silent

namespace Action

theorem warnUnidentified_silent (handles : List Handle) (s : State) : Keeps Silent (warnUnidentified handles) s := by
  induction handles generalizing s with
  | nil => exact .pure Silent.frame _ s
  | cons h rest ih => exact .get_bind (.bind Silent.frame (Silent.record s rfl) fun _ s _ => ih s)

theorem cacheLoaded_silent (d : Descriptor) (key : EntityKey) (state : List AttributeValue) (s : State) :
    Keeps Silent (cacheLoaded d key state) s := by
  apply Keeps.get_bind
  split
  · split
    · exact .pure Silent.frame _ s
    · refine .bind Silent.frame (warnUnidentified_silent _ s) fun _ s _ => ?_
      refine .bind Silent.frame ?_ fun accepted s _ => ?_
      · apply Keeps.get_bind
        split
        · exact .bind Silent.frame (Silent.record s rfl) fun _ s _ => .pure Silent.frame _ s
        · exact .bind Silent.frame (Silent.of_same rfl) fun _ s _ => .pure Silent.frame _ s
      · split
        · exact Silent.of_same rfl
        · exact .pure Silent.frame _ s
  · exact .pure Silent.frame _ s

end Action

theorem Mirrors.of_caches {s failed a b c d : State} (mirrors : Mirrors s failed a b) (first : Caches a c)
    (second : Caches b d) (silent : Silent a c) (silent' : Silent b d) : Mirrors s failed c d := by
  obtain ⟨journal, same⟩ := first.session
  obtain ⟨journal', same'⟩ := second.session
  constructor
  case factory => rw [same, same']; exact mirrors.factory
  case config => rw [same, same']; exact mirrors.config
  case preLoad => rw [same, same']; exact mirrors.preLoad
  case postLoad => rw [same, same']; exact mirrors.postLoad
  case journal =>
    obtain ⟨since, since', here, there, told⟩ := mirrors.journal
    obtain ⟨calls, extended, quiet⟩ := silent
    obtain ⟨calls', extended', quiet'⟩ := silent'
    refine ⟨since ++ calls, since' ++ calls', ?_, ?_, ?_⟩
    · rw [extended, here, List.append_assoc]
    · rw [extended', there, List.append_assoc]
    · unfold Journal.Corresponds Journal.notices at *
      rw [List.filter_append, List.filter_append, quiet, quiet', List.append_nil, List.append_nil, told]
  case heap => rw [first.heap, second.heap]; exact mirrors.heap
  case grown => rw [first.heap]; exact mirrors.grown
  case size => rw [first.heap, second.heap]; exact mirrors.size
  case context =>
    unfold State.context
    rw [same, same']
    exact mirrors.context

namespace Action

theorem loadedEntry_rename {names : Handle → Handle} (d : Descriptor) (state : List AttributeValue) (readOnly : Bool)
    (entry : Entry) : loadedEntry d (renameAll names state) readOnly (entry.rename names) =
      (loadedEntry d state readOnly entry).rename names := by
  cases readOnly with
  | true => rfl
  | false =>
    unfold loadedEntry Entry.rename
    simp only [Bool.false_eq_true, if_false, Option.map_some, Snapshot.take_rename]

variable {s failed a b : State} (mirrors : Mirrors s failed a b)
include mirrors

theorem cacheLoaded_follows (d : Descriptor) (key : EntityKey) (state other : List AttributeValue) :
    Follows (Mirrors s failed) (fun _ _ => True) (cacheLoaded d key state) (cacheLoaded d key other) a b := by
  intro _ after ran
  obtain ⟨cached, ran', caches, -⟩ := cacheLoaded_exec d key other b
  obtain ⟨_, same, caches', -⟩ := cacheLoaded_exec d key state a
  rw [ran] at same
  cases same
  exact ⟨(), cached, ran', trivial, mirrors.of_caches caches' caches ((cacheLoaded_silent _ _ _ _).of_exec ran)
    ((cacheLoaded_silent _ _ _ _).of_exec ran')⟩

theorem runHook_follows {d : Descriptor} (uniform : ∀ hook, d.afterInitialize = some hook → hook.Uniform s.heap) (h : Handle) :
    Follows (Mirrors s failed) (fun _ _ => True) (runHook d h) (runHook d (s.shift failed h)) a b := by
  unfold runHook
  cases given : d.afterInitialize with
  | none => exact .pure mirrors trivial
  | some hook =>
    apply Follows.get_bind
    have values : (b.heap.values (s.shift failed h)) = renameAll (s.shift failed) (a.heap.values h) :=
      congrArg Instance.values (mirrors.heap.reads h)
    have edits := uniform hook given _ a.session.journal b.session.journal h a.heap b.heap (s.shift_renaming failed)
      mirrors.heap
    rw [edits]
    refine Follows.bind (.modify (mirrors.record ?_)) fun _ _ x y _ mirrors => .modify ?_
    · exact congrArg (fun values => [Call.initialized _ values]) values
    · exact mirrors.mapHeap _ _ (mirrors.heap.edit (s.shift_renaming failed).injective _) (Heap.size_edit _ _)
        (Heap.size_edit _ _)

theorem loadsReadOnly_mirrored (d : Descriptor) {key : EntityKey} (options : LoadOptions)
    (agreed : failed.context.proxy? key = s.context.proxy? key) :
    loadsReadOnly b.session d key options = loadsReadOnly a.session d key options := by
  have same : b.session.context.proxy? key = a.session.context.proxy? key := mirrors.context.proxies key agreed
  unfold loadsReadOnly
  rw [same, mirrors.config]

theorem install_follows {d : Descriptor} (uniform : ∀ hook, d.afterInitialize = some hook → hook.Uniform s.heap)
    {key : EntityKey} (agreed : failed.context.proxy? key = s.context.proxy? key) (options : LoadOptions) {h : Handle}
    (new : h ∉ s.heap) (state : List AttributeValue) : Follows (Mirrors s failed) (fun _ _ => True)
      (install d key options h state) (install d key options (s.shift failed h) (renameAll (s.shift failed) state)) a b := by
  have named := s.shift_renaming failed
  have filled : Mirrors s failed (a.mapHeap fun heap => heap.update h fun x => { x with values := state })
      (b.mapHeap fun heap => heap.update (s.shift failed h) fun x =>
        { x with values := renameAll (s.shift failed) state }) :=
    mirrors.mapHeap _ _ (mirrors.heap.update named.injective h fun _ => rfl) (a.heap.size_update _ _)
      (b.heap.size_update _ _)
  refine Follows.bind (.modify filled) fun _ _ a b _ mirrors => ?_
  refine (cacheLoaded_follows mirrors d key _ _).bind fun _ _ a b _ mirrors => ?_
  refine Follows.bind (.modify ?_) fun _ _ a b _ mirrors => ?_
  · exact { mirrors with }
  refine Follows.bind (.modify ?_) fun _ _ a b _ mirrors => ?_
  · refine mirrors.mapContext _ _ (mirrors.context.updateEntry named new fun entry => ?_)
    rw [loadsReadOnly_mirrored mirrors d options agreed]
    exact loadedEntry_rename d state _ entry
  · refine (runHook_follows mirrors uniform h).bind fun _ _ a b _ mirrors => ?_
    exact .modify { mirrors with }

theorem trackLoading_follows (options : LoadOptions) (entity : LoadingEntity) (key : EntityKey)
    (new : entity.handle ∉ s.heap) : Follows (Mirrors s failed) (fun _ _ => True) (trackLoading entity key options)
      (trackLoading (entity.rename (s.shift failed)) key options) a b := by
  intro _ after ran
  obtain ⟨context, added, rfl⟩ := changeContext_ok ran
  obtain ⟨other, added', mirrored⟩ := mirrors.context.addEntity (s.shift_renaming failed) new rfl added
  refine ⟨(), _, exec_changeContext_ok ?_, trivial, mirrors.mapContext _ _ mirrored⟩
  rw [← added']
  have version : entity.descriptor.versionOf (renameAll (s.shift failed) entity.hydrated) =
      entity.descriptor.versionOf entity.hydrated := Descriptor.versionOf_rename _ _ _
  unfold LoadingEntity.rename Entry.rename
  dsimp only
  rw [version]
  rfl

end Action

/-- An entity of a load can be loaded again: its instance is new, and the failure has left no proxy for its row. -/
structure LoadingEntity.Repeatable (s failed : State) (entity : LoadingEntity) : Prop where
  new : entity.handle ∉ s.heap
  agreed : failed.context.proxy? entity.key = s.context.proxy? entity.key
  uniform : ∀ hook, entity.descriptor.afterInitialize = some hook → hook.Uniform s.heap

namespace Action
variable {s failed : State} {batch : Batch} {options : LoadOptions}

theorem materialize_follows (repeatable : ∀ entity ∈ batch.entities, entity.Repeatable s failed) (options : LoadOptions)
    {entity : LoadingEntity} (member : entity ∈ batch.entities) (a b : State) (mirrors : Mirrors s failed a b) :
    Follows (Mirrors s failed) (fun _ _ => True) (materialize batch options entity)
      (materialize (batch.rename (s.shift failed)) options (entity.rename (s.shift failed))) a b := by
  have named := s.shift_renaming failed
  have again := repeatable entity member
  have keyFor : (batch.rename (s.shift failed)).keyFor? (entity.rename (s.shift failed)).handle =
      batch.keyFor? entity.handle := batch.keyFor?_rename named.injective entity.handle
  have agreed : failed.context.proxy? ((batch.keyFor? entity.handle).getD entity.key) =
      s.context.proxy? ((batch.keyFor? entity.handle).getD entity.key) := by
    cases keyed : batch.keyFor? entity.handle with
    | none => exact again.agreed
    | some key =>
      obtain ⟨other, inside, -, rfl⟩ := Batch.mem_of_keyFor? keyed
      exact (repeatable other inside).agreed
  have key : (entity.rename (s.shift failed)).key = entity.key := rfl
  rw [materialize_eq, materialize_eq, keyFor, key]
  generalize (batch.keyFor? entity.handle).getD entity.key = key at agreed ⊢
  have tracked (a b : State) (mirrors : Mirrors s failed a b) : Follows (Mirrors s failed) (fun _ _ => True) (do
        let resolved ← resolveAll batch entity.descriptor.name entity.descriptor.attributes entity.hydrated
        let session := (← get).session
        let state ← if session.config.eventSource then
            firePreLoad session.preLoad 0
              { entity := entity.handle, id := key.id, descriptor := entity.descriptor, state := resolved }
          else pure resolved
        install entity.descriptor key options entity.handle state) (do
        let resolved ← resolveAll (batch.rename (s.shift failed)) entity.descriptor.name entity.descriptor.attributes
          (renameAll (s.shift failed) entity.hydrated)
        let session := (← get).session
        let state ← if session.config.eventSource then
            firePreLoad session.preLoad 0
              { entity := s.shift failed entity.handle, id := key.id, descriptor := entity.descriptor, state := resolved }
          else pure resolved
        install entity.descriptor key options (s.shift failed entity.handle) state) a b := by
    refine (resolveAll_follows batch _ _ _ a b mirrors).bind fun resolved other a b same mirrors => ?_
    subst other
    apply Follows.get_bind
    dsimp only
    rw [mirrors.config]
    split
    · refine (firePreLoad_follows mirrors.preLoad 0 _ a b mirrors).bind fun state other a b same mirrors => ?_
      subst other
      exact install_follows mirrors again.uniform agreed options again.new state
    · exact install_follows mirrors again.uniform agreed options again.new resolved
  apply Follows.get_bind
  have same : b.context.isTracked (entity.rename (s.shift failed)).handle = a.context.isTracked entity.handle :=
    mirrors.context.isTracked named entity.handle
  dsimp only
  rw [same]
  split
  · refine (trackLoading_follows mirrors options entity key again.new).bind fun _ _ a b _ mirrors => ?_
    exact tracked a b mirrors
  · exact tracked a b mirrors

theorem materializeAll_follows (repeatable : ∀ entity ∈ batch.entities, entity.Repeatable s failed)
    (options : LoadOptions) (entities : List LoadingEntity) (members : entities ⊆ batch.entities) (a b : State)
    (mirrors : Mirrors s failed a b) : Follows (Mirrors s failed) (fun _ _ => True)
      (materializeAll batch options entities)
      (materializeAll (batch.rename (s.shift failed)) options
        (entities.map (LoadingEntity.rename (s.shift failed)))) a b := by
  induction entities generalizing a b with
  | nil => exact .pure mirrors trivial
  | cons entity rest ih =>
    obtain ⟨member, others⟩ := List.cons_subset.mp members
    refine (materialize_follows repeatable options member a b mirrors).bind fun _ _ a b _ mirrors => ?_
    exact ih others a b mirrors

theorem finishUp_follows (repeatable : ∀ entity ∈ batch.entities, entity.Repeatable s failed) (options : LoadOptions)
    (a b : State) (mirrors : Mirrors s failed a b) : Follows (Mirrors s failed) (fun _ _ => True)
      (finishUp batch options) (finishUp (batch.rename (s.shift failed)) options) a b := by
  refine (materializeAll_follows repeatable options _ (List.Subset.refl _) a b mirrors).bind fun _ _ a b _ mirrors => ?_
  apply Follows.get_bind
  rw [mirrors.config]
  split
  · exact announceLoaded_follows _ a b mirrors
  · exact .pure mirrors trivial

theorem registerLoading_follows (batch : Batch) (entity : LoadingEntity) (a b : State) (mirrors : Mirrors s failed a b) :
    Follows (Mirrors s failed) (fun registered other => other = (registered.1, registered.2.rename (s.shift failed)))
      (registerLoading batch entity)
      (registerLoading (batch.rename (s.shift failed)) (entity.rename (s.shift failed))) a b := by
  unfold registerLoading
  rw [batch.register_rename (s.shift_renaming failed).injective]
  rcases batch.register entity with ⟨registration, grown⟩
  dsimp only
  split
  · apply Follows.get_bind
    exact Follows.bind (.modify (mirrors.record rfl)) fun _ _ a b _ mirrors => .pure mirrors rfl
  · exact .pure mirrors rfl

theorem admitNew_follows (d : Descriptor) (options : LoadOptions) (progress : LoadProgress) {row : HydratedRow}
    (fits : AttributeValue.fitAll d.attributes row.values = true) (a b : State) (mirrors : Mirrors s failed a b) :
    Follows (Mirrors s failed) (fun grown other => other = grown.rename (s.shift failed))
      (admitNew d options progress row a) (admitNew d options (progress.rename (s.shift failed)) row b) a b := by
  have blank : (d.instantiate (some row.key.id)).rename (s.shift failed) = d.instantiate (some row.key.id) :=
    congrArg (fun values => { d.instantiate (some row.key.id) with values }) (AttributeValue.renameAll_replicate _ _)
  have loading : b.loading d row = (a.loading d row).rename (s.shift failed) := by
    unfold State.loading LoadingEntity.rename
    rw [mirrors.next, AttributeValue.renameAll_of_fitAll _ _ _ fits]
  have new := mirrors.next_new
  unfold admitNew
  rw [loading, ← mirrors.next]
  refine Follows.bind (.set (mirrors.create blank)) fun _ _ x y _ mirrors => ?_
  refine (registerLoading_follows progress.batch _ x y mirrors).bind fun registered other x y same mirrors => ?_
  subst other
  dsimp only
  split
  · refine (trackLoading_follows mirrors options _ row.key new).bind fun _ _ x y _ mirrors => .pure mirrors ?_
    unfold LoadProgress.rename
    rw [List.map_append]
    rfl
  · refine Follows.bind (.modify ?_) fun _ _ x y _ mirrors => .pure mirrors ?_
    · exact { mirrors with }
    · unfold LoadProgress.rename
      rw [List.map_append, Batch.handle?_rename]
      cases registered.2.handle? row.key <;> rfl

theorem admitRow_follows (d : Descriptor) (options : LoadOptions) (progress : LoadProgress) {row : HydratedRow}
    (fits : AttributeValue.fitAll d.attributes row.values = true) (a b : State) (mirrors : Mirrors s failed a b) :
    Follows (Mirrors s failed) (fun grown other => other = grown.rename (s.shift failed))
      (admitRow d options progress row.key row.values)
      (admitRow d options (progress.rename (s.shift failed)) row.key row.values) a b := by
  rw [admitRow_eq, admitRow_eq]
  apply Follows.get_bind
  have contains : (progress.rename (s.shift failed)).batch.contains row.key = progress.batch.contains row.key :=
    progress.batch.contains_rename row.key
  have existing : (if (progress.rename (s.shift failed)).batch.contains row.key then none
        else b.context.entity? row.key) =
      (if progress.batch.contains row.key then none else a.context.entity? row.key).map (s.shift failed) := by
    rw [contains, mirrors.context.standing]
    split <;> rfl
  rw [existing]
  cases (if progress.batch.contains row.key then none else a.context.entity? row.key) with
  | some h =>
    refine .pure mirrors ?_
    unfold LoadProgress.rename
    rw [List.map_append]
    rfl
  | none => exact admitNew_follows d options progress fits a b mirrors

theorem hydrateRows_follows {d : Descriptor} (options : LoadOptions) {rows : List (Except Error Row)}
    {found : List HydratedRow} (hydrates : d.Hydrates rows found) (progress : LoadProgress) (a b : State)
    (mirrors : Mirrors s failed a b) {grown : LoadProgress} {after : State}
    (ran : hydrateRows d options rows progress a = ((.ok (), grown), after)) : ∃ last,
      hydrateRows d options rows (progress.rename (s.shift failed)) b =
        ((.ok (), grown.rename (s.shift failed)), last) ∧ Mirrors s failed after last := by
  induction hydrates generalizing progress a b with
  | nil =>
    cases ran
    exact ⟨b, rfl, mirrors⟩
  | @cons given row rows found first rest ih =>
    obtain ⟨r, rfl, read⟩ := first
    rcases began : (admitRow d options progress row.key row.values).exec a with ⟨e | more, middle⟩
    · rw [hydrateRows_step row rows read began] at ran
      cases ran
    · rw [hydrateRows_step row rows read began] at ran
      obtain ⟨other, middle', began', rfl, mirrors⟩ :=
        admitRow_follows d options progress (Descriptor.hydrateRow_fits read) a b mirrors more middle began
      rw [hydrateRows_step row rows read began']
      exact ih more middle middle' mirrors ran

end Action

end UnitOfWork
