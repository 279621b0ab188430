import Mathlib.Data.List.Pairwise
import UnitOfWork.Proofs.Initialization

/-! A whole load, from its first row to its last listener. While the instances of a batch are initialized no key
changes its instance, so that all rows of the batch are resolved alike, and entries of other instances stay as
they are. A load that fails forgets its instances again. -/

namespace UnitOfWork
open UnitOfWork.Action

namespace Context
variable {context : Context}

theorem referenceTo_updateEntry {h : Handle} {change : Entry → Entry}
    (alive : (context.entry? h).any (fun entry => entry.status.isDeletedOrGone) = false)
    (still : (context.entry? h).any (fun entry => (change entry).status.isDeletedOrGone) = false) :
    (context.updateEntry h change).referenceTo = context.referenceTo := by
  funext key
  have entities : (context.updateEntry h change).entity? key = context.entity? key := rfl
  unfold referenceTo
  rw [entities]
  cases context.entity? key with
  | none => rfl
  | some other =>
    dsimp only
    rw [entry?_updateEntry]
    split
    next same =>
      subst other
      rw [Option.any_map, alive]
      simp only [still]
    next => rfl

end Context

/-- What is true of a batch while its instances are initialized. -/
structure Batch.Ready (batch : Batch) (s : State) : Prop where
  keyed : ∀ entity ∈ batch.entities, batch.keyFor? entity.handle = some entity.key
  standing : ∀ entity ∈ batch.entities, s.context.entity? entity.key = some entity.handle
  tracked : ∀ entity ∈ batch.entities, ∃ entry, s.context.entry? entity.handle = some entry ∧
    entry.status.isDeletedOrGone = false
  allocated : ∀ entity ∈ batch.entities, entity.handle ∈ s.heap

theorem Batch.Ready.known {batch : Batch} {s : State} (ready : batch.Ready s) : batch.Known s.context := by
  intro key missing
  rw [Batch.handle?, Option.map_eq_none_iff]
  apply Batch.find?_eq_none.mpr
  intro entity member
  apply Bool.eq_false_iff.mpr
  intro same
  rw [← s.context.entity?_congr same, ready.standing entity member] at missing
  cases missing

/-- Whether some key of these entities leads to a row. -/
def Metamodel.reaches (model : Metamodel) (entities : List LoadingEntity) (key : EntityKey) : Bool :=
  entities.any fun entity => (entity.keys model).any (· == key)

theorem Metamodel.reaches_append (model : Metamodel) (entities : List LoadingEntity) (entity : LoadingEntity)
    (key : EntityKey) : model.reaches (entities ++ [entity]) key =
      (model.reaches entities key || (entity.keys model).any (· == key)) := by
  simp [reaches]

/-- What initializing these instances may change, however it ends. -/
structure Finishing (entities : List LoadingEntity) (before after : State) : Prop where
  session : ∃ journal naturalIds entries proxies, after.session =
    { before.session with journal, naturalIds, context := { before.context with entries, proxies } }
  entries : ∀ h, (∀ entity ∈ entities, entity.handle ≠ h) → after.context.entry? h = before.context.entry? h
  references : after.context.referenceTo = before.context.referenceTo
  proxies : ∀ key, after.context.proxy? key = before.context.proxy? key ∨
    before.context.proxy? key = none ∧ before.context.entity? key = none ∧
      after.context.proxy? key = some before.session.config.readOnly ∧
      before.session.factory.metamodel.reaches entities key = true
  size : after.heap.size = before.heap.size
  enabled : after.shared.statistics.enabled = before.shared.statistics.enabled
  duplicates : after.shared.statistics.duplicates = before.shared.statistics.duplicates
  leaves : ∀ may kept, (∀ entity ∈ entities, before.Writes may entity.descriptor) →
    (∀ entity ∈ entities, ¬ kept entity.handle ∧ ∀ h, may entity.handle h → ¬ kept h) → Leaves kept before after

namespace Finishing
variable {entities : List LoadingEntity} {a b c : State}

theorem factory (finishing : Finishing entities a b) : b.session.factory = a.session.factory := by
  obtain ⟨_, _, _, _, same⟩ := finishing.session
  rw [same]

theorem config (finishing : Finishing entities a b) : b.session.config = a.session.config := by
  obtain ⟨_, _, _, _, same⟩ := finishing.session
  rw [same]

theorem entity? (finishing : Finishing entities a b) (key : EntityKey) : b.context.entity? key = a.context.entity? key := by
  obtain ⟨_, _, _, _, same⟩ := finishing.session
  unfold State.context
  rw [same]
  rfl

theorem writes (finishing : Finishing entities a b) {may : Handle → Handle → Prop} {d : Descriptor}
    (writes : a.Writes may d) : b.Writes may d := by
  obtain ⟨_, _, _, _, same⟩ := finishing.session
  refine writes.of_session ?_ ?_ <;> rw [same] <;> rfl

theorem refl (s : State) : Finishing entities s s where
  session := ⟨_, _, _, _, rfl⟩
  entries _ _ := rfl
  references := rfl
  proxies _ := .inl rfl
  size := rfl
  enabled := rfl
  duplicates := rfl
  leaves _ _ _ _ := .of_same rfl

theorem trans (first : Finishing entities a b) (second : Finishing entities b c) : Finishing entities a c where
  session := by
    obtain ⟨_, _, _, _, same⟩ := first.session
    obtain ⟨journal, naturalIds, entries, proxies, changed⟩ := second.session
    refine ⟨journal, naturalIds, entries, proxies, changed.trans ?_⟩
    unfold State.context
    rw [same]
    rfl
  entries h others := (second.entries h others).trans (first.entries h others)
  references := second.references.trans first.references
  proxies key := by
    have later := second.proxies key
    rw [first.entity?, first.config, first.factory] at later
    rcases first.proxies key with same | ⟨unmarked, missing, marked, led⟩
    · rwa [same] at later
    · rcases later with same | ⟨unmarked', -⟩
      · exact .inr ⟨unmarked, missing, same.trans marked, led⟩
      · rw [marked] at unmarked'
        cases unmarked'
  size := second.size.trans first.size
  enabled := second.enabled.trans first.enabled
  duplicates := second.duplicates.trans first.duplicates
  leaves may kept writes elsewhere := Leaves.frame.trans (first.leaves may kept writes elsewhere)
    (second.leaves may kept (fun entity member => first.writes (writes entity member)) elsewhere)

theorem mono {more : List LoadingEntity} (subset : entities ⊆ more) (finishing : Finishing entities a b) :
    Finishing more a b where
  session := finishing.session
  entries h others := finishing.entries h fun entity member => others entity (subset member)
  references := finishing.references
  proxies key := by
    rcases finishing.proxies key with same | ⟨unmarked, missing, marked, led⟩
    · exact .inl same
    · obtain ⟨entity, member, led⟩ := List.any_eq_true.mp led
      exact .inr ⟨unmarked, missing, marked, List.any_eq_true.mpr ⟨entity, subset member, led⟩⟩
  size := finishing.size
  enabled := finishing.enabled
  duplicates := finishing.duplicates
  leaves may kept writes elsewhere := finishing.leaves may kept (fun entity member => writes entity (subset member))
    fun entity member => elsewhere entity (subset member)

theorem of_serves (serves : Serves a b)
    (leaves : ∀ may kept, (∀ entity ∈ entities, a.Writes may entity.descriptor) →
      (∀ entity ∈ entities, ¬ kept entity.handle ∧ ∀ h, may entity.handle h → ¬ kept h) → Leaves kept a b) :
    Finishing entities a b := by
  obtain ⟨journal, same⟩ := serves.session
  have context : b.context = a.context := by
    unfold State.context
    rw [same]
  refine ⟨⟨journal, _, _, _, same⟩, fun h _ => ?_, ?_, fun key => .inl ?_, serves.size, serves.enabled,
    serves.duplicates, leaves⟩
  all_goals rw [context]

theorem proxying {entity : LoadingEntity} (some_ : List EntityKey) (member : entity ∈ entities)
    (among : some_ ⊆ entity.keys a.session.factory.metamodel) : Finishing entities a (a.proxying some_) := by
  refine ⟨?_, fun h _ => Context.entry?_withProxies _ _ _ _, State.referenceTo_proxying _ _, fun key => ?_, rfl, rfl, rfl,
    fun _ _ _ _ => .of_same rfl⟩
  · obtain ⟨proxies, same⟩ := a.context.withProxies_eq a.session.config.readOnly some_
    refine ⟨a.session.journal, a.session.naturalIds, a.context.entries, proxies, ?_⟩
    unfold State.proxying State.mapContext State.mapSession
    rw [same]
  · have marks : (a.proxying some_).context.proxy? key = _ := Context.proxy?_withProxies _ _ some_ key
    rw [marks]
    split
    next led =>
      obtain ⟨unmarked, missing, led⟩ := led
      obtain ⟨other, held, same⟩ := List.any_eq_true.mp led
      refine .inr ⟨unmarked, missing, rfl, List.any_eq_true.mpr ⟨entity, member, ?_⟩⟩
      exact List.any_eq_true.mpr ⟨other, among held, same⟩
    next => exact .inl rfl

end Finishing

theorem Action.isDeletedOrGone_loadedEntry (d : Descriptor) (state : List AttributeValue) (readOnly : Bool)
    (entry : Entry) : (loadedEntry d state readOnly entry).status.isDeletedOrGone = false := by
  cases readOnly <;> rfl

namespace Materialized
variable {options : LoadOptions} {entity : LoadingEntity} {state : List AttributeValue} {before after : State}
  {entities : List LoadingEntity}

theorem context (materialized : Materialized options entity state before after) : after.context =
    (before.proxying (entity.keys before.session.factory.metamodel)).context.updateEntry entity.handle
      (loadedEntry entity.descriptor state (loadsReadOnly
        (before.proxying (entity.keys before.session.factory.metamodel)).session entity.descriptor entity.key options)) := by
  obtain ⟨_, _, same⟩ := materialized.session
  unfold State.context
  rw [same]
  rfl

theorem entry? (materialized : Materialized options entity state before after) (h : Handle) : after.context.entry? h =
    if entity.handle = h then (before.context.entry? h).map (loadedEntry entity.descriptor state (loadsReadOnly
      (before.proxying (entity.keys before.session.factory.metamodel)).session entity.descriptor entity.key options))
    else before.context.entry? h := by
  have unchanged : (before.proxying (entity.keys before.session.factory.metamodel)).context.entry? h =
      before.context.entry? h := Context.entry?_withProxies _ _ _ _
  rw [materialized.context, Context.entry?_updateEntry, unchanged]

theorem references (materialized : Materialized options entity state before after)
    (alive : (before.context.entry? entity.handle).any (fun entry => entry.status.isDeletedOrGone) = false) :
    after.context.referenceTo = before.context.referenceTo := by
  rw [materialized.context, Context.referenceTo_updateEntry]
  · exact State.referenceTo_proxying _ _
  · have unchanged : (before.proxying (entity.keys before.session.factory.metamodel)).context.entry? entity.handle =
        before.context.entry? entity.handle := Context.entry?_withProxies _ _ _ _
    rw [unchanged]
    exact alive
  · simp [isDeletedOrGone_loadedEntry]

end Materialized

namespace Action.Materializes
variable {options : LoadOptions} {entity : LoadingEntity} {s after : State} {answer : Except Error Unit}
  {entities : List LoadingEntity}

theorem finishing (ended : Materializes options entity s answer after) (member : entity ∈ entities)
    (alive : (s.context.entry? entity.handle).any (fun entry => entry.status.isDeletedOrGone) = false) :
    Finishing entities s after := by
  have leaves (may : Handle → Handle → Prop) (kept : Handle → Prop)
      (writes : ∀ entity ∈ entities, s.Writes may entity.descriptor)
      (elsewhere : ∀ entity ∈ entities, ¬ kept entity.handle ∧ ∀ h, may entity.handle h → ¬ kept h) :
      Leaves kept s after :=
    ended.leaves (writes entity member) (elsewhere entity member).1 (elsewhere entity member).2
  have resolved := Finishing.proxying (entity.keys s.session.factory.metamodel) member (List.Subset.refl _)
  cases answer with
  | error e =>
    cases ended with
    | lost among _ => exact .proxying _ member among
    | refused _ ran =>
      refine resolved.trans (.of_serves ((prepare_serves _ _).of_exec ran) fun may kept writes elsewhere => ?_)
      exact (prepare_leaves (writes entity member) (elsewhere entity member).2).of_exec ran
  | ok _ =>
    obtain ⟨_, _, materialized⟩ := ended.materialized
    obtain ⟨journal, naturalIds, same⟩ := materialized.session
    refine ⟨?_, fun h others => ?_, materialized.references alive, fun key => ?_, materialized.size,
      materialized.enabled, materialized.duplicates, leaves⟩
    · obtain ⟨_, _, entries, proxies, proxied⟩ := resolved.session
      have context : (s.proxying (entity.keys s.session.factory.metamodel)).context =
          { s.context with entries, proxies } := by
        unfold State.context at *
        rw [proxied]
      rw [context] at same
      exact ⟨journal, naturalIds, _, proxies, same⟩
    · rw [materialized.entry?, if_neg (others entity member)]
    · have proxied := resolved.proxies key
      rw [materialized.context]
      exact proxied

end Action.Materializes

namespace Batch.Ready
variable {batch : Batch} {options : LoadOptions} {entity : LoadingEntity} {s after : State} {answer : Except Error Unit}

theorem alive (ready : batch.Ready s) (member : entity ∈ batch.entities) :
    (s.context.entry? entity.handle).any (fun entry => entry.status.isDeletedOrGone) = false := by
  obtain ⟨entry, found, alive⟩ := ready.tracked entity member
  rw [found]
  exact alive

theorem materializes (ready : batch.Ready s) (member : entity ∈ batch.entities)
    (ran : (materialize batch options entity).exec s = (answer, after)) :
    Materializes options entity s answer after := by
  refine materialize_cases ready.known (ready.keyed entity member) ?_ ran
  obtain ⟨entry, found, -⟩ := ready.tracked entity member
  rw [Context.isTracked_eq, found]
  rfl

theorem finishing (ready : batch.Ready s) (member : entity ∈ batch.entities)
    (ran : (materialize batch options entity).exec s = (answer, after)) : Finishing batch.entities s after :=
  (ready.materializes member ran).finishing member (ready.alive member)

theorem next (ready : batch.Ready s) (member : entity ∈ batch.entities)
    (ran : (materialize batch options entity).exec s = (.ok (), after)) : batch.Ready after := by
  have finishing := ready.finishing member ran
  obtain ⟨-, state, materialized⟩ := (ready.materializes member ran).materialized
  refine ⟨ready.keyed, fun other held => ?_, fun other held => ?_, fun other held => ?_⟩
  · rw [finishing.entity?]
    exact ready.standing other held
  · obtain ⟨entry, found, alive⟩ := ready.tracked other held
    rw [materialized.entry?, found]
    split
    · exact ⟨_, rfl, isDeletedOrGone_loadedEntry _ _ _ _⟩
    · exact ⟨entry, rfl, alive⟩
  · exact Nat.lt_of_lt_of_eq (ready.allocated other held) finishing.size.symm

end Batch.Ready

/-- What has become of a batch once these of its instances are initialized. -/
structure Initialized (options : LoadOptions) (entities : List LoadingEntity) (before after : State) : Prop
    extends Finishing entities before after where
  sound : ∀ entity ∈ entities, entity.leads before.session.factory.metamodel = true
  loaded : ∀ entity ∈ entities, ∃ state,
    (entity.event before).Answered before.session.preLoadListeners state ∧
      after.context.entry? entity.handle = (before.context.entry? entity.handle).map (loadedEntry entity.descriptor state
        (loadsReadOnly before.session entity.descriptor entity.key options)) ∧
      ((∀ other ∈ entities, before.Writes (fun _ _ => False) other.descriptor) →
        after.heap.read entity.handle = { before.heap.read entity.handle with values := state })
  marked : ∀ key, after.context.proxy? key =
    if before.context.proxy? key = none ∧ before.context.entity? key = none ∧
        before.session.factory.metamodel.reaches entities key = true
      then some before.session.config.readOnly else before.context.proxy? key
  loads : before.shared.statistics.enabled = true → ∀ name, after.shared.statistics.counter .entityLoads name =
    before.shared.statistics.counter .entityLoads name +
      .ofNat (entities.filter fun entity => entity.descriptor.name = name).length

namespace Initialized
variable {options : LoadOptions} {entity : LoadingEntity} {entities : List LoadingEntity} {state : List AttributeValue}
  {a b c : State}

theorem nothing (options : LoadOptions) (s : State) : Initialized options [] s s where
  toFinishing := .refl s
  sound _ member := by cases member
  loaded _ member := by cases member
  marked key := by simp [Metamodel.reaches]
  loads _ _ := (UInt64.add_zero _).symm

theorem event (finishing : Finishing entities a b) (entity : LoadingEntity) : entity.event b = entity.event a := by
  unfold LoadingEntity.event LoadingEntity.resolved
  rw [finishing.factory, finishing.references]

theorem preLoadListeners (finishing : Finishing entities a b) :
    b.session.preLoadListeners = a.session.preLoadListeners := by
  obtain ⟨_, _, _, _, same⟩ := finishing.session
  rw [same]
  rfl

theorem loadsReadOnly_eq (finishing : Finishing entities a b) (standing : a.context.entity? entity.key ≠ none) :
    loadsReadOnly b.session entity.descriptor entity.key options =
      loadsReadOnly a.session entity.descriptor entity.key options := by
  have same : b.session.context.proxy? entity.key = a.session.context.proxy? entity.key := by
    rcases finishing.proxies entity.key with same | ⟨-, missing, -⟩
    · exact same
    · exact absurd missing standing
  unfold loadsReadOnly
  rw [same, finishing.config]

theorem step (initialized : Initialized options entities a b) (materialized : Materialized options entity state b c)
    (sound : entity.leads b.session.factory.metamodel = true) (finishing : Finishing [entity] b c)
    (standing : a.context.entity? entity.key ≠ none) (allocated : entity.handle ∈ a.heap)
    (new : ∀ other ∈ entities, other.handle ≠ entity.handle) : Initialized options (entities ++ [entity]) a c := by
  have earlier := initialized.toFinishing
  have still (other : LoadingEntity) (member : other ∈ entities) : entity.handle ≠ other.handle :=
    (new other member).symm
  constructor
  case toFinishing =>
    exact (earlier.mono (List.subset_append_left _ _)).trans (finishing.mono (List.subset_append_right _ _))
  case sound =>
    rw [earlier.factory] at sound
    exact List.forall_mem_append.mpr ⟨initialized.sound, List.forall_mem_singleton.mpr sound⟩
  case loaded =>
    refine List.forall_mem_append.mpr ⟨fun other member => ?_, List.forall_mem_singleton.mpr ?_⟩
    · obtain ⟨state, answered, entered, filled⟩ := initialized.loaded other member
      refine ⟨state, answered, ?_, fun silent => ?_⟩
      · rw [materialized.entry?, if_neg (still other member)]
        exact entered
      · obtain ⟨silent, last⟩ := List.forall_mem_append.mp silent
        have quiet : Leaves (· = other.handle) b c := by
          refine finishing.leaves (fun _ _ => False) _ (fun one inside => earlier.writes (last one inside)) ?_
          refine List.forall_mem_singleton.mpr ⟨still other member, fun _ none_ => none_.elim⟩
        exact (quiet other.handle rfl).trans (filled silent)
    · refine ⟨state, ?_, ?_, fun silent => ?_⟩
      · rw [← event earlier, ← preLoadListeners earlier]
        exact materialized.answered
      · have proxied : Finishing [entity] b (b.proxying (entity.keys b.session.factory.metamodel)) :=
          .proxying _ (List.mem_singleton_self _) (List.Subset.refl _)
        rw [materialized.entry?, if_pos rfl, initialized.entries entity.handle new, loadsReadOnly_eq proxied,
          loadsReadOnly_eq earlier standing]
        rw [earlier.entity?]
        exact standing
      · obtain ⟨silent, last⟩ := List.forall_mem_append.mp silent
        have quiet : Leaves (· = entity.handle) a b := by
          refine earlier.leaves (fun _ _ => False) _ silent fun other member => ?_
          exact ⟨new other member, fun _ none_ => none_.elim⟩
        have inside : entity.handle ∈ b.heap := Nat.lt_of_lt_of_eq allocated earlier.size.symm
        rw [materialized.filled inside (earlier.writes (last entity (List.mem_singleton_self _))),
          quiet entity.handle rfl]
  case marked =>
    intro key
    have marks : c.context.proxy? key = if b.context.proxy? key = none ∧ b.context.entity? key = none ∧
        (entity.keys b.session.factory.metamodel).any (· == key) = true
          then some b.session.config.readOnly else b.context.proxy? key := by
      rw [materialized.context]
      exact Context.proxy?_withProxies _ _ _ _
    rw [marks, earlier.entity?, earlier.factory, earlier.config, initialized.marked key,
      Metamodel.reaches_append]
    cases a.context.proxy? key <;> cases a.context.entity? key <;>
      cases a.session.factory.metamodel.reaches entities key <;> simp
  case loads =>
    intro counting name
    have counting' : b.shared.statistics.enabled = true := earlier.enabled.trans counting
    rw [materialized.loads counting' name, initialized.loads counting name, List.filter_append, List.length_append]
    rw [UInt64.ofNat_add, ← UInt64.add_assoc]
    by_cases same : entity.descriptor.name = name <;> simp [same]

theorem announced (initialized : Initialized options entities a b) (serves : Serves b c)
    (leaves : ∀ may kept, (∀ entity ∈ entities, b.Writes may entity.descriptor) →
      (∀ entity ∈ entities, ¬ kept entity.handle ∧ ∀ h, may entity.handle h → ¬ kept h) → Leaves kept b c)
    (silent : (∀ entity ∈ entities, b.Writes (fun _ _ => False) entity.descriptor) → ∀ entity ∈ entities,
      c.heap.read entity.handle = b.heap.read entity.handle) : Initialized options entities a c := by
  have context : c.context = b.context := by
    obtain ⟨_, same⟩ := serves.session
    unfold State.context
    rw [same]
  refine ⟨initialized.toFinishing.trans (.of_serves serves leaves), initialized.sound, fun entity member => ?_,
    fun key => ?_, fun counting name => ?_⟩
  · obtain ⟨state, answered, entered, filled⟩ := initialized.loaded entity member
    refine ⟨state, answered, context ▸ entered, fun quiet => ?_⟩
    rw [silent (fun other inside => initialized.writes (quiet other inside)) entity member]
    exact filled quiet
  · rw [context]
    exact initialized.marked key
  · rw [serves.loads]
    exact initialized.loads counting name

end Initialized

namespace Action
variable {options : LoadOptions} {batch : Batch} {start s after : State} {answer : Except Error Unit}

/-- The induction is on what is left of the batch; what is done is known of it, and the batch stays ready. -/
private theorem materializeAll_initialized (initial : batch.Ready start)
    (distinct : batch.entities.Pairwise fun a b => a.handle ≠ b.handle) :
    ∀ (rest done_ : List LoadingEntity) (s : State), done_ ++ rest = batch.entities → batch.Ready s →
      Initialized options done_ start s → (materializeAll batch options rest).exec s = (answer, after) →
        Finishing batch.entities start after ∧ (answer = .ok () → Initialized options batch.entities start after)
  | [], done_, s, whole, ready, initialized, ran => by
    cases ran
    rw [List.append_nil] at whole
    subst whole
    exact ⟨initialized.toFinishing, fun _ => initialized⟩
  | entity :: rest, done_, s, whole, ready, initialized, ran => by
    have member : entity ∈ batch.entities := whole ▸ List.mem_append_right _ List.mem_cons_self
    have earlier : Finishing batch.entities start s :=
      initialized.mono (whole ▸ List.subset_append_left done_ (entity :: rest))
    unfold materializeAll at ran
    rcases first : (materialize batch options entity).exec s with ⟨e | _, middle⟩
    · rw [exec_bind_error _ first] at ran
      cases ran
      exact ⟨earlier.trans (ready.finishing member first), nofun⟩
    · rw [exec_bind_ok _ first] at ran
      obtain ⟨sound, state, materialized⟩ := (ready.materializes member first).materialized
      have finishing := (ready.materializes member first).finishing (List.mem_singleton_self entity) (ready.alive member)
      have standing : start.context.entity? entity.key ≠ none := by
        rw [initial.standing entity member]
        exact nofun
      have new : ∀ other ∈ done_, other.handle ≠ entity.handle := by
        intro other inside
        rw [← whole] at distinct
        exact (List.pairwise_append.mp distinct).2.2 other inside entity List.mem_cons_self
      refine materializeAll_initialized initial distinct rest (done_ ++ [entity]) middle ?_ (ready.next member first)
        (initialized.step materialized sound finishing standing (initial.allocated entity member) new) ran
      rw [List.append_assoc, List.singleton_append]
      exact whole

theorem finishUp_initialized (ready : batch.Ready s) (distinct : batch.entities.Pairwise fun a b => a.handle ≠ b.handle)
    (ran : (finishUp batch options).exec s = (answer, after)) :
    Finishing batch.entities s after ∧ (answer = .ok () → Initialized options batch.entities s after) := by
  unfold finishUp at ran
  rcases first : (materializeAll batch options batch.entities).exec s with ⟨e | _, middle⟩
  · rw [exec_bind_error _ first] at ran
    cases ran
    refine ⟨(materializeAll_initialized ready distinct _ [] s rfl ready (.nothing options s) first).1, nofun⟩
  · rw [exec_bind_ok _ first, exec_get_bind] at ran
    obtain ⟨-, initialized⟩ := materializeAll_initialized ready distinct _ [] s rfl ready (.nothing options s) first
    have initialized := initialized rfl
    split at ran
    next heard =>
      have serves := (announceLoaded_serves batch.entities middle).of_exec ran
      have leaves (may : Handle → Handle → Prop) (kept : Handle → Prop)
          (writes : ∀ entity ∈ batch.entities, middle.Writes may entity.descriptor)
          (elsewhere : ∀ entity ∈ batch.entities, ∀ h, may entity.handle h → ¬ kept h) : Leaves kept middle after :=
        (announceLoaded_leaves heard writes elsewhere).of_exec ran
      have announced : Initialized options batch.entities s after := by
        refine initialized.announced serves (fun may kept writes elsewhere => ?_) fun silent entity member => ?_
        · exact leaves may kept writes fun entity member => (elsewhere entity member).2
        · exact leaves (fun _ _ => False) (fun _ => True) silent (fun _ _ _ none_ => none_.elim) entity.handle trivial
      exact ⟨announced.toFinishing, fun _ => announced⟩
    next =>
      cases ran
      exact ⟨initialized.toFinishing, fun _ => initialized⟩

end Action

namespace Admitted
variable {start s : State} {d : Descriptor} {options : LoadOptions} {rows : List HydratedRow} {progress : LoadProgress}
  {a b : LoadingEntity}

theorem only_one (admitted : Admitted start d options rows progress s) (here : a ∈ progress.batch.entities)
    (there : b ∈ progress.batch.entities) (same : (a.key == b.key) = true ∨ a.handle = b.handle) : a = b := by
  apply Classical.byContradiction
  intro different
  have symmetric : Std.Symm fun a b : LoadingEntity => (a.key == b.key) = false ∧ a.handle ≠ b.handle :=
    ⟨fun x y apart => ⟨BEq.comm.trans apart.1, apart.2.symm⟩⟩
  obtain ⟨keys, handles⟩ := admitted.distinct.forall here there different
  rcases same with same | same
  · rw [keys] at same
    cases same
  · exact handles same

theorem ready (admitted : Admitted start d options rows progress s) : progress.batch.Ready s where
  keyed _ member := Batch.keyFor?_of_only member fun _ inside same => admitted.only_one inside member (.inr same)
  standing := admitted.standing
  tracked entity member := ⟨_, admitted.tracked entity member, rfl⟩
  allocated entity member := (admitted.created entity member).2

theorem apart (admitted : Admitted start d options rows progress s) :
    progress.batch.entities.Pairwise fun a b => a.handle ≠ b.handle :=
  admitted.distinct.imp fun different => different.2

end Admitted

def State.discarding (s : State) (batch : Batch) : State :=
  s.mapContext fun context => batch.entities.foldl (fun context entity => context.removeEntry entity.handle) context

namespace Action
variable {s after : State} {entity : String} {rows : List (Except Error Row)} {options : LoadOptions}

/-- The ways in which a load ends. -/
inductive Loads (entity : String) (rows : List (Except Error Row)) (options : LoadOptions) (s : State) :
    Except Error (List Handle) → State → Prop
  | refused {e : Error}
      (why : options.lock.supportedForLoad = false ∨ ∃ unknown, s.session.descriptor entity = .error unknown) :
      Loads entity rows options s (.error e) s
  | stopped {d : Descriptor} {e : Error} {seen : List HydratedRow} {progress : LoadProgress} {middle : State}
      (supported : options.lock.supportedForLoad = true) (mapped : s.session.descriptor entity = .ok d)
      (passed : hydrateRows d options rows {} s = ((.error e, progress), middle))
      (admitted : Admitted s d options seen progress middle) (stuck : ∀ found, ¬ d.Hydrates rows found) :
      Loads entity rows options s (.error e) (middle.discarding progress.batch)
  | failed {d : Descriptor} {e : Error} {found : List HydratedRow} {progress : LoadProgress} {middle last : State}
      (supported : options.lock.supportedForLoad = true) (mapped : s.session.descriptor entity = .ok d)
      (hydrates : d.Hydrates rows found) (passed : hydrateRows d options rows {} s = ((.ok (), progress), middle))
      (admitted : Admitted s d options found progress middle)
      (ran : (finishUp progress.batch options).exec middle = (.error e, last)) :
      Loads entity rows options s (.error e) (last.discarding progress.batch)
  | loaded {d : Descriptor} {found : List HydratedRow} {progress : LoadProgress} {middle after : State}
      (supported : options.lock.supportedForLoad = true) (mapped : s.session.descriptor entity = .ok d)
      (hydrates : d.Hydrates rows found) (passed : hydrateRows d options rows {} s = ((.ok (), progress), middle))
      (admitted : Admitted s d options found progress middle)
      (ran : (finishUp progress.batch options).exec middle = (.ok (), after)) :
      Loads entity rows options s (.ok progress.results) after

theorem load_loads {answer : Except Error (List Handle)} (ran : (load entity rows options).exec s = (answer, after)) :
    Loads entity rows options s answer after := by
  unfold load at ran
  split at ran
  next supported =>
    rw [exec_bind, exec_descriptor] at ran
    cases mapped : s.session.descriptor entity with
    | error e =>
      rw [mapped] at ran
      cases ran
      exact .refused (.inr ⟨e, mapped⟩)
    | ok d =>
      rw [mapped] at ran
      dsimp only at ran
      obtain ⟨outcome, progress, middle, found, passed, admitted, result⟩ :=
        hydrateRows_admitted rows [] {} s (.nothing s d options)
      have lifted : exec (ExceptT.lift (hydrateRows d options rows {})) s = (.ok (outcome, progress), middle) :=
        congrArg (fun found : (Except Error Unit × LoadProgress) × State => (Except.ok found.1, found.2)) passed
      rw [exec_bind_ok _ lifted] at ran
      dsimp only at ran
      rw [exec_tryCatch] at ran
      rcases result with ⟨rfl, hydrates⟩ | ⟨⟨e, rfl⟩, stuck⟩
      · rcases second : (finishUp progress.batch options).exec middle with ⟨e | _, last⟩
        · rw [exec_bind_ok _ (exec_lift _ _), exec_bind_error _ second] at ran
          cases ran
          exact .failed supported mapped hydrates passed admitted second
        · rw [exec_bind_ok _ (exec_lift _ _), exec_bind_ok _ second] at ran
          cases ran
          exact .loaded supported mapped hydrates passed admitted second
      · rw [exec_bind_error _ (exec_lift _ _)] at ran
        cases ran
        exact .stopped supported mapped passed admitted stuck
  next unsupported =>
    cases ran
    exact .refused (.inl (Bool.eq_false_iff.mpr unsupported))

theorem load_passed {d : Descriptor} {progress : LoadProgress} {middle : State}
    (supported : options.lock.supportedForLoad = true) (mapped : s.session.descriptor entity = .ok d)
    (passed : hydrateRows d options rows {} s = ((.ok (), progress), middle))
    (ran : (finishUp progress.batch options).exec middle = (.ok (), after)) :
    (load entity rows options).exec s = (.ok progress.results, after) := by
  have lifted : exec (ExceptT.lift (hydrateRows d options rows {})) s = (.ok (.ok (), progress), middle) :=
    congrArg (fun found : (Except Error Unit × LoadProgress) × State => (Except.ok found.1, found.2)) passed
  unfold load
  rw [if_pos supported, exec_bind, exec_descriptor, mapped]
  dsimp only
  rw [exec_bind_ok _ lifted]
  dsimp only
  rw [exec_tryCatch, exec_bind_ok _ (exec_lift _ _), exec_bind_ok _ ran]
  rfl

end Action

end UnitOfWork
