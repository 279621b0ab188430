import UnitOfWork.Proofs.FailedLoads
import UnitOfWork.Proofs.LoadEvents
import UnitOfWork.Proofs.QuietLoads

/-! Whom an entry speaks of. A load gives every new instance the entity and the identifier that its entry has, and fills
it without touching these. So unless listeners or hooks give an instance another entity or another identifier, a tracked
instance is at any moment of a load what its entry says. -/

namespace UnitOfWork
open UnitOfWork.Action

/-- The instances that there were are of the same entities and have the same identifiers. -/
def Heap.SameIdentities (before after : Heap) : Prop :=
  ∀ h ∈ before, after.entity h = before.entity h ∧ after.id? h = before.id? h

theorem Heap.sameIdentities_fill (heap : Heap) (given : Handle) (state : List AttributeValue) :
    heap.SameIdentities (heap.update given fun x => { x with values := state }) := by
  intro h inside
  unfold entity id?
  by_cases own : given = h
  · subst own
    rw [heap.read_update _ _ inside]
    exact ⟨rfl, rfl⟩
  · rw [heap.read_update_of_ne _ own]
    exact ⟨rfl, rfl⟩

/-! Application code that may change what instances hold, but not which rows they stand for. -/

def PreLoadListener.KeepsIdentities (listener : PreLoadListener) : Prop :=
  ∀ journal event (heap : Heap), heap.SameIdentities (heap.edit (listener.call journal event heap).2)

def PostLoadListener.KeepsIdentities (listener : PostLoadListener) : Prop :=
  ∀ journal event (heap : Heap), heap.SameIdentities (heap.edit (listener.call journal event heap).2)

def Hook.KeepsIdentities (hook : Hook) : Prop :=
  ∀ journal h (heap : Heap), heap.SameIdentities (heap.edit (hook.run journal h heap))

/-- The listeners of a session and the hook of an entity do so. -/
structure State.KeepsIdentities (s : State) (d : Descriptor) : Prop where
  preLoad : ∀ listener ∈ s.session.preLoadListeners, listener.KeepsIdentities
  postLoad : ∀ listener ∈ s.session.postLoadListeners, listener.KeepsIdentities
  hook : ∀ hook, d.afterInitialize = some hook → hook.KeepsIdentities

/-- The instance is of the entity that its entry names, and its key is made of its identifier. -/
structure Moment.Identifies (model : Metamodel) (m : Moment) (h : Handle) (entry : Entry) : Prop where
  inside : h ∈ m.heap
  entity : m.heap.entity h = entry.entity
  keyed : ∃ d id, model.descriptor entry.entity = .ok d ∧ entry.key = some (d.keyFor id) ∧ m.heap.id? h = some id

/-- Every tracked instance is what its entry says. -/
def Moment.Identified (model : Metamodel) (m : Moment) : Prop :=
  ∀ h entry, m.entry? h = some entry → m.Identifies model h entry

def State.Identified (s : State) : Prop := s.moment.Identified s.session.factory.metamodel

theorem Moment.Identifies.step {model : Metamodel} {m later : Moment} {h : Handle} {old entry : Entry}
    (identifies : m.Identifies model h old) (size : m.heap.size ≤ later.heap.size)
    (same : m.heap.SameIdentities later.heap) (entity : entry.entity = old.entity) (key : entry.key = old.key) :
    later.Identifies model h entry := by
  obtain ⟨inside, named, d, id, mapped, keyed, identity⟩ := identifies
  obtain ⟨still, kept⟩ := same h inside
  refine ⟨Nat.lt_of_lt_of_le inside size, ?_, d, id, ?_, ?_, kept.trans identity⟩
  · rw [still, named, entity]
  · rw [entity, mapped]
  · rw [key, keyed]

namespace Moment.Identified
variable {model : Metamodel} {m later last : Moment}

theorem step (identified : m.Identified model) (size : m.heap.size ≤ later.heap.size)
    (same : m.heap.SameIdentities later.heap) (entries : ∀ h entry, later.entry? h = some entry →
      ∃ old, m.entry? h = some old ∧ entry.entity = old.entity ∧ entry.key = old.key) : later.Identified model := by
  intro h entry tracked
  obtain ⟨old, known, entity, key⟩ := entries h entry tracked
  exact (identified h old known).step size same entity key

theorem after {notice : Notice} (identified : notice.moment.Identified model)
    (same : notice.moment.heap.SameIdentities (notice.moment.heap.edit notice.edits)) : notice.after.Identified model :=
  identified.step (Nat.le_of_eq (Heap.size_edit _ _).symm) same fun _ entry tracked => ⟨entry, tracked, rfl, rfl⟩

theorem filled {entity : LoadingEntity} {state : List AttributeValue} (identified : m.Identified model)
    (fills : entity.Fills state m later) : later.Identified model := by
  refine identified.step (Nat.le_of_eq ?_) ?_ fun h entry tracked => ?_
  · rw [fills.heap]
    exact (m.heap.size_update _ _).symm
  · rw [fills.heap]
    exact m.heap.sameIdentities_fill _ _
  · by_cases own : entity.handle = h
    · subst own
      obtain ⟨readOnly, entered⟩ := fills.entry
      rw [tracked] at entered
      obtain ⟨old, known, rfl⟩ := Option.map_eq_some_iff.mp entered.symm
      exact ⟨old, known, rfl, rfl⟩
    · exact ⟨entry, (fills.others h own).symm.trans tracked, rfl, rfl⟩

variable {start : State} {entity : LoadingEntity} {entities : List LoadingEntity} {told notices : List Notice}

theorem heard {σ : Type} {listeners : List (Listening σ)} {position : Nat} {state : σ} {answer : Except Error σ}
    (keeps : ∀ listening ∈ listeners, ∀ state (m : Moment), m.heap.SameIdentities (m.heap.edit (listening.answer state m).2))
    (heard : Listening.Hears listeners position state m told answer last) (identified : m.Identified model) :
    last.Identified model := by
  induction heard with
  | done => exact identified
  | @heard listening _ position state _ m _ _ _ _ _ ih =>
    obtain ⟨first, others⟩ := List.forall_mem_cons.mp keeps
    have after : (listening.notice position state m).after.Identified model := identified.after (first state m)
    exact ih others after
  | @stopped listening _ position state m _ _ =>
    have after : (listening.notice position state m).after.Identified model :=
      identified.after ((List.forall_mem_cons.mp keeps).1 state m)
    exact after

theorem preLoad {answer : Except Error (List AttributeValue)}
    (keeps : ∀ listener ∈ start.session.preLoadListeners, listener.KeepsIdentities)
    (hears : start.HearsPreLoad entity m told answer last) (identified : m.Identified model) : last.Identified model := by
  refine heard (fun listening member state m => ?_) hears identified
  obtain ⟨listener, among, rfl⟩ := List.mem_map.mp member
  exact keeps listener among _ _ _

theorem postLoad {answer : Except Error Unit}
    (keeps : ∀ listener ∈ start.session.postLoadListeners, listener.KeepsIdentities)
    (hears : start.HearsPostLoad entity m told answer last) (identified : m.Identified model) : last.Identified model := by
  refine heard (fun listening member state m => ?_) hears identified
  obtain ⟨listener, among, rfl⟩ := List.mem_map.mp member
  exact keeps listener among _ _ _

theorem hooked (keeps : ∀ hook, entity.descriptor.afterInitialize = some hook → hook.KeepsIdentities)
    (identified : m.Identified model) : (m.through (entity.hooked m)).Identified model := by
  unfold LoadingEntity.hooked
  cases given : entity.descriptor.afterInitialize with
  | none => exact identified
  | some hook =>
    have after : Notice.after ⟨m, .initialized entity.handle (m.heap.values entity.handle), none,
        hook.run m.journal entity.handle m.heap⟩ |>.Identified model := identified.after (keeps hook given _ _ _)
    exact after

/-- The induction is on the instances that are initialized, each by its listeners, its filling and its hook. -/
theorem initialized {answer : Except Error Unit} (keeps : ∀ entity ∈ entities, start.KeepsIdentities entity.descriptor)
    (ran : start.Initializes entities m notices answer last) (identified : m.Identified model) :
    last.Identified model := by
  induction ran with
  | done | lost => exact identified
  | stopped _ heard => exact identified.preLoad (keeps _ List.mem_cons_self).preLoad heard
  | next heard fills _ ih =>
    obtain ⟨first, others⟩ := List.forall_mem_cons.mp keeps
    exact ih others (((identified.preLoad first.preLoad heard).filled fills).hooked first.hook)

theorem announced {answer : Except Error Unit} (keeps : ∀ entity ∈ entities, start.KeepsIdentities entity.descriptor)
    (ran : start.Announces entities m notices answer last) (identified : m.Identified model) : last.Identified model := by
  induction ran with
  | done => exact identified
  | stopped _ heard => exact identified.postLoad (keeps _ List.mem_cons_self).postLoad heard
  | next heard _ ih =>
    obtain ⟨first, others⟩ := List.forall_mem_cons.mp keeps
    exact ih others (identified.postLoad first.postLoad heard)

theorem tells {answer : Except Error Unit} (keeps : ∀ entity ∈ entities, start.KeepsIdentities entity.descriptor)
    (ran : start.Tells entities notices answer last) (identified : start.moment.Identified model) :
    last.Identified model := by
  cases ran with
  | stopped first => exact identified.initialized keeps first
  | finished first second => exact (identified.initialized keeps first).announced keeps second

end Moment.Identified

structure State.SameCode (before after : State) : Prop where
  factory : after.session.factory = before.session.factory
  preLoad : after.session.preLoadListeners = before.session.preLoadListeners
  postLoad : after.session.postLoadListeners = before.session.postLoadListeners

namespace State
variable {s after : State} {entity : String} {rows : List (Except Error Row)} {options : LoadOptions}

theorem SameCode.of_registers (registers : Registers s after) : s.SameCode after := by
  constructor <;> rw [registers.session] <;> rfl

theorem SameCode.of_finishing {entities : List LoadingEntity} (finishing : Finishing entities s after) :
    s.SameCode after := by
  obtain ⟨_, _, _, _, same⟩ := finishing.session
  constructor <;> rw [same] <;> rfl

theorem SameCode.of_serves (serves : Serves s after) : s.SameCode after := by
  obtain ⟨_, same⟩ := serves.session
  constructor <;> rw [same] <;> rfl

theorem SameCode.of_undone (undone : Undone entity rows s after) : s.SameCode after := by
  obtain ⟨_, _, _, _, _, same⟩ := undone.session
  constructor <;> rw [same] <;> rfl

theorem SameCode.trans {a b c : State} (first : a.SameCode b) (second : b.SameCode c) : a.SameCode c :=
  ⟨second.factory.trans first.factory, second.preLoad.trans first.preLoad, second.postLoad.trans first.postLoad⟩

theorem KeepsIdentities.of_sameCode {d : Descriptor} (keeps : s.KeepsIdentities d) (same : s.SameCode after) :
    after.KeepsIdentities d :=
  ⟨same.preLoad ▸ keeps.preLoad, same.postLoad ▸ keeps.postLoad, keeps.hook⟩

end State

namespace Admitted
variable {start s : State} {entity : String} {d : Descriptor} {options : LoadOptions} {given : List (Except Error Row)}
  {rows : List HydratedRow} {progress : LoadProgress}

theorem sameIdentities (admitted : Admitted start d options rows progress s) : start.heap.SameIdentities s.heap := by
  intro h inside
  unfold Heap.entity Heap.id?
  rw [admitted.reads h inside]
  exact ⟨rfl, rfl⟩

theorem identified (admitted : Admitted start d options rows progress s) (mapped : start.session.descriptor entity = .ok d)
    (hydrates : d.Hydrates given rows) (identified : start.Identified) : s.Identified := by
  unfold State.Identified
  rw [admitted.factory]
  intro h entry tracked
  by_cases created : ∃ loading ∈ progress.batch.entities, loading.handle = h
  · obtain ⟨loading, member, rfl⟩ := created
    have described := admitted.described loading member
    obtain rfl : loading.entry options = entry := Option.some.inj ((admitted.tracked loading member).symm.trans tracked)
    have blank := admitted.blank loading member
    have key : loading.key = d.keyFor loading.key.id :=
      congrArg (EntityKey.mk · loading.key.id) (admitted.rooted hydrates loading member)
    refine ⟨(admitted.created loading member).2, ?_, d, loading.key.id, ?_, congrArg some key, ?_⟩
    · change (s.heap.read loading.handle).entity = loading.descriptor.name
      rw [blank, described]
      rfl
    · change start.session.descriptor loading.descriptor.name = .ok d
      rw [described]
      exact Session.descriptor_name mapped
    · exact congrArg Instance.id blank
  · have others : ∀ loading ∈ progress.batch.entities, loading.handle ≠ h := fun loading member same =>
      created ⟨loading, member, same⟩
    have known : start.context.entry? h = some entry := (admitted.entries h others).symm.trans tracked
    exact (identified h entry known).step admitted.grown admitted.sameIdentities rfl rfl

end Admitted

namespace State
variable {s after : State} {entity : String} {rows : List (Except Error Row)} {options : LoadOptions}

/-- The code that a session calls, whatever it loads, changes what instances hold only. -/
def LeavesIdentities (s : State) : Prop := ∀ entity d, s.session.descriptor entity = .ok d → s.KeepsIdentities d

theorem LeavesIdentities.of_sameCode (leaves : s.LeavesIdentities) (same : s.SameCode after) :
    after.LeavesIdentities := by
  intro entity d mapped
  unfold Session.descriptor at mapped
  rw [same.factory] at mapped
  exact (leaves entity d mapped).of_sameCode same

theorem Identified.discarding {batch : Batch} (identified : s.Identified) : (s.discarding batch).Identified := by
  refine identified.step (Nat.le_refl _) (fun _ _ => ⟨rfl, rfl⟩) fun h entry tracked => ?_
  have remaining : (if batch.entities.any (fun entity => entity.handle = h) then none else s.context.entry? h) =
      some entry := (s.entry?_discarding batch h).symm.trans tracked
  split at remaining
  · cases remaining
  · exact ⟨entry, remaining, rfl, rfl⟩

theorem Identified.finished {d : Descriptor} {found : List HydratedRow} {progress : LoadProgress} {middle : State}
    {answer : Except Error Unit} (identified : s.Identified) (leaves : s.LeavesIdentities)
    (mapped : s.session.descriptor entity = .ok d) (hydrates : d.Hydrates rows found)
    (admitted : Admitted s d options found progress middle)
    (ran : (finishUp progress.batch options).exec middle = (answer, after)) : after.Identified := by
  obtain ⟨notices, tells⟩ := finishUp_tells admitted.ready ran
  have keeps : ∀ loading ∈ progress.batch.entities, middle.KeepsIdentities loading.descriptor := by
    intro loading member
    rw [admitted.described loading member]
    exact (leaves entity d mapped).of_sameCode (.of_registers admitted.registers)
  have finished := Moment.Identified.tells keeps tells (admitted.identified mapped hydrates identified)
  obtain ⟨finishing, -⟩ := finishUp_initialized admitted.ready admitted.apart ran
  unfold State.Identified
  rwa [finishing.factory]

theorem Identified.load {answer : Except Error (List Handle)} (identified : s.Identified) (sound : s.Sound)
    (leaves : s.LeavesIdentities) (ran : (load entity rows options).exec s = (answer, after)) :
    after.Identified ∧ s.SameCode after := by
  cases load_loads ran with
  | refused => exact ⟨identified, rfl, rfl, rfl⟩
  | @stopped d e seen progress middle _ mapped _ admitted _ =>
    have undone := load_undone sound ran
    refine ⟨fun h entry tracked => ?_, .of_undone undone⟩
    rw [undone.factory]
    exact (identified h entry ((undone.entries h).symm.trans tracked)).step admitted.grown admitted.sameIdentities rfl rfl
  | failed _ mapped hydrates _ admitted finished =>
    exact ⟨(identified.finished leaves mapped hydrates admitted finished).discarding, .of_undone (load_undone sound ran)⟩
  | loaded _ mapped hydrates _ admitted finished =>
    refine ⟨identified.finished leaves mapped hydrates admitted finished, ?_⟩
    exact (SameCode.of_registers admitted.registers).trans
      (.of_finishing (finishUp_initialized admitted.ready admitted.apart finished).1)

theorem Fresh.identified (fresh : s.Fresh) : s.Identified := by
  intro h entry tracked
  have untracked : s.context.entry? h = some entry := tracked
  rw [fresh.context] at untracked
  cases untracked

end State

def Move.Loads (move : Move) : Prop := ∃ entity rows options, move = .load entity rows options

/-- As long as rows are loaded, every tracked instance is what its entry says. -/
theorem Run.identified {start s : State} {moves : List Move} (run : Run start moves s) (fresh : start.Fresh)
    (leaves : start.LeavesIdentities) (loads : ∀ move ∈ moves, move.Loads) : s.Identified ∧ s.LeavesIdentities := by
  induction run with
  | start => exact ⟨fresh.identified, leaves⟩
  | @step moves s move run _ ih =>
    obtain ⟨before, last⟩ := List.forall_mem_append.mp loads
    obtain ⟨identified, leaves⟩ := ih before
    obtain ⟨entity, rows, options, rfl⟩ := last move List.mem_cons_self
    rcases ran : (load entity rows options).exec s with ⟨answer, after⟩
    obtain ⟨loaded, same⟩ := identified.load (run.sound fresh.sound) leaves ran
    rw [Move.load_perform ran]
    exact ⟨loaded, leaves.of_sameCode same⟩

end UnitOfWork
