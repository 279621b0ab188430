import UnitOfWork.Proofs.IdentifiedInstances

/-! What is cached of an association. A row that no instance stands for is cached by its key, which names the root of its
hierarchy; an instance is cached by the entity that it is of and by its identifier. That is the same unless the entity
is a subclass. So what is cached for a row depends on which of its targets the session happens to have just when one
of them is of a subclass. -/

namespace UnitOfWork
open UnitOfWork.Action

/-- A reference by the key of its row, if the session knows it. -/
def Context.keyed (context : Context) : Reference → Reference
  | .loaded h =>
    match context.key? h with
    | some key => .notLoaded key
    | none => .loaded h
  | .notLoaded key | .removed key => .notLoaded key

namespace Context
variable {context : Context} {h : Handle}

theorem keyed_loaded {key : EntityKey} (tracked : context.key? h = some key) :
    context.keyed (.loaded h) = .notLoaded key := by
  unfold keyed
  dsimp only
  rw [tracked]

theorem keyed_unknown (untracked : context.key? h = none) : context.keyed (.loaded h) = .loaded h := by
  unfold keyed
  dsimp only
  rw [untracked]

end Context

namespace AttributeValue

mutual

/-- A value as it would be if the session had none of the instances that it refers to. -/
def keyed (context : Context) : AttributeValue → AttributeValue
  | .reference r => .reference (context.keyed r)
  | .embedded children => .embedded (keyedAll context children)
  | value => value

def keyedAll (context : Context) : List AttributeValue → List AttributeValue
  | [] => []
  | value :: rest => value.keyed context :: keyedAll context rest

end

end AttributeValue

/-- If the instance stands for a row, then its entity and its identifier make up the key of that row. -/
def State.GoesByKey (s : State) (h : Handle) : Prop :=
  ∀ key, s.context.key? h = some key → s.heap.entity h = key.entity ∧ s.heap.id? h = some key.id

/-- If the instance stands for a row, then it is of the root of the hierarchy, and of no subclass. -/
def State.IsOfRoot (s : State) (h : Handle) : Prop :=
  ∀ key d, s.context.key? h = some key → s.session.descriptor (s.heap.entity h) = .ok d → d.rootName = d.name

/-- In a load from `s` an instance has been given a state, which is going to be cached in `t`: the rows have been
registered, the instances before it have been initialized, its keys have been resolved and its listeners have answered. -/
inductive State.ReachesCache (s : State) (entity : String) (rows : List (Except Error Row)) (options : LoadOptions) :
    LoadingEntity → List AttributeValue → State → Prop
  | intro {d : Descriptor} {progress : LoadProgress} {registered before settled prepared : State}
      {done_ rest : List LoadingEntity} {loading : LoadingEntity} {resolved state : List AttributeValue}
      (mapped : s.session.descriptor entity = .ok d)
      (passed : hydrateRows d options rows {} s = ((.ok (), progress), registered))
      (turn : progress.batch.entities = done_ ++ loading :: rest)
      (earlier : (materializeAll progress.batch options done_).exec registered = (.ok (), before))
      (resolves : (resolveAll progress.batch loading.descriptor.name loading.descriptor.attributes loading.hydrated).exec
        before = (.ok resolved, settled))
      (answered : (prepare ⟨loading.handle, loading.key.id, loading.descriptor, resolved⟩).exec settled =
        (.ok state, prepared)) :
      ReachesCache s entity rows options loading state (prepared.filling loading state)

namespace Batch.Ready
variable {batch : Batch} {options : LoadOptions} {s after : State}

theorem materializeAll (ready : batch.Ready s) {entities : List LoadingEntity} (members : entities ⊆ batch.entities)
    (ran : (Action.materializeAll batch options entities).exec s = (.ok (), after)) : batch.Ready after := by
  induction entities generalizing s with
  | nil =>
    cases ran
    exact ready
  | cons entity rest ih =>
    obtain ⟨member, others⟩ := List.cons_subset.mp members
    unfold Action.materializeAll at ran
    obtain ⟨_, middle, first, ran⟩ := bind_ok ran
    exact ih (ready.next member first) others ran

end Batch.Ready

theorem Action.hydrateRows_registers {s registered : State} {d : Descriptor} {options : LoadOptions}
    {rows : List (Except Error Row)} {progress : LoadProgress}
    (passed : hydrateRows d options rows {} s = ((.ok (), progress), registered)) :
    ∃ found, d.Hydrates rows found ∧ Admitted s d options found progress registered := by
  obtain ⟨outcome, last, middle, found, same, admitted, result⟩ :=
    hydrateRows_admitted rows [] {} s (.nothing s d options)
  rw [passed] at same
  cases same
  rcases result with ⟨-, hydrates⟩ | ⟨⟨e, failed⟩, -⟩
  · exact ⟨found, hydrates, admitted⟩
  · cases failed

namespace State.ReachesCache
variable {s t : State} {entity : String} {rows : List (Except Error Row)} {options : LoadOptions}
  {loading : LoadingEntity} {state : List AttributeValue}

theorem continues (reaches : s.ReachesCache entity rows options loading state t) : ∃ batch before, ∃ rest : Action Unit,
    (materialize batch options loading).exec before =
      (cacheLoaded loading.descriptor loading.key state >>= fun _ => rest).exec t := by
  cases reaches with
  | @intro _ progress _ before _ _ done_ rest _ _ _ _ passed turn earlier resolves answered =>
    obtain ⟨found, -, admitted⟩ := hydrateRows_registers passed
    have members : done_ ⊆ progress.batch.entities := turn ▸ List.subset_append_left _ _
    have member : loading ∈ progress.batch.entities := turn ▸ List.mem_append_right _ List.mem_cons_self
    have ready := admitted.ready.materializeAll members earlier
    have tracked : before.context.isTracked loading.handle = true := by
      obtain ⟨entry, tracked, -⟩ := ready.tracked loading member
      rw [Context.isTracked_eq, tracked]
      rfl
    have ran := materialize_exec progress.batch options (ready.keyed loading member) tracked
    rw [exec_bind_ok _ resolves, exec_bind_ok _ answered] at ran
    unfold install at ran
    rw [exec_modify_bind] at ran
    exact ⟨_, _, _, ran⟩

theorem identified (identified : s.Identified) (leaves : s.LeavesIdentities)
    (reaches : s.ReachesCache entity rows options loading state t) : t.Identified := by
  cases reaches with
  | @intro d progress registered before settled prepared done_ rest _ resolved _ mapped passed turn earlier resolves answered =>
    obtain ⟨found, hydrates, admitted⟩ := hydrateRows_registers passed
    have members : done_ ⊆ progress.batch.entities := turn ▸ List.subset_append_left _ _
    have ready := admitted.ready.materializeAll members earlier
    obtain ⟨finishing, notices, initializes⟩ := materializeAll_initializes admitted.ready done_ registered members
      admitted.ready (.refl registered) earlier
    have code : s.SameCode before := (SameCode.of_registers admitted.registers).trans (.of_finishing finishing)
    have keeps : ∀ one ∈ done_, registered.KeepsIdentities one.descriptor := by
      intro one member
      rw [admitted.described one (members member)]
      exact (leaves entity d mapped).of_sameCode (.of_registers admitted.registers)
    have begun : before.moment.Identified s.session.factory.metamodel := by
      have registered := admitted.identified mapped hydrates identified
      unfold State.Identified at registered
      rw [admitted.factory] at registered
      exact registered.initialized keeps initializes
    cases resolveAll_resolution progress.batch loading.descriptor.name loading.descriptor.attributes loading.hydrated before
      ready.known with
    | lost e _ _ _ lost =>
      rw [resolves] at lost
      cases lost
    | done _ linked =>
      rw [resolves] at linked
      cases linked
      have serves := (prepare_serves _ _).of_exec answered
      obtain ⟨told, heard⟩ : ∃ told, before.HearsPreLoad loading (before.proxying (loading.keys _)).moment told (.ok state)
        prepared.moment := prepare_hears rfl answered
      rw [before.moment_proxying] at heard
      have answered := begun.preLoad ((leaves entity d mapped).of_sameCode code).preLoad heard
      have factory : (prepared.filling loading state).session.factory = s.session.factory :=
        (SameCode.of_serves serves).factory.trans code.factory
      unfold State.Identified
      rw [factory]
      refine answered.step (Nat.le_of_eq (prepared.heap.size_update _ _).symm) (prepared.heap.sameIdentities_fill _ _) ?_
      exact fun h entry tracked => ⟨entry, tracked, rfl, rfl⟩

end State.ReachesCache

namespace State.Identified
variable {t : State} {h : Handle} {key : EntityKey}

theorem of_key (identified : t.Identified) (tracked : t.context.key? h = some key) :
    ∃ d, t.session.descriptor (t.heap.entity h) = .ok d ∧ key.entity = d.rootName ∧ t.heap.id? h = some key.id := by
  obtain ⟨entry, found, keyed⟩ := Option.bind_eq_some_iff.mp tracked
  obtain ⟨-, entity, d, id, mapped, made, identity⟩ := identified h entry found
  obtain rfl := Option.some.inj (keyed.symm.trans made)
  have entity : t.heap.entity h = entry.entity := entity
  exact ⟨d, entity ▸ mapped, rfl, identity⟩

/-- That is the key of its row just when the entity is the root of its hierarchy. -/
theorem goesByKey_iff (identified : t.Identified) (h : Handle) : t.GoesByKey h ↔ t.IsOfRoot h := by
  constructor
  · intro keyed key d tracked mapped
    obtain ⟨d', mapped', root, -⟩ := identified.of_key tracked
    obtain rfl : d = d' := Except.ok.inj (mapped.symm.trans mapped')
    rw [← root, ← (keyed key tracked).1, (Session.of_descriptor mapped).2]
  · intro rooted key tracked
    obtain ⟨d, mapped, root, identity⟩ := identified.of_key tracked
    refine ⟨?_, identity⟩
    rw [root, rooted key d tracked mapped, (Session.of_descriptor mapped).2]

end State.Identified

namespace CachedValue
variable (t : State)

theorem ofReference_keyed_iff (h : Handle) :
    ofReference t.heap (.loaded h) = ofReference t.heap (t.context.keyed (.loaded h)) ↔ t.GoesByKey h := by
  unfold State.GoesByKey
  cases tracked : t.context.key? h with
  | none =>
    rw [Context.keyed_unknown tracked]
    exact iff_of_true rfl nofun
  | some key =>
    rw [Context.keyed_loaded tracked]
    unfold ofReference
    dsimp only
    cases t.heap.id? h <;> simp [eq_comm]

mutual

/-- The cached value is that of a session without instances unless one of them is not what its key says. -/
theorem ofAttribute_keyed_iff : ∀ value : AttributeValue,
    ofAttribute t.heap value = ofAttribute t.heap (value.keyed t.context) ↔ ∀ h ∈ value.handles, t.GoesByKey h
  | .reference (.loaded h) => (ofReference_keyed_iff t h).trans List.forall_mem_singleton.symm
  | .reference (.notLoaded _) | .reference (.removed _) => iff_of_true rfl (List.forall_mem_nil _)
  | .embedded children => by
    rw [AttributeValue.keyed, ofAttribute, ofAttribute, embedded.injEq, ofAttributes_keyed_iff children]
    rfl
  | .null | .basic _ | .foreignKey _ | .anyKey _ _ | .unfetched => iff_of_true rfl (List.forall_mem_nil _)

theorem ofAttributes_keyed_iff : ∀ values : List AttributeValue,
    ofAttributes t.heap values = ofAttributes t.heap (AttributeValue.keyedAll t.context values) ↔
      ∀ h ∈ AttributeValue.handlesAmong values, t.GoesByKey h
  | [] => iff_of_true rfl (List.forall_mem_nil _)
  | value :: rest => by
    rw [AttributeValue.keyedAll, ofAttributes, ofAttributes, List.cons.injEq, ofAttribute_keyed_iff value,
      ofAttributes_keyed_iff rest, AttributeValue.handlesAmong, List.forall_mem_append]

end

end CachedValue

/-- The state that reaches the cache is cached as if the session had none of the targets of the row just when each of
these is what its key says. In a session that has only loaded rows, and whose listeners and hooks leave the identities
of instances, that fails only for subclasses: an instance is cached under the entity that it is of, and not under the
root of the hierarchy as rows without instances and removed rows are. -/
theorem cached_associations_are_keys_unless_subclassed {start s t : State} {moves : List Move} {entity : String}
    {rows : List (Except Error Row)} {options : LoadOptions} {loading : LoadingEntity} {state : List AttributeValue}
    (fresh : start.Fresh) (run : Run start moves s) (loads : ∀ move ∈ moves, move.Loads)
    (reaches : s.ReachesCache entity rows options loading state t) :
    (∃ batch before, ∃ rest : Action Unit, (materialize batch options loading).exec before =
      (cacheLoaded loading.descriptor loading.key state >>= fun _ => rest).exec t) ∧
    (∀ key, CachedValue.ofReference t.heap (.notLoaded key) = .reference key.entity key.id ∧
      CachedValue.ofReference t.heap (.removed key) = .reference key.entity key.id) ∧
    (CachedValue.ofAttributes t.heap state = CachedValue.ofAttributes t.heap (AttributeValue.keyedAll t.context state) ↔
      ∀ h ∈ AttributeValue.handlesAmong state, t.GoesByKey h) ∧
    (start.LeavesIdentities → ∀ h,
      (∀ key, t.context.key? h = some key → ∃ d, t.session.descriptor (t.heap.entity h) = .ok d ∧
        key.entity = d.rootName ∧ CachedValue.ofReference t.heap (.loaded h) = .reference d.name key.id) ∧
      (t.GoesByKey h ↔ t.IsOfRoot h)) := by
  refine ⟨reaches.continues, fun _ => ⟨rfl, rfl⟩, CachedValue.ofAttributes_keyed_iff t state, fun leaves h => ?_⟩
  obtain ⟨identified, leaves⟩ := run.identified fresh leaves loads
  have identified := reaches.identified identified leaves
  refine ⟨fun key tracked => ?_, identified.goesByKey_iff h⟩
  obtain ⟨d, mapped, root, identity⟩ := identified.of_key tracked
  refine ⟨d, mapped, root, ?_⟩
  unfold CachedValue.ofReference
  dsimp only
  rw [identity, (Session.of_descriptor mapped).2]

namespace Sample

def animal : Descriptor where
  name := "Animal"
  identifier := { name := "id" }

def dog : Descriptor := { animal with name := "Dog", rootName := "Animal" }

def owner : Descriptor where
  name := "Owner"
  identifier := { name := "id" }
  attributes := [.embedded "home" "Home" [.manyToOne "pet" "Animal"]]
  cacheRegion := some "owners"

def pets : Factory := { metamodel := ⟨[animal, dog, owner]⟩ }

def kennel : State where
  heap := ⟨#[]⟩
  shared := pets.shared
  session := { factory := pets }

def dogRow : Except Error Row := .ok { values := [.int 5] }

def ownerRow : Except Error Row := .ok { values := [.int 2, .int 5] }

def withDog : State := (Move.load "Dog" [dogRow] {}).perform kennel

def pet : EntityKey := ⟨"Animal", .ofColumns [.int 5]⟩

def cachedOwner (s : State) : Option (List CachedValue) :=
  match s.shared.regions.find? "owners" with
  | some (.memory region) =>
    match region.get? ⟨.ofColumns [.int 2], "Owner", none⟩ with
    | some (.entry entry) => some entry.state
    | _ => none
  | _ => none

theorem kennel_leavesIdentities : kennel.LeavesIdentities := by
  intro entity d mapped
  have known : d ∈ [animal, dog, owner] := (Session.of_descriptor mapped).1
  refine ⟨List.forall_mem_nil _, List.forall_mem_nil _, fun hook given => ?_⟩
  simp only [List.mem_cons, List.not_mem_nil, or_false] at known
  obtain rfl | rfl | rfl := known <;> cases given

end Sample

open Sample in
/-- The dog is loaded, and so what is cached of its owner is not what would be cached without it. -/
theorem cached_associations_are_keys_unless_subclassed_dog :
    Run kennel [.load "Dog" [dogRow] {}] withDog ∧ ∃ loading state t,
      withDog.ReachesCache "Owner" [ownerRow] {} loading state t ∧ AttributeValue.handlesAmong state = [⟨0⟩] ∧
      t.context.key? ⟨0⟩ = some pet ∧ CachedValue.ofReference t.heap (.loaded ⟨0⟩) = .reference "Dog" pet.id ∧
      CachedValue.ofAttributes t.heap state ≠ CachedValue.ofAttributes t.heap (AttributeValue.keyedAll t.context state) := by
  have run : Run kennel [.load "Dog" [dogRow] {}] withDog := Run.start.extend _ trivial
  obtain ⟨progress, registered, loading, resolved, settled, state, prepared, passed, turn, resolves, answered, held, keyed,
      named⟩ :
      ∃ progress registered loading resolved settled state prepared,
        hydrateRows owner {} [ownerRow] {} withDog = ((.ok (), progress), registered) ∧
        progress.batch.entities = [] ++ loading :: [] ∧
        (resolveAll progress.batch loading.descriptor.name loading.descriptor.attributes loading.hydrated).exec registered =
          (.ok resolved, settled) ∧
        (prepare ⟨loading.handle, loading.key.id, loading.descriptor, resolved⟩).exec settled = (.ok state, prepared) ∧
        AttributeValue.handlesAmong state = [⟨0⟩] ∧ (prepared.filling loading state).context.key? ⟨0⟩ = some pet ∧
        (prepared.filling loading state).session.descriptor ((prepared.filling loading state).heap.entity ⟨0⟩) = .ok dog :=
    ⟨_, _, _, _, _, _, _, rfl, rfl, rfl, rfl, rfl, rfl, rfl⟩
  have reaches : withDog.ReachesCache "Owner" [ownerRow] {} loading state (prepared.filling loading state) :=
    .intro rfl passed turn rfl resolves answered
  obtain ⟨-, -, same_iff, identifies⟩ := cached_associations_are_keys_unless_subclassed ⟨rfl, rfl, rfl⟩ run
    (List.forall_mem_singleton.mpr ⟨_, _, _, rfl⟩) reaches
  obtain ⟨stored, keyed_iff⟩ := identifies kennel_leavesIdentities ⟨0⟩
  obtain ⟨d, mapped, -, cached⟩ := stored pet keyed
  obtain rfl : dog = d := Except.ok.inj (named.symm.trans mapped)
  refine ⟨run, loading, state, _, reaches, held, keyed, cached, fun same => ?_⟩
  have goes := same_iff.mp same ⟨0⟩ (held ▸ List.mem_singleton_self _)
  exact absurd (keyed_iff.mp goes pet dog keyed named) (by decide)

open Sample in
/-- The dog is tracked under the key of its row, but what is cached of its owner names that key only if the dog has not
been loaded. -/
theorem cached_owner_depends_on_dog :
    withDog.context.key? ⟨0⟩ = some pet ∧
    cachedOwner ((Move.load "Owner" [ownerRow] {}).perform kennel) = some [.embedded [.reference "Animal" pet.id]] ∧
    cachedOwner ((Move.load "Owner" [ownerRow] {}).perform withDog) = some [.embedded [.reference "Dog" pet.id]] :=
  ⟨rfl, rfl, rfl⟩

end UnitOfWork
