import UnitOfWork.Proofs.LoadedReferences
import UnitOfWork.Proofs.RegionItems
import UnitOfWork.Proofs.Renaming

/-! Loads that nobody hears of. They succeed exactly if every row can be read and every key leads somewhere, and what
they leave in the cache is told key by key. -/

namespace UnitOfWork
open UnitOfWork.Action
open AttributeValue (renameAll)

theorem Heap.identity_update (heap : Heap) (h other : Handle) (values : List AttributeValue) :
    (heap.update h fun x => { x with values }).id? other = heap.id? other ∧
      (heap.update h fun x => { x with values }).entity other = heap.entity other := by
  unfold id? entity
  by_cases same : h = other
  · subst other
    by_cases inside : h ∈ heap
    · rw [heap.read_update _ _ inside]
      exact ⟨rfl, rfl⟩
    · rw [heap.update_outside _ inside]
      exact ⟨rfl, rfl⟩
  · rw [heap.read_update_of_ne _ same]
    exact ⟨rfl, rfl⟩

namespace State
variable (s : State)

/-- What an offer makes of the item that a region holds for a row. -/
def afterOffer (key : EntityKey) (item : Versioned) (held : Option CacheItem) : CacheItem :=
  if s.context.wasInserted key then CacheItem.afterUpdate item held
  else CacheItem.afterPut item (s.session.factory.config.minimalPuts && s.session.config.cacheMode != .refresh) held

theorem find?_offering (key : EntityKey) (region : MemoryRegion) (cacheKey other : CacheKey) (item : Versioned) :
    (s.offering key region cacheKey item).items.find? other = if cacheKey == other
      then some (s.afterOffer key item (region.items.find? cacheKey)) else region.items.find? other := by
  unfold offering afterOffer
  split
  · exact region.find?_update cacheKey other item
  · exact region.find?_put cacheKey other item _

theorem nextLock_offering (key : EntityKey) (region : MemoryRegion) (cacheKey : CacheKey) (item : Versioned) :
    (s.offering key region cacheKey item).nextLock = region.nextLock := by
  unfold offering
  split
  · exact region.nextLock_update cacheKey item
  · exact region.nextLock_put cacheKey item _

end State

namespace Action
variable {s after : State} {entity : LoadingEntity} {options : LoadOptions} {d : Descriptor}

theorem prepare_unheard (unheard : s.session.preLoadListeners = []) (event : PreLoadEvent) :
    (prepare event).exec s = (.ok event.state, s) := by
  unfold Session.preLoadListeners at unheard
  rw [prepare, exec_get_bind]
  dsimp only
  split
  next heard =>
    rw [if_pos heard] at unheard
    rw [unheard]
    rfl
  next => rfl

theorem announceLoaded_unheard (heard : s.session.config.eventSource = true)
    (unheard : s.session.postLoadListeners = []) (entities : List LoadingEntity) :
    (announceLoaded entities).exec s = (.ok (), s) := by
  have none_ : s.session.postLoad = [] := (if_pos heard).symm.trans unheard
  induction entities with
  | nil => rfl
  | cons entity rest ih =>
    have first : (firePostLoad s.session.postLoad 0
        { entity := entity.handle, id := entity.key.id, entityName := entity.descriptor.name }).exec s = (.ok (), s) := by
      rw [none_]
      rfl
    rw [announceLoaded, exec_get_bind, exec_bind_ok _ first]
    exact ih

end Action

def State.resolving (s : State) (entity : LoadingEntity) : State :=
  (s.proxying (entity.keys s.session.factory.metamodel)).filling entity (entity.resolved s)

namespace Action
variable {s after : State} {entity : LoadingEntity} {options : LoadOptions} {answer : Except Error Unit}

/-- If nobody hears of it, an instance is initialized unless a key leads nowhere. -/
theorem Materializes.quiet (ended : Materializes options entity s answer after) (unheard : s.Unheard entity.descriptor)
    (sound : entity.leads s.session.factory.metamodel = true) :
    answer = .ok () ∧ after.heap = (s.resolving entity).heap ∧
      after.shared.regions = (s.resolving entity).caching entity.descriptor entity.key (entity.resolved s) := by
  have passed : (prepare (entity.event s)).exec (s.proxying (entity.keys s.session.factory.metamodel)) =
      (.ok (entity.resolved s), s.proxying (entity.keys s.session.factory.metamodel)) := by
    have unheard : (s.proxying (entity.keys s.session.factory.metamodel)).session.preLoadListeners = [] :=
      unheard.preLoad
    exact prepare_unheard unheard _
  cases ended with
  | lost _ unsound =>
    rw [sound] at unsound
    cases unsound
  | refused _ ran =>
    rw [passed] at ran
    cases ran
  | done _ ran installs =>
    rw [passed] at ran
    cases ran
    exact ⟨rfl, installs.unhooked unheard.hook⟩

end Action

/-- Whether a region of this name is offered the row of an entity under a key. -/
def State.offers (s : State) (d : Descriptor) (name : String) (cacheKey : CacheKey) (entity : LoadingEntity) : Bool :=
  s.session.config.cacheMode.writes && d.cacheRegion == some name && s.session.cacheKey d entity.key.id == cacheKey

/-- What a region of this name holds under a key once these entities are loaded, if it held that before. -/
def State.stocked (s : State) (d : Descriptor) (entities : List LoadingEntity) (name : String) (cacheKey : CacheKey)
    (held : Option CacheItem) : Option CacheItem :=
  match entities.find? (s.offers d name cacheKey) with
  | some entity => some (s.afterOffer entity.key (s.cacheItem d (entity.resolved s)) held)
  | none => held

namespace State
variable {s : State} {d : Descriptor} {entities : List LoadingEntity} {entity : LoadingEntity} {name : String}
  {cacheKey : CacheKey}

theorem ids_of_offers {other : LoadingEntity} (offered : s.offers d name cacheKey entity = true)
    (also : s.offers d name cacheKey other = true) : (entity.key.id == other.key.id) = true := by
  have here := (Bool.and_eq_true_iff.mp offered).2
  have there := (Bool.and_eq_true_iff.mp also).2
  exact (CacheKey.beq_iff.mp (BEq.trans here (BEq.symm there))).1

theorem offers_apart (apart : ∀ other ∈ entities, (other.key.id == entity.key.id) = false)
    (offered : s.offers d name cacheKey entity = true) : entities.find? (s.offers d name cacheKey) = none := by
  rw [List.find?_eq_none]
  intro other member also
  have same := ids_of_offers also offered
  rw [apart other member] at same
  cases same

/-- One more entity is offered to the region: its own item, which was as it had been, changes, and no other does. -/
theorem stocked_append (apart : ∀ other ∈ entities, (other.key.id == entity.key.id) = false)
    (held : Option CacheItem) : s.stocked d (entities ++ [entity]) name cacheKey held =
      if s.offers d name cacheKey entity
        then some (s.afterOffer entity.key (s.cacheItem d (entity.resolved s)) (s.stocked d entities name cacheKey held))
        else s.stocked d entities name cacheKey held := by
  unfold stocked
  rw [List.find?_append]
  cases offered : s.offers d name cacheKey entity with
  | true => simp [offers_apart apart offered, offered]
  | false => simp [offered]

/-- What a region has become once a loaded state has been offered to it. -/
def offered (s : State) (d : Descriptor) (key : EntityKey) (state : List AttributeValue) : Region → Region
  | .memory region => .memory (s.offering key region (s.session.cacheKey d key.id) (s.cacheItem d state))
  | .external accepts => .external accepts

theorem find?_caching (s : State) (d : Descriptor) (key : EntityKey) (state : List AttributeValue) (name : String) :
    (s.caching d key state).find? name =
      if (s.session.config.cacheMode.writes && d.cacheRegion == some name) = true
        then (s.shared.regions.find? name).map (s.offered d key state) else s.shared.regions.find? name := by
  unfold caching region?
  cases s.session.config.cacheMode.writes with
  | false => rfl
  | true =>
    cases d.cacheRegion with
    | none => rfl
    | some other =>
      by_cases same : other = name
      · subst other
        cases held : s.shared.regions.find? name with
        | none => simp [held]
        | some region =>
          cases region with
          | memory region => simp [held, Registry.find?_insert, offered]
          | external accepts => simp [held, offered]
      · cases held : s.shared.regions.find? other with
        | none => simp [held, same]
        | some region => cases region <;> simp [held, same, Registry.find?_insert]

end State

/-- How the items of a region have become those of another; regions kept elsewhere are not looked into. -/
def Region.Becomes (change : CacheKey → Option CacheItem → Option CacheItem) : Region → Region → Prop
  | .memory before, .memory after => after.nextLock = before.nextLock ∧
    ∀ cacheKey, after.items.find? cacheKey = change cacheKey (before.items.find? cacheKey)
  | .external before, .external after => after = before
  | _, _ => False

/-- What has become of identities and regions once these entities are loaded and nobody has heard of it. -/
structure Stocked (start : State) (d : Descriptor) (entities : List LoadingEntity) (s : State) : Prop where
  identities : ∀ h, s.heap.id? h = start.heap.id? h ∧ s.heap.entity h = start.heap.entity h
  regions : ∀ name, Option.Rel (Region.Becomes (start.stocked d entities name)) (start.shared.regions.find? name)
    (s.shared.regions.find? name)

namespace Stocked
variable {start s after : State} {d : Descriptor} {entities : List LoadingEntity} {entity : LoadingEntity}

theorem nothing (start : State) (d : Descriptor) : Stocked start d [] start where
  identities _ := ⟨rfl, rfl⟩
  regions name := by
    cases start.shared.regions.find? name with
    | none => exact .none
    | some region =>
      apply Option.Rel.some
      have same (cacheKey : CacheKey) (held : Option CacheItem) : start.stocked d [] name cacheKey held = held := rfl
      cases region with
      | memory region => exact ⟨rfl, fun cacheKey => (same cacheKey _).symm⟩
      | external accepts => rfl

theorem resolving_identities (stocked : Stocked start d entities s) (entity : LoadingEntity) (h : Handle) :
    (s.resolving entity).heap.id? h = start.heap.id? h ∧ (s.resolving entity).heap.entity h = start.heap.entity h := by
  have filled := s.heap.identity_update entity.handle h (entity.resolved s)
  exact ⟨filled.1.trans (stocked.identities h).1, filled.2.trans (stocked.identities h).2⟩

theorem item_eq (stocked : Stocked start d entities s) {others : List LoadingEntity} (finishing : Finishing others start s)
    (entity : LoadingEntity) :
    (s.resolving entity).cacheItem d (entity.resolved s) = start.cacheItem d (entity.resolved start) := by
  have resolved : entity.resolved s = entity.resolved start := by
    unfold LoadingEntity.resolved
    rw [finishing.factory, finishing.references]
  have cached : CachedValue.ofAttributes (s.resolving entity).heap (renameAll id (entity.resolved start)) =
      CachedValue.ofAttributes start.heap (entity.resolved start) :=
    CachedValue.ofAttributes_rename (stocked.resolving_identities entity) _
  rw [AttributeValue.renameAll_eq_self id (entity.resolved start) fun _ _ => rfl] at cached
  have config : (s.resolving entity).session.factory = start.session.factory := finishing.factory
  unfold State.cacheItem
  rw [resolved, cached, config]

theorem afterOffer_eq {others : List LoadingEntity} (finishing : Finishing others start s) (entity : LoadingEntity) :
    (s.resolving entity).afterOffer = start.afterOffer := by
  obtain ⟨_, _, _, _, same⟩ := finishing.session
  obtain ⟨proxies, proxied⟩ := s.context.withProxies_eq s.session.config.readOnly
    (entity.keys s.session.factory.metamodel)
  have inserted : (s.resolving entity).context.wasInserted = start.context.wasInserted := by
    change Context.wasInserted (s.context.withProxies _ _) = _
    rw [proxied]
    change s.session.context.wasInserted = _
    rw [same]
    rfl
  have config : (s.resolving entity).session.config = start.session.config := finishing.config
  have factory : (s.resolving entity).session.factory = start.session.factory := finishing.factory
  unfold State.afterOffer
  rw [inserted, config, factory]

theorem offered (stocked : Stocked start d entities s) {others : List LoadingEntity} (finishing : Finishing others start s)
    (apart : ∀ other ∈ entities, (other.key.id == entity.key.id) = false) {name : String}
    (writes : (start.session.config.cacheMode.writes && d.cacheRegion == some name) = true) {held region : Region}
    (became : Region.Becomes (start.stocked d entities name) held region) :
    Region.Becomes (start.stocked d (entities ++ [entity]) name) held
      ((s.resolving entity).offered d entity.key (entity.resolved s) region) := by
  have settings : (s.resolving entity).session.config = start.session.config := finishing.config
  have cacheKey : (s.resolving entity).session.cacheKey d entity.key.id = start.session.cacheKey d entity.key.id :=
    congrArg (fun config : SessionConfig => (⟨entity.key.id, d.rootName, config.tenant⟩ : CacheKey)) settings
  have offers (other : CacheKey) : start.offers d name other entity =
      (start.session.cacheKey d entity.key.id == other) := by
    unfold State.offers
    rw [writes, Bool.true_and]
  cases held with
  | external accepts =>
    cases region with
    | external accepts => exact became
    | memory region => cases became
  | memory held =>
    cases region with
    | external accepts => cases became
    | memory region =>
      obtain ⟨lock, items⟩ := became
      refine ⟨(State.nextLock_offering _ _ _ _ _).trans lock, fun other => ?_⟩
      refine (State.find?_offering _ _ _ _ _ _).trans ?_
      rw [State.stocked_append apart, offers, cacheKey, stocked.item_eq finishing, afterOffer_eq finishing]
      split
      next same => rw [Registry.find?_congr _ same, items]
      next => exact items other

theorem step (stocked : Stocked start d entities s) {others : List LoadingEntity} (finishing : Finishing others start s)
    (apart : ∀ other ∈ entities, (other.key.id == entity.key.id) = false)
    (heap : after.heap = (s.resolving entity).heap)
    (regions : after.shared.regions = (s.resolving entity).caching d entity.key (entity.resolved s)) :
    Stocked start d (entities ++ [entity]) after := by
  constructor
  case identities =>
    intro h
    rw [heap]
    exact stocked.resolving_identities entity h
  case regions =>
    intro name
    have before := stocked.regions name
    have settings : (s.resolving entity).session.config = start.session.config := finishing.config
    rw [regions, State.find?_caching, settings]
    change Option.Rel _ _ (if _ then (s.shared.regions.find? name).map _ else s.shared.regions.find? name)
    generalize start.shared.regions.find? name = held at before ⊢
    generalize s.shared.regions.find? name = region at before ⊢
    split
    next writes =>
      cases before with
      | none => exact .none
      | some became => exact .some (stocked.offered finishing apart writes became)
    next unwritten =>
      have same : start.stocked d (entities ++ [entity]) name = start.stocked d entities name := by
        funext cacheKey held
        rw [State.stocked_append apart, if_neg]
        unfold State.offers
        rw [Bool.eq_false_iff.mpr unwritten, Bool.false_and]
        exact Bool.false_ne_true
      rw [same]
      exact before

end Stocked

theorem Finishing.unheard {entities : List LoadingEntity} {before after : State} {d : Descriptor}
    (finishing : Finishing entities before after) (unheard : before.Unheard d) : after.Unheard d := by
  obtain ⟨_, _, _, _, same⟩ := finishing.session
  refine unheard.of_session ?_ ?_ <;> rw [same] <;> rfl

namespace Action
variable {options : LoadOptions} {batch : Batch} {start s : State} {d : Descriptor}

private theorem materializeAll_quiet (unheard : start.Unheard d)
    (described : ∀ entity ∈ batch.entities, entity.descriptor = d)
    (sound : ∀ entity ∈ batch.entities, entity.leads start.session.factory.metamodel = true)
    (apart : batch.entities.Pairwise fun a b => (a.key.id == b.key.id) = false) :
    ∀ (rest done_ : List LoadingEntity) (s : State), done_ ++ rest = batch.entities → batch.Ready s →
      Finishing batch.entities start s → Stocked start d done_ s →
        ∃ after, (materializeAll batch options rest).exec s = (.ok (), after) ∧
          Finishing batch.entities start after ∧ Stocked start d batch.entities after
  | [], done_, s, whole, ready, finishing, stocked => by
    rw [List.append_nil] at whole
    subst whole
    exact ⟨s, rfl, finishing, stocked⟩
  | entity :: rest, done_, s, whole, ready, finishing, stocked => by
    have member : entity ∈ batch.entities := whole ▸ List.mem_append_right _ List.mem_cons_self
    rcases first : (materialize batch options entity).exec s with ⟨answer, middle⟩
    have leads := sound entity member
    rw [← finishing.factory] at leads
    have here : s.Unheard entity.descriptor := by
      rw [described entity member]
      exact finishing.unheard unheard
    obtain ⟨rfl, heap, regions⟩ := (ready.materializes member first).quiet here leads
    rw [described entity member] at regions
    have new : ∀ other ∈ done_, (other.key.id == entity.key.id) = false := by
      intro other inside
      rw [← whole] at apart
      exact (List.pairwise_append.mp apart).2.2 other inside entity List.mem_cons_self
    obtain ⟨after, ran, ended, held⟩ := materializeAll_quiet unheard described sound apart rest (done_ ++ [entity]) middle
      (by rw [List.append_assoc, List.singleton_append, whole]) (ready.next member first)
      (finishing.trans (ready.finishing member first)) (stocked.step finishing new heap regions)
    refine ⟨after, ?_, ended, held⟩
    unfold materializeAll
    rw [exec_bind_ok _ first]
    exact ran

/-- If nobody hears of it, and every key leads somewhere, a batch is initialized without fail. -/
theorem finishUp_quiet (options : LoadOptions) (ready : batch.Ready s) (unheard : s.Unheard d)
    (described : ∀ entity ∈ batch.entities, entity.descriptor = d)
    (sound : ∀ entity ∈ batch.entities, entity.leads s.session.factory.metamodel = true)
    (apart : batch.entities.Pairwise fun a b => (a.key.id == b.key.id) = false) :
    ∃ after, (finishUp batch options).exec s = (.ok (), after) ∧ Stocked s d batch.entities after := by
  obtain ⟨after, ran, finishing, stocked⟩ := materializeAll_quiet unheard described sound apart batch.entities [] s rfl
    ready (.refl s) (.nothing s d)
  refine ⟨after, ?_, stocked⟩
  unfold finishUp
  rw [exec_bind_ok _ ran, exec_get_bind]
  split
  next heard => exact announceLoaded_unheard heard (finishing.unheard unheard).postLoad _
  next => rfl

end Action

theorem Descriptor.Hydrates.rooted {d : Descriptor} {rows : List (Except Error Row)} {found : List HydratedRow}
    (hydrates : d.Hydrates rows found) : ∀ row ∈ found, row.key.entity = d.rootName := by
  induction hydrates with
  | nil =>
    intro row member
    cases member
  | cons first _ ih =>
    obtain ⟨r, -, read⟩ := first
    exact List.forall_mem_cons.mpr ⟨hydrateRow_rooted read, ih⟩

namespace Admitted
variable {start s : State} {d : Descriptor} {options : LoadOptions} {given : List (Except Error Row)}
  {rows : List HydratedRow} {progress : LoadProgress}

theorem rooted (admitted : Admitted start d options rows progress s) (hydrates : d.Hydrates given rows) :
    ∀ entity ∈ progress.batch.entities, entity.key.entity = d.rootName := by
  intro entity member
  exact hydrates.rooted entity.row ((admitted.introduced entity.row).mp ⟨entity, member, rfl⟩).2.mem

theorem ids_apart (admitted : Admitted start d options rows progress s) (hydrates : d.Hydrates given rows) :
    progress.batch.entities.Pairwise fun a b => (a.key.id == b.key.id) = false := by
  refine admitted.distinct.imp_of_mem fun here there different => Bool.eq_false_iff.mpr fun same => ?_
  have equal := EntityKey.beq_iff.mpr
    ⟨(admitted.rooted hydrates _ here).trans (admitted.rooted hydrates _ there).symm, same⟩
  rw [different.1] at equal
  cases equal

theorem only_one_offered (admitted : Admitted start d options rows progress s) (hydrates : d.Hydrates given rows)
    {a b : LoadingEntity} (here : a ∈ progress.batch.entities) (there : b ∈ progress.batch.entities) {name : String}
    {cacheKey : CacheKey} (offered : s.offers d name cacheKey a = true) (also : s.offers d name cacheKey b = true) :
    a = b := by
  refine admitted.only_one here there (.inl (EntityKey.beq_iff.mpr ⟨?_, State.ids_of_offers offered also⟩))
  exact (admitted.rooted hydrates _ here).trans (admitted.rooted hydrates _ there).symm

theorem unheard (admitted : Admitted start d options rows progress s) (unheard : start.Unheard d) : s.Unheard d := by
  refine unheard.of_session ?_ ?_ <;> rw [admitted.registers.session] <;> rfl

end Admitted

section
variable {s after : State} {entity : String} {d : Descriptor} {rows : List (Except Error Row)} {options : LoadOptions}
  {results : List Handle}

theorem load_quiet (mapped : s.session.descriptor entity = .ok d) (unheard : s.Unheard d)
    (ran : (load entity rows options).exec s = (.ok results, after)) : ∃ found progress middle, d.Hydrates rows found ∧
      Admitted s d options found progress middle ∧ Initialized options progress.batch.entities middle after ∧
      Stocked middle d progress.batch.entities after := by
  cases load_loads ran with
  | loaded _ same hydrates _ admitted finished =>
    obtain rfl := Except.ok.inj (same.symm.trans mapped)
    have initialized := (finishUp_initialized admitted.ready admitted.apart finished).2 rfl
    obtain ⟨last, ended, stocked⟩ := finishUp_quiet options admitted.ready (admitted.unheard unheard) admitted.described
      initialized.sound (admitted.ids_apart hydrates)
    rw [finished] at ended
    cases ended
    exact ⟨_, _, _, hydrates, admitted, initialized, stocked⟩

/-- A load that nobody hears of succeeds exactly if its lock is one for loads, its rows can all be read, and every key
of a row that the session does not know leads somewhere. -/
theorem load_succeeds_iff (mapped : s.session.descriptor entity = .ok d) (unheard : s.Unheard d) :
    (∃ results, ((load entity rows options).exec s).1 = .ok results) ↔ options.lock.supportedForLoad = true ∧
      ∃ found, d.Hydrates rows found ∧ ∀ row, s.Introduces found row →
        s.session.factory.metamodel.leadAll d.attributes row.values = true := by
  rcases ran : (load entity rows options).exec s with ⟨answer, after⟩
  constructor
  · rintro ⟨results, rfl⟩
    cases load_loads ran with
    | loaded supported same hydrates _ admitted finished =>
      obtain rfl := Except.ok.inj (same.symm.trans mapped)
      refine ⟨supported, _, hydrates, fun row introduced => ?_⟩
      have initialized := (finishUp_initialized admitted.ready admitted.apart finished).2 rfl
      obtain ⟨entity, member, rfl⟩ := (admitted.introduced row).mpr introduced
      have leads := initialized.sound entity member
      rw [LoadingEntity.leads, admitted.factory, admitted.described entity member] at leads
      exact leads
  · rintro ⟨supported, found, hydrates, leads⟩
    cases load_loads ran with
    | loaded => exact ⟨_, rfl⟩
    | refused why =>
      rcases why with unsupported | ⟨e, unknown⟩
      · rw [supported] at unsupported
        cases unsupported
      · rw [mapped] at unknown
        cases unknown
    | stopped _ same _ _ stuck =>
      obtain rfl := Except.ok.inj (same.symm.trans mapped)
      exact absurd hydrates (stuck found)
    | failed _ same again _ admitted finished =>
      obtain rfl := Except.ok.inj (same.symm.trans mapped)
      obtain rfl := hydrates.unique again
      obtain ⟨last, ended, -⟩ := finishUp_quiet options admitted.ready (admitted.unheard unheard) admitted.described
        (fun entity member => by
          rw [LoadingEntity.leads, admitted.factory, admitted.described entity member]
          exact leads entity.row ((admitted.introduced entity.row).mp ⟨entity, member, rfl⟩))
        (admitted.ids_apart hydrates)
      rw [finished] at ended
      cases ended

end

end UnitOfWork
