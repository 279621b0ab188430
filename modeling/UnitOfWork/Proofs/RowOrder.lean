import Mathlib.Data.List.Perm.Basic
import UnitOfWork.Proofs.QuietLoads

/-! Loads of the same rows in another order. Which instance a row gets depends on when its turn comes, but what
becomes of the row does not: all rows are registered before the first key is resolved. -/

namespace UnitOfWork
open UnitOfWork.Action
open AttributeValue (renameAll fitAll)

/-- The key of a row, if the row can be read. -/
def Descriptor.rowKey? (d : Descriptor) : Except Error Row → Option EntityKey
  | .ok row => (d.hydrateRow row).toOption.map (·.1)
  | .error _ => none

/-- No two rows that can be read have the same key. -/
def Descriptor.Distinct (d : Descriptor) (rows : List (Except Error Row)) : Prop :=
  (rows.filterMap d.rowKey?).Pairwise fun key other => (key == other) = false

namespace Descriptor.Hydrates
variable {d : Descriptor} {rows others : List (Except Error Row)} {found : List HydratedRow}

theorem of_perm (hydrates : d.Hydrates others found) (permuted : rows.Perm others) :
    ∃ before, d.Hydrates rows before ∧ before.Perm found := List.perm_comp_forall₂ permuted hydrates

theorem keys (hydrates : d.Hydrates rows found) : rows.filterMap d.rowKey? = found.map HydratedRow.key := by
  induction hydrates with
  | nil => rfl
  | @cons _ row _ _ first _ ih =>
    obtain ⟨r, rfl, read⟩ := first
    have keyed : d.rowKey? (.ok r) = some row.key := by rw [Descriptor.rowKey?, read]; rfl
    rw [List.filterMap_cons_some keyed, List.map_cons, ih]

theorem distinct (hydrates : d.Hydrates rows found) (distinct : d.Distinct rows) :
    found.Pairwise fun a b => (a.key == b.key) = false := by
  unfold Descriptor.Distinct at distinct
  rw [hydrates.keys] at distinct
  exact List.pairwise_map.mp distinct

end Descriptor.Hydrates

theorem HydratedRow.isFirst_iff_mem {row : HydratedRow} {rows : List HydratedRow}
    (distinct : rows.Pairwise fun a b => (a.key == b.key) = false) : row.IsFirst rows ↔ row ∈ rows := by
  constructor
  · exact IsFirst.mem
  · intro member
    obtain ⟨before, later, rfl⟩ := List.append_of_mem member
    refine ⟨before, later, rfl, fun other inside => ?_⟩
    exact (List.pairwise_append.mp distinct).2.2 other inside row List.mem_cons_self

theorem State.introduces_perm {s : State} {rows others : List HydratedRow} (permuted : rows.Perm others)
    (distinct : rows.Pairwise fun a b => (a.key == b.key) = false) (row : HydratedRow) :
    s.Introduces rows row ↔ s.Introduces others row := by
  have apart : others.Pairwise fun a b => (a.key == b.key) = false :=
    (permuted.pairwise_iff fun different => BEq.comm.trans different).mp distinct
  unfold Introduces
  rw [HydratedRow.isFirst_iff_mem distinct, HydratedRow.isFirst_iff_mem apart, permuted.mem_iff]

/-- Instances of a batch are renamed to those that another batch has for their keys. -/
def Batch.twin (batch other : Batch) (h : Handle) : Handle :=
  match batch.keyFor? h with
  | some key => (other.handle? key).getD h
  | none => h

theorem Batch.twin_of_other {batch other : Batch} {h : Handle} (foreign : ∀ entity ∈ batch.entities, entity.handle ≠ h) :
    batch.twin other h = h := by
  unfold twin
  rw [keyFor?_eq_none.mpr foreign]

theorem Admitted.standing_cases {start s : State} {d : Descriptor} {options : LoadOptions} {rows : List HydratedRow}
    {progress : LoadProgress} (admitted : Admitted start d options rows progress s) (sound : start.Sound)
    {key : EntityKey} {h : Handle} (standing : s.context.entity? key = some h) :
    (∃ entity ∈ progress.batch.entities, entity.handle = h) ∨ h ∈ start.heap := by
  by_cases here : ∃ entity ∈ progress.batch.entities, (entity.key == key) = true
  · obtain ⟨entity, member, same⟩ := here
    rw [admitted.standing_of_same member same] at standing
    exact .inl ⟨entity, member, Option.some.inj standing⟩
  · rw [admitted.keys key fun entity member => Bool.eq_false_iff.mpr fun same => here ⟨entity, member, same⟩] at standing
    exact .inr (sound.standing_old standing)

namespace Admitted
variable {start s t : State} {d : Descriptor} {options : LoadOptions} {rows others : List HydratedRow}
  {progress other : LoadProgress} {entity twin : LoadingEntity} (first : Admitted start d options rows progress s)
  (second : Admitted start d options others other t)
  (alike : ∀ row, start.Introduces rows row ↔ start.Introduces others row)
include first second

theorem twin_of_row (member : entity ∈ progress.batch.entities) (inside : twin ∈ other.batch.entities)
    (same : twin.row = entity.row) : progress.batch.twin other.batch entity.handle = twin.handle := by
  have keys : twin.key = entity.key := congrArg HydratedRow.key same
  have held : (other.batch.find? entity.key).isSome = true := by
    unfold Batch.find?
    rw [List.find?_isSome]
    exact ⟨twin, inside, by rw [keys, BEq.rfl]⟩
  obtain ⟨found, here⟩ := Option.isSome_iff_exists.mp held
  obtain ⟨there, matches_⟩ := Batch.mem_of_find? here
  obtain rfl := second.only_one there inside (.inl (keys ▸ matches_))
  have handle : other.batch.handle? entity.key = some found.handle := congrArg _ here
  unfold Batch.twin
  rw [first.ready.keyed entity member]
  dsimp only
  rw [handle]
  rfl

include alike

theorem exists_twin (member : entity ∈ progress.batch.entities) : ∃ twin ∈ other.batch.entities,
    twin.row = entity.row ∧ progress.batch.twin other.batch entity.handle = twin.handle := by
  obtain ⟨twin, inside, same⟩ :=
    (second.introduced _).mpr ((alike _).mp ((first.introduced _).mp ⟨entity, member, rfl⟩))
  exact ⟨twin, inside, same, first.twin_of_row second member inside same⟩

theorem standing_renamed (sound : start.Sound) (key : EntityKey) : t.context.entity? key =
    (s.context.entity? key).map (progress.batch.twin other.batch) := by
  by_cases here : ∃ entity ∈ progress.batch.entities, (entity.key == key) = true
  · obtain ⟨entity, member, same⟩ := here
    obtain ⟨twin, inside, row, renamed⟩ := first.exists_twin second alike member
    have keys : twin.key = entity.key := congrArg HydratedRow.key row
    rw [first.standing_of_same member same, second.standing_of_same inside (keys ▸ same), Option.map_some, renamed]
  · have unseen : ∀ entity ∈ progress.batch.entities, (entity.key == key) = false :=
      fun entity member => Bool.eq_false_iff.mpr fun same => here ⟨entity, member, same⟩
    have unseen' : ∀ entity ∈ other.batch.entities, (entity.key == key) = false := by
      intro twin inside
      obtain ⟨entity, member, same⟩ :=
        (first.introduced _).mpr ((alike _).mpr ((second.introduced _).mp ⟨twin, inside, rfl⟩))
      have keys : entity.key = twin.key := congrArg HydratedRow.key same
      exact keys ▸ unseen entity member
    rw [first.keys key unseen, second.keys key unseen']
    cases standing : start.context.entity? key with
    | none => rfl
    | some h => rw [Option.map_some, Batch.twin_of_other (first.not_created (sound.standing_old standing))]

theorem references_renamed (sound : start.Sound) (key : EntityKey) : t.context.referenceTo key =
    (s.context.referenceTo key).rename (progress.batch.twin other.batch) := by
  unfold Context.referenceTo
  rw [first.standing_renamed second alike sound]
  cases standing : s.context.entity? key with
  | none => rfl
  | some h =>
    have alive : ((t.context.entry? (progress.batch.twin other.batch h)).any fun entry =>
        entry.status.isDeletedOrGone) = (s.context.entry? h).any fun entry => entry.status.isDeletedOrGone := by
      rcases first.standing_cases sound standing with ⟨entity, member, rfl⟩ | old
      · obtain ⟨twin, inside, row, renamed⟩ := first.exists_twin second alike member
        rw [renamed, first.tracked entity member, second.tracked twin inside]
        rfl
      · rw [Batch.twin_of_other (first.not_created old), first.entries h (first.not_created old),
          second.entries h (second.not_created old)]
    dsimp only [Option.map_some]
    rw [alive]
    split <;> rfl

theorem identities_renamed (distinct : rows.Pairwise fun a b => (a.key == b.key) = false)
    (size : t.heap.size = s.heap.size) (h : Handle) :
    t.heap.id? (progress.batch.twin other.batch h) = s.heap.id? h ∧
      t.heap.entity (progress.batch.twin other.batch h) = s.heap.entity h := by
  have same (held : t.heap.read (progress.batch.twin other.batch h) = s.heap.read h) :
      t.heap.id? (progress.batch.twin other.batch h) = s.heap.id? h ∧
        t.heap.entity (progress.batch.twin other.batch h) = s.heap.entity h :=
    ⟨congrArg Instance.id held, congrArg Instance.entity held⟩
  by_cases here : ∃ entity ∈ progress.batch.entities, entity.handle = h
  · obtain ⟨entity, member, rfl⟩ := here
    obtain ⟨twin, inside, row, renamed⟩ := first.exists_twin second alike member
    apply same
    have keys : twin.key = entity.key := congrArg HydratedRow.key row
    rw [renamed, first.blank entity member, second.blank twin inside, keys]
  · have foreign : ∀ entity ∈ progress.batch.entities, entity.handle ≠ h :=
      fun entity member same => here ⟨entity, member, same⟩
    rw [Batch.twin_of_other foreign] at same ⊢
    apply same
    by_cases old : h ∈ start.heap
    · rw [first.reads h old, second.reads h old]
    · have outside : h ∉ s.heap := by
        intro inside
        rcases first.only distinct h inside with there | there
        · exact old there
        · exact here there
      have outside' : h ∉ t.heap := fun inside => outside (Nat.lt_of_lt_of_eq inside size)
      rw [s.heap.read_outside outside, t.heap.read_outside outside']

/-- A region is offered the same for a row. -/
theorem stocked_renamed (sound : start.Sound) {given reordered : List (Except Error Row)} (hydrates : d.Hydrates given rows)
    (hydrates' : d.Hydrates reordered others) (distinct : rows.Pairwise fun a b => (a.key == b.key) = false)
    (size : t.heap.size = s.heap.size) (name : String) :
    t.stocked d other.batch.entities name = s.stocked d progress.batch.entities name := by
  have factory : t.session.factory = s.session.factory := second.factory.trans first.factory.symm
  have config : t.session.config = s.session.config := second.config.trans first.config.symm
  have inserted : t.context.wasInserted = s.context.wasInserted := by
    unfold State.context
    rw [first.registers.session, second.registers.session]
    rfl
  have offers {entity twin : LoadingEntity} (row : twin.row = entity.row) (cacheKey : CacheKey) :
      t.offers d name cacheKey twin = s.offers d name cacheKey entity := by
    have keys : twin.key = entity.key := congrArg HydratedRow.key row
    unfold State.offers Session.cacheKey
    rw [keys, config]
  funext cacheKey held
  unfold State.stocked
  cases found : progress.batch.entities.find? (s.offers d name cacheKey) with
  | none =>
    have unseen : other.batch.entities.find? (t.offers d name cacheKey) = none := by
      rw [List.find?_eq_none] at found ⊢
      intro twin inside offered
      obtain ⟨entity, member, same⟩ :=
        (first.introduced _).mpr ((alike _).mpr ((second.introduced _).mp ⟨twin, inside, rfl⟩))
      exact found entity member (offers same.symm cacheKey ▸ offered)
    rw [unseen]
  | some entity =>
    have member := List.mem_of_find?_eq_some found
    obtain ⟨twin, inside, row, -⟩ := first.exists_twin second alike member
    have offered : t.offers d name cacheKey twin = true :=
      (offers row cacheKey).trans (List.find?_some (p := s.offers d name cacheKey) found)
    obtain ⟨last, held'⟩ := Option.isSome_iff_exists.mp (List.find?_isSome.mpr ⟨twin, inside, offered⟩)
    obtain rfl := second.only_one_offered hydrates' (List.mem_of_find?_eq_some held') inside
      (List.find?_some (p := t.offers d name cacheKey) held') offered
    have keys : last.key = entity.key := congrArg HydratedRow.key row
    have hydrated : last.hydrated = entity.hydrated := congrArg HydratedRow.values row
    have shape := hydrates.fits entity.row ((first.introduced entity.row).mp ⟨entity, member, rfl⟩).2.mem
    have resolved : last.resolved t = renameAll (progress.batch.twin other.batch) (entity.resolved s) := by
      unfold LoadingEntity.resolved
      rw [first.described entity member, second.described last inside, hydrated, factory]
      exact Metamodel.resolvedAll_rename (first.references_renamed second alike sound) _ _ shape
    have items : t.cacheItem d (last.resolved t) = s.cacheItem d (entity.resolved s) := by
      unfold State.cacheItem
      rw [resolved, Descriptor.versionOf_rename, factory,
        CachedValue.ofAttributes_rename (first.identities_renamed second alike distinct size)]
    rw [held']
    dsimp only
    rw [items, keys]
    unfold State.afterOffer
    rw [inserted, factory, config]

variable {after after' : State} (one : Initialized options progress.batch.entities s after)
  (two : Initialized options other.batch.entities t after')
include one two

/-- A row is loaded alike into its two instances, if nobody hears of it. -/
theorem twins_loaded (sound : start.Sound) (unheard : start.Unheard d)
    (fits : ∀ row ∈ rows, fitAll d.attributes row.values = true) (member : entity ∈ progress.batch.entities) :
    ∃ state, RowLoaded start d options entity.row state entity.handle after ∧
      RowLoaded start d options entity.row (renameAll (progress.batch.twin other.batch) state)
        (progress.batch.twin other.batch entity.handle) after' := by
  obtain ⟨twin, inside, row, renamed⟩ := first.exists_twin second alike member
  obtain ⟨state, here⟩ := first.row_loaded one member
  obtain ⟨state', there⟩ := second.row_loaded two inside
  have references (key : EntityKey) : after'.context.referenceTo key =
      (after.context.referenceTo key).rename (progress.batch.twin other.batch) := by
    rw [one.references, two.references]
    exact first.references_renamed second alike sound key
  have shape := fits entity.row ((first.introduced entity.row).mp ⟨entity, member, rfl⟩).2.mem
  have states : state' = renameAll (progress.batch.twin other.batch) state := by
    rw [here.state_eq unheard, there.state_eq unheard, row]
    exact Metamodel.resolvedAll_rename references _ _ shape
  rw [row, states] at there
  rw [renamed]
  exact ⟨state, here, there⟩

/-- The two loads end alike, up to the names of the instances that they have created. -/
theorem renamed (sound : start.Sound) (unheard : start.Unheard d)
    (distinct : rows.Pairwise fun a b => (a.key == b.key) = false)
    (fits : ∀ row ∈ rows, fitAll d.attributes row.values = true) :
    Renamed (progress.batch.twin other.batch) start after after' := by
  have created {h : Handle} (inside : h ∈ after.heap) (new : h ∉ start.heap) :
      ∃ entity ∈ progress.batch.entities, entity.handle = h :=
    (first.only distinct h (Nat.lt_of_lt_of_eq inside one.size)).resolve_left new
  have keeps {h : Handle} (old : h ∈ start.heap) : progress.batch.twin other.batch h = h :=
    Batch.twin_of_other (first.not_created old)
  have creates {h : Handle} (inside : h ∈ after.heap) (new : h ∉ start.heap) :
      ∃ twin ∈ other.batch.entities, ∃ entity ∈ progress.batch.entities, entity.handle = h ∧ twin.row = entity.row ∧
        progress.batch.twin other.batch h = twin.handle := by
    obtain ⟨entity, member, rfl⟩ := created inside new
    obtain ⟨twin, there, row, renamed⟩ := first.exists_twin second alike member
    exact ⟨twin, there, entity, member, rfl, row, renamed⟩
  have standing (key : EntityKey) :
      after'.context.entity? key = (after.context.entity? key).map (progress.batch.twin other.batch) := by
    rw [one.entity?, two.entity?]
    exact first.standing_renamed second alike sound key
  constructor
  case keeps => exact fun h old => keeps old
  case creates =>
    intro h inside new
    obtain ⟨twin, there, _, _, _, _, renamed⟩ := creates inside new
    rw [renamed]
    exact ⟨Nat.lt_of_lt_of_eq (second.created twin there).2 two.size.symm, (second.created twin there).1⟩
  case injective =>
    intro x inside y inside' same
    by_cases old : x ∈ start.heap
    · by_cases old' : y ∈ start.heap
      · rwa [keeps old, keeps old'] at same
      · obtain ⟨twin, there, _, _, _, _, renamed⟩ := creates inside' old'
        rw [keeps old, renamed] at same
        exact absurd (same ▸ old) (second.created twin there).1
    · obtain ⟨twin, there, entity, member, rfl, row, renamed⟩ := creates inside old
      by_cases old' : y ∈ start.heap
      · rw [keeps old', renamed] at same
        exact absurd (same ▸ old') (second.created twin there).1
      · obtain ⟨twin', there', entity', member', rfl, row', renamed'⟩ := creates inside' old'
        rw [renamed, renamed'] at same
        obtain rfl := second.only_one there there' (.inr same)
        have keys : entity.key = entity'.key := congrArg HydratedRow.key (row.symm.trans row')
        rw [first.only_one member member' (.inl (keys ▸ BEq.rfl))]
  case standing => exact standing
  case entries =>
    intro h old
    rw [first.others one (first.not_created old), second.others two (second.not_created old)]
  case instances =>
    intro h old
    rw [first.untouched one.toFinishing (unheard.writes _) h old,
      second.untouched two.toFinishing (unheard.writes _) h old]
  case newEntries =>
    intro h inside new
    obtain ⟨entity, member, rfl⟩ := created inside new
    obtain ⟨state, here, there⟩ := first.twins_loaded second alike one two sound unheard fits member
    rw [here.entered, there.entered, HydratedRow.entry_rename]
    rfl
  case newInstances =>
    intro h inside new
    obtain ⟨entity, member, rfl⟩ := created inside new
    obtain ⟨state, here, there⟩ := first.twins_loaded second alike one two sound unheard fits member
    rw [here.held (unheard.writes _), there.held (unheard.writes _)]
    rfl
  case proxies =>
    intro key
    apply Option.ext
    intro readOnly
    have missing : after'.context.entity? key = none ↔ after.context.entity? key = none := by
      rw [standing key, Option.map_eq_none_iff]
    rw [second.proxies two, first.proxies one, missing]
    simp only [alike]

end Admitted

def Region.Alike : Region → Region → Prop := Becomes fun _ held => held

theorem Region.Becomes.alike {change : CacheKey → Option CacheItem → Option CacheItem} {held a b : Region}
    (first : Becomes change held a) (second : Becomes change held b) : Alike a b := by
  cases held with
  | memory held =>
    cases a with
    | external accepts => cases first
    | memory a =>
      cases b with
      | external accepts => cases second
      | memory b =>
        refine ⟨second.1.trans first.1.symm, fun cacheKey => ?_⟩
        rw [first.2 cacheKey, second.2 cacheKey]
  | external held =>
    cases a with
    | memory a => cases first
    | external accepts =>
      cases b with
      | memory b => cases second
      | external accepts' => exact Eq.trans second (Eq.symm first)

theorem Admitted.size_perm {start s t : State} {d : Descriptor} {options : LoadOptions} {rows others : List HydratedRow}
    {progress other : LoadProgress} (first : Admitted start d options rows progress s)
    (second : Admitted start d options others other t) (permuted : rows.Perm others) : t.heap.size = s.heap.size := by
  have one := first.size
  have two := second.size
  have known := (permuted.filter fun row => (start.context.entity? row.key).isSome).length_eq
  have all := permuted.length_eq
  omega

theorem Descriptor.Distinct.perm {d : Descriptor} {rows others : List (Except Error Row)} (distinct : d.Distinct rows)
    (permuted : rows.Perm others) : d.Distinct others :=
  ((permuted.filterMap d.rowKey?).pairwise_iff fun different => BEq.comm.trans different).mp distinct

section
variable {s after after' : State} {entity : String} {d : Descriptor} {rows others : List (Except Error Row)}
  {options : LoadOptions} {results results' : List Handle}

theorem load_succeeds_perm (mapped : s.session.descriptor entity = .ok d) (unheard : s.Unheard d)
    (distinct : d.Distinct rows) (permuted : rows.Perm others)
    (succeeds : ∃ results, ((load entity rows options).exec s).1 = .ok results) :
    ∃ results, ((load entity others options).exec s).1 = .ok results := by
  obtain ⟨supported, found, hydrates, leads⟩ := (load_succeeds_iff mapped unheard).mp succeeds
  obtain ⟨found', hydrates', reordered⟩ := hydrates.of_perm permuted.symm
  refine (load_succeeds_iff mapped unheard).mpr ⟨supported, found', hydrates', fun row introduced => ?_⟩
  exact leads row ((State.introduces_perm reordered (hydrates'.distinct (distinct.perm permuted)) row).mp introduced)

theorem load_renamed (sound : s.Sound) (mapped : s.session.descriptor entity = .ok d) (unheard : s.Unheard d)
    (distinct : d.Distinct rows) (permuted : rows.Perm others)
    (loaded : (load entity rows options).exec s = (.ok results, after))
    (reloaded : (load entity others options).exec s = (.ok results', after')) : ∃ names, Renamed names s after after' ∧
      (∀ h ∈ after'.heap, ∃ x ∈ after.heap, names x = h) ∧
      ∀ name, Option.Rel Region.Alike (after.shared.regions.find? name) (after'.shared.regions.find? name) := by
  obtain ⟨found, progress, middle, hydrates, first, one, stocked⟩ := load_quiet mapped unheard loaded
  obtain ⟨found', other, middle', hydrates', second, two, stocked'⟩ := load_quiet mapped unheard reloaded
  obtain ⟨before, hydrated, reordered⟩ := hydrates'.of_perm permuted
  obtain rfl := hydrates.unique hydrated
  have apart := hydrates.distinct distinct
  have apart' := hydrates'.distinct (distinct.perm permuted)
  have alike := State.introduces_perm (s := s) reordered apart
  refine ⟨_, first.renamed second alike one two sound unheard apart hydrates.fits, fun h inside => ?_, fun name => ?_⟩
  · rcases second.only apart' h (Nat.lt_of_lt_of_eq inside two.size) with old | ⟨twin, there, rfl⟩
    · refine ⟨h, Nat.lt_of_lt_of_le old (Nat.le_trans first.grown (Nat.le_of_eq one.size.symm)), ?_⟩
      exact Batch.twin_of_other (first.not_created old)
    · obtain ⟨entity, member, same⟩ :=
        (first.introduced _).mpr ((alike _).mpr ((second.introduced _).mp ⟨twin, there, rfl⟩))
      refine ⟨entity.handle, Nat.lt_of_lt_of_eq (first.created entity member).2 one.size.symm, ?_⟩
      exact first.twin_of_row second member there same.symm
  · have here := stocked.regions name
    have there := stocked'.regions name
    rw [first.stocked_renamed second alike sound hydrates hydrates' apart (first.size_perm second reordered),
      second.registers.regions] at there
    rw [first.registers.regions] at here
    generalize s.shared.regions.find? name = held at here there
    generalize after.shared.regions.find? name = a at here ⊢
    generalize after'.shared.regions.find? name = b at there ⊢
    cases here with
    | none =>
      cases there
      exact .none
    | some became =>
      cases there with
      | some became' => exact .some (became.alike became')

end

/-- The order of the rows decides neither whether a load that nobody hears of succeeds nor, up to the names of the new
instances, how it leaves the session and what it leaves in the cache, as long as no key is repeated. -/
theorem load_ignores_row_order {start s : State} {moves : List Move} {entity : String}
    {rows others : List (Except Error Row)} {options : LoadOptions} (fresh : start.Fresh) (run : Run start moves s)
    (unheard : ∀ d, s.session.descriptor entity = .ok d → s.Unheard d)
    (distinct : ∀ d, s.session.descriptor entity = .ok d → d.Distinct rows) (permuted : rows.Perm others) :
    ((∃ results, ((load entity rows options).exec s).1 = .ok results) ↔
      ∃ results, ((load entity others options).exec s).1 = .ok results) ∧
    ∀ results results' after after', (load entity rows options).exec s = (.ok results, after) →
      (load entity others options).exec s = (.ok results', after') → ∃ names, Renamed names s after after' ∧
        (∀ h ∈ after'.heap, ∃ x ∈ after.heap, names x = h) ∧
        ∀ name, Option.Rel Region.Alike (after.shared.regions.find? name) (after'.shared.regions.find? name) := by
  have sound := run.sound fresh.sound
  cases mapped : s.session.descriptor entity with
  | error e =>
    have never {given : List (Except Error Row)} {results : List Handle} :
        ((load entity given options).exec s).1 ≠ .ok results := by
      intro answered
      obtain ⟨d, _, _, _, same, -⟩ := load_ok (Prod.ext answered rfl)
      rw [mapped] at same
      cases same
    refine ⟨⟨?_, ?_⟩, fun results results' after after' ran => absurd (congrArg Prod.fst ran) never⟩
    · rintro ⟨results, answered⟩
      exact absurd answered never
    · rintro ⟨results, answered⟩
      exact absurd answered never
  | ok d =>
    have unheard := unheard d mapped
    have distinct := distinct d mapped
    refine ⟨⟨?_, ?_⟩, fun results results' after after' ran ran' => ?_⟩
    · exact load_succeeds_perm mapped unheard distinct permuted
    · exact load_succeeds_perm mapped unheard (distinct.perm permuted) permuted.symm
    · exact load_renamed sound mapped unheard distinct permuted ran ran'

namespace Sample

/-- An employee may be managed by another one. Employees are cached. -/
def employee : Descriptor where
  name := "Employee"
  identifier := { name := "id" }
  attributes := [.manyToOne "manager" "Employee"]
  cacheRegion := some "employees"

def staffed : State :=
  let factory : Factory := { metamodel := ⟨[employee]⟩ }
  { heap := ∅, shared := factory.shared, session := { factory } }

def pair : List (Except Error Row) :=
  [.ok { values := [.bool true, .bool false] }, .ok { values := [.bool false, .bool true] }]

end Sample

open Sample in
/-- Of two employees who refer to each other, it does not matter which comes first. -/
theorem load_ignores_row_order_of_employees : ∃ after after' names, Run staffed [] staffed ∧ employee.Distinct pair ∧
    pair.Perm pair.reverse ∧ (load "Employee" pair {}).exec staffed = (.ok [⟨0⟩, ⟨1⟩], after) ∧
    (load "Employee" pair.reverse {}).exec staffed = (.ok [⟨0⟩, ⟨1⟩], after') ∧ Renamed names staffed after after' ∧
    Option.Rel Region.Alike (after.shared.regions.find? "employees") (after'.shared.regions.find? "employees") := by
  have unheard (d : Descriptor) (mapped : staffed.session.descriptor "Employee" = .ok d) : staffed.Unheard d := by
    obtain rfl : employee = d := Except.ok.inj mapped
    exact ⟨rfl, rfl, rfl⟩
  have apart : employee.Distinct pair := by
    unfold Descriptor.Distinct
    decide +kernel
  have distinct (d : Descriptor) (mapped : staffed.session.descriptor "Employee" = .ok d) : d.Distinct pair := by
    obtain rfl : employee = d := Except.ok.inj mapped
    exact apart
  have answered : ((load "Employee" pair {}).exec staffed).1.toOption = some [⟨0⟩, ⟨1⟩] := by decide +kernel
  have answered' : ((load "Employee" pair.reverse {}).exec staffed).1.toOption = some [⟨0⟩, ⟨1⟩] := by decide +kernel
  have permuted := pair.reverse_perm.symm
  obtain ⟨-, alike⟩ := load_ignores_row_order ⟨rfl, rfl, rfl⟩ .start unheard distinct permuted
  obtain ⟨names, renamed, -, regions⟩ := alike _ _ _ _ (exec_of_toOption answered) (exec_of_toOption answered')
  exact ⟨_, _, names, .start, apart, permuted, exec_of_toOption answered, exec_of_toOption answered', renamed,
    regions "employees"⟩

end UnitOfWork
