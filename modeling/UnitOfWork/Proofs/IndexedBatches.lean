import UnitOfWork.Proofs.FlushConservation
import UnitOfWork.Proofs.LoadRun

/-! The batch of a load as it is stored: its entities in a row, for each key its place in the row, and for each instance its
key. Whatever is registered, the three go together with the list of entities that a load works with, and a place has an
entity. A load initializes every entity under its own key as long as no instance has been offered under two. -/

namespace UnitOfWork

structure IndexedBatch where
  entities : List LoadingEntity := []
  /-- Where in the row the entity of a key stands. -/
  index : Registry EntityKey Nat := ∅
  keys : Registry Handle EntityKey := ∅

namespace IndexedBatch

def size (stored : IndexedBatch) : Nat := stored.entities.length

def contains (stored : IndexedBatch) (key : EntityKey) : Bool := stored.index.contains key

def keyFor? (stored : IndexedBatch) (h : Handle) : Option EntityKey := stored.keys.find? h

/-- The entity of a key, if there is one. The lookup itself fails at a place beyond the row. -/
def entity? (stored : IndexedBatch) (key : EntityKey) : Option (Option LoadingEntity) :=
  match stored.index.find? key with
  | none => some none
  | some position => (stored.entities[position]?).map some

def handle? (stored : IndexedBatch) (key : EntityKey) : Option (Option Handle) :=
  (stored.entity? key).map fun held => held.map (·.handle)

def register (stored : IndexedBatch) (entity : LoadingEntity) : Option (Registration × IndexedBatch) :=
  (stored.entity? entity.key).map fun
    | some held => (if held.handle = entity.handle then .repeated else .duplicate, stored)
    | none => (.added,
      { entities := stored.entities ++ [entity]
        index := stored.index.insert entity.key stored.entities.length
        keys := stored.keys.insert entity.handle entity.key })

def registerAll : IndexedBatch → List LoadingEntity → Option IndexedBatch
  | stored, [] => some stored
  | stored, entity :: rest => (stored.register entity).bind fun answered => answered.2.registerAll rest

end IndexedBatch

namespace Action

/-- Initializes an entity under a key. -/
def materializeUnder (batch : Batch) (options : LoadOptions) (key : EntityKey) (entity : LoadingEntity) :
    Action Unit := do
  if !(← get).context.isTracked entity.handle then trackLoading entity key options
  let resolved ← resolveAll batch entity.descriptor.name entity.descriptor.attributes entity.hydrated
  let session := (← get).session
  let state ← if session.config.eventSource then
      firePreLoad session.preLoad 0
        { entity := entity.handle, id := key.id, descriptor := entity.descriptor, state := resolved }
    else pure resolved
  install entity.descriptor key options entity.handle state

theorem materialize_eq_under (batch : Batch) (options : LoadOptions) (entity : LoadingEntity) :
    materialize batch options entity =
      materializeUnder batch options ((batch.keyFor? entity.handle).getD entity.key) entity := rfl

def announce (entities : List LoadingEntity) : Action Unit := do
  if (← get).session.config.eventSource then announceLoaded entities else return ()

theorem finishUp_eq (batch : Batch) (options : LoadOptions) : finishUp batch options = (do
    materializeAll batch options batch.entities
    announce batch.entities) := rfl

theorem materializeAll_eq {batch : Batch} (options : LoadOptions) : ∀ {entities : List LoadingEntity},
    (∀ entity ∈ entities, batch.keyFor? entity.handle = some entity.key) →
      materializeAll batch options entities = forM entities fun entity => materializeUnder batch options entity.key entity
  | [], _ => rfl
  | entity :: rest, keyed => by
    have others := materializeAll_eq options fun other member => keyed other (List.mem_cons_of_mem _ member)
    rw [materializeAll, materialize_eq_under, keyed entity List.mem_cons_self, others]
    rfl

end Action

namespace IndexedBatch
open UnitOfWork.Action

/-- Answers whether each of the entities had a key to be initialized under; it stops at the first without one. References
are looked for among the entities, where `handle?` finds them. -/
def initializeAll (stored : IndexedBatch) (options : LoadOptions) : List LoadingEntity → Action Bool
  | [] => return true
  | entity :: rest =>
    match stored.keyFor? entity.handle with
    | none => return false
    | some key => do
      materializeUnder ⟨stored.entities⟩ options key entity
      stored.initializeAll options rest

def finishUp (stored : IndexedBatch) (options : LoadOptions) : Action Bool := do
  if ← stored.initializeAll options stored.entities then
    announce stored.entities
    return true
  else return false

/-- What is stored is the batch. -/
structure Stores (stored : IndexedBatch) (batch : Batch) : Prop where
  entities : stored.entities = batch.entities
  index : ∀ key, stored.index.find? key = batch.entities.findIdx? (·.key == key)
  keys : ∀ h, stored.keyFor? h = batch.keyFor? h

end IndexedBatch

namespace Batch
variable {batch : Batch} {key : EntityKey} {entity : LoadingEntity} {calls : List LoadingEntity}

def registerAll (batch : Batch) (calls : List LoadingEntity) : Batch :=
  calls.foldl (fun batch entity => (batch.register entity).2) batch

theorem register_of_held {held : LoadingEntity} (found : batch.find? entity.key = some held) :
    batch.register entity = (if held.handle = entity.handle then .repeated else .duplicate, batch) := by
  rw [register, found]

theorem register_of_new (missing : batch.find? entity.key = none) :
    batch.register entity = (.added, ⟨batch.entities ++ [entity]⟩) := by
  rw [register, missing]

theorem register_added_iff : (batch.register entity).1 = .added ↔ batch.contains entity.key = false := by
  rw [contains_eq_isSome]
  cases found : batch.find? entity.key with
  | none =>
    rw [register_of_new found]
    simp
  | some held =>
    rw [register_of_held found]
    split <;> simp

theorem find?_congr (batch : Batch) {other : EntityKey} (same : (key == other) = true) :
    batch.find? key = batch.find? other := by
  unfold find?
  simp only [BEq.congr_right same]

theorem contains_register (batch : Batch) (entity : LoadingEntity) (key : EntityKey) :
    (batch.register entity).2.contains key = (batch.contains key || entity.key == key) := by
  cases found : batch.find? entity.key with
  | none =>
    rw [register_of_new found]
    simp [contains]
  | some held =>
    rw [register_of_held found]
    cases same : entity.key == key with
    | false => rw [Bool.or_false]
    | true => rw [Bool.or_true, contains_eq_isSome, ← batch.find?_congr same, found, Option.isSome_some]

theorem contains_registerAll (batch : Batch) (calls : List LoadingEntity) (key : EntityKey) :
    (batch.registerAll calls).contains key = (batch.contains key || calls.any (·.key == key)) := by
  induction calls generalizing batch with
  | nil => simp [registerAll]
  | cons entity rest ih =>
    rw [registerAll, List.foldl_cons, ← registerAll, ih, contains_register, List.any_cons, Bool.or_assoc]

theorem entities_registerAll (batch : Batch) (calls : List LoadingEntity) : (batch.registerAll calls).entities =
    batch.entities ++ (calls.filter fun call => !batch.contains call.key).eraseDupsBy fun a b => a.key == b.key := by
  induction calls generalizing batch with
  | nil => simp [registerAll]
  | cons entity rest ih =>
    rw [registerAll, List.foldl_cons, ← registerAll, ih]
    cases found : batch.find? entity.key with
    | some held =>
      have inside : batch.contains entity.key = true := by rw [contains_eq_isSome, found, Option.isSome_some]
      rw [register_of_held found, List.filter_cons, inside]
      rfl
    | none =>
      -- The batch has the key from here on, so it drops what the removal of repetitions drops.
      have missing : batch.contains entity.key = false := by rw [contains_eq_isSome, found, Option.isSome_none]
      have others (call : LoadingEntity) : (!(batch.register entity).2.contains call.key) =
          (decide ((call.key == entity.key) = false) && !batch.contains call.key) := by
        rw [contains_register, BEq.comm (a := entity.key)]
        cases batch.contains call.key <;> cases call.key == entity.key <;> rfl
      rw [List.filter_cons, missing, Bool.not_false, if_pos rfl, List.eraseDupsBy_cons, List.filter_filter,
        List.filter_congr fun call _ => others call, register_of_new found, List.append_assoc]
      rfl

theorem entities_firsts (calls : List LoadingEntity) :
    (registerAll {} calls).entities = calls.eraseDupsBy fun a b => a.key == b.key := by
  have all : (calls.filter fun call => !contains {} call.key) = calls := List.filter_eq_self.mpr fun _ _ => rfl
  rw [entities_registerAll, all]
  rfl

theorem keys_eraseDupsBy : ∀ calls : List LoadingEntity,
    (calls.eraseDupsBy fun a b => a.key == b.key).map (·.key) = (calls.map (·.key)).eraseDups
  | [] => rfl
  | call :: rest => by
    have others := keys_eraseDupsBy (rest.filter fun other => !(other.key == call.key))
    simp only [List.eraseDupsBy_cons, List.map_cons, List.eraseDups_cons, List.filter_map, Function.comp_def]
    simpa using others
termination_by calls => calls.length
decreasing_by exact Nat.lt_succ_of_le (List.length_filter_le _ _)

theorem mem_register {other : LoadingEntity} (member : other ∈ (batch.register entity).2.entities) :
    other ∈ batch.entities ∨ other = entity := by
  cases found : batch.find? entity.key with
  | some held =>
    rw [register_of_held found] at member
    exact .inl member
  | none =>
    rw [register_of_new found] at member
    exact (List.mem_append.mp member).imp_right List.mem_singleton.mp

theorem distinct_register (distinct : batch.entities.Pairwise fun a b => (a.key == b.key) = false) :
    (batch.register entity).2.entities.Pairwise fun a b => (a.key == b.key) = false := by
  cases found : batch.find? entity.key with
  | some held =>
    rw [register_of_held found]
    exact distinct
  | none =>
    rw [register_of_new found, List.pairwise_append]
    refine ⟨distinct, List.pairwise_singleton _ _, fun held member other last => ?_⟩
    rw [List.mem_singleton.mp last]
    exact find?_eq_none.mp found held member

/-- What holds of a batch while entities are registered. -/
structure Of (batch : Batch) (calls : List LoadingEntity) : Prop where
  offered : ∀ entity ∈ batch.entities, entity ∈ calls
  distinct : batch.entities.Pairwise fun a b => (a.key == b.key) = false

theorem of_registerAll (calls : List LoadingEntity) : (registerAll {} calls).Of calls := by
  have run (rest : List LoadingEntity) : ∀ {batch : Batch}, (∀ call ∈ rest, call ∈ calls) → batch.Of calls →
      (batch.registerAll rest).Of calls := by
    induction rest with
    | nil => exact fun _ of => of
    | cons entity rest ih =>
      intro batch inside of
      refine ih (fun call member => inside call (List.mem_cons_of_mem _ member)) ⟨fun other member => ?_,
        distinct_register of.distinct⟩
      rcases mem_register member with before | rfl
      · exact of.offered other before
      · exact inside other List.mem_cons_self
  exact run calls (fun _ member => member) ⟨fun _ member => absurd member List.not_mem_nil, .nil⟩

namespace Of

theorem only_one {a b : LoadingEntity} (of : batch.Of calls) (here : a ∈ batch.entities) (there : b ∈ batch.entities)
    (same : (a.key == b.key) = true) : a = b := by
  apply Classical.byContradiction
  intro different
  have symmetric : Std.Symm fun a b : LoadingEntity => (a.key == b.key) = false := ⟨fun x y apart => BEq.comm.trans apart⟩
  rw [of.distinct.forall here there different] at same
  cases same

theorem find? (of : batch.Of calls) (member : entity ∈ batch.entities) : batch.find? entity.key = some entity := by
  cases found : batch.find? entity.key with
  | none =>
    have absent := find?_eq_none.mp found entity member
    rw [BEq.rfl] at absent
    cases absent
  | some held =>
    obtain ⟨inside, same⟩ := mem_of_find? found
    rw [of.only_one inside member same]

theorem keyFor? (of : batch.Of calls) (steady : ∀ a ∈ calls, ∀ b ∈ calls, a.handle = b.handle → (a.key == b.key) = true)
    (member : entity ∈ batch.entities) : batch.keyFor? entity.handle = some entity.key :=
  keyFor?_of_only member fun other inside same =>
    of.only_one inside member (steady other (of.offered other inside) entity (of.offered entity member) same)

end Of

end Batch

namespace IndexedBatch
open UnitOfWork.Action
variable {stored : IndexedBatch} {batch : Batch} {calls : List LoadingEntity}

namespace Stores

theorem entity? (stores : stored.Stores batch) (key : EntityKey) : stored.entity? key = some (batch.find? key) := by
  rw [IndexedBatch.entity?, stores.index, Batch.find?, List.find?_eq_bind_findIdx?_getElem?, stores.entities]
  cases place : batch.entities.findIdx? (·.key == key) with
  | none => rfl
  | some position =>
    obtain ⟨inside, -, -⟩ := List.findIdx?_eq_some_iff_getElem.mp place
    dsimp only
    rw [Option.bind_some, List.getElem?_eq_getElem inside]
    rfl

theorem register (stores : stored.Stores batch) (entity : LoadingEntity) : ∃ next,
    stored.register entity = some ((batch.register entity).1, next) ∧ next.Stores (batch.register entity).2 := by
  rw [IndexedBatch.register, stores.entity?]
  cases found : batch.find? entity.key with
  | some held =>
    rw [Batch.register_of_held found]
    exact ⟨stored, rfl, stores⟩
  | none =>
    rw [Batch.register_of_new found]
    refine ⟨_, rfl, congrArg (· ++ [entity]) stores.entities, fun key => ?_, fun h => ?_⟩
    · rw [Registry.find?_insert, stores.index, stores.entities, List.findIdx?_append]
      cases same : entity.key == key with
      | true =>
        have absent : batch.entities.findIdx? (·.key == key) = none := by
          rw [List.findIdx?_eq_none_iff, ← Batch.find?_eq_none, ← batch.find?_congr same]
          exact found
        simp [absent, same]
      | false => simp [same]
    · rw [keyFor?, Registry.find?_insert, ← keyFor?, stores.keys, Batch.keyFor?, Batch.keyFor?, List.reverse_append]
      by_cases same : entity.handle = h <;> simp [same]

theorem registerAll (stores : stored.Stores batch) (calls : List LoadingEntity) : ∃ last,
    stored.registerAll calls = some last ∧ last.Stores (batch.registerAll calls) := by
  induction calls generalizing stored batch with
  | nil => exact ⟨stored, rfl, stores⟩
  | cons entity rest ih =>
    obtain ⟨next, registered, stores⟩ := stores.register entity
    obtain ⟨last, others, stores⟩ := ih stores
    exact ⟨last, by rw [IndexedBatch.registerAll, registered, Option.bind_some, others], stores⟩

theorem handle? (stores : stored.Stores batch) (key : EntityKey) : stored.handle? key = some (batch.handle? key) := by
  rw [IndexedBatch.handle?, stores.entity?]
  rfl

theorem contains (stores : stored.Stores batch) (key : EntityKey) : stored.contains key = batch.contains key := by
  rw [IndexedBatch.contains, Registry.contains_eq_isSome, stores.index, List.findIdx?_isSome]
  rfl

theorem place {key : EntityKey} {position : Nat} (stores : stored.Stores batch)
    (placed : stored.index.find? key = some position) :
    ∃ entity, stored.entities[position]? = some entity ∧ (entity.key == key) = true := by
  rw [stores.index] at placed
  obtain ⟨inside, same, -⟩ := List.findIdx?_eq_some_iff_getElem.mp placed
  rw [stores.entities]
  exact ⟨batch.entities[position], List.getElem?_eq_getElem inside, same⟩

theorem keyFor?_iff {key : EntityKey} {h : Handle} (stores : stored.Stores batch) (of : batch.Of calls)
    (steady : ∀ a ∈ calls, ∀ b ∈ calls, a.handle = b.handle → (a.key == b.key) = true) :
    (stored.keyFor? h).any (· == key) = true ↔ stored.handle? key = some (some h) := by
  rw [stores.keys, stores.handle?]
  constructor
  · intro keyed
    obtain ⟨held, found, same⟩ := (Option.any_eq_true _ _).mp keyed
    obtain ⟨entity, member, rfl, rfl⟩ := Batch.mem_of_keyFor? found
    rw [Batch.handle?, ← batch.find?_congr same, of.find? member, Option.map_some]
  · intro kept
    obtain ⟨entity, found, rfl⟩ := Option.map_eq_some_iff.mp (Option.some.inj kept)
    obtain ⟨member, same⟩ := Batch.mem_of_find? found
    rw [of.keyFor? steady member]
    exact same

theorem initializeAll (stores : stored.Stores batch) (options : LoadOptions) : ∀ {entities : List LoadingEntity},
    (∀ entity ∈ entities, batch.keyFor? entity.handle = some entity.key) →
      stored.initializeAll options entities = (do
        forM entities fun entity => materializeUnder batch options entity.key entity
        return true)
  | [], _ => rfl
  | entity :: rest, keyed => by
    have others := stores.initializeAll options fun other member => keyed other (List.mem_cons_of_mem _ member)
    have whole : (⟨stored.entities⟩ : Batch) = batch := by rw [stores.entities]
    rw [IndexedBatch.initializeAll, stores.keys, keyed entity List.mem_cons_self, others, whole, List.forM_cons, bind_assoc]

theorem finishUp (stores : stored.Stores batch) (options : LoadOptions)
    (keyed : ∀ entity ∈ batch.entities, batch.keyFor? entity.handle = some entity.key) :
    stored.finishUp options = (do Action.finishUp batch options; return true) := by
  rw [IndexedBatch.finishUp, stores.entities, stores.initializeAll options keyed, finishUp_eq,
    materializeAll_eq options keyed, bind_assoc, bind_assoc]
  rfl

end Stores

structure KeepsFirst (stored : IndexedBatch) (calls : List LoadingEntity) : Prop where
  /-- Each key has the first instance and the first state that it was offered with, in the order of the keys. -/
  entities : stored.entities = calls.eraseDupsBy fun a b => a.key == b.key
  register : ∀ call, ∃ answer next, stored.register call = some (answer, next) ∧
    (answer = .added ↔ ∀ earlier ∈ calls, (earlier.key == call.key) = false)
  handle? : ∀ key, stored.handle? key = some ((stored.entities.find? (·.key == key)).map (·.handle))
  contains : ∀ key, stored.contains key = stored.entities.any (·.key == key)
  size : stored.size = (calls.map (·.key)).eraseDups.length
  place : ∀ key position, stored.index.find? key = some position →
    ∃ entity, stored.entities[position]? = some entity ∧ (entity.key == key) = true

theorem Stores.keepsFirst (stores : stored.Stores (Batch.registerAll {} calls)) : stored.KeepsFirst calls where
  entities := stores.entities.trans (Batch.entities_firsts calls)
  register call := by
    obtain ⟨next, registered, -⟩ := stores.register call
    refine ⟨_, next, registered, ?_⟩
    rw [Batch.register_added_iff, Batch.contains_registerAll]
    simp [Batch.contains]
  handle? key := by
    rw [stores.handle?, stores.entities]
    rfl
  contains key := by
    rw [stores.contains, stores.entities]
    rfl
  size := by
    rw [size, stores.entities, Batch.entities_firsts, ← Batch.keys_eraseDupsBy, List.length_map]
  place _ _ placed := stores.place placed

end IndexedBatch

open IndexedBatch UnitOfWork.Action in
/-- Registering entities never fails, and what is stored is the batch that a load works with: each key once, in the order
of the keys' first offers, with what came with the first. If no instance is offered under two keys, an instance leads to the
keys that lead to it, and the second pass does not stop for want of a key; it initializes each entity under its own. -/
theorem stored_batches_keep_first_offers (calls : List LoadingEntity) : ∃ stored : IndexedBatch,
    registerAll {} calls = some stored ∧ stored.Stores (Batch.registerAll {} calls) ∧ stored.KeepsFirst calls ∧
    ((∀ a ∈ calls, ∀ b ∈ calls, a.handle = b.handle → (a.key == b.key) = true) →
      (∀ key h, (stored.keyFor? h).any (· == key) = true ↔ stored.handle? key = some (some h)) ∧
      ∀ options,
        stored.finishUp options = (do Action.finishUp ⟨stored.entities⟩ options; return true) ∧
        Action.finishUp ⟨stored.entities⟩ options = (do
          forM stored.entities fun entity => materializeUnder ⟨stored.entities⟩ options entity.key entity
          announce stored.entities)) := by
  have empty : Stores {} {} := ⟨rfl, fun _ => rfl, fun _ => rfl⟩
  have of := Batch.of_registerAll calls
  obtain ⟨stored, registered, stores⟩ := empty.registerAll calls
  refine ⟨stored, registered, stores, stores.keepsFirst, fun steady => ⟨fun key h => stores.keyFor?_iff of steady,
    fun options => ?_⟩⟩
  have keyed entity (member : entity ∈ (Batch.registerAll {} calls).entities) := of.keyFor? steady member
  rw [stores.entities]
  exact ⟨stores.finishUp options keyed, by rw [finishUp_eq, materializeAll_eq options keyed]⟩

namespace Sample

def customerOffer (column : Bool) (h : Handle) : LoadingEntity where
  key := customer.keyFor (.ofColumns [.bool column])
  descriptor := customer
  handle := h
  hydrated := []

def customerOffers : List LoadingEntity :=
  [customerOffer true ⟨0⟩, customerOffer true ⟨0⟩, customerOffer true ⟨1⟩, customerOffer false ⟨2⟩]

end Sample

open Sample in
theorem stored_batches_keep_first_offers_rows : ∃ stored, IndexedBatch.registerAll {} customerOffers = some stored ∧
    stored.entities = [customerOffer true ⟨0⟩, customerOffer false ⟨2⟩] ∧ stored.size = 2 ∧ stored.keyFor? ⟨1⟩ = none ∧
    (stored.keyFor? ⟨2⟩).any (· == (customerOffer false ⟨2⟩).key) = true ∧
    ∀ options, stored.finishUp options = (do Action.finishUp ⟨stored.entities⟩ options; return true) := by
  obtain ⟨stored, registered, stores, keeps, ready⟩ := stored_batches_keep_first_offers customerOffers
  obtain ⟨keys, finishes⟩ := ready (by decide)
  have kept : stored.entities = [customerOffer true ⟨0⟩, customerOffer false ⟨2⟩] := keeps.entities
  refine ⟨stored, registered, kept, keeps.size, stores.keys ⟨1⟩, ?_, fun options => (finishes options).1⟩
  rw [keys, keeps.handle?, kept]
  rfl

end UnitOfWork
