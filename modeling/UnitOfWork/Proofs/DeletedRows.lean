import UnitOfWork.Proofs.NaturalIdLookups
import UnitOfWork.Proofs.SessionSteps
import UnitOfWork.Proofs.TenantRegions

/-! What is left of a row once a flush has deleted it. Its instance, its key and what is known under the key leave the
session, its natural id finds nothing, and its item is out of the cache. Other rows of the same hierarchy or region stay
as they were when the first of the deletes ran. -/

namespace UnitOfWork
open UnitOfWork.Action

/-! Natural ids lead to their rows in every state of a session. -/

namespace NaturalIds

theorem Paired.permits : Permits (fun _ _ _ => True) fun before after =>
    before.session.naturalIds.Paired → after.session.naturalIds.Paired where
  frame := ⟨fun _ paired => paired, fun first second paired => second (first paired)⟩
  record _ _ _ _ paired := paired
  count _ _ _ _ paired := paired
  select _ _ _ _ _ _ _ _ _ paired := paired
  fail _ _ _ _ _ _ _ _ _ paired := paired
  keyed _ _ _ := trivial
  silent uneventful paired := uneventful.naturalIds ▸ paired
  tell _ _ _ paired := paired
  name s d id state paired := NaturalIdChange.perform_paired paired (.record s.heap d id state)

theorem findNaturalId?_congr (resolutions : NaturalIds) {key other : EntityKey} (same : (key == other) = true) :
    resolutions.findNaturalId? key = resolutions.findNaturalId? other := by
  obtain ⟨root, id⟩ := EntityKey.beq_iff.mp same
  unfold findNaturalId?
  rw [root, Registry.find?_congr _ id]

/-- The row is of the hierarchy and has the natural id. -/
def names (resolutions : NaturalIds) (key : EntityKey) (root : String) (naturalId : NaturalId) : Bool :=
  key.entity == root && (resolutions.findNaturalId? key).any (· == naturalId)

/-- With a row goes what its natural id led to, also where that was another row. -/
theorem findId?_remove (resolutions : NaturalIds) (key : EntityKey) (root : String) (naturalId : NaturalId) :
    (resolutions.remove key).findId? root naturalId =
      if resolutions.names key root naturalId then none else resolutions.findId? root naturalId := by
  unfold findId? names
  rw [index_remove]
  by_cases same : key.entity = root
  · subst same
    rw [if_pos rfl, beq_self_eq_true, Bool.true_and]
    exact NaturalIdIndex.find?_remove _ _ _
  · rw [if_neg same, beq_eq_false_iff_ne.mpr same, Bool.false_and, if_neg Bool.false_ne_true]

theorem names_remove (resolutions : NaturalIds) (removed key : EntityKey) (root : String) (naturalId : NaturalId) :
    (resolutions.remove removed).names key root naturalId =
      (!(removed == key) && resolutions.names key root naturalId) := by
  unfold names
  rw [findNaturalId?_remove]
  cases removed == key <;> simp

theorem names_congr (resolutions : NaturalIds) {key other : EntityKey} (same : (key == other) = true) (root : String)
    (naturalId : NaturalId) : resolutions.names key root naturalId = resolutions.names other root naturalId := by
  unfold names
  rw [resolutions.findNaturalId?_congr same, (EntityKey.beq_iff.mp same).1]

end NaturalIds

namespace DeleteRun
variable {writer : Writer} {s after : State} {deletes : List Delete}

theorem paired (run : DeleteRun writer s deletes after) (paired : s.session.naturalIds.Paired) :
    after.session.naturalIds.Paired := by
  induction run with
  | done s => exact paired
  | step wrote run ih =>
    obtain ⟨shared, told, -, rfl⟩ := executeDelete_removes wrote
    exact ih (NaturalIdChange.perform_paired paired (.remove _))

end DeleteRun

theorem Move.perform_paired {s : State} (move : Move) (paired : s.session.naturalIds.Paired) :
    (move.perform s).session.naturalIds.Paired := by
  cases move with
  | flush writer =>
    rcases ran : (Action.flush writer).exec s with ⟨answer, after⟩
    obtain ⟨written, middle, gone, last, stage, scheduled, deleted, ends⟩ := flush_stages ran
    have inserted : middle.session.naturalIds.Paired := stage.keeps NaturalIds.Paired.permits paired
    rw [flush_perform ran, ends.naturalIds]
    exact deleted.paired inserted
  | clear => exact fun _ => NaturalIdIndex.empty_paired
  | annotate | configure => exact paired
  | _ =>
    refine Move.perform_keeps NaturalIds.Paired.permits _ ?_ s (fun _ _ _ => trivial) paired
    trivial

theorem Run.paired {start s : State} {moves : List Move} (run : Run start moves s) (fresh : start.Fresh) :
    s.session.naturalIds.Paired := by
  induction run with
  | start =>
    rw [fresh.naturalIds]
    exact fun _ => NaturalIdIndex.empty_paired
  | step run allowed ih => exact Move.perform_paired _ ih

/-! What a session knows under a key goes when its row is deleted. -/

/-- The instance that stands for a row, whether references to it are nulled, what the database said of it, and its
natural id. -/
structure RowKnowledge where
  holder : Option Handle := none
  marked : Bool := false
  row : Option (Option (List Value)) := none
  naturalId : Option NaturalId := none

namespace State
variable {s after : State}

def known (s : State) (key : EntityKey) : RowKnowledge where
  holder := s.context.entity? key
  marked := s.context.isNullifiableKey key
  row := s.context.databaseSnapshot? key
  naturalId := s.session.naturalIds.findNaturalId? key

theorem known_congr (s : State) {key other : EntityKey} (same : (key == other) = true) : s.known key = s.known other := by
  have naturalId : s.session.naturalIds.findNaturalId? key = s.session.naturalIds.findNaturalId? other :=
    s.session.naturalIds.findNaturalId?_congr same
  have holder : s.context.entity? key = s.context.entity? other := Registry.find?_congr _ same
  have marked : s.context.isNullifiableKey key = s.context.isNullifiableKey other := Registry.contains_congr _ same
  have row : s.context.databaseSnapshot? key = s.context.databaseSnapshot? other := Registry.find?_congr _ same
  unfold known
  rw [holder, marked, row, naturalId]

def Grasps (s : State) (key : EntityKey) : Prop := (s.known key).holder ≠ none ∨ s.known key = {}

end State

namespace Action
variable {writer : Writer} {s after : State} {delete : Delete}

theorem executeDelete_known (ran : (executeDelete writer delete).exec s = (.ok (), after)) (grasped : s.Grasps delete.key)
    (key : EntityKey) : after.known key = if delete.key == key then {} else s.known key := by
  obtain ⟨shared, told, -, rfl⟩ := executeDelete_removes ran
  change RowKnowledge.mk (((s.context.setStatus delete.handle .gone).removeEntity delete.key).entity? key)
    (((s.context.setStatus delete.handle .gone).removeEntity delete.key).isNullifiableKey key)
    (((s.context.setStatus delete.handle .gone).removeEntity delete.key).databaseSnapshot? key)
    ((s.session.naturalIds.remove delete.key).findNaturalId? key) = _
  rw [Context.entity?_removeEntity, Context.isNullifiableKey_removeEntity, Context.databaseSnapshot?_removeEntity,
    NaturalIds.findNaturalId?_remove]
  by_cases same : (delete.key == key) = true
  · simp only [same, true_and, if_true]
    rcases grasped with standing | unknown
    · have standing : (s.context.setStatus delete.handle .gone).entity? delete.key ≠ none := standing
      rw [if_pos standing, if_pos standing]
    · rw [s.known_congr same] at unknown
      have marked : (s.context.setStatus delete.handle .gone).isNullifiableKey key = false :=
        congrArg RowKnowledge.marked unknown
      have row : (s.context.setStatus delete.handle .gone).databaseSnapshot? key = none :=
        congrArg RowKnowledge.row unknown
      rw [marked, row, ite_self, ite_self]
  · simp only [same]
    rfl

end Action

/-! The item of a deleted row goes out of its region. -/

/-- The cache has nothing to say of a row, as far as the session can see. -/
def State.Uncached (s : State) (d : Descriptor) (id : Identifier) : Prop :=
  ∀ name region, s.region? d = some (name, .memory region) → region.get? (s.session.cacheKey d id) = none

theorem MemoryRegion.get?_evict (region : MemoryRegion) (key other : CacheKey) :
    (region.evict key).get? other = if key == other then none else region.get? other := by
  have items : (region.evict key).items.find? other = if key == other then none else region.items.find? other :=
    Registry.find?_erase _ _ _
  unfold get?
  rw [items]
  cases key == other <;> rfl

namespace State.Evicts
variable {s : State} {delete : Delete} {shared : Shared} {told : Journal} {name : String}

theorem memory {region : MemoryRegion} (evicts : s.Evicts delete shared told)
    (found : shared.regions.find? name = some (.memory region)) : ∃ before,
      s.shared.regions.find? name = some (.memory before) ∧ region = if delete.descriptor.cacheRegion = some name then
        before.evict (s.session.cacheKey delete.descriptor delete.key.id) else before := by
  have changed := evicts.regions name
  rw [found] at changed
  cases held : s.shared.regions.find? name with
  | none => rw [held] at changed; cases changed
  | some before =>
    rw [held, Option.map_some, Option.some.injEq] at changed
    cases before with
    | external accepts => split at changed <;> cases changed
    | memory before =>
      refine ⟨before, rfl, ?_⟩
      split at changed
      next mapped => rw [if_pos mapped]; exact Region.memory.inj changed
      next unmapped => rw [if_neg unmapped]; exact Region.memory.inj changed

theorem agree (evicts : s.Evicts delete shared told) : Shared.Agree
    (fun key => (s.session.cacheKey delete.descriptor delete.key.id == key) = false) s.shared shared := by
  intro name
  rw [evicts.regions name]
  cases s.shared.regions.find? name with
  | none => exact .absent
  | some region =>
    rw [Option.map_some]
    split
    · cases region with
      | external accepts => exact .external accepts
      | memory region =>
        refine .memory fun key other => ?_
        exact (Registry.find?_erase _ _ _).trans (if_neg (Bool.eq_false_iff.mp other))
    · exact .refl _ _

end State.Evicts

namespace Action
variable {writer : Writer} {s after : State} {delete : Delete}

theorem executeDelete_uncaches (ran : (executeDelete writer delete).exec s = (.ok (), after)) :
    after.Uncached delete.descriptor delete.key.id := by
  obtain ⟨shared, told, evicts, rfl⟩ := executeDelete_removes ran
  intro name region cached
  obtain ⟨mapped, found⟩ := State.region?_eq_some.mp cached
  obtain ⟨before, -, rfl⟩ := evicts.memory found
  rw [if_pos mapped]
  exact (before.get?_evict _ _).trans (if_pos BEq.rfl)

theorem executeDelete_uncached {d : Descriptor} {id : Identifier}
    (ran : (executeDelete writer delete).exec s = (.ok (), after)) (uncached : s.Uncached d id) : after.Uncached d id := by
  obtain ⟨shared, told, evicts, rfl⟩ := executeDelete_removes ran
  intro name region cached
  obtain ⟨mapped, found⟩ := State.region?_eq_some.mp cached
  obtain ⟨before, held, rfl⟩ := evicts.memory found
  have missing : before.get? (s.session.cacheKey d id) = none :=
    uncached name before (State.region?_eq_some.mpr ⟨mapped, held⟩)
  change MemoryRegion.get? _ (s.session.cacheKey d id) = none
  split
  · rw [before.get?_evict, missing, ite_self]
  · exact missing

end Action

namespace Context
variable (context : Context) (key : EntityKey)

theorem proxies_removeEntity : (context.removeEntity key).proxies = context.proxies := by
  unfold removeEntity
  split <;> rfl

theorem insertedKeys_removeEntity : (context.removeEntity key).insertedKeys = context.insertedKeys := by
  unfold removeEntity
  split <;> rfl

end Context

/-! And so with the deletes of a flush, one after the other. -/

namespace DeleteRun
variable {writer : Writer} {s after : State} {deletes : List Delete}

theorem knows (run : DeleteRun writer s deletes after) (grasped : ∀ delete ∈ deletes, s.Grasps delete.key)
    (key : EntityKey) :
    after.known key = if deletes.any (fun delete => delete.key == key) then {} else s.known key := by
  induction run with
  | done s => rfl
  | @step s middle after delete rest wrote run ih =>
    have known := executeDelete_known wrote (grasped delete List.mem_cons_self)
    have later : ∀ other ∈ rest, middle.Grasps other.key := by
      intro other member
      unfold State.Grasps
      rw [known]
      split
      · exact .inr rfl
      · exact grasped other (List.mem_cons_of_mem _ member)
    rw [ih later, known, List.any_cons]
    cases delete.key == key with
    | true => simp
    | false => simp

theorem keeps_uncached (run : DeleteRun writer s deletes after) {d : Descriptor} {id : Identifier}
    (uncached : s.Uncached d id) : after.Uncached d id := by
  induction run with
  | done s => exact uncached
  | step wrote run ih => exact ih (executeDelete_uncached wrote uncached)

theorem uncaches (run : DeleteRun writer s deletes after) :
    ∀ delete ∈ deletes, after.Uncached delete.descriptor delete.key.id := by
  induction run with
  | done s => exact List.forall_mem_nil _
  | step wrote run ih => exact List.forall_mem_cons.mpr ⟨run.keeps_uncached (executeDelete_uncaches wrote), ih⟩

theorem agree (run : DeleteRun writer s deletes after) : Shared.Agree
    (fun key => ∀ delete ∈ deletes, (s.session.cacheKey delete.descriptor delete.key.id == key) = false)
    s.shared after.shared := by
  induction run with
  | done s => exact fun _ => .refl _ _
  | step wrote run ih =>
    obtain ⟨shared, told, evicts, rfl⟩ := executeDelete_removes wrote
    intro name
    refine ((evicts.agree name).of_imp ?_).trans ((ih name).of_imp ?_)
    · exact fun key others => others _ List.mem_cons_self
    · exact fun key others other member => others other (List.mem_cons_of_mem _ member)

theorem findId? (run : DeleteRun writer s deletes after) (root : String) (naturalId : NaturalId) :
    after.session.naturalIds.findId? root naturalId =
      if deletes.any (fun delete => s.session.naturalIds.names delete.key root naturalId) then none
      else s.session.naturalIds.findId? root naturalId := by
  induction run with
  | done s => rfl
  | @step s middle after delete rest wrote run ih =>
    obtain ⟨shared, told, -, rfl⟩ := executeDelete_removes wrote
    rw [ih, List.any_cons]
    change (if rest.any (fun other => (s.session.naturalIds.remove delete.key).names other.key root naturalId) then none
      else (s.session.naturalIds.remove delete.key).findId? root naturalId) = _
    rw [NaturalIds.findId?_remove]
    by_cases named : s.session.naturalIds.names delete.key root naturalId = true
    · rw [named, if_pos rfl, ite_self, Bool.true_or, if_pos rfl]
    · rw [Bool.eq_false_iff.mpr named, if_neg Bool.false_ne_true, Bool.false_or]
      -- if the same row is deleted again, it does not have the natural id either
      have others : (fun other : Delete => (s.session.naturalIds.remove delete.key).names other.key root naturalId) =
          fun other => s.session.naturalIds.names other.key root naturalId := by
        funext other
        rw [NaturalIds.names_remove]
        cases same : delete.key == other.key with
        | true => rw [← s.session.naturalIds.names_congr same, Bool.eq_false_iff.mpr named, Bool.and_false]
        | false => rfl
      rw [others]

theorem aside (run : DeleteRun writer s deletes after) : after.heap = s.heap ∧
    after.context.proxies = s.context.proxies ∧ after.context.insertedKeys = s.context.insertedKeys := by
  induction run with
  | done s => exact ⟨rfl, rfl, rfl⟩
  | step wrote run ih =>
    obtain ⟨shared, told, -, rfl⟩ := executeDelete_removes wrote
    obtain ⟨heap, proxies, insertedKeys⟩ := ih
    refine ⟨heap, proxies.trans ?_, insertedKeys.trans ?_⟩
    · exact Context.proxies_removeEntity _ _
    · exact Context.insertedKeys_removeEntity _ _

end DeleteRun

/-- What is gone with a row. -/
structure Delete.Untraced (delete : Delete) (s : State) : Prop where
  entry : s.context.entry? delete.handle = none
  known : s.known delete.key = {}
  unnamed : ∀ naturalId id, s.session.naturalIds.findId? delete.key.entity naturalId = some id →
    (delete.key.id == id) = false
  uncached : s.Uncached delete.descriptor delete.key.id

/-- What is not of the rows of these deletes is as it was. -/
structure State.Untouched (deletes : List Delete) (before after : State) : Prop where
  entries : ∀ h, (∀ delete ∈ deletes, delete.handle ≠ h) → after.context.entry? h = before.context.entry? h
  keys : ∀ key, (∀ delete ∈ deletes, (delete.key == key) = false) → after.known key = before.known key
  naturalIds : ∀ root naturalId, after.session.naturalIds.findId? root naturalId =
    if deletes.any (fun delete => before.session.naturalIds.names delete.key root naturalId) then none
    else before.session.naturalIds.findId? root naturalId
  items : Shared.Agree
    (fun key => ∀ delete ∈ deletes, (before.session.cacheKey delete.descriptor delete.key.id == key) = false)
    before.shared after.shared
  proxies : after.context.proxies = before.context.proxies
  insertedKeys : after.context.insertedKeys = before.context.insertedKeys
  heap : after.heap = before.heap

/-- All inserts are written when the first delete of a flush runs. -/
structure FlushDeletes (writer : Writer) (s middle after : State) : Prop where
  inserted : ∃ ready written, (takeReady >>= queueReleased).exec s = (.ok (), ready) ∧
    InsertRun writer ready written middle
  drained : middle.actions.inserts = []
  free : middle.actions.parked = []
  deleted : DeleteRun writer middle.withoutDeletes s.actions.deletes after

/-- A flush that gets through leaves no trace of the rows whose deletes it has found: the instance has no entry, the key
stands for nothing and is not marked, no answer of the database is remembered under it, the natural id is forgotten in
both directions, and the cache misses. Of any other entry and key it leaves what was there when the first delete ran. -/
theorem flushed_deletes_leave_no_trace {start s after : State} {moves : List Move} {writer : Writer} {result : FlushResult}
    (fresh : start.Fresh) (run : Run start moves s) (ran : (flush writer).exec s = (.ok result, after)) :
    ∃ middle, FlushDeletes writer s middle after ∧
      (∀ delete ∈ s.actions.deletes, middle.context.entity? delete.key = some delete.handle ∧ delete.Untraced after) ∧
      State.Untouched s.actions.deletes middle after := by
  have sound := run.sound fresh.sound
  cases flush_cases ran with
  | @done ready middle _ written began inserted drained free deleted =>
    have ready_sound : ready.Sound := sound.requeues (queueReady_pending began).1 (queueReady_pending began).2
    have later : middle.Sound := inserted.sound ready_sound
    have scheduled : middle.actions.deletes = s.actions.deletes :=
      inserted.deletes.trans (queueReady_pending began).1.deletes
    have paired : after.session.naturalIds.Paired :=
      Move.flush_perform ran ▸ Move.perform_paired (.flush writer) (run.paired fresh)
    have standing : Standing middle.withoutDeletes middle.actions.deletes := later.standing
    have held : ∀ delete ∈ middle.actions.deletes, middle.context.entity? delete.key = some delete.handle :=
      later.scheduled
    have grasped : ∀ delete ∈ middle.actions.deletes, middle.withoutDeletes.Grasps delete.key := by
      intro delete member
      refine .inl fun missing => ?_
      cases (held delete member).symm.trans missing
    rw [scheduled] at deleted standing held grasped
    have known := deleted.knows grasped
    obtain ⟨heap, proxies, insertedKeys⟩ := deleted.aside
    refine ⟨middle, ⟨⟨ready, written, began, inserted⟩, drained, free, deleted⟩, fun delete member => ?_, ?_⟩
    · have same : (delete.key == delete.key) = true := BEq.rfl
      have gone : after.known delete.key = {} := by
        rw [known, if_pos (List.any_eq_true.mpr ⟨delete, member, same⟩)]
      refine ⟨held delete member, ?_, gone, fun naturalId id leads => ?_, deleted.uncaches delete member⟩
      · rw [deleted.entry? standing, if_pos (List.mem_map_of_mem member)]
      · -- a natural id leads only to an identifier that has it
        apply Bool.eq_false_iff.mpr
        intro same
        obtain ⟨name, has, -⟩ := paired delete.key.entity naturalId id leads
        have forgotten : after.session.naturalIds.findNaturalId? delete.key = none := congrArg RowKnowledge.naturalId gone
        unfold NaturalIds.findNaturalId? at forgotten
        rw [Registry.find?_congr _ same, has] at forgotten
        cases forgotten
    · constructor
      case entries =>
        intro h others
        rw [deleted.entry? standing, if_neg]
        · rfl
        · intro among
          obtain ⟨delete, member, same⟩ := List.mem_map.mp among
          exact others delete member same
      case keys =>
        intro key others
        rw [known, if_neg]
        · rfl
        · rw [List.any_eq_true]
          rintro ⟨delete, member, same⟩
          exact Bool.eq_false_iff.mp (others delete member) same
      case naturalIds => exact deleted.findId?
      case items => exact deleted.agree
      case proxies => exact proxies
      case insertedKeys => exact insertedKeys
      case heap => exact heap

namespace Sample

def shelved : Descriptor := { product with cacheRegion := some "items" }

def shop : State where
  heap := ∅
  shared := Factory.shared { metamodel := ⟨[shelved]⟩ }
  session := { factory := { metamodel := ⟨[shelved]⟩ } }

def shelvedRow (id code : Bool) : Except Error Row := .ok { values := [.bool id, .bool code] }

def stocked : State := (Move.load "Product" [shelvedRow true true, shelvedRow false false] {}).perform shop

end Sample

open Sample in
/-- One of two products is deleted, and its code is free again. -/
theorem flushed_deletes_leave_no_trace_product : ∃ s after delete,
    Run shop [.load "Product" [shelvedRow true true, shelvedRow false false] {}, .delete ⟨0⟩] s ∧
      (flush writer).exec s = (.ok { inserted := 0, deleted := 1 }, after) ∧ delete ∈ s.actions.deletes ∧
      delete.handle = ⟨0⟩ ∧
      (s.session.naturalIds.findId? "Item" ⟨[.bool true]⟩).any (· == .ofColumns [.bool true]) = true ∧
      (delete.key == shelved.keyFor (.ofColumns [.bool true])) = true ∧ delete.Untraced after := by
  have loaded : Run shop [.load "Product" [shelvedRow true true, shelvedRow false false] {}] stocked :=
    Run.start.extend _ trivial
  have run := loaded.extend (.delete ⟨0⟩) trivial
  have answered : ((flush writer).exec ((Move.delete ⟨0⟩).perform stocked)).1.toOption =
      some { inserted := 0, deleted := 1 } := by decide +kernel
  obtain ⟨delete, member, same, key⟩ : ∃ delete ∈ ((Move.delete ⟨0⟩).perform stocked).actions.deletes,
      delete.handle = ⟨0⟩ ∧ (delete.key == shelved.keyFor (.ofColumns [.bool true])) = true := by decide +kernel
  obtain ⟨middle, -, untraced, -⟩ := flushed_deletes_leave_no_trace ⟨rfl, rfl, rfl⟩ run (exec_of_toOption answered)
  have code : (((Move.delete ⟨0⟩).perform stocked).session.naturalIds.findId? "Item" ⟨[.bool true]⟩).any
      (· == .ofColumns [.bool true]) = true := by decide +kernel
  exact ⟨_, _, delete, run, exec_of_toOption answered, member, same, code, key, (untraced delete member).2⟩

end UnitOfWork
