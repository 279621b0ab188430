import UnitOfWork.Proofs.FlushSteps
import UnitOfWork.Proofs.Registration

/-! What holds of a session between any two operations: registry and queue agree on what is pending. Each
operation of the unit of work keeps it, whether it answers or fails. -/

namespace UnitOfWork

/-- What an entry says about the row of its instance. -/
def Entry.standing (entry : Entry) : Option EntityKey × Bool := (entry.key, entry.existsInDatabase)

def State.standing? (s : State) (h : Handle) : Option (Option EntityKey × Bool) :=
  (s.context.entry? h).map Entry.standing

namespace State

/-- The row of the instance is in the books. -/
def Written (s : State) (h : Handle) : Prop :=
  ∃ entry, s.context.entry? h = some entry ∧ entry.status = .managed ∧ entry.existsInDatabase = true

/-- Nothing is lost or doubled that the session has to do. -/
structure Sound (s : State) : Prop where
  coherent : s.context.Coherent
  allocated : ∀ h, s.context.entry? h ≠ none → h ∈ s.heap
  /-- An instance has at most one pending insert. -/
  distinct : s.actions.pending.Nodup
  /-- It is tracked, as one without a row. -/
  unwritten : ∀ h ∈ s.actions.pending, ∃ key, s.standing? h = some (key, false)
  /-- A scheduled delete is of the row that its instance stands for. -/
  scheduled : ∀ delete ∈ s.actions.deletes, s.context.entity? delete.key = some delete.handle
  separate : ∀ delete ∈ s.actions.deletes, delete.handle ∉ s.actions.pending

/-- A session that has done nothing yet. -/
structure Fresh (s : State) : Prop where
  context : s.context = {}
  actions : s.actions = {}
  naturalIds : s.session.naturalIds = {}

theorem Fresh.sound {s : State} (fresh : s.Fresh) : s.Sound where
  coherent := fresh.context ▸ Context.Coherent.empty
  allocated h tracked := by
    rw [fresh.context] at tracked
    exact absurd rfl tracked
  distinct := by rw [fresh.actions]; exact .nil
  unwritten h member := by rw [fresh.actions] at member; cases member
  scheduled delete member := by rw [fresh.actions] at member; cases member
  separate delete member := by rw [fresh.actions] at member; cases member

end State

/-- Nothing changes that says which rows the session stands for and what it has to do. -/
structure Beside (before after : State) : Prop where
  standing : ∀ h, after.standing? h = before.standing? h
  entities : ∀ key, after.context.entity? key = before.context.entity? key
  size : before.heap.size ≤ after.heap.size
  actions : after.actions = before.actions

namespace Beside

theorem refl (s : State) : Beside s s := ⟨fun _ => rfl, fun _ => rfl, Nat.le_refl _, rfl⟩

theorem trans {a b c : State} (first : Beside a b) (second : Beside b c) : Beside a c :=
  ⟨fun h => (second.standing h).trans (first.standing h), fun key => (second.entities key).trans (first.entities key),
    Nat.le_trans first.size second.size, second.actions.trans first.actions⟩

theorem of_asks {fits : Descriptor → EntityKey → Prop} {before after : State} (asks : AsksBy fits before after) :
    Beside before after := by
  obtain ⟨⟩ := asks
  exact ⟨fun _ => rfl, fun _ => rfl, Nat.le_refl _, rfl⟩

theorem updateEntry (s : State) (h : Handle) {change : Entry → Entry}
    (same : ∀ entry, (change entry).standing = entry.standing) :
    Beside s (s.mapContext fun context => context.updateEntry h change) := by
  refine ⟨fun other => ?_, fun _ => rfl, Nat.le_refl _, rfl⟩
  unfold State.standing?
  change (Context.entry? (s.context.updateEntry h change) other).map _ = _
  rw [Context.entry?_updateEntry]
  split
  · rw [Option.map_map]
    congr 1
    funext entry
    exact same entry
  · rfl

end Beside

namespace State
variable {s after : State} {h : Handle}

theorem standing?_eq_none : s.standing? h = none ↔ s.context.entry? h = none := Option.map_eq_none_iff

theorem key?_eq_standing (s : State) (h : Handle) : s.context.key? h = (s.standing? h).bind (·.1) := by
  unfold Context.key? standing?
  cases s.context.entry? h <;> rfl

namespace Sound

theorem requeued (sound : s.Sound) (standing : ∀ h, after.standing? h = s.standing? h)
    (entities : ∀ key, after.context.entity? key = s.context.entity? key) (size : s.heap.size ≤ after.heap.size)
    (conserved : after.actions.pending.Perm s.actions.pending)
    (deletes : after.actions.deletes = s.actions.deletes) : after.Sound where
  coherent := sound.coherent.congr entities fun h => by rw [key?_eq_standing, key?_eq_standing, standing]
  allocated h tracked := by
    rw [Ne, ← standing?_eq_none, standing, standing?_eq_none] at tracked
    exact Nat.lt_of_lt_of_le (sound.allocated h tracked) size
  distinct := conserved.nodup_iff.mpr sound.distinct
  unwritten h member := by
    rw [standing]
    exact sound.unwritten h (conserved.mem_iff.mp member)
  scheduled delete member := by
    rw [deletes] at member
    rw [entities]
    exact sound.scheduled delete member
  separate delete member pending := by
    rw [deletes] at member
    exact sound.separate delete member (conserved.mem_iff.mp pending)

theorem beside (sound : s.Sound) (beside : Beside s after) : after.Sound :=
  sound.requeued beside.standing beside.entities beside.size (by rw [beside.actions]) (by rw [beside.actions])

theorem requeues (sound : s.Sound) (moved : Requeues s after) (conserved : after.actions.pending.Perm s.actions.pending) :
    after.Sound := by
  have entries (h : Handle) : after.context.entry? h = s.context.entry? h := by
    unfold Context.entry?
    rw [moved.entries]
  have entity? (key : EntityKey) : after.context.entity? key = s.context.entity? key := by
    unfold Context.entity?
    rw [moved.entities]
  refine sound.requeued (fun h => ?_) entity? (Nat.le_of_eq (by rw [moved.heap])) conserved moved.deletes
  rw [standing?, standing?, entries]

theorem tracked (sound : s.Sound)
    (due : h ∈ s.actions.pending ∨ ∃ delete ∈ s.actions.deletes, delete.handle = h) : s.context.entry? h ≠ none := by
  rw [Ne, ← standing?_eq_none]
  rcases due with pending | ⟨delete, member, rfl⟩
  · obtain ⟨key, found⟩ := sound.unwritten h pending
    rw [found]
    exact nofun
  · intro untracked
    have found := (sound.coherent _ _).mp (sound.scheduled delete member)
    rw [key?_eq_standing, untracked] at found
    cases found

theorem adds {entry : Entry} {context : Context} (sound : s.Sound) (allocated : h ∈ s.heap)
    (unkeyed : s.context.key? h = none) (idle : h ∉ s.actions.pending) (adds : s.context.Adds h entry context) :
    (s.mapContext fun _ => context).Sound := by
  constructor
  case coherent => exact sound.coherent.adds unkeyed adds
  case allocated =>
    intro other tracked
    change context.entry? other ≠ none at tracked
    rw [adds.entry?] at tracked
    split at tracked
    next same => exact same ▸ allocated
    next => exact sound.allocated other tracked
  case distinct => exact sound.distinct
  case unwritten =>
    intro other member
    obtain ⟨key, found⟩ := sound.unwritten other member
    refine ⟨key, ?_⟩
    unfold standing?
    change (context.entry? other).map _ = _
    rw [adds.entry?, if_neg (fun same : h = other => idle (same ▸ member))]
    exact found
  case scheduled =>
    intro delete member
    change context.entity? delete.key = _
    rw [adds.entity?]
    split
    next claimed =>
      rcases adds.free _ claimed with free | standing
      · rw [sound.scheduled delete member] at free
        cases free
      · exact standing.symm.trans (sound.scheduled delete member)
    next => exact sound.scheduled delete member
  case separate => exact sound.separate

theorem removeEntry (sound : s.Sound) (idle : h ∉ s.actions.pending)
    (unscheduled : ∀ delete ∈ s.actions.deletes, delete.handle ≠ h) :
    (s.mapContext fun context => context.removeEntry h).Sound := by
  have entries (other : Handle) :
      Context.entry? (s.context.removeEntry h) other = if h = other then none else s.context.entry? other :=
    Context.entry?_removeEntry s.context h other
  constructor
  case coherent => exact sound.coherent.removeEntry h
  case allocated =>
    intro other tracked
    change Context.entry? (s.context.removeEntry h) other ≠ none at tracked
    rw [entries] at tracked
    split at tracked
    · exact absurd rfl tracked
    · exact sound.allocated other tracked
  case distinct => exact sound.distinct
  case unwritten =>
    intro other member
    obtain ⟨key, found⟩ := sound.unwritten other member
    refine ⟨key, ?_⟩
    unfold standing?
    change (Context.entry? (s.context.removeEntry h) other).map _ = _
    rw [entries, if_neg (fun same : h = other => idle (same ▸ member))]
    exact found
  case scheduled =>
    intro delete member
    refine (sound.coherent.removeEntry h _ _).mpr ?_
    rw [Context.key?, entries, if_neg (Ne.symm (unscheduled delete member))]
    exact (sound.coherent _ _).mp (sound.scheduled delete member)
  case separate => exact sound.separate

theorem updateEntry (sound : s.Sound) (change : Entry → Entry) (idle : h ∉ s.actions.pending)
    (same : ∀ entry, (change entry).key = entry.key) :
    (s.mapContext fun context => context.updateEntry h change).Sound := by
  have entries (other : Handle) : Context.entry? (s.context.updateEntry h change) other =
      if h = other then (s.context.entry? other).map change else s.context.entry? other :=
    Context.entry?_updateEntry s.context h other change
  constructor
  case coherent => exact sound.coherent.updateEntry h same
  case allocated =>
    intro other tracked
    change Context.entry? (s.context.updateEntry h change) other ≠ none at tracked
    apply sound.allocated
    intro untracked
    rw [entries, untracked] at tracked
    split at tracked <;> exact tracked rfl
  case distinct => exact sound.distinct
  case unwritten =>
    intro other member
    obtain ⟨key, found⟩ := sound.unwritten other member
    refine ⟨key, ?_⟩
    unfold standing?
    change (Context.entry? (s.context.updateEntry h change) other).map _ = _
    rw [entries, if_neg (fun same : h = other => idle (same ▸ member))]
    exact found
  case scheduled => exact sound.scheduled
  case separate => exact sound.separate

theorem taking {insert : Insert} {rest : List Insert} (sound : s.Sound) (next : s.actions.inserts = insert :: rest) :
    (s.taking rest).Sound ∧ insert.handle ∉ (s.taking rest).actions.pending ∧
      insert.handle ∈ s.actions.pending := by
  have split_ := State.pending_taking next
  have distinct := sound.distinct
  rw [split_, List.nodup_cons] at distinct
  refine ⟨⟨sound.coherent, sound.allocated, distinct.2, fun h member => ?_, sound.scheduled, fun delete member due => ?_⟩,
    distinct.1, ?_⟩
  · exact sound.unwritten h (split_ ▸ List.mem_cons_of_mem _ member)
  · exact sound.separate delete member (split_ ▸ List.mem_cons_of_mem _ due)
  · rw [split_]
    exact List.mem_cons_self

end Sound

end State

theorem Heap.size_update (heap : Heap) (h : Handle) (change : Instance → Instance) :
    (heap.update h change).size = heap.size := by
  simp [Heap.update, Heap.size]

theorem Heap.size_identify (heap : Heap) (h : Handle) (given : Option Identifier) :
    (heap.identify h given).size = heap.size := by
  cases given with
  | none => rfl
  | some id => exact heap.size_update h _

namespace Action
variable {writer : Writer} {s after : State} {insert : Insert} {h : Handle}

theorem writeInsert_entries (ran : (writeInsert writer insert).exec s = (.ok (), after)) :
    after.Written insert.handle ∧
      ∀ other, other ≠ insert.handle → after.context.entry? other = s.context.entry? other := by
  obtain ⟨given, id, context, naturalIds, -, -, assigned, rfl⟩ := writeInsert_ok ran
  obtain ⟨entry, held, tracked, -, kept⟩ := Context.assignKey_ok assigned
  have written (other : Handle) : Context.entry? (context.updateEntry insert.handle fun entry =>
      entry.inserted insert.descriptor insert.state) other = if insert.handle = other
        then (context.entry? other).map fun entry => entry.inserted insert.descriptor insert.state
        else context.entry? other := Context.entry?_updateEntry _ _ _ _
  have known : (∃ entry, context.entry? insert.handle = some entry) ∧
      ∀ other, other ≠ insert.handle → context.entry? other = s.context.entry? other := by
    rcases kept with ⟨-, rfl⟩ | ⟨-, -, adds⟩
    · exact ⟨⟨entry, tracked⟩, fun _ _ => rfl⟩
    · refine ⟨⟨_, (adds.entry? _).trans (if_pos rfl)⟩, fun other different => ?_⟩
      rw [adds.entry?, if_neg different.symm]
  obtain ⟨⟨found, here⟩, others⟩ := known
  constructor
  · refine ⟨found.inserted insert.descriptor insert.state, ?_, rfl, rfl⟩
    change Context.entry? (context.updateEntry insert.handle _) insert.handle = _
    rw [written, if_pos rfl, here]
    rfl
  · intro other different
    change Context.entry? (context.updateEntry insert.handle _) other = _
    rw [written, if_neg different.symm]
    exact others other different

theorem writeInsert_sound {answer : Except Error Unit} (sound : s.Sound) (idle : insert.handle ∉ s.actions.pending)
    (ran : (writeInsert writer insert).exec s = (answer, after)) : after.Sound := by
  cases answer with
  | error e =>
    obtain ⟨-, given, rfl⟩ := writeInsert_error ran
    exact sound.beside ⟨fun _ => rfl, fun _ => rfl, Nat.le_of_eq (Heap.size_identify _ _ _).symm, rfl⟩
  | ok _ =>
    obtain ⟨given, id, context, naturalIds, -, -, assigned, rfl⟩ := writeInsert_ok ran
    obtain ⟨entry, held, tracked, -, kept⟩ := Context.assignKey_ok assigned
    have keyed : (s.mapContext fun _ => context).Sound := by
      rcases kept with ⟨-, rfl⟩ | ⟨unkeyed, -, adds⟩
      · exact sound
      · refine sound.adds (sound.allocated _ (by rw [tracked]; exact nofun)) ?_ idle adds
        rw [Context.key?, tracked]
        exact unkeyed
    have recorded := keyed.updateEntry (fun entry => entry.inserted insert.descriptor insert.state) idle fun _ => rfl
    exact recorded.beside ⟨fun _ => rfl, fun _ => rfl, Nat.le_of_eq (Heap.size_identify _ _ _).symm, rfl⟩

theorem executeInsert_sound {answer : Except Error Unit} (sound : s.Sound) (idle : insert.handle ∉ s.actions.pending)
    (ran : (executeInsert writer insert).exec s = (answer, after)) : after.Sound := by
  rcases executeInsert_cases ran with ⟨_, _, failed⟩ | ⟨written, wrote, released⟩
  · exact writeInsert_sound sound idle failed
  · obtain ⟨moved, conserved⟩ := releaseParked_pending released
    exact (writeInsert_sound sound idle wrote).requeues moved conserved

end Action

open UnitOfWork.Action

theorem InsertRun.pending {writer : Writer} {s after : State} {written : List Insert}
    (run : InsertRun writer s written after) :
    (written.map (·.handle) ++ after.actions.pending).Perm s.actions.pending := by
  induction run with
  | done s => exact .refl _
  | @step s middle after insert rest written next wrote run ih =>
    exact (ih.cons _).trans (executeInsert_conserves next wrote)

theorem InsertRun.deletes {writer : Writer} {s after : State} {written : List Insert}
    (run : InsertRun writer s written after) : after.actions.deletes = s.actions.deletes := by
  induction run with
  | done s => rfl
  | step next wrote run ih => exact ih.trans (executeInsert_pending wrote).2

theorem InsertRun.sound {writer : Writer} {s after : State} {written : List Insert}
    (run : InsertRun writer s written after) (sound : s.Sound) : after.Sound := by
  induction run with
  | done s => exact sound
  | step next wrote run ih =>
    obtain ⟨taken, idle, _⟩ := sound.taking next
    exact ih (executeInsert_sound taken idle wrote)

/-- The region without the item; one kept elsewhere is the same to the session. -/
def Region.evicted (key : CacheKey) : Region → Region
  | .memory region => .memory (region.evict key)
  | .external accepts => .external accepts

theorem State.region?_eq_some {s : State} {d : Descriptor} {name : String} {region : Region} :
    s.region? d = some (name, region) ↔ d.cacheRegion = some name ∧ s.shared.regions.find? name = some region := by
  unfold State.region?
  cases d.cacheRegion with
  | none => simp
  | some held =>
    simp only [Option.bind_some, Option.map_eq_some_iff, Prod.mk.injEq, Option.some.injEq]
    constructor
    · rintro ⟨_, found, rfl, rfl⟩
      exact ⟨rfl, found⟩
    · rintro ⟨rfl, found⟩
      exact ⟨region, found, rfl, rfl⟩

/-- What is done about a deleted row beside the session: its region drops the item, or is told to. -/
structure State.Evicts (s : State) (delete : Delete) (shared : Shared) (told : Journal) : Prop where
  regions : ∀ name, shared.regions.find? name = (s.shared.regions.find? name).map fun region =>
    if delete.descriptor.cacheRegion = some name then
      region.evicted (s.session.cacheKey delete.descriptor delete.key.id)
    else region
  told : ∀ call ∈ told, call.isWrite = false ∧ call.isProbe = false

namespace Action
variable {writer : Writer} {s after : State} {h : Handle} {early : Bool}

def deleteCall (delete : Delete) : Call := .delete delete.handle delete.descriptor.name delete.key.id

theorem recordDelete_removes (delete : Delete) (s : State) :
    ∃ shared told, s.Evicts delete shared told ∧
      (recordDelete delete).exec s = (.ok (), { s with
        shared
        session := { s.session with
          naturalIds := s.session.naturalIds.remove delete.key
          journal := s.session.journal ++ told
          context := s.context.setStatus delete.handle .gone } }) := by
  have untouched (same : ∀ name region, s.region? delete.descriptor = some (name, region) →
      region.evicted (s.session.cacheKey delete.descriptor delete.key.id) = region) (name : String) :
      s.shared.regions.find? name = (s.shared.regions.find? name).map fun region =>
        if delete.descriptor.cacheRegion = some name then
          region.evicted (s.session.cacheKey delete.descriptor delete.key.id)
        else region := by
    cases found : s.shared.regions.find? name with
    | none => rfl
    | some region =>
      rw [Option.map_some]
      split
      next mapped => rw [same name region (State.region?_eq_some.mpr ⟨mapped, found⟩)]
      next => rfl
  unfold recordDelete
  rw [exec_modify_bind, exec_get_bind]
  split
  next uncached =>
    have uncached : s.region? delete.descriptor = none := uncached
    refine ⟨s.shared, [], ⟨untouched fun name region cached => ?_, List.forall_mem_nil _⟩, by rw [List.append_nil]; rfl⟩
    cases uncached.symm.trans cached
  next name accepts elsewhere =>
    have elsewhere : s.region? delete.descriptor = some (name, .external accepts) := elsewhere
    refine ⟨s.shared, [_], ⟨untouched fun name region cached => ?_, List.forall_mem_singleton.mpr ⟨rfl, rfl⟩⟩, rfl⟩
    cases elsewhere.symm.trans cached
    rfl
  next name region cached =>
    obtain ⟨mapped, found⟩ := State.region?_eq_some.mp cached
    refine ⟨_, [], ⟨fun other => ?_, List.forall_mem_nil _⟩, by rw [List.append_nil]; rfl⟩
    refine (Registry.find?_insert _ _ _ _).trans ?_
    rw [mapped]
    by_cases same : name = other
    · subst same
      have found : s.shared.regions.find? name = some (.memory region) := found
      rw [if_pos BEq.rfl, found, Option.map_some, if_pos rfl]
      rfl
    · have kept : ¬ some name = some other := fun equal => same (Option.some.inj equal)
      simp only [if_neg kept]
      exact (if_neg (by simpa using same)).trans Option.map_id'.symm

theorem recordDelete_exec (delete : Delete) (s : State) :
    ∃ shared naturalIds reads, (∀ call ∈ reads, call.isWrite = false) ∧
      (recordDelete delete).exec s = (.ok (), { s with
        shared
        session := { s.session with
          naturalIds
          journal := s.session.journal ++ reads
          context := s.context.setStatus delete.handle .gone } }) := by
  obtain ⟨shared, told, evicts, recorded⟩ := recordDelete_removes delete s
  exact ⟨shared, _, told, fun call member => (evicts.told call member).1, recorded⟩

theorem executeDelete_removes {delete : Delete} (ran : (executeDelete writer delete).exec s = (.ok (), after)) :
    ∃ shared told, s.Evicts delete shared told ∧
      after = { s with
        shared
        session := { s.session with
          naturalIds := s.session.naturalIds.remove delete.key
          journal := s.session.journal ++ deleteCall delete :: told
          context := (s.context.setStatus delete.handle .gone).removeEntity delete.key } } := by
  unfold executeDelete at ran
  rw [exec_get_bind, exec_record_bind] at ran
  obtain ⟨_, _, accepted, ran⟩ := bind_ok ran
  obtain ⟨-, rfl⟩ := lift_ok accepted
  obtain ⟨shared, told, evicts, recorded⟩ := recordDelete_removes delete (s.record (deleteCall delete))
  rw [deleteCall] at recorded
  rw [exec_bind_ok _ recorded] at ran
  cases ran
  refine ⟨shared, told, ⟨evicts.regions, evicts.told⟩, ?_⟩
  simp [State.mapContext, State.mapSession, State.record, State.context, deleteCall]

theorem executeDelete_ok {delete : Delete} (ran : (executeDelete writer delete).exec s = (.ok (), after)) :
    ∃ shared naturalIds reads, (∀ call ∈ reads, call.isWrite = false) ∧
      after = { s with
        shared
        session := { s.session with
          naturalIds
          journal := s.session.journal ++ deleteCall delete :: reads
          context := (s.context.setStatus delete.handle .gone).removeEntity delete.key } } := by
  obtain ⟨shared, told, evicts, removed⟩ := executeDelete_removes ran
  exact ⟨shared, _, told, fun call member => (evicts.told call member).1, removed⟩

theorem executeDelete_error {delete : Delete} {e : Error}
    (ran : (executeDelete writer delete).exec s = (.error e, after)) : after = s.record (deleteCall delete) := by
  unfold executeDelete at ran
  rw [exec_get_bind, exec_record_bind] at ran
  rcases bind_error ran with refused | ⟨_, _, accepted, ran⟩
  · exact (lift_error refused).2
  · obtain ⟨-, rfl⟩ := lift_ok accepted
    obtain ⟨shared, naturalIds, reads, -, recorded⟩ := recordDelete_exec delete (s.record (deleteCall delete))
    rw [deleteCall] at recorded
    rw [exec_bind_ok _ recorded] at ran
    cases ran

theorem executeDelete_actions {delete : Delete} {answer : Except Error Unit}
    (ran : (executeDelete writer delete).exec s = (answer, after)) : after.actions = s.actions := by
  cases answer with
  | error e =>
    rw [executeDelete_error ran]
    rfl
  | ok _ =>
    obtain ⟨_, _, _, _, rfl⟩ := executeDelete_ok ran
    rfl

theorem executeDelete_sound {delete : Delete} {answer : Except Error Unit} (sound : s.Sound)
    (idle : s.actions.pending = []) (unscheduled : s.actions.deletes = [])
    (ran : (executeDelete writer delete).exec s = (answer, after)) : after.Sound := by
  cases answer with
  | error e =>
    rw [executeDelete_error ran]
    exact sound.beside ⟨fun _ => rfl, fun _ => rfl, Nat.le_refl _, rfl⟩
  | ok _ =>
    obtain ⟨shared, naturalIds, reads, -, rfl⟩ := executeDelete_ok ran
    have absent : delete.handle ∉ s.actions.pending := by
      rw [idle]
      exact List.not_mem_nil
    have gone := sound.updateEntry (fun entry => { entry with status := .gone }) absent fun _ => rfl
    constructor
    case coherent => exact gone.coherent.removeEntity delete.key
    case allocated =>
      intro other tracked
      apply gone.allocated
      intro untracked
      apply tracked
      change Context.entry? ((s.context.setStatus delete.handle .gone).removeEntity delete.key) other = none
      cases standing : (s.context.setStatus delete.handle .gone).entity? delete.key with
      | none =>
        rw [Context.removeEntity, standing]
        exact untracked
      | some h =>
        rw [Context.entry?_removeEntity _ other standing]
        split
        · rfl
        · exact untracked
    case distinct => exact gone.distinct
    case unwritten =>
      intro other member
      change other ∈ s.actions.pending at member
      rw [idle] at member
      cases member
    case scheduled =>
      intro other member
      change other ∈ s.actions.deletes at member
      rw [unscheduled] at member
      cases member
    case separate => exact gone.separate

end Action

theorem DeleteRun.actions {writer : Writer} {s after : State} {deletes : List Delete}
    (run : DeleteRun writer s deletes after) : after.actions = s.actions := by
  induction run with
  | done s => rfl
  | step wrote run ih => exact ih.trans (executeDelete_actions wrote)

theorem DeleteRun.sound {writer : Writer} {s after : State} {deletes : List Delete}
    (run : DeleteRun writer s deletes after) (sound : s.Sound) (idle : s.actions.pending = [])
    (unscheduled : s.actions.deletes = []) : after.Sound := by
  induction run with
  | done s => exact sound
  | step wrote run ih =>
    have same := executeDelete_actions wrote
    exact ih (executeDelete_sound sound idle unscheduled wrote) (by rw [same]; exact idle)
      (by rw [same]; exact unscheduled)

namespace Action
variable {writer : Writer} {s after : State} {h : Handle} {early : Bool}

theorem pending_eq_nil (drained : s.actions.inserts = []) (free : s.actions.parked = []) : s.actions.pending = [] := by
  rw [ActionQueue.pending, drained, free]
  rfl

theorem withoutDeletes_sound (sound : s.Sound) : s.withoutDeletes.Sound :=
  ⟨sound.coherent, sound.allocated, sound.distinct, sound.unwritten, fun _ member => absurd member List.not_mem_nil,
    fun _ member => absurd member List.not_mem_nil⟩

theorem flush_sound {answer : Except Error FlushResult} (sound : s.Sound)
    (ran : (flush writer).exec s = (answer, after)) : after.Sound := by
  have began {ready : State} {answer : Except Error Unit}
      (ran : (takeReady >>= queueReleased).exec s = (answer, ready)) : ready.Sound :=
    sound.requeues (queueReady_pending ran).1 (queueReady_pending ran).2
  cases flush_cases ran with
  | unqueued failed => exact began failed
  | stopped ready run next failed =>
    obtain ⟨taken, idle, _⟩ := (run.sound (began ready)).taking next
    exact executeInsert_sound taken idle failed
  | blocked ready run drained waiting => exact run.sound (began ready)
  | undeleted ready run drained free scheduled deleted failed =>
    have idle := pending_eq_nil drained free
    have last := deleted.sound (withoutDeletes_sound (run.sound (began ready))) idle rfl
    have same := deleted.actions
    exact executeDelete_sound last (by rw [same]; exact idle) (by rw [same]; rfl) failed
  | done ready run drained free deleted =>
    exact deleted.sound (withoutDeletes_sound (run.sound (began ready))) (pending_eq_nil drained free) rfl

end Action

end UnitOfWork
