import UnitOfWork.Proofs.SavedFamily
import UnitOfWork.Proofs.FlushConservation

/-! Writing new instances that refer to each other. Each insert releases those that waited for its row alone,
so a row is written after all that it needs, and the flush ends with the inserts that need each other. -/

namespace UnitOfWork
open UnitOfWork.Action

/-- Never fails, and never gives an identifier twice. -/
structure Writer.Numbers (writer : Writer) : Prop where
  accepts : ∀ journal d current state, ∃ id, writer.insert journal d current state = .ok (some id) ∧ id.isNull = false
  new : ∀ journal h d current state rest d' current' state' id id',
    writer.insert journal d current state = .ok (some id) →
      writer.insert (journal ++ .insert h d.name current state :: rest) d' current' state' = .ok (some id') →
      (id == id') = false

theorem Context.assignKey_new {context : Context} {h : Handle} {entry : Entry} (entity : String) (key : EntityKey)
    (tracked : context.entry? h = some entry) (unkeyed : entry.key = none) (free : context.entity? key = none) :
    ∃ after, context.assignKey h entity key = .ok after := by
  rw [assignKey, tracked]
  dsimp only
  rw [unkeyed, claim, free]
  exact ⟨_, rfl⟩

theorem Context.assignKey_adds {context after : Context} {h : Handle} {entry : Entry} {entity : String} {key : EntityKey}
    (tracked : context.entry? h = some entry) (unkeyed : entry.key = none)
    (assigned : context.assignKey h entity key = .ok after) : context.Adds h { entry with key := some key } after := by
  obtain ⟨_, _, tracked', -, held | ⟨-, rfl, adds⟩⟩ := assignKey_ok assigned
  · cases tracked.symm.trans tracked'
    cases unkeyed.symm.trans held.1
  · cases tracked.symm.trans tracked'
    exact adds

/-- Each key of the session is of an identifier that the writer has given. -/
def Given (writer : Writer) (t : State) : Prop :=
  ∀ key h, t.context.entity? key = some h → ∃ journal x d current state rest id,
    t.session.journal = journal ++ .insert x d.name current state :: rest ∧
      writer.insert journal d current state = .ok (some id) ∧ (id == key.id) = true

namespace Given
variable {writer : Writer} {t after : State}

theorem later (given : Given writer t) (same : ∀ key, after.context.entity? key = t.context.entity? key)
    (extended : ∃ calls, after.session.journal = t.session.journal ++ calls) : Given writer after := by
  intro key h claimed
  rw [same] at claimed
  obtain ⟨calls, extended⟩ := extended
  obtain ⟨journal, x, d, current, state, rest, id, journaled, accepted, equal⟩ := given key h claimed
  refine ⟨journal, x, d, current, state, rest ++ calls, id, ?_, accepted, equal⟩
  rw [extended, journaled, List.append_assoc, List.cons_append]

theorem free (given : Given writer t) (numbers : writer.Numbers) {d : Descriptor} {current : Option Identifier}
    {state : List AttributeValue} {id : Identifier}
    (accepted : writer.insert t.session.journal d current state = .ok (some id)) :
    t.context.entity? (d.keyFor id) = none := by
  cases claimed : t.context.entity? (d.keyFor id) with
  | none => rfl
  | some h =>
    obtain ⟨journal, x, d', current', state', rest, old, journaled, before, equal⟩ := given _ h claimed
    rw [journaled] at accepted
    have distinct := numbers.new _ _ _ _ _ _ _ _ _ _ _ before accepted
    have same : (old == id) = true := equal
    rw [distinct] at same
    cases same

end Given

namespace Family
variable {s : State} (family : Family s)

/-- Some of the members have been written, in this order, and the others are pending. -/
structure Underway (writer : Writer) (written : List Handle) (t : State) : Prop where
  sound : t.Sound
  stands : family.Stands written t
  given : Given writer t
  queue : family.Queued written t.actions
  conserved : (written ++ t.actions.pending).Perm family.handles
  ordered : ∀ earlier x later, written = earlier ++ x :: later → ∀ y, family.Needs x y → y ∈ earlier

variable {family} {writer : Writer} {written : List Handle} {t row after : State} {x : Handle} {insert : Insert}

theorem Ready.later (ready : family.Ready written insert) (x : Handle) : family.Ready (written ++ [x]) insert :=
  ⟨ready.member, ready.descriptor, ready.keeps, fun y needs => List.mem_append_left _ (ready.needs y needs)⟩

theorem Waiting.resolve {parked : ParkedInsert} (waiting : family.Waiting written parked) (x : Handle) :
    family.Waiting (written ++ [x]) (parked.resolve x) := by
  refine ⟨waiting.member, waiting.descriptor, waiting.early, fun r => ?_⟩
  constructor
  · rintro ⟨dependency, here, rfl⟩
    obtain ⟨old, off⟩ := List.mem_filter.mp here
    obtain ⟨y, target, needs, unwritten⟩ := (waiting.waits _).mp ⟨dependency, old, rfl⟩
    refine ⟨y, target, needs, fun member => ?_⟩
    rcases List.mem_append.mp member with early | now
    · exact unwritten early
    · rw [Dependency.isOn, target, List.mem_singleton.mp now] at off
      simp [Reference.handle?] at off
  · rintro ⟨y, rfl, needs, unwritten⟩
    have other : y ≠ x := fun same => unwritten (List.mem_append_right _ (List.mem_singleton.mpr same))
    obtain ⟨dependency, old, target⟩ :=
      (waiting.waits _).mpr ⟨y, rfl, needs, fun early => unwritten (List.mem_append_left _ early)⟩
    refine ⟨dependency, List.mem_filter.mpr ⟨old, ?_⟩, target⟩
    rw [Dependency.isOn, target]
    simp [Reference.handle?, other]

theorem Waiting.needs {parked : ParkedInsert} (waiting : family.Waiting written parked)
    (free : parked.dependencies = []) : ∀ y, family.Needs parked.handle y → y ∈ written := by
  intro y needs
  apply Classical.byContradiction
  intro unwritten
  obtain ⟨_, none_, _⟩ := (waiting.waits _).mpr ⟨y, rfl, needs, unwritten⟩
  rw [free] at none_
  cases none_

theorem Stands.releases (released : List ParkedInsert) (stands : family.Stands written t)
    (free : ∀ parked ∈ released, family.Waiting written parked ∧ parked.dependencies = [] ∧ parked.handle ∉ written)
    (ready : ∀ insert ∈ t.actions.inserts, family.Ready written insert) : ∃ after,
      (queueReleased released).exec t = (.ok (), after) ∧ after.actions.parked = t.actions.parked ∧
        ∀ insert ∈ after.actions.inserts, family.Ready written insert := by
  induction released generalizing t with
  | nil => exact ⟨t, rfl, rfl, ready⟩
  | cons parked rest ih =>
    obtain ⟨waiting, resolved, unwritten⟩ := free parked List.mem_cons_self
    obtain ⟨judged, insert, asks, -, first, queued⟩ :=
      stands.queues waiting.member unwritten (waiting.needs resolved)
    rw [← waiting.descriptor, ← waiting.early] at queued
    rw [← asks.actions] at ready
    have grown : ∀ other ∈ judged.actions.inserts ++ [insert], family.Ready written other :=
      List.forall_mem_append.mpr ⟨ready, List.forall_mem_singleton.mpr first⟩
    let middle := judged.mapActions fun queue => { queue with inserts := queue.inserts ++ [insert] }
    have same : middle.actions.parked = t.actions.parked := by
      change judged.actions.parked = _
      rw [asks.actions]
    obtain ⟨after, others, kept, all⟩ := @ih middle ((stands.asks asks).mapActions _)
      (fun other late => free other (List.mem_cons_of_mem _ late)) grown
    refine ⟨after, ?_, kept.trans same, all⟩
    rw [queueReleased, exec_bind, exec_tryCatch, queued]
    exact others

theorem Stands.releaseParked (stands : family.Stands (written ++ [x]) row) (queue : family.Queued written row.actions)
    (unwritten : ∀ parked ∈ row.actions.parked, parked.handle ∉ written ++ [x]) : ∃ after,
      (Action.releaseParked x).exec row = (.ok (), after) ∧ family.Queued (written ++ [x]) after.actions := by
  have free : ∀ parked ∈ (row.actions.release x).1, family.Waiting (written ++ [x]) parked ∧
      parked.dependencies = [] ∧ parked.handle ∉ written ++ [x] := by
    intro parked here
    obtain ⟨old, chosen, rfl⟩ := List.mem_map.mp here
    obtain ⟨member, last⟩ := List.mem_filter.mp chosen
    rw [ParkedInsert.isReleasedBy, Bool.and_eq_true] at last
    exact ⟨(queue.parked old member).1.resolve x, List.isEmpty_iff.mp last.2, unwritten old member⟩
  obtain ⟨after, released, parked, ready⟩ := (stands.mapActions fun _ => (row.actions.release x).2).releases _ free
    fun insert due => (queue.inserts insert due).later x
  refine ⟨after, ?_, ready, ?_, ?_⟩
  · rw [Action.releaseParked, exec_get_bind]
    exact released
  · intro left here
    rw [parked] at here
    obtain ⟨old, chosen, rfl⟩ := List.mem_map.mp here
    obtain ⟨member, still⟩ := List.mem_filter.mp chosen
    obtain ⟨waiting, blocked⟩ := queue.parked old member
    refine ⟨waiting.resolve x, fun resolved => ?_⟩
    have ready : (old.resolve x).isReady = true := List.isEmpty_iff.mpr resolved
    rw [ParkedInsert.isReleasedBy, ParkedInsert.isReady_eq_false blocked, ready] at still
    cases still
  · rw [(queueReleased_pending _ _ released).1.deletes]
    exact queue.deletes

namespace Underway

theorem next_entry {rest : List Insert} (underway : family.Underway writer written t)
    (next : t.actions.inserts = insert :: rest) : insert.handle ∉ written ∧
      ∃ entry, t.context.entry? insert.handle = some entry ∧ entry.key = none := by
  obtain ⟨-, -, due⟩ := underway.sound.taking next
  have member := (underway.queue.inserts insert (next ▸ List.mem_cons_self)).member
  have apart := (List.nodup_append.mp (underway.conserved.nodup_iff.mpr family.distinct)).2.2
  have unwritten : insert.handle ∉ written := fun old => apart _ old _ due rfl
  obtain ⟨entry, tracked⟩ := Option.ne_none_iff_exists'.mp (underway.sound.tracked (.inl due))
  exact ⟨unwritten, entry, tracked, (underway.stands.pending _ member unwritten entry tracked).2⟩

theorem writes {rest : List Insert} (underway : family.Underway writer written t) (numbers : writer.Numbers)
    (next : t.actions.inserts = insert :: rest) :
    ∃ row, (writeInsert writer insert).exec (t.taking rest) = (.ok (), row) := by
  obtain ⟨-, entry, tracked, unkeyed⟩ := underway.next_entry next
  obtain ⟨id, accepted, -⟩ := numbers.accepts t.session.journal insert.descriptor ((t.taking rest).writtenId insert.handle)
    insert.state
  rcases ran : (writeInsert writer insert).exec (t.taking rest) with ⟨e | _, row⟩
  · cases (writeInsert_error ran).1 with
    | refused refused => cases accepted.symm.trans refused
    | unidentified unidentified => cases accepted.symm.trans unidentified
    | @clash _ _ _ given identified taken =>
      obtain rfl := Except.ok.inj (accepted.symm.trans given)
      cases identified
      obtain ⟨_, assigned⟩ := Context.assignKey_new ((t.taking rest).heap.entity insert.handle) _ tracked unkeyed
        (underway.given.free numbers accepted)
      cases assigned.symm.trans taken
  · exact ⟨row, rfl⟩

theorem stands_of_wrote {rest : List Insert} (underway : family.Underway writer written t)
    (next : t.actions.inserts = insert :: rest) (wrote : (writeInsert writer insert).exec (t.taking rest) = (.ok (), row)) :
    family.Stands (written ++ [insert.handle]) row := by
  obtain ⟨unwritten, entry, tracked, unkeyed⟩ := underway.next_entry next
  obtain ⟨recorded, others⟩ := writeInsert_entries wrote
  have stands := underway.stands
  obtain ⟨given, id, context, naturalIds, accepted, identified, assigned, rfl⟩ := writeInsert_ok wrote
  constructor
  case factory => exact stands.factory
  case unasked => exact stands.unasked
  case values => exact fun h => (t.heap.values_identify _ h given).trans (stands.values h)
  case entity => exact fun h => (t.heap.entity_identify _ h given).trans (stands.entity h)
  case unidentified =>
    intro h member absent
    rw [List.mem_append, List.mem_singleton, not_or] at absent
    exact (t.heap.id?_identify given (Ne.symm absent.2)).trans (stands.unidentified h member absent.1)
  case pending =>
    intro h member absent entry found
    rw [List.mem_append, List.mem_singleton, not_or] at absent
    rw [others h absent.2] at found
    exact stands.pending h member absent.1 entry found
  case recorded =>
    intro h member
    rcases List.mem_append.mp member with early | now
    · unfold State.Written
      rw [others h (fun same => unwritten (same ▸ early))]
      exact stands.recorded h early
    · exact List.mem_singleton.mp now ▸ recorded
  case kept =>
    intro key
    change context.nullifiable.contains key = false
    rw [(Context.assignKey_adds tracked unkeyed assigned).nullifiable]
    exact stands.kept key

theorem given_of_wrote {rest : List Insert} (underway : family.Underway writer written t) (numbers : writer.Numbers)
    (next : t.actions.inserts = insert :: rest) (wrote : (writeInsert writer insert).exec (t.taking rest) = (.ok (), row)) :
    Given writer row := by
  obtain ⟨-, entry, tracked, unkeyed⟩ := underway.next_entry next
  obtain ⟨given, id, context, naturalIds, accepted, identified, assigned, rfl⟩ := writeInsert_ok wrote
  have adds := Context.assignKey_adds tracked unkeyed assigned
  intro key h claimed
  change context.entity? key = some h at claimed
  rw [adds.entity?] at claimed
  split at claimed
  next same =>
    obtain ⟨id', accepted', -⟩ := numbers.accepts t.session.journal insert.descriptor
      ((t.taking rest).writtenId insert.handle) insert.state
    obtain rfl := Except.ok.inj (accepted'.symm.trans accepted)
    cases identified
    exact ⟨t.session.journal, insert.handle, insert.descriptor, _, insert.state, [], _, rfl, accepted',
      (EntityKey.beq_iff.mp same).2⟩
  next =>
    obtain ⟨journal, x, d, current, state, others, id', journaled, before, equal⟩ := underway.given key h claimed
    refine ⟨journal, x, d, current, state, others ++ [(t.taking rest).insertCall insert], id', ?_, before, equal⟩
    change t.session.journal ++ _ = _
    rw [journaled, List.append_assoc, List.cons_append]

/-- Writing a row succeeds, and releases what waited for it. -/
theorem step {rest : List Insert} (underway : family.Underway writer written t) (numbers : writer.Numbers)
    (next : t.actions.inserts = insert :: rest) :
    ∃ after, (executeInsert writer insert).exec (t.taking rest) = (.ok (), after) ∧
      family.Underway writer (written ++ [insert.handle]) after := by
  obtain ⟨row, wrote⟩ := underway.writes numbers next
  have stands := underway.stands_of_wrote next wrote
  have given := underway.given_of_wrote numbers next wrote
  obtain ⟨taken, idle, due⟩ := underway.sound.taking next
  have apart := (List.nodup_append.mp (underway.conserved.nodup_iff.mpr family.distinct)).2.2
  have pending := State.pending_taking next
  have same : row.actions = (t.taking rest).actions := writeInsert_actions wrote
  have queue : family.Queued written row.actions := by
    rw [same]
    refine ⟨fun other late => ?_, underway.queue.parked, underway.queue.deletes⟩
    exact underway.queue.inserts other (next ▸ List.mem_cons_of_mem _ late)
  have unwritten : ∀ parked ∈ row.actions.parked, parked.handle ∉ written ++ [insert.handle] := by
    intro parked here old
    rw [same] at here
    have waits : parked.handle ∈ (t.taking rest).actions.pending :=
      List.mem_append_right _ (List.mem_map_of_mem here)
    rcases List.mem_append.mp old with early | now
    · exact apart _ early _ (pending ▸ List.mem_cons_of_mem _ waits) rfl
    · exact idle (List.mem_singleton.mp now ▸ waits)
  obtain ⟨after, released, queued⟩ := stands.releaseParked queue unwritten
  have executed : (executeInsert writer insert).exec (t.taking rest) = (.ok (), after) := by
    rw [executeInsert_eq, exec_bind_ok _ wrote, released]
  obtain ⟨moved, -⟩ := releaseParked_pending released
  refine ⟨after, executed, executeInsert_sound taken idle executed, stands.requeues moved, ?_, queued, ?_, ?_⟩
  · obtain ⟨reads, extended, -⟩ := moved.journal
    refine given.later (fun key => ?_) ⟨reads, extended⟩
    rw [Context.entity?, moved.entities]
    rfl
  · rw [List.append_assoc]
    exact List.Perm.trans (List.Perm.append_left _ (executeInsert_conserves next executed)) underway.conserved
  · intro earlier x later split_
    rcases List.eq_nil_or_concat later with rfl | ⟨before, last, rfl⟩
    · obtain ⟨rfl, same⟩ := List.append_inj' split_ rfl
      cases same
      exact (underway.queue.inserts insert (next ▸ List.mem_cons_self)).needs
    · rw [List.concat_eq_append, ← List.cons_append, ← List.append_assoc] at split_
      exact underway.ordered earlier x before (List.append_inj' split_ rfl).1

/-- The loop goes on until no insert is left in the queue, and all that it writes keeps what may not be null. -/
theorem run (underway : family.Underway writer written t) (numbers : writer.Numbers) : ∃ inserts after,
    InsertRun writer t inserts after ∧ after.actions.inserts = [] ∧
      family.Underway writer (written ++ inserts.map (·.handle)) after ∧
      ∀ insert ∈ inserts, ∃ earlier, family.Ready earlier insert := by
  generalize count : t.actions.pendingInserts = number
  induction number using Nat.strongRecOn generalizing written t with
  | ind number ih =>
    cases next : t.actions.inserts with
    | nil =>
      refine ⟨[], t, .done t, next, ?_, fun _ none_ => nomatch none_⟩
      rw [List.map_nil, List.append_nil]
      exact underway
    | cons insert rest =>
      obtain ⟨middle, executed, one⟩ := underway.step numbers next
      have fewer := executeInsert_decreases next executed
      obtain ⟨inserts, after, others, drained, all, ready⟩ := ih _ (by omega) one rfl
      refine ⟨insert :: inserts, after, .step next executed others, drained, ?_, fun other here => ?_⟩
      · rw [List.append_assoc] at all
        exact all
      · rcases List.mem_cons.mp here with rfl | late
        · exact ⟨_, underway.queue.inserts other (next ▸ List.mem_cons_self)⟩
        · exact ready other late

end Underway

end Family

end UnitOfWork
