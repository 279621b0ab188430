import UnitOfWork.Proofs.FlushFaults

/-! What an operation does to the inserts that wait. A flush takes the rows it records off their lists, and no
others; those that still wait keep their order. Only a save parks an insert. -/

namespace UnitOfWork
open UnitOfWork.Action

namespace Dependencies
variable (dependencies : List Dependency)

/-- What remains once all these instances have rows. -/
def remaining (rows : List Handle) : List Dependency :=
  dependencies.filter fun dependency => !rows.any dependency.isOn

theorem remaining_nil : remaining dependencies [] = dependencies := by simp [remaining]

theorem remaining_singleton (h : Handle) : remaining dependencies [h] = resolve dependencies h := by
  simp [remaining, resolve]

theorem remaining_append (rows others : List Handle) :
    remaining dependencies (rows ++ others) = remaining (remaining dependencies rows) others := by
  simp [remaining, List.filter_filter, Bool.and_comm]

theorem remaining_congr {rows others : List Handle} (same : ∀ h, h ∈ rows ↔ h ∈ others) :
    remaining dependencies rows = remaining dependencies others := by
  unfold remaining
  congr 1
  funext dependency
  congr 1
  rw [Bool.eq_iff_iff, List.any_eq_true, List.any_eq_true]
  simp only [same]

end Dependencies

namespace ParkedInsert
variable (insert : ParkedInsert)

def once (rows : List Handle) : ParkedInsert :=
  { insert with dependencies := Dependencies.remaining insert.dependencies rows }

theorem once_nil : insert.once [] = insert := by rw [once, Dependencies.remaining_nil]

theorem once_append (rows others : List Handle) : insert.once (rows ++ others) = (insert.once rows).once others := by
  rw [once, Dependencies.remaining_append]
  rfl

theorem once_congr {rows others : List Handle} (same : ∀ h, h ∈ rows ↔ h ∈ others) :
    insert.once rows = insert.once others := by
  rw [once, Dependencies.remaining_congr _ same, once]

theorem once_singleton (h : Handle) : insert.once [h] = insert.resolve h := by
  rw [once, Dependencies.remaining_singleton]
  rfl

theorem isReady_resolve {h : Handle} (ready : insert.isReady = true) : (insert.resolve h).isReady = true := by
  rw [isReady, List.isEmpty_iff] at ready
  rw [isReady, resolve, Dependencies.resolve, ready]
  rfl

end ParkedInsert

namespace State

instance (s : State) (h : Handle) : Decidable (s.Written h) :=
  decidable_of_iff ((s.context.entry? h).any fun entry => entry.status = .managed && entry.existsInDatabase)
    (by simp [State.Written, Option.any_eq_true])

def waiting (s : State) : List ParkedInsert := s.actions.parked.filter fun insert => !insert.isReady

/-- The instances with a pending insert before and a row in the books after. -/
def recordedUntil (s after : State) : List Handle := s.actions.pending.filter fun h => after.Written h

/-- The instances whose inserts these moves record, in the order of the moves. -/
def recordedBy (s : State) : List Move → List Handle
  | [] => []
  | move :: rest => s.recordedUntil (move.perform s) ++ (move.perform s).recordedBy rest

theorem mem_recordedUntil {s after : State} {h : Handle} :
    h ∈ s.recordedUntil after ↔ h ∈ s.actions.pending ∧ after.Written h := by simp [recordedUntil]

theorem Sound.not_written {s : State} {h : Handle} (sound : s.Sound) (due : h ∈ s.actions.pending) : ¬s.Written h := by
  rintro ⟨entry, tracked, -, exists_⟩
  obtain ⟨key, standing⟩ := sound.unwritten h due
  rw [standing?, tracked] at standing
  have missing : entry.existsInDatabase = false := congrArg Prod.snd (Option.some.inj standing)
  rw [missing] at exists_
  cases exists_

end State

/-- The parked inserts are some of those before, in the same order as far as they wait, and wait for the same
but for these rows. -/
structure Resolves (rows : List Handle) (before after : State) : Prop where
  parked : ∀ insert ∈ after.actions.parked, ∃ old ∈ before.actions.parked, insert = old.once rows
  ordered : ∃ kept : List ParkedInsert, kept.Sublist before.waiting ∧ after.waiting = kept.map (·.once rows)

namespace Resolves
variable {a b c : State} {rows others : List Handle}

theorem of_filter {keep : ParkedInsert → Bool} (same : b.actions.parked = a.actions.parked.filter keep) :
    Resolves [] a b where
  parked insert member := by
    rw [same] at member
    exact ⟨insert, (List.mem_filter.mp member).1, insert.once_nil.symm⟩
  ordered := by
    refine ⟨a.waiting.filter keep, List.filter_sublist, ?_⟩
    simp only [ParkedInsert.once_nil, List.map_id']
    rw [State.waiting, same, State.waiting, List.filter_filter, List.filter_filter]
    simp only [Bool.and_comm]

theorem of_same (same : b.actions.parked = a.actions.parked) : Resolves [] a b :=
  @of_filter a b (fun _ => true) (by rw [same, List.filter_eq_self.mpr fun _ _ => rfl])

theorem of_free (free : b.actions.parked = []) : Resolves rows a b where
  parked insert member := by
    rw [free] at member
    cases member
  ordered := ⟨[], List.nil_sublist _, by rw [State.waiting, free]; rfl⟩

theorem trans (first : Resolves rows a b) (second : Resolves others b c) : Resolves (rows ++ others) a c where
  parked insert member := by
    obtain ⟨between, here, rfl⟩ := second.parked insert member
    obtain ⟨old, there, rfl⟩ := first.parked between here
    exact ⟨old, there, (old.once_append rows others).symm⟩
  ordered := by
    obtain ⟨kept, inside, same⟩ := first.ordered
    obtain ⟨left, inside', same'⟩ := second.ordered
    rw [same] at inside'
    obtain ⟨original, fewer, rfl⟩ := List.sublist_map_iff.mp inside'
    refine ⟨original, fewer.trans inside, ?_⟩
    rw [same', List.map_map]
    exact List.map_congr_left fun insert _ => (insert.once_append rows others).symm

theorem congr (resolves : Resolves rows a b) (same : ∀ h, h ∈ rows ↔ h ∈ others) : Resolves others a b where
  parked insert member := by
    obtain ⟨old, here, rfl⟩ := resolves.parked insert member
    exact ⟨old, here, old.once_congr same⟩
  ordered := by
    obtain ⟨kept, inside, left⟩ := resolves.ordered
    exact ⟨kept, inside, left.trans (List.map_congr_left fun insert _ => insert.once_congr same)⟩

end Resolves

namespace Action
variable {writer : Writer} {s after : State}

/-- Released inserts leave the parking lot as it is, or those that could not be queued return to its end. -/
theorem queueReleased_parked {answer : Except Error Unit} : ∀ (released : List ParkedInsert) (s : State),
    (queueReleased released).exec s = (answer, after) →
      answer = .ok () ∧ after.actions.parked = s.actions.parked ∨
      ∃ e back, answer = .error e ∧ back <:+ released ∧ after.actions.parked = s.actions.parked ++ back
  | [], s, ran => by
    cases ran
    exact .inl ⟨rfl, rfl⟩
  | insert :: rest, s, ran => by
    unfold queueReleased at ran
    rw [exec_bind, exec_tryCatch] at ran
    rcases tried : (queueInsert insert.handle insert.descriptor insert.early).exec s with ⟨e | _, middle⟩
    · rw [tried] at ran
      cases ran
      have same := ((Nullifier.nullifyAll_asks _ _ _ s).of_exec (queueInsert_error tried)).actions
      refine .inr ⟨e, insert :: rest, rfl, List.suffix_refl _, ?_⟩
      change middle.actions.parked ++ _ = _
      rw [same]
    · rw [tried] at ran
      obtain ⟨state, asked, nulled, rfl⟩ := queueInsert_ok tried
      have same : asked.actions = s.actions := ((Nullifier.nullifyAll_asks _ _ _ s).of_exec nulled).actions
      have lot (asked : State) (change : List Insert) :
          (asked.mapActions fun queue => { queue with inserts := change }).actions.parked = asked.actions.parked := rfl
      rcases queueReleased_parked rest _ ran with ⟨done, kept⟩ | ⟨e, back, failed, inside, grown⟩
      · refine .inl ⟨done, kept.trans ?_⟩
        change asked.actions.parked = _
        rw [same]
      · refine .inr ⟨e, back, failed, inside.trans (List.suffix_cons _ _), grown.trans ?_⟩
        change asked.actions.parked ++ _ = _
        rw [same]

theorem queueReady_resolves {answer : Except Error Unit}
    (ran : (takeReady >>= queueReleased).exec s = (answer, after)) : Resolves [] s after := by
  rw [exec_bind_ok _ (takeReady_exec s)] at ran
  have left : Resolves [] s (s.mapActions fun _ => s.actions.takeReady.2) := .of_filter rfl
  rcases queueReleased_parked _ _ ran with ⟨-, same⟩ | ⟨e, back, -, inside, grown⟩
  · exact left.trans (.of_same same)
  · have ready {insert : ParkedInsert} (member : insert ∈ back) : insert ∈ s.actions.parked ∧ insert.isReady = true :=
      List.mem_filter.mp (inside.subset member)
    have none_ : back.filter (fun insert => !insert.isReady) = [] :=
      List.filter_eq_nil_iff.mpr fun insert member => by simp [(ready member).2]
    constructor
    · intro insert member
      rw [grown] at member
      rcases List.mem_append.mp member with old | returned
      · exact left.parked insert old
      · exact ⟨insert, (ready returned).1, insert.once_nil.symm⟩
    · obtain ⟨kept, fewer, same⟩ := left.ordered
      refine ⟨kept, fewer, ?_⟩
      rw [← same, State.waiting, grown, List.filter_append, none_, List.append_nil]
      rfl

theorem releaseParked_resolves {h : Handle} {answer : Except Error Unit}
    (ran : (releaseParked h).exec s = (answer, after)) : Resolves [h] s after := by
  rw [releaseParked_exec] at ran
  obtain ⟨back, inside, grown⟩ : ∃ back, back <:+ (s.actions.release h).1 ∧
      after.actions.parked = (s.actions.release h).2.parked ++ back := by
    rcases queueReleased_parked _ _ ran with ⟨-, same⟩ | ⟨e, back, -, inside, grown⟩
    · exact ⟨[], List.nil_suffix, by rw [List.append_nil]; exact same⟩
    · exact ⟨back, inside, grown⟩
  have released {insert : ParkedInsert} (member : insert ∈ back) :
      ∃ old ∈ s.actions.parked, old.isReleasedBy h = true ∧ insert = old.resolve h := by
    obtain ⟨old, here, rfl⟩ := List.mem_map.mp (inside.subset member)
    exact ⟨old, (List.mem_filter.mp here).1, (List.mem_filter.mp here).2, rfl⟩
  constructor
  · intro insert member
    rw [grown] at member
    rcases List.mem_append.mp member with left | returned
    · obtain ⟨old, here, rfl⟩ := List.mem_map.mp left
      exact ⟨old, (List.mem_filter.mp here).1, (old.once_singleton h).symm⟩
    · obtain ⟨old, here, -, rfl⟩ := released returned
      exact ⟨old, here, (old.once_singleton h).symm⟩
  · refine ⟨s.waiting.filter fun insert => !(insert.resolve h).isReady, List.filter_sublist, ?_⟩
    have none_ : back.filter (fun insert => !insert.isReady) = [] := by
      refine List.filter_eq_nil_iff.mpr fun insert member => ?_
      obtain ⟨old, -, freed, rfl⟩ := released member
      rw [ParkedInsert.isReleasedBy, Bool.and_eq_true] at freed
      simp [freed.2]
    -- what still waits was waiting, and so was not released
    have still (insert : ParkedInsert) : (!(insert.resolve h).isReady && !insert.isReleasedBy h) =
        (!(insert.resolve h).isReady && !insert.isReady) := by
      cases blocked : (insert.resolve h).isReady with
      | true => rfl
      | false =>
        cases free : insert.isReady with
        | true =>
          rw [insert.isReady_resolve free] at blocked
          cases blocked
        | false => simp [ParkedInsert.isReleasedBy, blocked]
    rw [State.waiting, grown, List.filter_append, none_, List.append_nil]
    simp only [ActionQueue.release, List.filter_map, Function.comp_def, List.filter_filter, still, State.waiting,
      ParkedInsert.once_singleton]

theorem releaseParked_waits {h : Handle} (ran : (releaseParked h).exec s = (.ok (), after))
    (wait : ∀ insert ∈ s.actions.parked, insert.isReady = false) : ∀ insert ∈ after.actions.parked, insert.isReady = false := by
  rw [releaseParked_exec] at ran
  intro insert member
  rcases queueReleased_parked _ _ ran with ⟨-, same⟩ | ⟨_, _, wrong, _⟩
  · rw [same] at member
    obtain ⟨old, here, rfl⟩ := List.mem_map.mp member
    obtain ⟨there, kept⟩ := List.mem_filter.mp here
    simpa [ParkedInsert.isReleasedBy, wait old there] using kept
  · cases wrong

theorem executeInsert_waits {insert : Insert} (ran : (executeInsert writer insert).exec s = (.ok (), after))
    (wait : ∀ insert ∈ s.actions.parked, insert.isReady = false) : ∀ insert ∈ after.actions.parked, insert.isReady = false := by
  rcases executeInsert_cases ran with ⟨_, wrong, _⟩ | ⟨row, wrote, released⟩
  · cases wrong
  · exact releaseParked_waits released (by rw [writeInsert_actions wrote]; exact wait)

theorem executeInsert_resolves {insert : Insert} {answer : Except Error Unit}
    (ran : (executeInsert writer insert).exec s = (answer, after)) :
    (∃ e, answer = .error e ∧ (writeInsert writer insert).exec s = (.error e, after)) ∨
      after.Written insert.handle ∧ Resolves [insert.handle] s after := by
  rcases executeInsert_cases ran with unwritten | ⟨row, wrote, released⟩
  · exact .inl unwritten
  · have same : Resolves [] s row := .of_same (by rw [writeInsert_actions wrote])
    exact .inr ⟨releaseParked_written released (writeInsert_entries wrote).1,
      same.trans (releaseParked_resolves released)⟩

end Action

theorem InsertRun.resolves {writer : Writer} {s after : State} {written : List Insert}
    (run : InsertRun writer s written after) : Resolves (written.map (·.handle)) s after := by
  induction run with
  | done s => exact .of_same rfl
  | @step s middle after insert rest written next wrote run ih =>
    rcases executeInsert_resolves wrote with ⟨_, wrong, _⟩ | ⟨-, resolves⟩
    · cases wrong
    · have taken : Resolves [] s (s.taking rest) := .of_same rfl
      exact (taken.trans resolves).trans ih

theorem InsertRun.waits {writer : Writer} {s after : State} {written : List Insert}
    (run : InsertRun writer s written after) (wait : ∀ insert ∈ s.actions.parked, insert.isReady = false) :
    ∀ insert ∈ after.actions.parked, insert.isReady = false := by
  induction run with
  | done s => exact wait
  | step next wrote run ih => exact ih (executeInsert_waits wrote wait)

namespace Action
variable {writer : Writer} {s after : State}

/-- A flush that gets through its inserts leaves only such parked that still wait for something. -/
theorem insertPhase_waits {count : Nat} (ran : (insertPhase writer).exec s = (.ok count, after)) :
    ∀ insert ∈ after.actions.parked, insert.isReady = false := by
  obtain ⟨ready, written, began, run, -, -⟩ := insertPhase_ok.mp ran
  refine run.waits fun insert member => ?_
  rw [exec_bind_ok _ (takeReady_exec s)] at began
  rcases queueReleased_parked _ _ began with ⟨-, same⟩ | ⟨_, _, wrong, _⟩
  · rw [same] at member
    simpa using (List.mem_filter.mp member).2
  · cases wrong

end Action

theorem Resolves.recorded {s after : State} {rows : List Handle} (resolves : Resolves rows s after)
    (sound : after.Sound) (written : ∀ h ∈ rows, h ∈ s.actions.pending ∧ after.Written h)
    (others : ∀ h ∈ s.actions.pending, h ∈ rows ∨ h ∈ after.actions.pending ∨ ¬after.Written h) :
    Resolves (s.recordedUntil after) s after := by
  refine resolves.congr fun h => ?_
  rw [State.mem_recordedUntil]
  refine ⟨written h, fun ⟨due, row⟩ => ?_⟩
  rcases others h due with member | still | unwritten
  · exact member
  · exact absurd row (sound.not_written still)
  · exact absurd row unwritten

namespace Action
variable {writer : Writer} {s after : State}

/-- A flush that stops at an insert resolves what waits for the rows before it, and for its own if that is recorded
and what it releases cannot be queued. -/
theorem stopped_resolves {e : Error} {ready middle : State} {written rest : List Insert} {insert : Insert}
    (sound : s.Sound) (sound' : after.Sound) (began : (takeReady >>= queueReleased).exec s = (.ok (), ready))
    (run : InsertRun writer ready written middle) (next : middle.actions.inserts = insert :: rest)
    (failed : (executeInsert writer insert).exec (middle.taking rest) = (.error e, after)) :
    Resolves (s.recordedUntil after) s after := by
  have phase := InsertPhase.of_run began run
  have started := ready_sound sound began
  have early : Resolves (written.map (·.handle)) s middle := (queueReady_resolves began).trans run.resolves
  obtain ⟨-, idle, last⟩ := (run.sound started).taking next
  have distinct := (List.nodup_append.mp (phase.conserved.nodup_iff.mpr sound.distinct)).2.2
  have recorded (h : Handle) (member : h ∈ written.map (·.handle)) : h ∈ s.actions.pending ∧ after.Written h := by
    refine ⟨phase.conserved.mem_iff.mp (List.mem_append_left _ member), ?_⟩
    unfold State.Written
    rw [executeInsert_entries failed (distinct h member insert.handle last)]
    exact run.recorded started h member
  have others (h : Handle) (due : h ∈ s.actions.pending) :
      h ∈ written.map (·.handle) ∨ h = insert.handle ∨ h ∈ after.actions.pending := by
    rcases List.mem_append.mp (phase.conserved.mem_iff.mpr due) with row | still
    · exact .inl row
    · exact .inr (List.mem_cons.mp ((executeInsert_conserves next failed).mem_iff.mpr still))
  rcases executeInsert_resolves failed with ⟨_, -, unwritten⟩ | ⟨written', resolves⟩
  · have same : after.actions.parked = middle.actions.parked := by
      rw [writeInsert_actions unwritten]
      rfl
    have lost : ¬after.Written insert.handle := by
      obtain ⟨-, _, rfl⟩ := writeInsert_error unwritten
      exact (run.sound started).not_written last
    have kept : Resolves (written.map (·.handle)) s after := by simpa using early.trans (.of_same same)
    refine kept.recorded sound' recorded fun h due => ?_
    rcases others h due with row | rfl | still
    · exact .inl row
    · exact .inr (.inr lost)
    · exact .inr (.inl still)
  · have taken : Resolves [] middle (middle.taking rest) := .of_same rfl
    have late : Resolves [insert.handle] middle after := taken.trans resolves
    refine (early.trans late).recorded sound' (fun h member => ?_) fun h due => ?_
    · rcases List.mem_append.mp member with row | last'
      · exact recorded h row
      · rw [List.mem_singleton.mp last']
        exact ⟨phase.conserved.mem_iff.mp (List.mem_append_right _ last), written'⟩
    · rcases others h due with row | rfl | still
      · exact .inl (List.mem_append_left _ row)
      · exact .inl (List.mem_append_right _ (List.mem_singleton_self _))
      · exact .inr (.inl still)

theorem flush_resolves {answer : Except Error FlushResult} (sound : s.Sound)
    (ran : (flush writer).exec s = (answer, after)) : Resolves (s.recordedUntil after) s after := by
  have sound' := flush_sound sound ran
  cases flush_cases ran with
  | unqueued failed =>
    have conserved := (queueReady_pending failed).2
    exact (queueReady_resolves failed).recorded sound' (fun _ none_ => nomatch none_)
      fun h due => .inr (.inl (conserved.mem_iff.mpr due))
  | stopped began run next failed => exact stopped_resolves sound sound' began run next failed
  | @blocked e ready after written began run drained waiting =>
    have phase := InsertPhase.of_run began run
    refine ((queueReady_resolves began).trans run.resolves).recorded sound' (fun h member => ?_) fun h due => ?_
    · exact ⟨phase.conserved.mem_iff.mp (List.mem_append_left _ member),
        run.recorded (ready_sound sound began) h member⟩
    · exact (List.mem_append.mp (phase.conserved.mem_iff.mpr due)).imp_right .inl
  | undeleted began run drained free scheduled deleted failed =>
    exact .of_free (by rw [executeDelete_actions failed, deleted.actions]; exact free)
  | done began run drained free deleted => exact .of_free (by rw [deleted.actions]; exact free)

theorem save_parked {h : Handle} {early : Bool} {answer : Except Error Unit}
    (ran : (save h early).exec s = (answer, after)) :
    after.actions.parked = s.actions.parked ∨ ∃ insert : ParkedInsert, insert.handle = h ∧
      s.context.isTracked h = false ∧ s.session.descriptor (s.heap.entity h) = .ok insert.descriptor ∧
      insert.dependencies ≠ [] ∧ after.actions.parked = s.actions.parked ++ [insert] := by
  cases save_cases ran with
  | known => exact .inl rfl
  | refused => exact .inl rfl
  | @scheduled d key context after unknown mapped keyed added ran =>
    have asking := dependencies_asks d.name h (s.heap.values h) (early || d.identifier.generator = .identity)
      (s.mapContext fun _ => context)
    rcases scheduleInsert_cases ran with ⟨_, wrong, _⟩ | ⟨asked, free, queued⟩ | ⟨waits, asked, collected, some_, _, rfl⟩
    · cases wrong
    · left
      obtain ⟨state, judged, nulled, rfl⟩ := queueInsert_ok queued
      have kept : judged.actions = s.actions :=
        ((Nullifier.nullifyAll_asks _ _ _ asked).of_exec nulled).actions.trans (asking.of_exec free).actions
      change judged.actions.parked = _
      rw [kept]
    · have kept : asked.actions = s.actions := (asking.of_exec collected).actions
      refine .inr ⟨⟨h, d, early || d.identifier.generator = .identity, waits⟩, rfl, unknown, mapped, some_, ?_⟩
      change asked.actions.parked ++ _ = _
      rw [kept]
  | @undone d key context e middle unknown mapped keyed added failed =>
    obtain ⟨-, ⟨_, _, same⟩ | ⟨wrong, _⟩⟩ := scheduleInsert_pending failed
    · exact .inl (congrArg ActionQueue.parked same)
    · cases wrong

end Action

namespace Move
variable {s after : State} {move : Move}

theorem Performs.recordsNothing (performs : Performs s move after) (sound : s.Sound)
    (calm : ∀ writer, move ≠ .flush writer) : s.recordedUntil after = [] := by
  refine List.filter_eq_nil_iff.mpr fun h due written => ?_
  obtain ⟨entry, tracked, -, exists_⟩ := of_decide_eq_true written
  obtain ⟨key, standing⟩ := sound.unwritten h due
  have standing' : after.standing? h = some (entry.key, true) := by
    rw [State.standing?, tracked, Option.map_some, Entry.standing, exists_]
  rcases performs.standing sound calm (sound.tracked (.inl due)) with none_ | same
  · rw [none_] at standing'
    cases standing'
  · rw [same, standing] at standing'
    cases standing'

/-- A move resolves what waits for the rows it records, unless it is a save that parks one more insert. -/
theorem Performs.resolves (performs : Performs s move after) (sound : s.Sound) :
    Resolves (s.recordedUntil after) s after ∨ ∃ (insert : ParkedInsert) (early : Bool), move = .save insert.handle early ∧
      s.context.isTracked insert.handle = false ∧
      s.session.descriptor (s.heap.entity insert.handle) = .ok insert.descriptor ∧ insert.dependencies ≠ [] ∧
      after.actions.parked = s.actions.parked ++ [insert] ∧ s.recordedUntil after = [] := by
  have calmly (calm : ∀ writer, move ≠ .flush writer) (resolves : Resolves [] s after) :
      Resolves (s.recordedUntil after) s after := by
    rw [performs.recordsNothing sound calm]
    exact resolves
  cases performs with
  | saved ran =>
    rcases save_parked ran with same | ⟨insert, rfl, unknown, mapped, some_, grown⟩
    · exact .inl (calmly nofun (.of_same same))
    · exact .inr ⟨insert, _, rfl, unknown, mapped, some_, grown, (Performs.saved ran).recordsNothing sound nofun⟩
  | deleted ran =>
    cases delete_cases ran with
    | canceled => exact .inl (calmly nofun (.of_filter rfl))
    | refused | gone | scheduled => exact .inl (calmly nofun (.of_same rfl))
  | flushed ran => exact .inl (flush_resolves sound ran)
  | loaded spares => exact .inl (calmly nofun (.of_same (congrArg ActionQueue.parked spares.actions)))
  | attached => exact .inl (calmly nofun (.of_same rfl))
  | cleared => exact .inl (.of_free rfl)
  | aside calm aside => exact .inl (calmly calm (.of_same (congrArg ActionQueue.parked aside.beside.actions)))

end Move

end UnitOfWork
