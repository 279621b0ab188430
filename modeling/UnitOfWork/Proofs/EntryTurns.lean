import UnitOfWork.Proofs.FailedLoads
import UnitOfWork.Proofs.IdentityMap
import UnitOfWork.Proofs.InsertDescriptors

/-! What the moves of a session make of the entry of one instance, and of the marks on the keys of rows that are
about to be deleted. -/

namespace UnitOfWork
open UnitOfWork.Action

/-- The entry of an instance that was made read-only, or modifiable with these values. -/
def Entry.switched (entry : Entry) (readOnly : Bool) (d : Descriptor) (state : List AttributeValue) : Entry :=
  if readOnly then { entry with snapshot := none, status := .readOnly }
  else { entry with snapshot := some (.take d state), loadedState := some state, status := .managed }

/-- The ways in which a move can leave the entry of an instance. -/
inductive Turns (s : State) (h : Handle) (after : State) : Move → Prop where
  | kept {move : Move} (same : after.context.entry? h = s.context.entry? h) : Turns s h after move
  | saved {early : Bool} {d : Descriptor} {key : Option EntityKey} (unknown : s.context.entry? h = none)
      (mapped : s.session.descriptor (s.heap.entity h) = .ok d) (now : after.context.entry? h = some (.saved d key)) :
      Turns s h after (.save h early)
  | canceled (due : h ∈ s.actions.pending) (now : after.context.entry? h = none) : Turns s h after (.delete h)
  | scheduled {entry : Entry} {key : EntityKey} (idle : h ∉ s.actions.pending)
      (tracked : s.context.entry? h = some entry) (keyed : entry.key = some key)
      (alive : entry.status.isDeletedOrGone = false)
      (now : after.context.entry? h = some { entry with status := .deleted })
      (marked : after.context.isNullifiableKey key = true)
      (queued : ∃ d, after.actions.deletes = s.actions.deletes ++ [⟨h, key, d⟩]) : Turns s h after (.delete h)
  | inserted {writer : Writer} {entry : Entry} {key : Option EntityKey} {d : Descriptor} {state : List AttributeValue}
      (due : h ∈ s.actions.pending) (tracked : s.context.entry? h = some entry)
      (now : after.context.entry? h = some ({ entry with key }.inserted d state)) : Turns s h after (.flush writer)
  | removed {writer : Writer} (due : ∃ delete ∈ s.actions.deletes, delete.handle = h)
      (now : after.context.entry? h = none) : Turns s h after (.flush writer)
  | loaded {entity : String} {rows : List (Except Error Row)} {options : LoadOptions} {d : Descriptor}
      {row : HydratedRow} {readOnly : Bool} {state : List AttributeValue} (new : h ∉ s.heap)
      (mapped : s.session.descriptor entity = .ok d)
      (now : after.context.entry? h = some (row.entry d options readOnly state)) :
      Turns s h after (.load entity rows options)
  | switched {readOnly : Bool} {entry : Entry} {d : Descriptor} {state : List AttributeValue}
      (tracked : s.context.entry? h = some entry) (changeable : entry.isMutable = true)
      (differs : entry.isReadOnly ≠ readOnly) (now : after.context.entry? h = some (entry.switched readOnly d state)) :
      Turns s h after (.setReadOnly h readOnly)
  | cleared (now : after.context.entry? h = none) : Turns s h after .clear
  | attached {entry : Entry} (unknown : s.context.entry? h = none) (now : after.context.entry? h = some entry) :
      Turns s h after (.attach h entry)

namespace Action
variable {writer : Writer} {s after : State}

theorem save_turns {x : Handle} {early : Bool} {answer : Except Error Unit}
    (ran : (save x early).exec s = (answer, after)) (h : Handle) : Turns s h after (.save x early) := by
  rcases save_books ran with ⟨entries, -⟩ | ⟨unknown, ⟨d, key, mapped, saved⟩, others, -⟩
  · exact .kept (entries h)
  · by_cases here : h = x
    · subst here
      exact .saved unknown mapped saved
    · exact .kept (others h here)

theorem delete_turns {x : Handle} {answer : Except Error Unit} (ran : (delete x).exec s = (answer, after))
    (h : Handle) : Turns s h after (.delete x) := by
  cases delete_cases ran with
  | refused | gone => exact .kept rfl
  | canceled pending =>
    have removed : Context.entry? (s.context.removeEntry x) h = if x = h then none else s.context.entry? h :=
      Context.entry?_removeEntry _ _ _
    split at removed
    next here =>
      subst here
      exact .canceled ((ActionQueue.hasInsert_iff _ _).mp pending) removed
    next => exact .kept removed
  | @scheduled entry key d idle tracked keyed alive mapped =>
    have scheduled := s.context.entry?_scheduled x h key
    split at scheduled
    next here =>
      subst here
      have absent : x ∉ s.actions.pending := by
        rw [← ActionQueue.hasInsert_iff, idle]
        exact Bool.false_ne_true
      rw [tracked] at scheduled
      refine .scheduled absent tracked keyed alive scheduled ?_ ⟨d, rfl⟩
      refine (s.context.isNullifiableKey_scheduled x key key).trans ?_
      rw [BEq.rfl, Bool.true_or]
    next => exact .kept scheduled

end Action

/-- Inserts of these instances leave an entry as it is, or write it for one of them. -/
def WritesEntry (before after : State) (written : List Handle) (h : Handle) : Prop :=
  after.context.entry? h = before.context.entry? h ∨ h ∈ written ∧ ∃ entry key d state,
    before.context.entry? h = some entry ∧ after.context.entry? h = some ({ entry with key }.inserted d state)

theorem WritesEntry.trans {a b c : State} {first second : List Handle} {h : Handle} (early : WritesEntry a b first h)
    (late : WritesEntry b c second h) : WritesEntry a c (first ++ second) h := by
  unfold WritesEntry
  rw [List.mem_append]
  rcases early with same | ⟨member, entry, key, d, state, tracked, now⟩
  · rw [← same]
    exact late.imp_right fun ⟨member, wrote⟩ => ⟨.inr member, wrote⟩
  · refine .inr ⟨.inl member, ?_⟩
    rcases late with same | ⟨-, entry', key', d', state', tracked', now'⟩
    · exact ⟨entry, key, d, state, tracked, same.trans now⟩
    · rw [now] at tracked'
      cases tracked'
      exact ⟨entry, key', d', state', tracked, now'⟩

theorem Context.entry?_recorded {context after : Context} {h : Handle} {entity : String} {key : EntityKey}
    (assigned : context.assignKey h entity key = .ok after) (d : Descriptor) (state : List AttributeValue) :
    ∃ entry held, context.entry? h = some entry ∧ (held == key) = true ∧
      Context.entry? ((after.updateEntry h fun entry => entry.inserted d state).markInserted key) h =
        some ({ entry with key := some held }.inserted d state) := by
  obtain ⟨entry, held, tracked, same, kept⟩ := assignKey_ok assigned
  refine ⟨entry, held, tracked, same, (entry?_updateEntry after h h _).trans ?_⟩
  have keyed : after.entry? h = some { entry with key := some held } := by
    rcases kept with ⟨keyed, rfl⟩ | ⟨-, rfl, adds⟩
    · rw [tracked, ← keyed]
    · rw [adds.entry?, if_pos rfl]
  rw [if_pos rfl, keyed]
  rfl

namespace Action
variable {writer : Writer} {s after : State}

theorem executeInsert_entry {insert : Insert} {answer : Except Error Unit}
    (ran : (executeInsert writer insert).exec s = (answer, after)) (h : Handle) :
    WritesEntry s after [insert.handle] h := by
  by_cases here : h = insert.handle
  · subst here
    rcases executeInsert_cases ran with ⟨_, _, failed⟩ | ⟨row, wrote, released⟩
    · obtain ⟨-, _, rfl⟩ := writeInsert_error failed
      exact .inl rfl
    · unfold WritesEntry
      rw [(releaseParked_pending released).1.entry_eq]
      obtain ⟨given, id, context, naturalIds, -, -, assigned, rfl⟩ := writeInsert_ok wrote
      obtain ⟨entry, held, tracked, -, now⟩ := Context.entry?_recorded assigned insert.descriptor insert.state
      exact .inr ⟨List.mem_singleton_self _, entry, some held, insert.descriptor, insert.state, tracked, now⟩
  · exact .inl (executeInsert_entries ran here)

end Action

theorem InsertRun.writesEntry {writer : Writer} {s after : State} {written : List Insert}
    (run : InsertRun writer s written after) (h : Handle) : WritesEntry s after (written.map (·.handle)) h := by
  induction run with
  | done s => exact .inl rfl
  | step next wrote run ih => exact (executeInsert_entry wrote h).trans ih

/-- The inserts of a flush, as far as it came; these instances were passed to the writer. -/
inductive InsertStage (writer : Writer) (s : State) : List Handle → State → Prop where
  | unqueued {e : Error} {after : State} (failed : (takeReady >>= queueReleased).exec s = (.error e, after)) :
      InsertStage writer s [] after
  | passed {ready middle : State} {written : List Insert}
      (began : (takeReady >>= queueReleased).exec s = (.ok (), ready)) (run : InsertRun writer ready written middle)
      (drained : middle.actions.inserts = []) : InsertStage writer s (written.map (·.handle)) middle
  | stopped {e : Error} {ready middle after : State} {written rest : List Insert} {insert : Insert}
      (began : (takeReady >>= queueReleased).exec s = (.ok (), ready)) (run : InsertRun writer ready written middle)
      (next : middle.actions.inserts = insert :: rest)
      (failed : (executeInsert writer insert).exec (middle.taking rest) = (.error e, after)) :
      InsertStage writer s (written.map (·.handle) ++ [insert.handle]) after

namespace InsertStage
variable {writer : Writer} {s middle : State} {written : List Handle}

theorem conserved (stage : InsertStage writer s written middle) :
    (written ++ middle.actions.pending).Perm s.actions.pending := by
  cases stage with
  | unqueued failed => exact (queueReady_pending failed).2
  | passed began run _ => exact (InsertPhase.of_run began run).conserved
  | stopped began run next failed =>
    rw [List.append_assoc]
    exact (List.Perm.append_left _ (executeInsert_conserves next failed)).trans (InsertPhase.of_run began run).conserved

theorem due (stage : InsertStage writer s written middle) {h : Handle} (member : h ∈ written) : h ∈ s.actions.pending :=
  stage.conserved.mem_iff.mp (List.mem_append_left _ member)

theorem advances (stage : InsertStage writer s written middle) : Advances s middle := by
  cases stage with
  | unqueued failed => exact queueReady_advances failed
  | passed began run _ => exact (queueReady_advances began).trans run.advances
  | stopped began run next failed =>
    exact ((queueReady_advances began).trans run.advances).trans (nextInsert_advances failed)

theorem sound (stage : InsertStage writer s written middle) (sound : s.Sound) : middle.Sound := by
  cases stage with
  | unqueued failed => exact ready_sound sound failed
  | passed began run _ => exact run.sound (ready_sound sound began)
  | stopped began run next failed =>
    obtain ⟨taken, idle, -⟩ := (run.sound (ready_sound sound began)).taking next
    exact executeInsert_sound taken idle failed

theorem writesEntry (stage : InsertStage writer s written middle) (h : Handle) : WritesEntry s middle written h := by
  have readied {ready : State} {answer : Except Error Unit}
      (began : (takeReady >>= queueReleased).exec s = (answer, ready)) : WritesEntry s ready [] h :=
    .inl ((queueReady_pending began).1.entry_eq h)
  cases stage with
  | unqueued failed => exact readied failed
  | passed began run _ => exact (readied began).trans (run.writesEntry h)
  | @stopped e ready last middle written rest insert began run next failed =>
    have final : WritesEntry last middle [insert.handle] h := executeInsert_entry (s := last.taking rest) failed h
    exact ((readied began).trans (run.writesEntry h)).trans final

theorem keepsKeys (stage : InsertStage writer s written middle) : s.context.KeepsKeys middle.context := by
  have readied {ready : State} {answer : Except Error Unit}
      (began : (takeReady >>= queueReleased).exec s = (answer, ready)) : s.context.KeepsKeys ready.context :=
    requeues_keepsKeys (queueReady_pending began).1
  cases stage with
  | unqueued failed => exact readied failed
  | passed began run _ => exact (readied began).trans run.keepsKeys
  | @stopped e ready last middle written rest insert began run next failed =>
    have final : last.context.KeepsKeys middle.context := executeInsert_keepsKeys (s := last.taking rest) failed
    exact ((readied began).trans run.keepsKeys).trans final

theorem holder (stage : InsertStage writer s written middle) (sound : s.Sound) {h : Handle} {key : EntityKey}
    (holder : s.context.entity? key = some h) : middle.context.entity? key = some h := by
  have tracked : middle.context.entry? h ≠ none := by
    rw [Ne, stage.advances.tracked]
    exact Option.ne_none_iff_exists'.mpr (sound.coherent.tracked holder)
  exact stage.keepsKeys.holder sound.coherent (stage.sound sound).coherent holder tracked

theorem loop (stage : InsertStage writer s written middle) {ready : State}
    (began : (takeReady >>= queueReleased).exec s = (.ok (), ready)) :
    ∃ answer, (runInserts writer ready.actions.pendingInserts).exec ready = (answer, middle) := by
  cases stage with
  | unqueued failed => cases began.symm.trans failed
  | passed began' run drained =>
    cases began.symm.trans began'
    exact ⟨_, run.exec_ok drained _ (Nat.le_refl _)⟩
  | stopped began' run next failed =>
    cases began.symm.trans began'
    exact ⟨_, run.exec_error next failed _ (Nat.le_refl _)⟩

end InsertStage

structure Ends (last after : State) : Prop where
  context : after.context = last.context
  source : after.session.snapshotSource = last.session.snapshotSource
  pending : after.actions.pending = last.actions.pending
  told : ∃ calls, after.session.journal = last.session.journal ++ calls ∧ ∀ call ∈ calls, call.isProbe = false
  heap : after.heap = last.heap
  naturalIds : after.session.naturalIds = last.session.naturalIds

theorem Ends.journal {last after : State} (ends : Ends last after) : last.session.journal <+: after.session.journal := by
  obtain ⟨calls, extended, -⟩ := ends.told
  exact ⟨calls, extended.symm⟩

namespace Action
variable {writer : Writer} {s after : State}

theorem flush_stages {answer : Except Error FlushResult} (ran : (flush writer).exec s = (answer, after)) :
    ∃ written middle gone last, InsertStage writer s written middle ∧ gone <+: middle.actions.deletes ∧
      DeleteRun writer middle.withoutDeletes gone last ∧ Ends last after := by
  have untold : ∃ calls, after.session.journal = after.session.journal ++ calls ∧ ∀ call ∈ calls, call.isProbe = false :=
    ⟨[], (List.append_nil _).symm, List.forall_mem_nil _⟩
  have ended : Ends after.withoutDeletes after := ⟨rfl, rfl, rfl, untold, rfl, rfl⟩
  cases flush_cases ran with
  | unqueued failed => exact ⟨_, _, [], _, .unqueued failed, List.nil_prefix, .done _, ended⟩
  | stopped began run next failed => exact ⟨_, _, [], _, .stopped began run next failed, List.nil_prefix, .done _, ended⟩
  | blocked began run drained waiting => exact ⟨_, _, [], _, .passed began run drained, List.nil_prefix, .done _, ended⟩
  | undeleted began run drained free scheduled deleted failed =>
    refine ⟨_, _, _, _, .passed began run drained, ⟨_, scheduled.symm⟩, deleted, ?_⟩
    rw [executeDelete_error failed]
    exact ⟨rfl, rfl, rfl, ⟨_, rfl, List.forall_mem_singleton.mpr rfl⟩, rfl, rfl⟩
  | done began run drained free deleted =>
    exact ⟨_, _, _, _, .passed began run drained, List.prefix_refl _, deleted, rfl, rfl, rfl, untold, rfl, rfl⟩

theorem flush_turns {answer : Except Error FlushResult} (sound : s.Sound)
    (ran : (flush writer).exec s = (answer, after)) (h : Handle) : Turns s h after (.flush writer) := by
  obtain ⟨written, middle, gone, last, stage, scheduled, deleted, ends⟩ := flush_stages ran
  have standing := (stage.sound sound).standing_early scheduled
  have entries : after.context.entry? h = if h ∈ gone.map (·.handle) then none else middle.context.entry? h := by
    rw [ends.context]
    exact deleted.entry? standing h
  split at entries
  next member =>
    obtain ⟨delete, inside, here⟩ := List.mem_map.mp member
    refine .removed ⟨delete, ?_, here⟩ entries
    rw [← stage.advances.deletes]
    exact scheduled.subset inside
  next =>
    rcases stage.writesEntry h with kept | ⟨member, entry, key, d, state, tracked, now⟩
    · exact .kept (entries.trans kept)
    · exact .inserted (stage.due member) tracked (entries.trans now)

theorem load_turns {entity : String} {rows : List (Except Error Row)} {options : LoadOptions}
    {answer : Except Error (List Handle)} (sound : s.Sound) (ran : (load entity rows options).exec s = (answer, after))
    (h : Handle) : Turns s h after (.load entity rows options) := by
  cases answer with
  | error e => exact .kept ((load_undone sound ran).entries h)
  | ok results =>
    obtain ⟨d, found, progress, middle, mapped, -, admitted, initialized, rfl⟩ := load_ok ran
    by_cases created : ∃ entity ∈ progress.batch.entities, entity.handle = h
    · obtain ⟨entity, member, rfl⟩ := created
      obtain ⟨state, row⟩ := admitted.row_loaded initialized member
      exact .loaded (admitted.created entity member).1 mapped row.entered
    · exact .kept (admitted.others initialized fun entity member same => created ⟨entity, member, same⟩)

theorem setReadOnly_cases (h : Handle) (readOnly : Bool) (s : State) :
    ((setReadOnly h readOnly).exec s).2 = s ∨ ∃ entry d state, s.context.entry? h = some entry ∧
      entry.isMutable = true ∧ entry.isReadOnly ≠ readOnly ∧ ((setReadOnly h readOnly).exec s).2 =
        s.mapContext fun context => context.updateEntry h fun entry => entry.switched readOnly d state := by
  unfold setReadOnly
  rw [exec_get_bind, exec_bind, exec_descriptor]
  cases s.session.descriptor (s.heap.entity h) with
  | error e => exact .inl rfl
  | ok d =>
    dsimp only
    cases tracked : s.context.entry? h with
    | none => exact .inl rfl
    | some entry =>
      dsimp only
      split
      next => exact .inl rfl
      next changes =>
        rw [Bool.or_eq_true, Bool.not_eq_true', decide_eq_true_iff, not_or, Bool.not_eq_false] at changes
        exact .inr ⟨entry, d, s.heap.values h, rfl, changes.1, changes.2, rfl⟩

theorem setReadOnly_turns (x : Handle) (readOnly : Bool) (s : State) (h : Handle) :
    Turns s h ((setReadOnly x readOnly).exec s).2 (.setReadOnly x readOnly) := by
  rcases setReadOnly_cases x readOnly s with same | ⟨entry, d, state, tracked, changeable, differs, same⟩
  · rw [same]
    exact .kept rfl
  · rw [same]
    have entries := Context.entry?_updateEntry s.context x h fun entry => entry.switched readOnly d state
    split at entries
    next here =>
      subst here
      rw [tracked] at entries
      exact .switched tracked changeable differs entries
    next => exact .kept entries

end Action

/-- What a move does to the entry of an instance is one of these. -/
theorem Move.turns {s : State} (move : Move) (sound : s.Sound) (allowed : move.Allowed s) (h : Handle) :
    Turns s h (move.perform s) move := by
  cases move with
  | save x early => exact save_turns rfl h
  | delete x => exact delete_turns rfl h
  | load entity rows options =>
    rcases ran : (Action.load entity rows options).exec s with ⟨answer, after⟩
    exact load_perform ran ▸ load_turns sound ran h
  | flush writer =>
    rcases ran : (Action.flush writer).exec s with ⟨answer, after⟩
    exact flush_perform ran ▸ flush_turns sound ran h
  | setReadOnly x readOnly => exact setReadOnly_turns x readOnly s h
  | ask question =>
    obtain ⟨_, _, same⟩ := Move.ask_session question s
    refine .kept ?_
    unfold State.context
    rw [same]
    rfl
  | endTransaction | annotate | configure | outside => exact .kept rfl
  | clear => exact .cleared rfl
  | attach x entry =>
    obtain ⟨-, unknown⟩ := allowed
    rw [untracked_iff] at unknown
    rcases Move.attach_cases x entry s with same | ⟨context, adds, same⟩ <;> rw [same]
    · exact .kept rfl
    · have entries := adds.entry? h
      split at entries
      next here =>
        subst here
        exact .attached unknown entries
      next => exact .kept entries

theorem Turns.stays {s after : State} {h : Handle} {move : Move} {entry entry' : Entry} (turns : Turns s h after move)
    (sound : s.Sound) (tracked : s.context.entry? h = some entry) (still : after.context.entry? h = some entry') :
    entry' = entry ∨
      (move = .delete h ∧ entry' = { entry with status := .deleted } ∧
        ∃ delete, delete.handle = h ∧ after.actions.deletes = s.actions.deletes ++ [delete]) ∨
      (h ∈ s.actions.pending ∧ ∃ key d state, entry' = { entry with key }.inserted d state) ∨
      ∃ readOnly d state, move = .setReadOnly h readOnly ∧ entry.isReadOnly ≠ readOnly ∧
        entry' = entry.switched readOnly d state := by
  have known {other : Option Entry} (now : s.context.entry? h = other) : other ≠ none := by
    rw [← now, tracked]
    exact nofun
  cases turns with
  | kept same => exact .inl (Option.some.inj (still.symm.trans (same.trans tracked)))
  | saved unknown | attached unknown => exact absurd rfl (known unknown)
  | canceled _ now | removed _ now | cleared now => cases now.symm.trans still
  | scheduled _ tracked' _ _ now _ queued =>
    cases tracked.symm.trans tracked'
    obtain ⟨d, queued⟩ := queued
    exact .inr (.inl ⟨rfl, Option.some.inj (still.symm.trans now), _, rfl, queued⟩)
  | inserted due tracked' now =>
    cases tracked.symm.trans tracked'
    exact .inr (.inr (.inl ⟨due, _, _, _, Option.some.inj (still.symm.trans now)⟩))
  | loaded new => exact absurd (sound.allocated h (known rfl)) new
  | switched tracked' _ differs now =>
    cases tracked.symm.trans tracked'
    exact .inr (.inr (.inr ⟨_, _, _, rfl, differs, Option.some.inj (still.symm.trans now)⟩))

theorem Turns.leaves {s after : State} {h : Handle} {move : Move} {entry : Entry} (turns : Turns s h after move)
    (tracked : s.context.entry? h = some entry) (gone : after.context.entry? h = none) :
    h ∈ s.actions.pending ∨ (∃ writer, move = .flush writer) ∨ move = .clear := by
  cases turns with
  | kept same => cases tracked.symm.trans (same.symm.trans gone)
  | canceled due => exact .inl due
  | removed => exact .inr (.inl ⟨_, rfl⟩)
  | cleared => exact .inr (.inr rfl)
  | saved _ _ now | scheduled _ _ _ _ now | inserted _ _ now | loaded _ _ now | switched _ _ _ now | attached _ now =>
    cases gone.symm.trans now

/-! What else a move does to the session. -/

namespace Action
variable {writer : Writer} {s after : State}

theorem load_session {entity : String} {rows : List (Except Error Row)} {options : LoadOptions}
    {answer : Except Error (List Handle)} (sound : s.Sound) (ran : (load entity rows options).exec s = (answer, after)) :
    ∃ journal naturalIds entries entities proxies, after.session =
      { s.session with journal, naturalIds, context := { s.context with entries, entities, proxies } } := by
  cases answer with
  | error e => exact (load_undone sound ran).session
  | ok results =>
    obtain ⟨d, found, progress, middle, -, -, admitted, initialized, -⟩ := load_ok ran
    obtain ⟨journal, naturalIds, entries, proxies, same⟩ := initialized.session
    refine ⟨journal, naturalIds, entries, middle.context.entities, proxies, ?_⟩
    rw [same]
    unfold State.context
    rw [admitted.registers.session]

end Action

theorem Move.perform_factory {s : State} (move : Move) (sound : s.Sound) :
    (move.perform s).session.factory = s.session.factory := by
  cases move with
  | save | delete => exact Plain.factory trivial
  | load entity rows options =>
    rcases ran : (Action.load entity rows options).exec s with ⟨answer, after⟩
    obtain ⟨_, _, _, _, _, same⟩ := load_session sound ran
    rw [load_perform ran, same]
  | flush writer =>
    rcases ran : (Action.flush writer).exec s with ⟨answer, after⟩
    exact flush_perform ran ▸ flush_factory ran
  | setReadOnly h readOnly =>
    unfold perform operation
    rcases setReadOnly_cases h readOnly s with same | ⟨_, _, _, -, -, -, same⟩ <;> rw [same]
    rfl
  | ask question =>
    obtain ⟨_, _, same⟩ := Move.ask_session question s
    rw [same]
  | endTransaction | annotate | configure | outside | clear => rfl
  | attach h entry =>
    rcases Move.attach_cases h entry s with same | ⟨context, -, same⟩ <;> rw [same]
    rfl

theorem Move.perform_descriptor {s : State} (move : Move) (sound : s.Sound) (entity : String) :
    (move.perform s).session.descriptor entity = s.session.descriptor entity := by
  unfold Session.descriptor
  rw [move.perform_factory sound]

theorem Run.maps {start s : State} {moves : List Move} (run : Run start moves s) (fresh : start.Fresh) : s.Described :=
  run.preserves fresh.sound (fun _ _ => trivial) fresh.described fun described sound _ allowed =>
    described.step sound allowed (Move.perform_factory _ sound)

/-- A move that leaves it to the session which entries there are and which keys are marked. -/
def Move.Own : Move → Prop
  | .attach _ _ | .annotate _ _ _ _ => False
  | _ => True

theorem Context.isNullifiableKey_removeEntity (context : Context) (key other : EntityKey) :
    (context.removeEntity key).isNullifiableKey other =
      if (key == other) = true ∧ context.entity? key ≠ none then false else context.isNullifiableKey other := by
  unfold removeEntity isNullifiableKey
  split
  next missing => rw [if_neg fun both => both.2 missing]
  next h standing =>
    dsimp only
    rw [Registry.contains_eq_isSome, Registry.find?_erase, Registry.contains_eq_isSome]
    by_cases same : (key == other) = true <;> simp [standing, same]

theorem DeleteRun.mark_lasts {writer : Writer} {s after : State} {deletes : List Delete} {h : Handle} {key : EntityKey}
    (run : DeleteRun writer s deletes after) (standing : Standing s deletes) (holder : s.context.entity? key = some h)
    (marked : s.context.isNullifiableKey key = true) (tracked : after.context.entry? h ≠ none) :
    after.context.isNullifiableKey key = true := by
  induction run with
  | done s => exact marked
  | @step s middle after delete rest wrote run ih =>
    obtain ⟨forgets, later⟩ := executeDelete_forgets standing wrote
    have different : (delete.key == key) = false := by
      apply Bool.eq_false_iff.mpr
      intro same
      apply tracked
      rw [run.entry? later h, forgets h, if_pos (standing.handle List.mem_cons_self holder same), ite_self]
    obtain ⟨shared, naturalIds, reads, -, rfl⟩ := executeDelete_ok wrote
    refine ih later ?_ ?_ tracked
    · refine (Context.entity?_removeEntity (s.context.setStatus delete.handle .gone) delete.key key).trans ?_
      rw [different]
      exact holder
    · have kept := (s.context.setStatus delete.handle .gone).isNullifiableKey_removeEntity delete.key key
      rw [different, if_neg fun both => Bool.false_ne_true both.1] at kept
      exact kept.trans marked

theorem Action.flush_mark_lasts {writer : Writer} {s after : State} {answer : Except Error FlushResult} {h : Handle}
    {key : EntityKey} (sound : s.Sound) (ran : (flush writer).exec s = (answer, after))
    (holder : s.context.entity? key = some h) (marked : s.context.isNullifiableKey key = true)
    (tracked : after.context.entry? h ≠ none) : after.context.isNullifiableKey key = true := by
  obtain ⟨written, middle, gone, last, stage, scheduled, deleted, ends⟩ := flush_stages ran
  rw [ends.context] at tracked ⊢
  have standing := (stage.sound sound).standing_early scheduled
  refine deleted.mark_lasts standing (stage.holder sound holder) ?_ tracked
  exact (congrFun stage.advances.isNullifiableKey key).trans marked

/-- A mark on a key lasts for as long as the instance is tracked that stands for it. -/
theorem Move.mark_lasts {s : State} (move : Move) (own : move.Own) (sound : s.Sound) {h : Handle} {key : EntityKey}
    (holder : s.context.entity? key = some h) (marked : s.context.isNullifiableKey key = true)
    (tracked : (move.perform s).context.entry? h ≠ none) : (move.perform s).context.isNullifiableKey key = true := by
  cases move with
  | save x early =>
    have continues : Continues s ((Move.save x early).perform s) := save_continues rfl
    rw [continues.isNullifiableKey]
    exact marked
  | delete x =>
    rcases ran : (Action.delete x).exec s with ⟨answer, after⟩
    rw [delete_perform ran] at tracked ⊢
    cases delete_cases ran with
    | refused | gone => exact marked
    | canceled =>
      unfold Context.isNullifiableKey at *
      refine Eq.trans ?_ marked
      exact congrArg (·.contains key) (s.context.nullifiable_removeEntry x)
    | @scheduled entry held d idle _ keyed =>
      refine (s.context.isNullifiableKey_scheduled x held key).trans ?_
      rw [Bool.or_eq_true]
      exact .inr marked
  | load entity rows options =>
    rcases ran : (Action.load entity rows options).exec s with ⟨answer, after⟩
    obtain ⟨_, _, _, _, _, same⟩ := load_session sound ran
    rw [load_perform ran, State.context, same]
    exact marked
  | flush writer =>
    rcases ran : (Action.flush writer).exec s with ⟨answer, after⟩
    rw [flush_perform ran] at tracked ⊢
    exact flush_mark_lasts sound ran holder marked tracked
  | setReadOnly x readOnly =>
    unfold perform operation
    rcases setReadOnly_cases x readOnly s with same | ⟨_, _, _, -, -, -, same⟩ <;> rw [same] <;> exact marked
  | ask question =>
    obtain ⟨_, _, same⟩ := Move.ask_session question s
    unfold State.context
    rw [same]
    exact marked
  | endTransaction | configure | outside => exact marked
  | clear => exact absurd rfl tracked
  | attach | annotate => exact own.elim

end UnitOfWork
