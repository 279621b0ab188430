import UnitOfWork.Proofs.NulledAttributes
import UnitOfWork.Proofs.ReadOnlyLoads

/-! Which instances of immutable entity types are checked for changes. Those that were loaded are read-only and have no
snapshot; those whose rows a flush has written are managed like any other from then on, and cannot be switched back. -/

namespace UnitOfWork
open UnitOfWork.Action

/-- Each entry says of its entity type whether it can change. -/
def State.Classified (s : State) : Prop :=
  ∀ h entry, s.context.entry? h = some entry →
    ∃ d, s.session.descriptor entry.entity = .ok d ∧ entry.isMutable = d.isMutable

theorem State.Classified.step {s : State} {move : Move} (classified : s.Classified) (sound : s.Sound) (own : move.Own)
    (allowed : move.Allowed s) : (move.perform s).Classified := by
  intro h entry now
  rw [move.perform_descriptor sound]
  cases move.turns sound allowed h with
  | kept unchanged => exact classified h entry (unchanged.symm.trans now)
  | saved _ mapped entered =>
    cases now.symm.trans entered
    exact ⟨_, Session.descriptor_name mapped, rfl⟩
  | loaded _ mapped entered =>
    cases now.symm.trans entered
    exact ⟨_, Session.descriptor_name mapped, rfl⟩
  | scheduled _ tracked _ _ entered =>
    cases now.symm.trans entered
    have before := classified h _ tracked
    exact before
  | inserted _ tracked entered =>
    cases now.symm.trans entered
    have before := classified h _ tracked
    exact before
  | @switched readOnly _ _ _ tracked _ _ entered =>
    cases now.symm.trans entered
    have before := classified h _ tracked
    cases readOnly <;> exact before
  | canceled _ gone | removed _ gone | cleared gone => cases now.symm.trans gone
  | attached => exact own.elim

theorem Run.classified {start s : State} {moves : List Move} (fresh : start.Fresh) (run : Run start moves s)
    (own : ∀ move ∈ moves, move.Own) : s.Classified := by
  refine run.preserves fresh.sound own (fun h entry tracked => ?_) State.Classified.step
  rw [fresh.context] at tracked
  cases tracked

/-- A flush has written the row of the instance, which has been tracked since then. -/
def WrittenHere (start : State) (moves : List Move) (s : State) (h : Handle) : Prop :=
  ∃ before rest t writer key row, moves = before ++ .flush writer :: rest ∧ Run start before t ∧
    FlushRecords writer t h key row ∧
    Through (·.context.entry? h ≠ none) ((Move.flush writer).perform t) rest s

namespace WrittenHere
variable {start s : State} {moves : List Move} {h : Handle} {move : Move}

theorem extend (written : WrittenHere start moves s h) (allowed : move.Allowed s)
    (still : (move.perform s).context.entry? h ≠ none) : WrittenHere start (moves ++ [move]) (move.perform s) h := by
  obtain ⟨before, rest, t, writer, key, row, rfl, run, records, through⟩ := written
  refine ⟨before, rest ++ [move], t, writer, key, row, ?_, run, records, through.extend move allowed still⟩
  rw [List.append_assoc, List.cons_append]

theorem now (run : Run start moves s) {writer : Writer} {key : EntityKey} {row : State}
    (records : FlushRecords writer s h key row) (still : ((Move.flush writer).perform s).context.entry? h ≠ none) :
    WrittenHere start (moves ++ [.flush writer]) ((Move.flush writer).perform s) h :=
  ⟨moves, [], s, writer, key, row, rfl, run, records, .start still⟩

end WrittenHere

theorem Action.load_immutable {s after : State} {entity : String} {rows : List (Except Error Row)} {options : LoadOptions}
    {answer : Except Error (List Handle)} (sound : s.Sound) (ran : (load entity rows options).exec s = (answer, after))
    {h : Handle} {entry : Entry} (unknown : s.context.entry? h = none) (now : after.context.entry? h = some entry)
    (immutable : entry.isMutable = false) : entry.snapshot = none := by
  cases answer with
  | error e =>
    rw [(load_undone sound ran).entries h, unknown] at now
    cases now
  | ok results =>
    obtain ⟨d, found, -, -, tracks, -⟩ := load_tracks_rows ran
    obtain ⟨row, state, -, loaded⟩ := tracks h (by rw [Context.isTracked_eq, unknown, Option.isSome_none])
      (by rw [Context.isTracked_eq, now, Option.isSome_some])
    rw [loaded.entry_eq now] at immutable ⊢
    have readOnly : loadsReadOnly s.session d row.key options = true := loadsReadOnly_iff.mpr (.inl immutable)
    rw [readOnly]
    rfl

/-- What becomes of the snapshot of an immutable entry: there is none when the session enters the instance, and only a
flush that writes the row takes one. -/
theorem Move.immutable_cases {s : State} (move : Move) (sound : s.Sound) (allowed : move.Allowed s) {h : Handle}
    {entry : Entry} (now : (move.perform s).context.entry? h = some entry) (immutable : entry.isMutable = false) :
    s.context.entry? h = none ∧ (move.Own → entry.snapshot = none) ∨
      ∃ before, s.context.entry? h = some before ∧ before.isMutable = false ∧ (entry.snapshot = before.snapshot ∨
        entry.snapshot.isSome = true ∧ ∃ writer key row, move = .flush writer ∧ FlushRecords writer s h key row) := by
  cases move.turns sound allowed h with
  | kept same => exact .inr ⟨entry, same.symm.trans now, immutable, .inl rfl⟩
  | saved unknown _ entered =>
    cases now.symm.trans entered
    exact .inl ⟨unknown, fun _ => rfl⟩
  | scheduled _ tracked _ _ entered =>
    cases now.symm.trans entered
    exact .inr ⟨_, tracked, immutable, .inl rfl⟩
  | @inserted writer before key d state due tracked entered =>
    -- only if the flush changes the entry it is known to have recorded the row
    by_cases same : ((Move.flush writer).perform s).context.entry? h = s.context.entry? h
    · exact .inr ⟨entry, same.symm.trans now, immutable, .inl rfl⟩
    · rcases ran : (Action.flush writer).exec s with ⟨answer, after⟩
      rw [flush_perform ran] at same now entered
      obtain ⟨key, row, records⟩ := flush_records_changed sound ran same (by rw [now]; exact nofun)
      cases now.symm.trans entered
      exact .inr ⟨before, tracked, immutable, .inr ⟨rfl, writer, key, row, rfl, records⟩⟩
  | @loaded entity rows options d row readOnly state new =>
    have unknown : s.context.entry? h = none := Decidable.byContradiction fun tracked => new (sound.allocated h tracked)
    rcases ran : (Action.load entity rows options).exec s with ⟨answer, after⟩
    rw [load_perform ran] at now
    exact .inl ⟨unknown, fun _ => load_immutable sound ran unknown now immutable⟩
  | @switched readOnly before d state _ changeable _ entered =>
    cases now.symm.trans entered
    cases readOnly <;> cases changeable.symm.trans immutable
  | canceled _ gone | removed _ gone | cleared gone => cases now.symm.trans gone
  | attached unknown => exact .inl ⟨unknown, fun own => own.elim⟩

theorem Run.written {start s : State} {moves : List Move} (fresh : start.Fresh) (run : Run start moves s)
    (own : ∀ move ∈ moves, move.Own) {h : Handle} {entry : Entry} (tracked : s.context.entry? h = some entry)
    (immutable : entry.isMutable = false) (checked : entry.snapshot.isSome = true) : WrittenHere start moves s h := by
  induction run generalizing entry with
  | start =>
    rw [fresh.context] at tracked
    cases tracked
  | @step moves s move run allowed ih =>
    have own' := own move (List.mem_append_right _ (List.mem_singleton_self _))
    have still : (move.perform s).context.entry? h ≠ none := by
      rw [tracked]
      exact nofun
    rcases move.immutable_cases (run.sound fresh.sound) allowed tracked immutable with ⟨-, none_⟩ |
      ⟨before, known, immutable, same | ⟨-, writer, key, row, rfl, records⟩⟩
    · rw [none_ own'] at checked
      cases checked
    · rw [same] at checked
      have earlier : ∀ move ∈ moves, move.Own := fun move member => own move (List.mem_append_left _ member)
      exact (ih earlier known immutable checked).extend allowed still
    · exact .now run records still

/-- The instance is tracked, and checked if it is of an immutable entity type. -/
def State.Checks (s : State) (h : Handle) : Prop :=
  ∃ entry, s.context.entry? h = some entry ∧ (entry.isMutable = false → entry.snapshot.isSome = true)

theorem State.Checks.step {s : State} {move : Move} {h : Handle} (checks : s.Checks h) (sound : s.Sound)
    (allowed : move.Allowed s) (still : (move.perform s).context.entry? h ≠ none) : (move.perform s).Checks h := by
  obtain ⟨before, known, checked⟩ := checks
  obtain ⟨entry, now⟩ := Option.ne_none_iff_exists'.mp still
  refine ⟨entry, now, fun immutable => ?_⟩
  rcases move.immutable_cases sound allowed now immutable with ⟨unknown, -⟩ |
    ⟨before', known', immutable, same | ⟨taken, -⟩⟩
  · cases known.symm.trans unknown
  · cases known.symm.trans known'
    rw [same]
    exact checked immutable
  · exact taken

theorem WrittenHere.checks {start s : State} {moves : List Move} {h : Handle} (fresh : start.Fresh)
    (written : WrittenHere start moves s h) : s.Checks h := by
  obtain ⟨before, rest, t, writer, key, row, rfl, run, records, through⟩ := written
  have sound := run.sound fresh.sound
  rcases ran : (flush writer).exec t with ⟨answer, flushed⟩
  rw [Move.flush_perform ran] at through
  obtain ⟨_, _, first, -, -, -, now, taken⟩ := records.entered sound ran
  have began : flushed.Checks h := ⟨first, now, fun _ => by rw [taken, Option.isSome_some]⟩
  exact (through.preserves (flush_sound sound ran) began State.Checks.step).2

theorem Entry.Orderly.status_cases {marked : EntityKey → Bool} {entry : Entry} (orderly : entry.Orderly marked)
    (written : entry.existsInDatabase = true) : entry.status = .managed ∧ entry.snapshot.isSome = true ∨
      entry.status = .readOnly ∧ entry.snapshot = none ∨ entry.status = .deleted := by
  unfold Orderly at orderly
  cases status : entry.status with
  | loading | gone =>
    rw [status] at orderly
    exact orderly.elim
  | saving =>
    rw [status] at orderly
    cases written.symm.trans orderly.2
  | managed =>
    rw [status] at orderly
    exact .inl ⟨rfl, orderly⟩
  | readOnly =>
    rw [status] at orderly
    exact .inr (.inl ⟨rfl, orderly⟩)
  | deleted => exact .inr (.inr rfl)

/-- An instance of an immutable entity type whose row exists is read-only, or to be deleted, and not checked for changes,
just if no flush of the session has written its row since it is tracked. Otherwise it is managed, or to be deleted, and
checked. No switch changes that. -/
theorem immutable_entities_are_unchecked_unless_written {start s : State} {moves : List Move} (fresh : start.Fresh)
    (run : Run start moves s) (own : ∀ move ∈ moves, move.Own) {h : Handle} {entry : Entry} {d : Descriptor}
    (tracked : s.context.entry? h = some entry) (mapped : s.session.descriptor entry.entity = .ok d)
    (immutable : d.isMutable = false) (written : entry.existsInDatabase = true) :
    ((entry.status = .readOnly ∨ entry.status = .deleted) ∧ entry.snapshot = none ↔ ¬WrittenHere start moves s h) ∧
    ((entry.status = .managed ∨ entry.status = .deleted) ∧ entry.snapshot.isSome = true ↔ WrittenHere start moves s h) ∧
    ∀ readOnly, (Move.setReadOnly h readOnly).perform s = s := by
  obtain ⟨other, mapped', same⟩ := run.classified fresh own h entry tracked
  obtain rfl : d = other := Except.ok.inj (mapped.symm.trans mapped')
  rw [immutable] at same
  have checked : entry.snapshot.isSome = true ↔ WrittenHere start moves s h := by
    refine ⟨run.written fresh own tracked same, fun here => ?_⟩
    obtain ⟨entry', tracked', checked⟩ := here.checks fresh
    cases tracked.symm.trans tracked'
    exact checked same
  have unchecked : entry.snapshot = none ↔ ¬WrittenHere start moves s h := by
    rw [← checked, Option.not_isSome_iff_eq_none]
  have statuses := (run.orderly fresh own h entry tracked).status_cases written
  refine ⟨⟨fun here => unchecked.mp here.2, fun never => ?_⟩, ⟨fun here => checked.mp here.2, fun here => ?_⟩, ?_⟩
  · have none_ := unchecked.mpr never
    exact ⟨by simpa [none_] using statuses, none_⟩
  · have taken := checked.mpr here
    simpa [Option.isSome_iff_ne_none.mp taken, taken] using statuses
  · intro readOnly
    rcases setReadOnly_cases h readOnly s with kept | ⟨entry', _, _, tracked', changeable, -⟩
    · exact kept
    · cases tracked.symm.trans tracked'
      cases same.symm.trans changeable

namespace Sample

def currency : Descriptor where
  name := "Currency"
  identifier := { name := "id" }
  attributes := [.basic "name"]
  isMutable := false

def mint : State where
  heap := ⟨#[⟨"Currency", none, [.basic (.text "Euro")]⟩]⟩
  shared := {}
  session := { factory := { metamodel := ⟨[currency]⟩ } }

def minted : List Move :=
  [.save ⟨0⟩ false, .flush onceOnly, .load "Currency" [.ok { values := [.bool false, .text "Franc"] }] {}]

def mintedState : State := minted.foldl (fun s move => move.perform s) mint

theorem minted_run : Run mint minted mintedState := by
  have created : (⟨0⟩ : Handle) ∈ mint.heap := Nat.zero_lt_one
  exact (Run.start : Run mint [] _)
    |>.extend (.save ⟨0⟩ false) created
    |>.extend (.flush onceOnly) trivial
    |>.extend (.load "Currency" [.ok { values := [.bool false, .text "Franc"] }] {}) trivial

end Sample

open Sample in
/-- The currency that was written is managed, the one that was loaded is read-only. -/
theorem immutable_entities_are_unchecked_unless_written_currencies : ∃ written loaded, Run mint minted mintedState ∧
    (∀ move ∈ minted, move.Own) ∧ mintedState.context.entry? ⟨0⟩ = some written ∧
    mintedState.context.entry? ⟨1⟩ = some loaded ∧ WrittenHere mint minted mintedState ⟨0⟩ ∧ written.status = .managed ∧
    ¬WrittenHere mint minted mintedState ⟨1⟩ ∧ loaded.snapshot = none := by
  have own : ∀ move ∈ minted, move.Own := by simp [minted, Move.Own]
  have fresh : mint.Fresh := ⟨rfl, rfl, rfl⟩
  obtain ⟨written, tracked, entity, exists_, managed, taken⟩ : ∃ entry, mintedState.context.entry? ⟨0⟩ = some entry ∧
      entry.entity = "Currency" ∧ entry.existsInDatabase = true ∧ entry.status = .managed ∧ entry.snapshot.isSome = true :=
    ⟨_, rfl, rfl, rfl, rfl, rfl⟩
  obtain ⟨loaded, tracked', entity', exists', readOnly, untaken⟩ : ∃ entry, mintedState.context.entry? ⟨1⟩ = some entry ∧
      entry.entity = "Currency" ∧ entry.existsInDatabase = true ∧ entry.status = .readOnly ∧ entry.snapshot = none :=
    ⟨_, rfl, rfl, rfl, rfl, rfl⟩
  have mapped : mintedState.session.descriptor "Currency" = .ok currency := rfl
  obtain ⟨-, checked, -⟩ := immutable_entities_are_unchecked_unless_written fresh minted_run own tracked
    (entity ▸ mapped) rfl exists_
  obtain ⟨unchecked, -⟩ := immutable_entities_are_unchecked_unless_written fresh minted_run own tracked'
    (entity' ▸ mapped) rfl exists'
  exact ⟨written, loaded, minted_run, own, tracked, tracked', checked.mp ⟨.inl managed, taken⟩, managed,
    unchecked.mp ⟨.inl readOnly, untaken⟩, untaken⟩

open Sample in
/-- A currency whose row is written is managed, although currencies do not change, and cannot be made read-only. When
its name is changed all the same, dirty checking reports that. -/
theorem written_currency_is_checked : ∃ s entry changed,
    Run mint [.save ⟨0⟩ false, .flush onceOnly, .setReadOnly ⟨0⟩ true, .outside changed mint.shared] s ∧
      s.context.entry? ⟨0⟩ = some entry ∧ s.session.descriptor entry.entity = .ok currency ∧
      currency.isMutable = false ∧ entry.existsInDatabase = true ∧ entry.status = .managed ∧
      entry.snapshot.isSome = true ∧ (dirtyAttributes ⟨0⟩).exec s = (.ok ["name"], s) := by
  have created : (⟨0⟩ : Handle) ∈ mint.heap := Nat.zero_lt_one
  have run := (Run.start : Run mint [] _)
    |>.extend (.save ⟨0⟩ false) created
    |>.extend (.flush onceOnly) trivial
    |>.extend (.setReadOnly ⟨0⟩ true) trivial
    |>.extend (.outside ⟨#[⟨"Currency", some number, [.basic (.text "Mark")]⟩]⟩ mint.shared) (Nat.le_refl 1)
  exact ⟨_, _, _, run, rfl, rfl, rfl, rfl, rfl, rfl, rfl⟩

end UnitOfWork
