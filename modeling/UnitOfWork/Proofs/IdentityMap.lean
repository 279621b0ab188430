import UnitOfWork.Proofs.FlushConservation

/-! The identity map of a session. In every state a key stands for an instance exactly if the instance is
tracked under that key, and an instance that stays tracked keeps the key it has, whatever the application does
to its identifier. -/

namespace UnitOfWork
open UnitOfWork.Action

namespace Context
variable {a b c : Context}

/-- No instance is newly tracked, and one that is not forgotten keeps its key. -/
structure KeepsKeys (before after : Context) : Prop where
  untracked : ∀ h, before.entry? h = none → after.entry? h = none
  keyed : ∀ h key, before.key? h = some key → after.entry? h = none ∨ after.key? h = some key

namespace KeepsKeys

theorem of_entries (same : ∀ h, b.entry? h = a.entry? h) : a.KeepsKeys b where
  untracked h none_ := (same h).trans none_
  keyed h key held := by
    unfold key? at *
    rw [same]
    exact .inr held

theorem refl (context : Context) : context.KeepsKeys context := of_entries fun _ => rfl

theorem trans (first : a.KeepsKeys b) (second : b.KeepsKeys c) : a.KeepsKeys c where
  untracked h none_ := second.untracked h (first.untracked h none_)
  keyed h key held := by
    rcases first.keyed h key held with forgotten | kept
    · exact .inl (second.untracked h forgotten)
    · exact second.keyed h key kept

theorem updateEntry (context : Context) (h : Handle) {change : Entry → Entry}
    (same : ∀ entry, (change entry).key = entry.key) : context.KeepsKeys (context.updateEntry h change) where
  untracked other none_ := by
    rw [entry?_updateEntry, none_]
    split <;> rfl
  keyed other key held := .inr ((key?_updateEntry context h other same).trans held)

theorem of_forgets {h : Handle} (entries : ∀ other, b.entry? other = if h = other then none else a.entry? other) :
    a.KeepsKeys b where
  untracked other none_ := by
    rw [entries, none_]
    split <;> rfl
  keyed other key held := by
    unfold key? at *
    rw [entries]
    split
    · exact .inl rfl
    · exact .inr held

theorem removeEntity (context : Context) (key : EntityKey) : context.KeepsKeys (context.removeEntity key) := by
  cases standing : context.entity? key with
  | none =>
    unfold Context.removeEntity
    rw [standing]
    exact refl context
  | some h => exact of_forgets fun other => entry?_removeEntity context other standing

theorem holder {h : Handle} {key : EntityKey} (keeps : a.KeepsKeys b) (before : a.Coherent) (after : b.Coherent)
    (standing : a.entity? key = some h) (tracked : b.entry? h ≠ none) : b.entity? key = some h := by
  obtain ⟨held, keyed, same⟩ := (Option.any_eq_true _ _).mp ((before key h).mp standing)
  refine (after key h).mpr ?_
  rw [(keeps.keyed h held keyed).resolve_left tracked]
  exact same

theorem assignKey {h : Handle} {entity : String} {key : EntityKey} (assigned : a.assignKey h entity key = .ok b) :
    a.KeepsKeys b := by
  obtain ⟨entry, held, tracked, -, ⟨-, rfl⟩ | ⟨unkeyed, -, adds⟩⟩ := assignKey_ok assigned
  · exact refl _
  constructor
  case untracked =>
    intro other none_
    rw [adds.entry?, none_]
    split
    next same =>
      rw [← same, tracked] at none_
      cases none_
    next => rfl
  case keyed =>
    intro other key held
    right
    unfold key? at *
    rw [adds.entry?]
    split
    next same =>
      rw [← same, tracked, Option.bind_some, unkeyed] at held
      cases held
    next => exact held

end KeepsKeys

end Context

namespace Action
variable {writer : Writer} {s after : State} {h : Handle}

theorem requeues_keepsKeys (moved : Requeues s after) : s.context.KeepsKeys after.context :=
  .of_entries moved.entry_eq

theorem executeInsert_keepsKeys {insert : Insert} {answer : Except Error Unit}
    (ran : (executeInsert writer insert).exec s = (answer, after)) : s.context.KeepsKeys after.context := by
  rcases executeInsert_cases ran with ⟨_, _, failed⟩ | ⟨row, wrote, released⟩
  · obtain ⟨-, _, rfl⟩ := writeInsert_error failed
    exact .refl s.context
  · have recorded : s.context.KeepsKeys row.context := by
      obtain ⟨_, _, context, _, _, _, assigned, rfl⟩ := writeInsert_ok wrote
      have inserted : context.KeepsKeys (context.updateEntry insert.handle fun entry =>
          entry.inserted insert.descriptor insert.state) := .updateEntry context insert.handle fun _ => rfl
      exact ((Context.KeepsKeys.assignKey assigned).trans inserted).trans (.of_entries fun _ => rfl)
    exact recorded.trans (requeues_keepsKeys (releaseParked_pending released).1)

theorem executeDelete_keepsKeys {delete : Delete} {answer : Except Error Unit}
    (ran : (executeDelete writer delete).exec s = (answer, after)) : s.context.KeepsKeys after.context := by
  cases answer with
  | error e =>
    rw [executeDelete_error ran]
    exact .refl s.context
  | ok _ =>
    obtain ⟨_, _, _, _, rfl⟩ := executeDelete_ok ran
    have marked : s.context.KeepsKeys (s.context.setStatus delete.handle .gone) := .updateEntry _ _ fun _ => rfl
    exact marked.trans (.removeEntity _ delete.key)

end Action

theorem InsertRun.keepsKeys {writer : Writer} {s after : State} {written : List Insert}
    (run : InsertRun writer s written after) : s.context.KeepsKeys after.context := by
  induction run with
  | done s => exact .refl _
  | @step s middle after insert rest written next wrote run ih =>
    have first : s.context.KeepsKeys middle.context := executeInsert_keepsKeys (s := s.taking rest) wrote
    exact first.trans ih

theorem DeleteRun.keepsKeys {writer : Writer} {s after : State} {deletes : List Delete}
    (run : DeleteRun writer s deletes after) : s.context.KeepsKeys after.context := by
  induction run with
  | done s => exact .refl _
  | step wrote run ih => exact (executeDelete_keepsKeys wrote).trans ih

namespace Action
variable {writer : Writer} {s after : State} {h : Handle}

theorem flush_keepsKeys {answer : Except Error FlushResult} (ran : (flush writer).exec s = (answer, after)) :
    s.context.KeepsKeys after.context := by
  have began {ready : State} {answer : Except Error Unit}
      (ran : (takeReady >>= queueReleased).exec s = (answer, ready)) : s.context.KeepsKeys ready.context :=
    requeues_keepsKeys (queueReady_pending ran).1
  cases flush_cases ran with
  | unqueued failed => exact began failed
  | @stopped e ready middle after written rest insert ready run next failed =>
    have last : middle.context.KeepsKeys after.context := executeInsert_keepsKeys (s := middle.taking rest) failed
    exact ((began ready).trans run.keepsKeys).trans last
  | blocked ready run drained waiting => exact (began ready).trans run.keepsKeys
  | @undeleted e ready middle last after written gone rest delete ready run drained free scheduled deleted failed =>
    have gone : middle.context.KeepsKeys last.context := deleted.keepsKeys
    exact (((began ready).trans run.keepsKeys).trans gone).trans (executeDelete_keepsKeys failed)
  | @done ready middle after written ready run drained free deleted =>
    have gone : middle.context.KeepsKeys after.context := deleted.keepsKeys
    exact ((began ready).trans run.keepsKeys).trans gone

end Action

namespace Move
variable {s after : State} {h : Handle} {key : EntityKey}

/-- A tracked instance is forgotten by a move or keeps its key. -/
theorem Performs.keeps_key {move : Move} (performs : Performs s move after) (sound : s.Sound)
    (keyed : s.context.key? h = some key) : after.context.entry? h = none ∨ after.context.key? h = some key := by
  by_cases flushing : ∃ writer, move = .flush writer
  · obtain ⟨writer, rfl⟩ := flushing
    cases performs with
    | flushed ran => exact (flush_keepsKeys ran).keyed h key keyed
    | aside calm _ => exact absurd rfl (calm writer)
  · have tracked : s.context.entry? h ≠ none := by
      intro none_
      rw [Context.key?_eq_none none_] at keyed
      cases keyed
    rcases performs.standing sound (fun writer same => flushing ⟨writer, same⟩) tracked with gone | same
    · exact .inl (State.standing?_eq_none.mp gone)
    · right
      rw [State.key?_eq_standing, same, ← State.key?_eq_standing]
      exact keyed

end Move

theorem Through.key? {s after : State} {h : Handle} {key : EntityKey} {moves : List Move}
    (through : Through (fun s => s.context.isTracked h = true) s moves after) (sound : s.Sound)
    (keyed : s.context.key? h = some key) : after.Sound ∧ after.context.key? h = some key := by
  have keeps {s : State} {move : Move} (still : s.context.key? h = some key) (sound : s.Sound) (allowed : move.Allowed s)
      (here : (move.perform s).context.isTracked h = true) : (move.perform s).context.key? h = some key := by
    rcases (move.performs sound allowed).keeps_key sound still with forgotten | kept
    · rw [← untracked_iff, here] at forgotten
      cases forgotten
    · exact kept
  exact through.preserves sound keyed keeps

/-- In every state of a session a key stands for an instance exactly if that instance is tracked and its entry
has the key. Equal keys stand for one instance and an instance stands under one key; a key that stands for an
instance has its entry; and the key of an entry stays for as long as the entry does. -/
theorem identity_map_agrees {start s : State} {moves : List Move} (fresh : start.Fresh) (run : Run start moves s) :
    (∀ key h, s.context.entity? key = some h ↔ ∃ entry held, s.context.entry? h = some entry ∧
      entry.key = some held ∧ (held == key) = true) ∧
    (∀ first second x y, (first == second) = true → s.context.entity? first = some x →
      s.context.entity? second = some y → x = y) ∧
    (∀ first second h, s.context.entity? first = some h → s.context.entity? second = some h →
      (first == second) = true) ∧
    (∀ key h, s.context.entity? key = some h → (s.context.entryForKey? key).isSome = true) ∧
    ∀ h key later after, s.context.key? h = some key →
      Through (fun s => s.context.isTracked h = true) s later after → after.context.key? h = some key := by
  have sound := run.sound fresh.sound
  have agrees (key : EntityKey) (h : Handle) : s.context.entity? key = some h ↔
      ∃ entry held, s.context.entry? h = some entry ∧ entry.key = some held ∧ (held == key) = true := by
    rw [sound.coherent key h, Context.key?]
    cases s.context.entry? h with
    | none => simp
    | some entry => simp [Option.any_eq_true]
  refine ⟨agrees, fun first second x y same here there => ?_, fun first second h here there => ?_, fun key h standing => ?_,
    fun h key later after keyed through => (through.key? sound keyed).2⟩
  · rw [Context.entity?, Registry.find?_congr _ same] at here
    exact Option.some.inj (here.symm.trans there)
  · obtain ⟨entry, held, tracked, keyed, same⟩ := (agrees first h).mp here
    obtain ⟨entry', held', tracked', keyed', same'⟩ := (agrees second h).mp there
    obtain rfl : entry = entry' := Option.some.inj (tracked.symm.trans tracked')
    obtain rfl : held = held' := Option.some.inj (keyed.symm.trans keyed')
    exact BEq.trans (BEq.symm same) same'
  · obtain ⟨entry, held, tracked, -, -⟩ := (agrees key h).mp standing
    rw [Context.entryForKey?, standing]
    change (s.context.entry? h).isSome = true
    rw [tracked]
    rfl

namespace Sample

def renamed : Instance := { newCustomer with id := some (.ofValue (.bool false)) }

def firstKey : EntityKey := customer.keyFor (.ofColumns [.bool true])

def oneWritten : State := (Move.flush writer).perform ((Move.save ⟨0⟩ false).perform (start #[newCustomer]))

end Sample

open Sample in
/-- The key of a written row stays that of its instance when the application changes the identifier. -/
theorem identity_map_agrees_renamed : ∃ after,
    Run (start #[newCustomer]) [.save ⟨0⟩ false, .flush writer] oneWritten ∧
      oneWritten.context.entity? firstKey = some ⟨0⟩ ∧
      Through (fun s => s.context.isTracked ⟨0⟩ = true) oneWritten [.outside ⟨#[renamed]⟩ {}, .flush writer] after ∧
      after.heap.id? ⟨0⟩ = renamed.id ∧ after.context.key? ⟨0⟩ = some firstKey := by
  have created : (⟨0⟩ : Handle) ∈ (start #[newCustomer]).heap := Nat.zero_lt_one
  have run : Run (start #[newCustomer]) [.save ⟨0⟩ false, .flush writer] oneWritten :=
    (Run.start.extend (.save ⟨0⟩ false) created).extend (.flush writer) trivial
  obtain ⟨agrees, -, -, -, stays⟩ := identity_map_agrees (start_fresh _) run
  have began : Through (fun s => s.context.isTracked ⟨0⟩ = true) oneWritten [] oneWritten := .start rfl
  have through := (began.extend (.outside ⟨#[renamed]⟩ {}) (Nat.le_refl 1) rfl).extend (.flush writer) trivial rfl
  refine ⟨_, run, (agrees _ _).mpr ⟨_, firstKey, rfl, rfl, BEq.rfl⟩, through, rfl, ?_⟩
  exact stays ⟨0⟩ firstKey _ _ rfl through

end UnitOfWork
