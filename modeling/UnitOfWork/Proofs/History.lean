import UnitOfWork.Proofs.LoadInvariant
import UnitOfWork.Proofs.SaveInvariant
import UnitOfWork.Session.Changes

/-! What can happen to a session: any operations in any order, each succeeding or failing, while the
application changes its instances, other sessions change what is shared, and collaborators come and go. -/

namespace UnitOfWork

/-- What a session can be asked without changing what it has to do. -/
inductive Question where
  | classify (value : AttributeValue) (assumed : Option Bool)
  | isNotTransient (value : AttributeValue) (assumed : Option Bool)
  | identifierIfSaved (entity : Option String) (value : AttributeValue)
  | databaseSnapshot (d : Descriptor) (key : EntityKey)
  | isNullifiable (nullifier : Nullifier) (value : AttributeValue)
  | nullify (nullifier : Nullifier) (attributes : List Attribute) (values : List AttributeValue)
  | dependencies (entity : String) (h : Handle) (values : List AttributeValue) (early : Bool)
  | dirtyAttributes (h : Handle)

inductive Move where
  | save (h : Handle) (early : Bool)
  | delete (h : Handle)
  | load (entity : String) (rows : List (Except Error Row)) (options : LoadOptions)
  | flush (writer : Writer)
  | setReadOnly (h : Handle) (readOnly : Bool)
  | ask (question : Question)
  | endTransaction
  | clear
  /-- An instance is tracked with an entry the application makes up. -/
  | attach (h : Handle) (entry : Entry)
  /-- What the registry knows beside its instances is changed. -/
  | annotate (proxies : Registry EntityKey Bool) (snapshots : Registry EntityKey (Option (List Value)))
      (nullifiable insertedKeys : Registry EntityKey Unit)
  | configure (config : SessionConfig) (interceptor : Option Interceptor) (source : Option SnapshotSource)
      (preLoad : List PreLoadListener) (postLoad : List PostLoadListener)
  /-- The application gives instances other contents or creates some; other sessions use the cache. -/
  | outside (heap : Heap) (shared : Shared)

namespace Move

def asking : Question → Action Unit
  | .classify value assumed => do let _ ← Action.classify value assumed
  | .isNotTransient value assumed => do let _ ← Action.isNotTransient value assumed
  | .identifierIfSaved entity value => do let _ ← Action.identifierIfSaved entity value
  | .databaseSnapshot d key => do let _ ← Action.databaseSnapshot d key
  | .isNullifiable nullifier value => do let _ ← nullifier.isNullifiable value
  | .nullify nullifier attributes values => do let _ ← nullifier.nullifyAll attributes values
  | .dependencies entity h values early => do let _ ← Action.dependencies entity h values early
  | .dirtyAttributes h => do let _ ← Action.dirtyAttributes h

def operation : Move → Action Unit
  | .save h early => Action.save h early
  | .delete h => Action.delete h
  | .load entity rows options => do let _ ← Action.load entity rows options
  | .flush writer => do let _ ← Action.flush writer
  | .setReadOnly h readOnly => Action.setReadOnly h readOnly
  | .ask question => asking question
  | .endTransaction => Action.endTransaction
  | .clear => Action.clear
  | .attach h entry => Action.changeContext fun context => context.addEntity h entry
  | .annotate proxies snapshots nullifiable insertedKeys => modify fun s => s.mapContext fun context =>
      { context with proxies, databaseSnapshots := snapshots, nullifiable, insertedKeys }
  | .configure config interceptor source preLoad postLoad => modify fun s => s.mapSession fun session =>
      { session with config, interceptor, snapshotSource := source, preLoad, postLoad }
  | .outside heap shared => modify fun s => { s with heap, shared }

/-- The state that a move leaves, whether it succeeds or fails. -/
def perform (move : Move) (s : State) : State := (move.operation.exec s).2

/-- Handles are of instances that exist, an instance is attached only if it is not tracked, and instances
are never removed. -/
def Allowed (s : State) : Move → Prop
  | .save h _ => h ∈ s.heap
  | .attach h _ => h ∈ s.heap ∧ s.context.isTracked h = false
  | .outside heap _ => s.heap.size ≤ heap.size
  | _ => True

def deleted? : Move → Option Handle
  | .delete h => some h
  | _ => none

end Move

inductive Run (start : State) : List Move → State → Prop where
  | start : Run start [] start
  | step {moves : List Move} {s : State} {move : Move} (run : Run start moves s) (allowed : move.Allowed s) :
      Run start (moves ++ [move]) (move.perform s)

theorem Run.extend {start s : State} {moves : List Move} (run : Run start moves s) (move : Move)
    (allowed : move.Allowed s) : Run start (moves ++ [move]) (move.perform s) := .step run allowed

namespace Move
open UnitOfWork.Action
variable {s : State}

/-- A caller may have rows selected under other keys than those of the descriptor. -/
theorem asking_keeps {fits : State → Descriptor → EntityKey → Prop} {relation : State → State → Prop}
    (admits : AdmitsKeys fits relation) (question : Question) (s : State)
    (asked : ∀ d key, question = .databaseSnapshot d key → fits s d key) : Keeps relation (asking question) s := by
  have frame : Frame relation := admits.frame
  cases question with
  | classify value assumed => exact .bind frame (classify_keeps admits value assumed s) fun _ s _ => .pure frame _ s
  | isNotTransient value assumed =>
    exact .bind frame (isNotTransient_keeps admits value assumed s) fun _ s _ => .pure frame _ s
  | identifierIfSaved entity value =>
    exact .bind frame (identifierIfSaved_keeps admits entity value s) fun _ s _ => .pure frame _ s
  | databaseSnapshot d key =>
    exact .bind frame (databaseSnapshot_keeps admits.toAdmits d key s (asked d key rfl)) fun _ s _ => .pure frame _ s
  | isNullifiable nullifier value =>
    exact .bind frame (nullifier.isNullifiable_keeps admits value s) fun _ s _ => .pure frame _ s
  | nullify nullifier attributes values =>
    exact .bind frame (nullifier.nullifyAll_keeps admits attributes values s) fun _ s _ => .pure frame _ s
  | dependencies entity h values early =>
    exact .bind frame (dependencies_keeps admits entity h values early s) fun _ s _ => .pure frame _ s
  | dirtyAttributes h =>
    refine .bind frame (.get_bind ?_) fun _ s _ => .pure frame _ s
    split
    · exact .throw frame _ s
    · split
      · exact .pure frame _ s
      · exact .bind frame (.lift frame _ s) fun _ s _ => .pure frame _ s

theorem asking_asksBy {fits : Descriptor → EntityKey → Prop} (keys : ∀ d key, d.Keys key → fits d key)
    (question : Question) (asked : ∀ d key, question = .databaseSnapshot d key → fits d key) (s : State) :
    Keeps (AsksBy fits) (asking question) s :=
  asking_keeps ⟨AsksBy.admits, fun _ _ _ => keys _ _ rfl⟩ question s asked

theorem asking_asks (question : Question) (s : State) : Keeps (AsksBy fun _ _ => True) (asking question) s :=
  asking_asksBy (fun _ _ _ => trivial) question (fun _ _ _ => trivial) s

theorem setReadOnly_aside (h : Handle) (readOnly : Bool) (s : State) : Keeps Aside (Action.setReadOnly h readOnly) s := by
  refine .get_bind (.bind Aside.frame (.lift Aside.frame _ s) fun d middle found => ?_)
  obtain ⟨-, rfl⟩ := lift_ok found
  dsimp only
  split
  · exact .throw Aside.frame _ _
  · split
    · exact .pure Aside.frame _ _
    · refine Aside.updateEntry _ h fun entry => ?_
      cases readOnly <;> rfl

theorem delete_perform {h : Handle} {after : State} {answer : Except Error Unit}
    (ran : (Action.delete h).exec s = (answer, after)) : (Move.delete h).perform s = after := congrArg Prod.snd ran

theorem flush_perform {writer : Writer} {after : State} {answer : Except Error FlushResult}
    (ran : (Action.flush writer).exec s = (answer, after)) : (Move.flush writer).perform s = after := by
  unfold perform operation
  rw [exec_bind, ran]
  cases answer <;> rfl

theorem load_perform {entity : String} {rows : List (Except Error Row)} {options : LoadOptions} {after : State}
    {answer : Except Error (List Handle)} (ran : (Action.load entity rows options).exec s = (answer, after)) :
    (Move.load entity rows options).perform s = after := by
  unfold perform operation
  rw [exec_bind, ran]
  cases answer <;> rfl

theorem ask_session (question : Question) (s : State) : ∃ journal rows, ((Move.ask question).perform s).session =
    { s.session with journal, context := { s.context with databaseSnapshots := rows } } :=
  AsksBy.session (asking_asks question s)

theorem attach_cases (h : Handle) (entry : Entry) (s : State) : (Move.attach h entry).perform s = s ∨
    ∃ context, s.context.Adds h entry context ∧ (Move.attach h entry).perform s = s.mapContext fun _ => context := by
  unfold perform operation
  rcases ran : (changeContext fun context => context.addEntity h entry).exec s with ⟨e | _, after⟩
  · exact .inl (changeContext_error ran).2
  · obtain ⟨context, added, same⟩ := changeContext_ok ran
    exact .inr ⟨context, Context.addEntity_ok added, same⟩

inductive Performs (s : State) : Move → State → Prop where
  | saved {h : Handle} {early : Bool} {answer : Except Error Unit} {after : State}
      (ran : (Action.save h early).exec s = (answer, after)) : Performs s (.save h early) after
  | deleted {h : Handle} {answer : Except Error Unit} {after : State}
      (ran : (Action.delete h).exec s = (answer, after)) : Performs s (.delete h) after
  | flushed {writer : Writer} {answer : Except Error FlushResult} {after : State}
      (ran : (Action.flush writer).exec s = (answer, after)) : Performs s (.flush writer) after
  | loaded {entity : String} {rows : List (Except Error Row)} {options : LoadOptions} {after : State}
      (spares : Spares s after) : Performs s (.load entity rows options) after
  | attached {h : Handle} {entry : Entry} {context : Context} (allocated : h ∈ s.heap)
      (unknown : s.context.entry? h = none) (adds : s.context.Adds h entry context) :
      Performs s (.attach h entry) (s.mapContext fun _ => context)
  | cleared : Performs s .clear (s.mapSession fun session =>
      { session with context := {}, naturalIds := {}, actions := {} })
  | aside {move : Move} {after : State} (calm : ∀ writer, move ≠ .flush writer) (aside : Aside s after) :
      Performs s move after

theorem performs (move : Move) (sound : s.Sound) (allowed : move.Allowed s) : Performs s move (move.perform s) := by
  cases move with
  | save h early => exact .saved rfl
  | delete h => exact .deleted rfl
  | load entity rows options =>
    rcases ran : (Action.load entity rows options).exec s with ⟨answer, after⟩
    exact load_perform ran ▸ .loaded (load_spares sound ran)
  | flush writer =>
    rcases ran : (Action.flush writer).exec s with ⟨answer, after⟩
    exact flush_perform ran ▸ .flushed ran
  | setReadOnly h readOnly => exact .aside nofun (setReadOnly_aside h readOnly s)
  | ask question =>
    have asks := asking_asks question s
    exact .aside nofun ⟨.of_asks asks, .of_asks asks⟩
  | endTransaction | annotate | configure =>
    exact .aside nofun (.silent ⟨fun _ => rfl, fun _ => rfl, Nat.le_refl _, rfl⟩ rfl)
  | clear => exact .cleared
  | attach h entry =>
    obtain ⟨allocated, unknown⟩ := allowed
    rw [untracked_iff] at unknown
    rcases attach_cases h entry s with same | ⟨context, adds, same⟩ <;> rw [same]
    · exact .aside nofun (Aside.frame.refl _)
    · exact .attached allocated unknown adds
  | outside heap shared => exact .aside nofun (.silent ⟨fun _ => rfl, fun _ => rfl, allowed, rfl⟩ rfl)

theorem Performs.sound {move : Move} {after : State} (performs : Performs s move after) (sound : s.Sound)
    (allowed : move.Allowed s) : after.Sound := by
  cases performs with
  | saved ran => exact save_sound sound allowed ran
  | deleted ran => exact delete_sound sound ran
  | flushed ran => exact flush_sound sound ran
  | loaded spares => exact spares.sound
  | attached allocated unknown adds =>
    exact sound.adds allocated (Context.key?_eq_none unknown) (fun due => sound.tracked (.inl due) unknown) adds
  | cleared => exact State.Fresh.sound ⟨rfl, rfl, rfl⟩
  | aside _ aside => exact sound.beside aside.beside

/-- But for a flush, a move forgets a tracked instance or leaves it standing as it did. -/
theorem Performs.standing {move : Move} {after : State} {h : Handle} (performs : Performs s move after) (sound : s.Sound)
    (calm : ∀ writer, move ≠ .flush writer) (tracked : s.context.entry? h ≠ none) :
    after.standing? h = none ∨ after.standing? h = s.standing? h := by
  cases performs with
  | saved ran =>
    right
    rw [State.standing?, save_entries ran tracked]
    rfl
  | deleted ran =>
    cases delete_cases ran with
    | @canceled pending =>
      unfold State.standing?
      change (Context.entry? (s.context.removeEntry _) h).map _ = none ∨
        (Context.entry? (s.context.removeEntry _) h).map _ = _
      rw [Context.entry?_removeEntry]
      split
      · exact .inl rfl
      · exact .inr rfl
    | refused | gone => exact .inr rfl
    | scheduled =>
      have marked (x : Handle) : Beside s (s.mapContext fun context => context.setStatus x .deleted) :=
        .updateEntry s x fun _ => rfl
      exact .inr ((marked _).standing h)
  | flushed => exact absurd rfl (calm _)
  | loaded spares => exact .inr (spares.standing h (sound.allocated h tracked))
  | @attached x entry context allocated unknown adds =>
    right
    unfold State.standing?
    change (context.entry? h).map _ = _
    rw [adds.entry?, if_neg fun same : x = h => tracked (same ▸ unknown)]
  | cleared => exact .inl rfl
  | aside _ aside => exact .inr (aside.beside.standing h)

theorem perform_sound (move : Move) (sound : s.Sound) (allowed : move.Allowed s) : (move.perform s).Sound :=
  (move.performs sound allowed).sound sound allowed

end Move

theorem Run.sound {start s : State} {moves : List Move} (run : Run start moves s) (initial : start.Sound) : s.Sound := by
  induction run with
  | start => exact initial
  | step run allowed ih => exact Move.perform_sound _ ih allowed

theorem Run.preserves {kind : Move → Prop} {holds : State → Prop} {start s : State} {moves : List Move}
    (run : Run start moves s) (initial : start.Sound) (kinds : ∀ move ∈ moves, kind move) (began : holds start)
    (step : ∀ {s : State} {move : Move}, holds s → s.Sound → kind move → move.Allowed s → holds (move.perform s)) :
    holds s := by
  induction run with
  | start => exact began
  | step run allowed ih =>
    have before := ih fun move member => kinds move (List.mem_append_left _ member)
    exact step before (run.sound initial) (kinds _ (List.mem_append_right _ (List.mem_singleton_self _))) allowed

inductive Through (holds : State → Prop) (start : State) : List Move → State → Prop where
  | start (here : holds start) : Through holds start [] start
  | step {moves : List Move} {s : State} {move : Move} (through : Through holds start moves s) (allowed : move.Allowed s)
      (here : holds (move.perform s)) : Through holds start (moves ++ [move]) (move.perform s)

theorem Through.extend {holds : State → Prop} {start s : State} {moves : List Move} (through : Through holds start moves s)
    (move : Move) (allowed : move.Allowed s) (here : holds (move.perform s)) :
    Through holds start (moves ++ [move]) (move.perform s) := .step through allowed here

theorem Through.result {holds : State → Prop} {start s : State} {moves : List Move} (through : Through holds start moves s) :
    s = moves.foldl (fun s move => move.perform s) start := by
  induction through with
  | start _ => rfl
  | step _ _ _ ih => rw [List.foldl_append, ← ih, List.foldl_cons, List.foldl_nil]

theorem Through.extend_iff {holds other : State → Prop} {start s : State} {moves : List Move}
    (through : Through other start moves s) (move : Move) (allowed : move.Allowed s) :
    Through holds start (moves ++ [move]) (move.perform s) ↔ Through holds start moves s ∧ holds (move.perform s) := by
  constructor
  · intro longer
    generalize same : moves ++ [move] = all at longer
    generalize final : move.perform s = last at longer ⊢
    cases longer with
    | start => cases (List.append_ne_nil_of_right_ne_nil moves (List.cons_ne_nil move [])) same
    | @step before t move' shorter _ here =>
      obtain ⟨rfl, only⟩ := List.append_inj' same rfl
      rw [through.result, ← shorter.result]
      exact ⟨shorter, here⟩
  · exact fun ⟨shorter, here⟩ => shorter.extend move allowed here

theorem Through.preserves {holds good : State → Prop} {start s : State} {moves : List Move}
    (through : Through holds start moves s) (initial : start.Sound) (began : good start)
    (step : ∀ {s : State} {move : Move}, good s → s.Sound → move.Allowed s → holds (move.perform s) →
      good (move.perform s)) : s.Sound ∧ good s := by
  induction through with
  | start _ => exact ⟨initial, began⟩
  | step through allowed here ih => exact ⟨Move.perform_sound _ ih.1 allowed, step ih.2 ih.1 allowed here⟩

theorem Through.sound {holds : State → Prop} {start s : State} {moves : List Move} (through : Through holds start moves s)
    (initial : start.Sound) : s.Sound := by
  induction through with
  | start _ => exact initial
  | step _ allowed _ ih => exact Move.perform_sound _ ih allowed

theorem Through.began {holds : State → Prop} {start s : State} {moves : List Move} (through : Through holds start moves s) :
    holds start := by
  induction through with
  | start here => exact here
  | step _ _ _ ih => exact ih

theorem Through.here {holds : State → Prop} {start s : State} {moves : List Move} (through : Through holds start moves s) :
    holds s := by
  cases through with
  | start here => exact here
  | step _ _ here => exact here

end UnitOfWork
