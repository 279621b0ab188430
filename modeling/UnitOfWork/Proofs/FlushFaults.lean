import UnitOfWork.Proofs.FlushFailure

/-! Why a flush fails. It stops at a question about a reference that has no answer, at an insert that cannot be
written, at a delete that is refused, or before the deletes because some insert still waits; there is no other
way. -/

namespace UnitOfWork

/-- A question about a reference that has no answer. -/
inductive AskFault (session : Session) : Error → Prop where
  | unmapped {entity : String} {e : Error} (unknown : session.descriptor entity = .error e) : AskFault session e
  | sourceless (key : EntityKey) (none_ : session.snapshotSource = none) : AskFault session (.noSnapshotSource key)
  | unselected {source : SnapshotSource} {journal : Journal} {d : Descriptor} {id : Identifier} {e : Error}
      (held : session.snapshotSource = some source) (refused : source.select journal d id = .error e) :
      AskFault session e

namespace AskFault
variable {before after : State} {e : Error}

theorem of_same (fault : AskFault after.session e) (factory : after.session.factory = before.session.factory)
    (source : after.session.snapshotSource = before.session.snapshotSource) : AskFault before.session e := by
  cases fault with
  | unmapped unknown =>
    unfold Session.descriptor at unknown
    rw [factory] at unknown
    exact .unmapped unknown
  | sourceless key none_ => exact .sourceless key (source ▸ none_)
  | unselected held refused => exact .unselected (source ▸ held) refused

theorem of_asks (asks : Asks before after) (fault : AskFault after.session e) : AskFault before.session e := by
  cases asks
  exact fault.of_same rfl rfl

theorem of_requeues (moved : Requeues before after) (fault : AskFault after.session e) : AskFault before.session e := by
  obtain ⟨asks, _, _⟩ := moved
  cases asks
  exact fault.of_same rfl rfl

end AskFault

namespace Action
variable {α β : Type} {s after : State} {e : Error}

/-- Where this fails, a question has no answer. -/
def AskFails (action : Action α) (s : State) : Prop :=
  ∀ e after, action.exec s = (.error e, after) → AskFault s.session e

theorem AskFails.pure (value : α) (s : State) : AskFails (pure value : Action α) s := by
  intro e after failed
  cases failed

theorem AskFails.descriptor (entity : String) (s : State) : AskFails (descriptor entity) s := by
  intro e after failed
  rw [exec_descriptor] at failed
  exact .unmapped (congrArg Prod.fst failed)

theorem AskFails.bind {first : Action α} {rest : α → Action β} {s : State} (asks : Keeps Asks first s)
    (fails : AskFails first s)
    (then_ : ∀ value middle, first.exec s = (.ok value, middle) → AskFails (rest value) middle) :
    AskFails (first >>= rest) s := by
  intro e after failed
  rcases bind_error failed with early | ⟨value, middle, began, late⟩
  · exact fails e after early
  · exact (then_ value middle began e after late).of_asks (asks.of_exec began)

theorem AskFails.get_bind {rest : State → Action β} {s : State} (then_ : AskFails (rest s) s) :
    AskFails (get >>= rest) s := by
  intro e after failed
  rw [exec_get_bind] at failed
  exact then_ e after failed

theorem AskFails.of_answers {action : Action α} {s : State} (answers : ∃ value after, action.exec s = (.ok value, after)) :
    AskFails action s := by
  intro e after failed
  obtain ⟨value, other, answered⟩ := answers
  rw [answered] at failed
  cases failed

theorem interceptorOpinion_answers (h : Handle) (s : State) :
    ∃ opinion after, (interceptorOpinion h).exec s = (.ok opinion, after) := by
  unfold interceptorOpinion
  rw [exec_get_bind]
  cases s.session.interceptor <;> exact ⟨_, _, rfl⟩

theorem readRegion_answers (name : String) (region : Region) (key : CacheKey) (s : State) :
    ∃ value after, (readRegion name region key).exec s = (.ok value, after) := by
  cases region <;> exact ⟨_, _, rfl⟩

theorem cacheOpinion_answers (d : Descriptor) (id : Identifier) (s : State) :
    ∃ opinion after, (cacheOpinion d id).exec s = (.ok opinion, after) := by
  unfold cacheOpinion
  rw [exec_get_bind]
  split
  · split
    · exact ⟨_, _, rfl⟩
    next name region _ =>
      obtain ⟨value, after, read⟩ := readRegion_answers name region (s.session.cacheKey d id) s
      rw [exec_bind_ok _ read]
      cases value <;> exact ⟨_, _, rfl⟩
  · exact ⟨_, _, rfl⟩

theorem typeOpinion_answers (d : Descriptor) (h : Handle) (s : State) :
    ∃ opinion after, (typeOpinion d h).exec s = (.ok opinion, after) := by
  unfold typeOpinion
  rw [exec_get_bind]
  dsimp only
  split
  · exact ⟨_, _, rfl⟩
  · split
    · exact cacheOpinion_answers d _ s
    · exact ⟨_, _, rfl⟩

theorem databaseSnapshot_fails (d : Descriptor) (key : EntityKey) (s : State) : AskFails (databaseSnapshot d key) s := by
  intro e after failed
  unfold databaseSnapshot at failed
  rw [exec_get_bind] at failed
  split at failed
  next none_ =>
    cases failed
    exact .sourceless key none_
  next source held =>
    split at failed
    · cases failed
    · rw [exec_record_bind] at failed
      split at failed
      next refused =>
        cases failed
        exact .unselected held refused
      · cases failed

theorem classifyByRow_fails (d : Descriptor) (h : Handle) (s : State) : AskFails (classifyByRow d h) s := by
  refine .get_bind ?_
  split
  · exact .pure _ s
  · exact .bind (databaseSnapshot_asks d _ s rfl) (databaseSnapshot_fails d _ s) fun _ middle _ => .pure _ middle

theorem classifyByType_fails (h : Handle) (assumed : Option Bool) (s : State) : AskFails (classifyByType h assumed) s := by
  refine .get_bind (.bind (.lift Asks.frame _ s) (.descriptor _ s) fun d s _ => ?_)
  refine .bind (typeOpinion_asks d h s) (.of_answers (typeOpinion_answers d h s)) fun opinion s _ => ?_
  cases opinion with
  | some _ => exact .pure _ s
  | none =>
    cases assumed with
    | some _ => exact .pure _ s
    | none => exact classifyByRow_fails d h s

theorem classifyInstance_fails (h : Handle) (assumed : Option Bool) (s : State) :
    AskFails (classifyInstance h assumed) s := by
  rw [classifyInstance_eq]
  refine .bind (interceptorOpinion_asks h s) (.of_answers (interceptorOpinion_answers h s)) fun opinion s _ => ?_
  cases opinion with
  | some _ => exact .pure _ s
  | none => exact classifyByType_fails h assumed s

end Action

namespace Nullifier
open UnitOfWork.Action

theorem isNullifiable_fails (nullifier : Nullifier) (value : AttributeValue) (s : State) :
    AskFails (nullifier.isNullifiable value) s := by
  refine .get_bind ?_
  split
  · split
    · exact .pure _ s
    · split
      · exact .pure _ s
      · exact .bind (classifyInstance_asks _ none s) (classifyInstance_fails _ none s) fun _ middle _ => .pure _ middle
  · exact .pure _ s
  · exact .pure _ s

mutual

theorem nullify_fails (nullifier : Nullifier) (a : Attribute) : ∀ (value : AttributeValue) (s : State),
    AskFails (nullifier.nullify a value) s
  | .embedded children, s => by
    unfold nullify
    split
    · exact .bind (nullifyAll_asks nullifier _ children s) (nullifyAll_fails nullifier _ children s)
        fun _ middle _ => .pure _ middle
    · exact .pure _ s
  | .reference r, s => by
    have judged : AskFails (do
        if ← nullifier.isNullifiable (.reference r) then return AttributeValue.null else return .reference r) s := by
      refine .bind (isNullifiable_asks nullifier _ s) (isNullifiable_fails nullifier _ s) fun answer middle _ => ?_
      cases answer <;> exact .pure _ middle
    unfold nullify
    split
    · exact judged
    · exact judged
    · exact .pure _ s
  | .null, s | .basic _, s | .foreignKey _, s | .anyKey _ _, s | .unfetched, s => .pure _ s

theorem nullifyAll_fails (nullifier : Nullifier) : ∀ (attributes : List Attribute) (values : List AttributeValue)
    (s : State), AskFails (nullifier.nullifyAll attributes values) s
  | _, [], s => by
    unfold nullifyAll
    exact .pure _ s
  | [], _ :: _, s => .pure _ s
  | a :: attributes, value :: values, s => by
    refine .bind (nullify_asks nullifier a value s) (nullify_fails nullifier a value s) fun _ middle _ => ?_
    exact .bind (nullifyAll_asks nullifier attributes values middle)
      (nullifyAll_fails nullifier attributes values middle) fun _ last _ => .pure _ last

end

end Nullifier

namespace Action
variable {writer : Writer} {s after : State} {e : Error}

/-- A released insert cannot be queued only for want of an answer. -/
theorem queueReleased_error : ∀ (released : List ParkedInsert) (s : State),
    (queueReleased released).exec s = (.error e, after) → AskFault s.session e
  | [], s, failed => by cases failed
  | insert :: rest, s, failed => by
    unfold queueReleased at failed
    rw [exec_bind, exec_tryCatch] at failed
    rcases tried : (queueInsert insert.handle insert.descriptor insert.early).exec s with ⟨e | _, middle⟩
    · rw [tried] at failed
      cases failed
      exact Nullifier.nullifyAll_fails _ _ _ s _ _ (queueInsert_error tried)
    · rw [tried] at failed
      exact (queueReleased_error rest middle failed).of_requeues (queueInsert_pending tried).1

theorem queueReady_error (failed : (takeReady >>= queueReleased).exec s = (.error e, after)) : AskFault s.session e := by
  rw [exec_bind_ok _ (takeReady_exec s)] at failed
  exact (queueReleased_error _ _ failed).of_same rfl rfl

theorem executeInsert_error {insert : Insert} (failed : (executeInsert writer insert).exec s = (.error e, after)) :
    InsertFault writer insert s e ∨ AskFault s.session e := by
  rcases executeInsert_cases failed with ⟨_, same, unwritten⟩ | ⟨written, wrote, released⟩
  · cases same
    exact .inl (writeInsert_error unwritten).1
  · right
    obtain ⟨_, _, _, _, _, _, _, rfl⟩ := writeInsert_ok wrote
    rw [releaseParked_exec] at released
    exact (queueReleased_error _ _ released).of_same rfl rfl

theorem executeInsert_asked {insert : Insert} {answer : Except Error Unit}
    (ran : (executeInsert writer insert).exec s = (answer, after)) (fault : AskFault after.session e) :
    AskFault s.session e := by
  rcases executeInsert_cases ran with ⟨_, _, failed⟩ | ⟨written, wrote, released⟩
  · obtain ⟨-, _, rfl⟩ := writeInsert_error failed
    exact fault.of_same rfl rfl
  · obtain ⟨_, _, _, _, _, _, _, rfl⟩ := writeInsert_ok wrote
    exact (fault.of_requeues (releaseParked_pending released).1).of_same rfl rfl

/-- A flush before its deletes. -/
def insertPhase (writer : Writer) : Action Nat := do
  takeReady >>= queueReleased
  runInserts writer (← get).actions.pendingInserts

end Action

open UnitOfWork.Action

theorem InsertRun.askFault {writer : Writer} {s after : State} {written : List Insert} {e : Error}
    (run : InsertRun writer s written after) (fault : AskFault after.session e) : AskFault s.session e := by
  induction run with
  | done s => exact fault
  | step next wrote run ih => exact (executeInsert_asked wrote (ih fault)).of_same rfl rfl

inductive FlushFault (writer : Writer) (s after : State) : Error → Prop where
  | asking {e : Error} (fault : AskFault s.session e) : FlushFault writer s after e
  | inserting {insert : Insert} {t : State} {e : Error} (fault : InsertFault writer insert t e) :
      FlushFault writer s after e
  | waiting {written : Nat} {e : Error} (inserted : (insertPhase writer).exec s = (.ok written, after))
      (blocked : after.actions.firstError? after.heap = some e) : FlushFault writer s after e
  | deleting {delete : Delete} {journal : Journal} {e : Error}
      (refused : writer.delete journal delete.descriptor delete.key.id = .error e) : FlushFault writer s after e

namespace Action
variable {writer : Writer} {s after : State}

theorem insertPhase_ok {count : Nat} : (insertPhase writer).exec s = (.ok count, after) ↔
    ∃ ready written, (takeReady >>= queueReleased).exec s = (.ok (), ready) ∧ InsertRun writer ready written after ∧
      after.actions.inserts = [] ∧ count = written.length := by
  unfold insertPhase
  constructor
  · intro ran
    obtain ⟨_, ready, began, looped⟩ := bind_ok ran
    rw [exec_get_bind] at looped
    rcases runInserts_cases _ (Nat.le_refl _) looped with ⟨written, run, drained, same⟩ | ⟨_, _, _, _, _, _, _, _, wrong⟩
    · exact ⟨ready, written, began, run, drained, Except.ok.inj same⟩
    · cases wrong
  · rintro ⟨ready, written, began, run, drained, rfl⟩
    rw [exec_bind_ok _ began, exec_get_bind]
    exact run.exec_ok drained _ (Nat.le_refl _)

theorem flush_error {e : Error} (failed : (flush writer).exec s = (.error e, after)) : FlushFault writer s after e := by
  have asked {ready middle : State} {written : List Insert}
      (began : (takeReady >>= queueReleased).exec s = (.ok (), ready)) (run : InsertRun writer ready written middle)
      (fault : AskFault middle.session e) : AskFault s.session e :=
    (run.askFault fault).of_requeues (queueReady_pending began).1
  cases flush_cases failed with
  | unqueued failed => exact .asking (queueReady_error failed)
  | stopped began run next failed =>
    rcases executeInsert_error failed with unwritten | unanswered
    · exact .inserting unwritten
    · exact .asking (asked began run (unanswered.of_same rfl rfl))
  | blocked began run drained waiting => exact .waiting (insertPhase_ok.mpr ⟨_, _, began, run, drained, rfl⟩) waiting
  | undeleted began run drained free scheduled deleted failed =>
    have same := executeDelete_error failed
    rw [same] at failed
    exact .deleting (executeDelete_fails_iff.mp failed)

end Action

theorem Context.assignKey_error {context : Context} {h : Handle} {entity : String} {key : EntityKey} {e : Error}
    (refused : context.assignKey h entity key = .error e) :
    e = .transientObject entity ∨ e = .nonUniqueObject key ∨ ∃ held, e = .keyChange held key := by
  unfold assignKey at refused
  split at refused
  · cases refused
    exact .inl rfl
  · split at refused
    next held _ =>
      split at refused
      · cases refused
      · cases refused
        exact .inr (.inr ⟨held, rfl⟩)
    next =>
      cases claimed : context.claim h key with
      | ok _ =>
        rw [claimed] at refused
        cases refused
      | error _ =>
        rw [claimed] at refused
        cases refused
        unfold claim at claimed
        split at claimed
        · split at claimed
          · cases claimed
          · cases claimed
            exact .inr (.inl rfl)
        · cases claimed

inductive FailedBy (writer : Writer) (s : State) (e : Error) : Prop where
  | insert {journal : Journal} {d : Descriptor} {current : Option Identifier} {state : List AttributeValue}
      (refused : writer.insert journal d current state = .error e) : FailedBy writer s e
  | delete {journal : Journal} {d : Descriptor} {id : Identifier} (refused : writer.delete journal d id = .error e) :
      FailedBy writer s e
  | select {source : SnapshotSource} {journal : Journal} {d : Descriptor} {id : Identifier}
      (held : s.session.snapshotSource = some source) (refused : source.select journal d id = .error e) :
      FailedBy writer s e

/-- That an insert waits for nothing is not among the errors a session makes up before its deletes. -/
theorem AskFault.nothingUnresolved {writer : Writer} {s : State} {entity : String}
    (fault : AskFault s.session (.nothingUnresolved entity)) : FailedBy writer s (.nothingUnresolved entity) := by
  cases fault with
  | unmapped unknown =>
    unfold Session.descriptor Metamodel.descriptor at unknown
    split at unknown <;> cases unknown
  | unselected held refused => exact .select held refused

theorem Action.InsertFault.nothingUnresolved {writer : Writer} {insert : Insert} {s t : State} {entity : String}
    (fault : InsertFault writer insert t (.nothingUnresolved entity)) : FailedBy writer s (.nothingUnresolved entity) := by
  cases fault with
  | refused refused => exact .insert refused
  | clash accepted known taken =>
    rcases Context.assignKey_error taken with wrong | wrong | ⟨_, wrong⟩ <;> cases wrong

end UnitOfWork
