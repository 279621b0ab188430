import UnitOfWork.Session.Basic

/-! Running the operations of a session. An operation answers or fails, and leaves a state either way; the
equations here take it apart step by step, and `Keeps` relates the states around it however it ends. -/

namespace UnitOfWork

/-- A change that may happen any number of times, also none. -/
structure Frame (relation : State → State → Prop) : Prop where
  refl : ∀ s, relation s s
  trans : ∀ {a b c}, relation a b → relation b c → relation a c

namespace Action
variable {α β : Type} {relation : State → State → Prop}

/-- The answer of an operation and the state it leaves. -/
def exec (action : Action α) (s : State) : Except Error α × State := action.run.run s

@[simp] theorem exec_pure (value : α) (s : State) : (pure value : Action α).exec s = (.ok value, s) := rfl

@[simp] theorem exec_get (s : State) : (get : Action State).exec s = (.ok s, s) := rfl

@[simp] theorem exec_set (after s : State) : (set after : Action PUnit).exec s = (.ok (), after) := rfl

@[simp] theorem exec_modify (change : State → State) (s : State) :
    (modify change : Action PUnit).exec s = (.ok (), change s) := rfl

@[simp] theorem exec_record (call : Call) (s : State) : (record call).exec s = (.ok (), s.record call) := rfl

@[simp] theorem exec_lift (result : Except Error α) (s : State) :
    (liftM result : Action α).exec s = (result, s) := rfl

theorem lift_ok {result : Except Error α} {s after : State} {value : α}
    (done : (liftM result : Action α).exec s = (.ok value, after)) : result = .ok value ∧ after = s := by
  rw [exec_lift] at done
  cases done
  exact ⟨rfl, rfl⟩

theorem lift_error {result : Except Error α} {s after : State} {e : Error}
    (failed : (liftM result : Action α).exec s = (.error e, after)) : result = .error e ∧ after = s := by
  rw [exec_lift] at failed
  cases failed
  exact ⟨rfl, rfl⟩

@[simp] theorem exec_descriptor (entity : String) (s : State) :
    (descriptor entity).exec s = (s.session.descriptor entity, s) := rfl

theorem exec_bind (first : Action α) (rest : α → Action β) (s : State) :
    (first >>= rest).exec s = match first.exec s with
      | (.ok value, after) => (rest value).exec after
      | (.error e, after) => (.error e, after) := by
  unfold exec ExceptT.run StateT.run
  simp only [bind, ExceptT.bind, ExceptT.mk, StateT.bind, ExceptT.bindCont]
  cases first s with
  | mk answer after => cases answer <;> rfl

theorem exec_bind_answer {first : Action α} {rest : α → Action β} {s t : State}
    (same : (first.exec s).1 = (first.exec t).1) (later : ∀ value s t, ((rest value).exec s).1 = ((rest value).exec t).1) :
    ((first >>= rest).exec s).1 = ((first >>= rest).exec t).1 := by
  rw [exec_bind, exec_bind]
  generalize first.exec s = one at same ⊢
  generalize first.exec t = other at same ⊢
  obtain ⟨answer, after⟩ := one
  obtain ⟨_, after'⟩ := other
  cases same
  cases answer with
  | ok value => exact later value after after'
  | error e => rfl

theorem exec_tryCatch (action : Action α) (handler : Error → Action α) (s : State) :
    (tryCatch action handler).exec s = match action.exec s with
      | (.ok value, after) => (.ok value, after)
      | (.error e, after) => (handler e).exec after := by
  unfold exec ExceptT.run StateT.run
  simp only [tryCatch, tryCatchThe, MonadExceptOf.tryCatch, ExceptT.tryCatch, ExceptT.mk, bind, StateT.bind]
  cases action s with
  | mk answer after => cases answer <;> rfl

theorem exec_changeContext (change : Context → Except Error Context) (s : State) :
    (changeContext change).exec s = match change s.context with
      | .ok context => (.ok (), s.mapContext fun _ => context)
      | .error e => (.error e, s) := by
  unfold changeContext
  rw [exec_bind, exec_get]
  dsimp only
  cases change s.context <;> rfl

theorem exec_changeContext_ok {change : Context → Except Error Context} {s : State} {context : Context}
    (changed : change s.context = .ok context) :
    (changeContext change).exec s = (.ok (), s.mapContext fun _ => context) := by
  rw [exec_changeContext, changed]

theorem exec_changeContext_error {change : Context → Except Error Context} {s : State} {e : Error}
    (refused : change s.context = .error e) : (changeContext change).exec s = (.error e, s) := by
  rw [exec_changeContext, refused]

theorem changeContext_ok {change : Context → Except Error Context} {s after : State}
    (done : (changeContext change).exec s = (.ok (), after)) :
    ∃ context, change s.context = .ok context ∧ after = s.mapContext fun _ => context := by
  rw [exec_changeContext] at done
  split at done
  next context changed =>
    cases done
    exact ⟨context, changed, rfl⟩
  next => cases done

theorem changeContext_error {change : Context → Except Error Context} {s after : State} {e : Error}
    (failed : (changeContext change).exec s = (.error e, after)) : change s.context = .error e ∧ after = s := by
  rw [exec_changeContext] at failed
  split at failed
  next => cases failed
  next refused =>
    cases failed
    exact ⟨refused, rfl⟩

@[simp] theorem exec_get_bind (rest : State → Action β) (s : State) :
    (get >>= rest).exec s = (rest s).exec s := by
  rw [exec_bind, exec_get]

@[simp] theorem exec_modify_bind (change : State → State) (rest : PUnit → Action β) (s : State) :
    ((modify change : Action PUnit) >>= rest).exec s = (rest ()).exec (change s) := by
  rw [exec_bind, exec_modify]

@[simp] theorem exec_record_bind (call : Call) (rest : Unit → Action β) (s : State) :
    (record call >>= rest).exec s = (rest ()).exec (s.record call) := by
  rw [exec_bind, exec_record]

theorem exec_bind_ok {first : Action α} {s middle : State} {value : α} (rest : α → Action β)
    (done : first.exec s = (.ok value, middle)) : (first >>= rest).exec s = (rest value).exec middle := by
  rw [exec_bind, done]

theorem exec_bind_error {first : Action α} {s middle : State} {e : Error} (rest : α → Action β)
    (failed : first.exec s = (.error e, middle)) : (first >>= rest).exec s = (.error e, middle) := by
  rw [exec_bind, failed]

/-- An answer that can be compared says that the operation has answered. -/
theorem exec_of_toOption {action : Action α} {s : State} {value : α}
    (answered : (action.exec s).1.toOption = some value) : action.exec s = (.ok value, (action.exec s).2) := by
  generalize action.exec s = outcome at *
  rcases outcome with ⟨e | given, after⟩
  · cases answered
  · cases answered
    rfl

theorem bind_ok {first : Action α} {rest : α → Action β} {s after : State} {answer : β}
    (done : (first >>= rest).exec s = (.ok answer, after)) :
    ∃ value middle, first.exec s = (.ok value, middle) ∧ (rest value).exec middle = (.ok answer, after) := by
  rw [exec_bind] at done
  rcases result : first.exec s with ⟨value | value, middle⟩
  · rw [result] at done
    cases done
  · rw [result] at done
    exact ⟨value, middle, rfl, done⟩

theorem bind_error {first : Action α} {rest : α → Action β} {s after : State} {e : Error}
    (failed : (first >>= rest).exec s = (.error e, after)) :
    first.exec s = (.error e, after) ∨
      ∃ value middle, first.exec s = (.ok value, middle) ∧ (rest value).exec middle = (.error e, after) := by
  rw [exec_bind] at failed
  rcases result : first.exec s with ⟨value | value, middle⟩
  · rw [result] at failed
    cases failed
    exact .inl rfl
  · rw [result] at failed
    exact .inr ⟨value, middle, rfl, failed⟩

/-- The relation holds between the state that an operation finds and the one it leaves, whether it answers
or fails. -/
def Keeps (relation : State → State → Prop) (action : Action α) (s : State) : Prop :=
  relation s (action.exec s).2

theorem Keeps.of_exec {action : Action α} {s after : State} {answer : Except Error α}
    (kept : Keeps relation action s) (ran : action.exec s = (answer, after)) : relation s after := by
  unfold Keeps at kept
  rwa [ran] at kept

theorem Keeps.pure (frame : Frame relation) (value : α) (s : State) : Keeps relation (pure value : Action α) s :=
  frame.refl s

theorem Keeps.throw (frame : Frame relation) (e : Error) (s : State) : Keeps relation (throw e : Action α) s :=
  frame.refl s

theorem Keeps.lift (frame : Frame relation) (result : Except Error α) (s : State) :
    Keeps relation (liftM result : Action α) s :=
  frame.refl s

theorem Keeps.bind (frame : Frame relation) {first : Action α} {rest : α → Action β} {s : State}
    (before : Keeps relation first s)
    (then_ : ∀ value middle, first.exec s = (.ok value, middle) → Keeps relation (rest value) middle) :
    Keeps relation (first >>= rest) s := by
  unfold Keeps at *
  rw [exec_bind]
  rcases result : first.exec s with ⟨e | value, middle⟩
  · simpa only [result] using before
  · rw [result] at before
    exact frame.trans before (then_ value middle result)

theorem Keeps.tryCatch (frame : Frame relation) {action : Action α} {handler : Error → Action α} {s : State}
    (tried : Keeps relation action s)
    (handled : ∀ e middle, action.exec s = (.error e, middle) → Keeps relation (handler e) middle) :
    Keeps relation (tryCatch action handler) s := by
  unfold Keeps at *
  rw [exec_tryCatch]
  rcases result : action.exec s with ⟨e | value, middle⟩
  · rw [result] at tried
    exact frame.trans tried (handled e middle result)
  · simpa only [result] using tried

theorem Keeps.get_bind {rest : State → Action β} {s : State} (then_ : Keeps relation (rest s) s) :
    Keeps relation (get >>= rest) s := by
  unfold Keeps at *
  rwa [exec_bind, exec_get]

end Action

end UnitOfWork
