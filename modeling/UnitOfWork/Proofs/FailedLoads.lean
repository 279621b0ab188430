import UnitOfWork.Proofs.LoadResults

/-! Loads that fail. Whatever stops one, be it the row source, a row that cannot be read, a key that leads nowhere or a
listener, its instances are forgotten, and what the session knew of others is as it was. Only proxies may stay, for
rows that the rows of the load refer to. -/

namespace UnitOfWork
open UnitOfWork.Action

namespace State

theorem discarding_eq (s : State) (batch : Batch) : ∃ entries entities, s.discarding batch =
    s.mapContext fun context => { context with entries, entities } := by
  obtain ⟨entities⟩ := batch
  induction entities generalizing s with
  | nil => exact ⟨_, _, rfl⟩
  | cons entity rest ih =>
    obtain ⟨entries, keys, forgotten⟩ : ∃ entries entities, s.context.removeEntry entity.handle =
        { s.context with entries, entities } := by
      unfold Context.removeEntry
      split <;> exact ⟨_, _, rfl⟩
    obtain ⟨entries', keys', same⟩ := ih (s.mapContext fun context => context.removeEntry entity.handle)
    refine ⟨entries', keys', same.trans ?_⟩
    change (s.mapSession fun session => { session with context := { s.context.removeEntry entity.handle with
      entries := entries', entities := keys' } }) = _
    rw [forgotten]
    rfl

theorem entry?_discarding (s : State) (batch : Batch) (h : Handle) : Context.entry? (s.discarding batch).context h =
    if batch.entities.any (fun entity => entity.handle = h) then none else s.context.entry? h := by
  obtain ⟨entities⟩ := batch
  induction entities generalizing s with
  | nil => rfl
  | cons entity rest ih =>
    refine (ih (s.mapContext fun context => context.removeEntry entity.handle)).trans ?_
    have removed : Context.entry? (s.mapContext fun context => context.removeEntry entity.handle).context h =
        if entity.handle = h then none else s.context.entry? h := Context.entry?_removeEntry _ _ _
    rw [removed, List.any_cons]
    by_cases same : entity.handle = h <;> simp [same]

end State

/-- What is left of a load of these rows that has failed. -/
structure Undone (entity : String) (rows : List (Except Error Row)) (s failed : State) : Prop where
  session : ∃ journal naturalIds entries entities proxies, failed.session =
    { s.session with journal, naturalIds, context := { s.context with entries, entities, proxies } }
  entries : ∀ h, failed.context.entry? h = s.context.entry? h
  size : s.heap.size ≤ failed.heap.size
  instances : (∀ d, s.session.descriptor entity = .ok d → s.Writes (fun given h => h = given) d) →
    ∀ h ∈ s.heap, failed.heap.read h = s.heap.read h
  proxies : ∀ key, failed.context.proxy? key = s.context.proxy? key ∨
    s.context.proxy? key = none ∧ s.context.entity? key = none ∧
      failed.context.proxy? key = some s.session.config.readOnly ∧
      ∃ d found, s.session.descriptor entity = .ok d ∧ d.Hydrates rows found ∧ (∀ row ∈ found, (row.key == key) = false) ∧
        ∃ row, s.Introduces found row ∧
          (s.session.factory.metamodel.keysAmong d.attributes row.values).any (· == key) = true

namespace Undone
variable {entity : String} {rows : List (Except Error Row)} {s middle last : State} {d : Descriptor}
  {options : LoadOptions} {seen : List HydratedRow} {progress : LoadProgress}

theorem factory (undone : Undone entity rows s middle) : middle.session.factory = s.session.factory := by
  obtain ⟨_, _, _, _, _, same⟩ := undone.session
  rw [same]

theorem config (undone : Undone entity rows s middle) : middle.session.config = s.session.config := by
  obtain ⟨_, _, _, _, _, same⟩ := undone.session
  rw [same]

theorem nothing (entity : String) (rows : List (Except Error Row)) (s : State) : Undone entity rows s s where
  session := ⟨_, _, _, _, _, rfl⟩
  entries _ := rfl
  size := Nat.le_refl _
  instances _ _ _ := rfl
  proxies _ := .inl rfl

theorem entry?_eq (sound : s.Sound) (admitted : Admitted s d options seen progress middle)
    (finishing : Finishing progress.batch.entities middle last) (h : Handle) :
    (last.discarding progress.batch).context.entry? h = s.context.entry? h := by
  rw [State.entry?_discarding]
  split
  next created =>
    obtain ⟨entity, member, same⟩ := List.any_eq_true.mp created
    obtain rfl := of_decide_eq_true same
    exact (sound.untracked (admitted.created entity member).1).symm
  next other =>
    have foreign : ∀ entity ∈ progress.batch.entities, entity.handle ≠ h := by
      intro entity member same
      exact other (List.any_eq_true.mpr ⟨entity, member, decide_eq_true same⟩)
    rw [finishing.entries h foreign, admitted.entries h foreign]

theorem of_batch (sound : s.Sound) (mapped : s.session.descriptor entity = .ok d)
    (admitted : Admitted s d options seen progress middle) (finishing : Finishing progress.batch.entities middle last)
    (proxies : ∀ key, last.context.proxy? key = middle.context.proxy? key ∨ d.Hydrates rows seen) :
    Undone entity rows s (last.discarding progress.batch) := by
  obtain ⟨entries, entities, discarded⟩ := last.discarding_eq progress.batch
  have context : middle.context.proxy? = s.context.proxy? := by
    unfold State.context
    rw [admitted.registers.session]
    rfl
  constructor
  case session =>
    obtain ⟨journal, naturalIds, _, kept, same⟩ := finishing.session
    refine ⟨journal, naturalIds, entries, entities, kept, ?_⟩
    rw [discarded]
    unfold State.mapContext State.mapSession
    rw [same]
    unfold State.context
    rw [admitted.registers.session]
  case entries => exact entry?_eq sound admitted finishing
  case size =>
    rw [discarded]
    exact Nat.le_trans admitted.grown (Nat.le_of_eq finishing.size.symm)
  case instances =>
    intro writes h old
    rw [discarded]
    exact admitted.untouched finishing (writes d mapped) h old
  case proxies =>
    intro key
    have kept : (last.discarding progress.batch).context.proxy? key = last.context.proxy? key := by
      rw [discarded]
      rfl
    rw [kept]
    rcases proxies key with same | hydrates
    · exact .inl (same.trans (congrFun context key))
    · have marked := finishing.proxies key
      rw [congrFun context key] at marked
      rcases marked with same | ⟨unmarked, missing, marked, reached⟩
      · exact .inl same
      · obtain ⟨unknown, apart⟩ := (admitted.entity?_eq_none key).mp missing
        obtain ⟨entity, member, led⟩ := List.any_eq_true.mp reached
        rw [LoadingEntity.keys, admitted.described entity member, admitted.factory] at led
        rw [admitted.config] at marked
        exact .inr ⟨unmarked, unknown, marked, d, seen, mapped, hydrates, apart, entity.row,
          (admitted.introduced _).mp ⟨entity, member, rfl⟩, led⟩

end Undone

/-- A load that fails is undone, whatever has stopped it. -/
theorem load_undone {entity : String} {rows : List (Except Error Row)} {options : LoadOptions} {s failed : State}
    {e : Error} (sound : s.Sound) (refused : (load entity rows options).exec s = (.error e, failed)) :
    Undone entity rows s failed := by
  cases load_loads refused with
  | refused => exact .nothing entity rows s
  | stopped _ mapped _ admitted _ => exact .of_batch sound mapped admitted (.refl _) fun _ => .inl rfl
  | failed _ mapped hydrates _ admitted ran =>
    exact .of_batch sound mapped admitted (finishUp_initialized admitted.ready admitted.apart ran).1 fun _ => .inr hydrates

theorem Context.Coherent.entity?_eq {context other : Context} (coherent : context.Coherent) (coherent' : other.Coherent)
    (entries : ∀ h, other.entry? h = context.entry? h) (key : EntityKey) : other.entity? key = context.entity? key := by
  apply Option.ext
  intro h
  have same : other.key? h = context.key? h := congrArg (Option.bind · Entry.key) (entries h)
  rw [coherent' key h, coherent key h, same]

theorem load_undone_keys {entity : String} {rows : List (Except Error Row)} {options : LoadOptions} {s failed : State}
    {e : Error} (sound : s.Sound) (refused : (load entity rows options).exec s = (.error e, failed)) (key : EntityKey) :
    failed.context.entity? key = s.context.entity? key :=
  sound.coherent.entity?_eq (load_sound sound refused).1.coherent (load_undone sound refused).entries key

end UnitOfWork
