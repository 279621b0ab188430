import UnitOfWork.Context.Basic

/-! The registry of a session knows its instances twice, by handle and by key. The two agree: a key stands
for the tracked instance whose entry has that key, and for no other. Each operation of the registry keeps
them in agreement. -/

namespace UnitOfWork

namespace Context
variable {context after : Context} {h : Handle} {key : EntityKey}

/-- The key of a tracked instance, once it has one. -/
def key? (context : Context) (h : Handle) : Option EntityKey := (context.entry? h).bind (·.key)

/-- A key stands for an instance exactly when the entry of the instance has it. -/
def Coherent (context : Context) : Prop :=
  ∀ key h, context.entity? key = some h ↔ (context.key? h).any (· == key) = true

theorem isTracked_eq (context : Context) (h : Handle) : context.isTracked h = (context.entry? h).isSome :=
  Registry.contains_eq_isSome _ _

theorem entry?_updateEntry (context : Context) (h other : Handle) (change : Entry → Entry) :
    Context.entry? (context.updateEntry h change) other =
      if h = other then (context.entry? other).map change else context.entry? other := by
  unfold updateEntry entry?
  rw [Registry.find?_modify]
  simp only [beq_iff_eq]

theorem entry?_inserted (context : Context) (h other : Handle) (entry : Entry) :
    Context.entry? { context with entries := context.entries.insert h entry } other =
      if h = other then some entry else context.entry? other := by
  unfold entry?
  rw [Registry.find?_insert]
  simp only [beq_iff_eq]

theorem entry?_erased (context : Context) (h other : Handle) :
    Context.entry? { context with entries := context.entries.erase h } other =
      if h = other then none else context.entry? other := by
  unfold entry?
  rw [Registry.find?_erase]
  simp only [beq_iff_eq]

theorem key?_eq_none (untracked : context.entry? h = none) : context.key? h = none := by
  rw [key?, untracked]
  rfl

theorem key?_updateEntry (context : Context) (h other : Handle) {change : Entry → Entry}
    (same : ∀ entry, (change entry).key = entry.key) : (context.updateEntry h change).key? other = context.key? other := by
  unfold key?
  rw [entry?_updateEntry]
  split
  · cases context.entry? other with
    | none => rfl
    | some entry => exact same entry
  · rfl

theorem entry?_removeEntry (context : Context) (h other : Handle) :
    Context.entry? (context.removeEntry h) other = if h = other then none else context.entry? other := by
  unfold removeEntry
  split
  next untracked =>
    split
    next same => exact same ▸ untracked
    next => rfl
  next => exact entry?_erased context h other

theorem entry?_removeEntity (context : Context) (other : Handle) (standing : context.entity? key = some h) :
    Context.entry? (context.removeEntity key) other = if h = other then none else context.entry? other := by
  unfold removeEntity
  rw [standing]
  exact entry?_erased context h other

theorem entity?_removeEntity (context : Context) (key other : EntityKey) :
    (context.removeEntity key).entity? other = if key == other then none else context.entity? other := by
  unfold removeEntity
  split
  next missing =>
    split
    next same => exact (Registry.find?_congr _ same).symm.trans missing
    next => rfl
  next => exact Registry.find?_erase _ key other

theorem claim_ok (claimed : context.claim h key = .ok after) :
    context.entity? key = some h ∧ after = context ∨
      context.entity? key = none ∧ after = { context with entities := context.entities.insert key h } := by
  unfold claim at claimed
  split at claimed
  next holder found =>
    split at claimed
    next same =>
      cases claimed
      exact .inl ⟨same ▸ found, rfl⟩
    next => cases claimed
  next missing =>
    cases claimed
    exact .inr ⟨missing, rfl⟩

/-- What tracking an instance with a first entry, or giving one its first key, comes down to. -/
structure Adds (context : Context) (h : Handle) (entry : Entry) (after : Context) : Prop where
  entry? : ∀ other, after.entry? other = if h = other then some entry else context.entry? other
  entity? : ∀ key, after.entity? key = if entry.key.any (· == key) then some h else context.entity? key
  free : ∀ key, entry.key.any (· == key) = true → context.entity? key = none ∨ context.entity? key = some h
  proxies : after.proxies = context.proxies
  databaseSnapshots : after.databaseSnapshots = context.databaseSnapshots
  nullifiable : after.nullifiable = context.nullifiable
  insertedKeys : after.insertedKeys = context.insertedKeys

theorem Adds.key? {entry : Entry} (adds : context.Adds h entry after) (other : Handle) :
    after.key? other = if h = other then entry.key else context.key? other := by
  unfold Context.key?
  rw [adds.entry?]
  split <;> rfl

private theorem Adds.of_claim {middle : Context} {entry : Entry} (keyed : entry.key = some key)
    (claimed : context.claim h key = .ok middle) :
    context.Adds h entry { middle with entries := middle.entries.insert h entry } := by
  have candidates : ∀ other, entry.key.any (· == other) = (key == other) := fun other => by rw [keyed]; rfl
  rcases claim_ok claimed with ⟨standing, rfl⟩ | ⟨unclaimed, rfl⟩
  · refine ⟨(entry?_inserted middle h · entry), fun other => ?_, fun other same => ?_, rfl, rfl, rfl, rfl⟩
    · rw [candidates]
      split
      next same => exact (Registry.find?_congr _ same).symm.trans standing
      next => rfl
    · rw [candidates] at same
      exact .inr ((Registry.find?_congr _ same).symm.trans standing)
  · refine ⟨(entry?_inserted _ h · entry), fun other => ?_, fun other same => ?_, rfl, rfl, rfl, rfl⟩
    · rw [candidates]
      exact Registry.find?_insert _ key other h
    · rw [candidates] at same
      exact .inl ((Registry.find?_congr _ same).symm.trans unclaimed)

theorem addEntity_ok {entry : Entry} (added : context.addEntity h entry = .ok after) :
    context.Adds h entry after := by
  unfold addEntity at added
  cases keyed : entry.key with
  | none =>
    rw [keyed] at added
    cases added
    have unkeyed (other : EntityKey) : entry.key.any (· == other) = false := by rw [keyed]; rfl
    refine ⟨(entry?_inserted context h · entry), fun other => ?_, fun other same => ?_, rfl, rfl, rfl, rfl⟩
    · rw [unkeyed]
      rfl
    · rw [unkeyed] at same
      cases same
  | some key =>
    rw [keyed] at added
    dsimp only at added
    cases claimed : context.claim h key with
    | error e => rw [claimed] at added; cases added
    | ok middle =>
      rw [claimed] at added
      cases added
      exact .of_claim keyed claimed

theorem assignKey_ok {entity : String} (assigned : context.assignKey h entity key = .ok after) :
    ∃ entry held, context.entry? h = some entry ∧ (held == key) = true ∧
      (entry.key = some held ∧ after = context ∨
        entry.key = none ∧ held = key ∧ context.Adds h { entry with key := some held } after) := by
  unfold assignKey at assigned
  split at assigned
  next => cases assigned
  next entry tracked =>
    split at assigned
    next held keyed =>
      split at assigned
      next same =>
        cases assigned
        exact ⟨entry, held, tracked, same, .inl ⟨keyed, rfl⟩⟩
      next => cases assigned
    next unkeyed =>
      cases claimed : context.claim h key with
      | error e => rw [claimed] at assigned; cases assigned
      | ok middle =>
        rw [claimed] at assigned
        cases assigned
        refine ⟨entry, key, tracked, BEq.rfl, .inr ⟨unkeyed, rfl, ?_⟩⟩
        have kept : middle.entries.find? h = some entry := by
          rcases claim_ok claimed with ⟨_, rfl⟩ | ⟨_, rfl⟩ <;> exact tracked
        have same : middle.updateEntry h (fun entry => { entry with key := some key }) =
            { middle with entries := middle.entries.insert h { entry with key := some key } } := by
          rw [updateEntry, Registry.modify, kept]
        rw [same]
        exact .of_claim rfl claimed

namespace Coherent

theorem empty : Coherent {} := fun key h => by
  change (none : Option Handle) = some h ↔ _
  constructor
  · intro none_
    cases none_
  · intro held
    rw [key?_eq_none rfl] at held
    cases held

theorem standing (coherent : context.Coherent) (stands : context.entity? key = some h) :
    ∃ entry held, context.entry? h = some entry ∧ entry.key = some held ∧ (held == key) = true := by
  obtain ⟨held, has, same⟩ := (Option.any_eq_true _ _).mp ((coherent key h).mp stands)
  obtain ⟨entry, tracked, keyed⟩ := Option.bind_eq_some_iff.mp has
  exact ⟨entry, held, tracked, keyed, same⟩

theorem tracked (coherent : context.Coherent) (stands : context.entity? key = some h) :
    ∃ entry, context.entry? h = some entry := by
  obtain ⟨entry, -, tracked, -⟩ := coherent.standing stands
  exact ⟨entry, tracked⟩

theorem congr (coherent : context.Coherent) (entities : ∀ key, after.entity? key = context.entity? key)
    (keys : ∀ h, after.key? h = context.key? h) : after.Coherent := by
  intro key h
  rw [entities, keys]
  exact coherent key h

theorem updateEntry (coherent : context.Coherent) (h : Handle) {change : Entry → Entry}
    (same : ∀ entry, (change entry).key = entry.key) : (context.updateEntry h change).Coherent :=
  coherent.congr (fun _ => rfl) fun other => key?_updateEntry context h other same

theorem puts {entry : Entry} (coherent : context.Coherent)
    (again : ∀ held, context.key? h = some held → entry.key.any (· == held) = true) (adds : context.Adds h entry after) :
    after.Coherent := by
  intro key other
  rw [adds.entity?, adds.key?]
  cases here : entry.key.any (· == key) with
  | true =>
    rw [if_pos rfl]
    by_cases same : h = other
    · rw [if_pos same, same]
      simpa using here
    · rw [if_neg same, ← coherent key other]
      rcases adds.free key here with unclaimed | standing
      · simp [unclaimed, same]
      · simp [standing]
  | false =>
    rw [if_neg Bool.false_ne_true]
    by_cases same : h = other
    · rw [if_pos same, here, coherent key other, ← same]
      cases has : context.key? h with
      | none => rfl
      | some held =>
        obtain ⟨new, keyed, equal⟩ := (Option.any_eq_true _ _).mp (again held has)
        rw [keyed, Option.any_some] at here
        rw [Option.any_some, ← BEq.congr_left equal, here]
    · rw [if_neg same]
      exact coherent key other

theorem adds {entry : Entry} (coherent : context.Coherent) (unkeyed : context.key? h = none)
    (adds : context.Adds h entry after) : after.Coherent := by
  refine coherent.puts (fun held has => ?_) adds
  rw [unkeyed] at has
  cases has

private theorem forgets (coherent : context.Coherent) (standing : context.entity? key = some h)
    (entities : ∀ other, after.entity? other = if key == other then none else context.entity? other)
    (entries : ∀ other, after.entry? other = if h = other then none else context.entry? other) : after.Coherent := by
  intro other x
  rw [entities, key?, entries]
  have found := (coherent key h).mp standing
  by_cases same : (key == other) = true
  · rw [if_pos same]
    have other_standing : context.entity? other = some h := (Registry.find?_congr _ same).symm.trans standing
    by_cases equal : h = x
    · simp [equal]
    · rw [if_neg equal, ← key?, ← coherent other x, other_standing]
      simp [equal]
  · rw [if_neg same]
    by_cases equal : h = x
    · subst x
      rw [if_pos rfl, coherent other h]
      obtain ⟨held, keyed, first⟩ := (Option.any_eq_true _ _).mp found
      rw [keyed]
      simp only [Option.any_some, Option.bind_none, Option.any_none, Bool.false_eq_true, iff_false]
      intro second
      exact same (BEq.trans (BEq.symm first) second)
    · rw [if_neg equal]
      exact coherent other x

theorem removeEntity (coherent : context.Coherent) (key : EntityKey) : (context.removeEntity key).Coherent := by
  cases standing : context.entity? key with
  | none =>
    unfold Context.removeEntity
    rw [standing]
    exact coherent
  | some h =>
    exact coherent.forgets standing (entity?_removeEntity context key) fun other =>
      entry?_removeEntity context other standing

theorem removeEntry (coherent : context.Coherent) (h : Handle) : (context.removeEntry h).Coherent := by
  cases tracked : context.entry? h with
  | none =>
    unfold Context.removeEntry
    rw [tracked]
    exact coherent
  | some entry =>
    have entries := entry?_removeEntry context h
    have known : context.key? h = entry.key := by
      rw [key?, tracked]
      rfl
    cases keyed : entry.key with
    | some key =>
      have standing : context.entity? key = some h := (coherent key h).mpr (by rw [known, keyed]; exact BEq.rfl)
      refine coherent.forgets standing (fun other => ?_) entries
      simp only [Context.removeEntry, tracked, keyed]
      exact Registry.find?_erase _ key other
    | none =>
      refine coherent.congr (fun other => ?_) fun other => ?_
      · simp only [Context.removeEntry, tracked, keyed]
        rfl
      unfold key?
      rw [entries]
      split
      next same =>
        subst other
        rw [tracked]
        exact keyed.symm
      next => rfl

end Coherent

end Context

end UnitOfWork
