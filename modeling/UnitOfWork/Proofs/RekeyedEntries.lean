import UnitOfWork.Proofs.IdentityMap

/-! The registry of a session by itself, its operations called one by one in any order. An entry that is registered again
takes the place of the old one whatever its key, but the old key goes on standing for the instance. In every other case a
key and the entry of its instance agree, and an entry keeps its key. -/

namespace UnitOfWork
open UnitOfWork.Action

namespace Context

inductive Operation where
  | add (h : Handle) (entry : Entry)
  | assign (h : Handle) (entity : String) (key : EntityKey)
  | removeEntity (key : EntityKey)
  | removeEntry (h : Handle)
  | clear

/-- Fails, or answers the registry as it is then. -/
def Operation.perform (context : Context) : Operation → Except Error Context
  | .add h entry => context.addEntity h entry
  | .assign h entity key => context.assignKey h entity key
  | .removeEntity key => .ok (context.removeEntity key)
  | .removeEntry h => .ok (context.removeEntry h)
  | .clear => .ok {}

def Operation.performed (context : Context) (operation : Operation) : Context :=
  match operation.perform context with
  | .ok after => after
  | .error _ => context

def Operation.action (operation : Operation) : Action Unit := changeContext fun context => operation.perform context

/-- The operations that fail, and how. -/
inductive Refuses (context : Context) : Operation → Error → Prop
  | taken {h other : Handle} {entry : Entry} {key : EntityKey} (offered : entry.key = some key)
      (standing : context.entity? key = some other) (different : other ≠ h) :
      Refuses context (.add h entry) (.nonUniqueObject key)
  | untracked {h : Handle} {entity : String} {key : EntityKey} (missing : context.entry? h = none) :
      Refuses context (.assign h entity key) (.transientObject entity)
  | keyed {h : Handle} {entity : String} {held key : EntityKey} (has : context.key? h = some held)
      (different : (held == key) = false) : Refuses context (.assign h entity key) (.keyChange held key)
  | claimed {h other : Handle} {entity : String} {key : EntityKey} {entry : Entry}
      (tracked : context.entry? h = some entry) (unkeyed : entry.key = none)
      (standing : context.entity? key = some other) (different : other ≠ h) :
      Refuses context (.assign h entity key) (.nonUniqueObject key)

/-- The operation gives an instance an entry with another key than it has, or with none. -/
inductive Rekeys (context : Context) : Operation → Prop
  | add {h : Handle} {entry : Entry} {held : EntityKey} (has : context.key? h = some held)
      (another : entry.key.any (· == held) = false) (accepted : ∀ e, ¬ context.Refuses (.add h entry) e) :
      Rekeys context (.add h entry)

/-- A key that stands for an instance is that of its entry, no other key stands for the instance, and entries that there
were before are gone or keep their keys. -/
structure Settles (before after : Context) : Prop where
  standing : ∀ key h, after.entity? key = some h →
    ∃ entry held, after.entry? h = some entry ∧ entry.key = some held ∧ (held == key) = true
  single : ∀ first second h, after.entity? first = some h → after.entity? second = some h → (first == second) = true
  keyed : ∀ h key, before.key? h = some key → after.entry? h = none ∨ (after.key? h).any (· == key) = true

/-- Something holds of each of some operations and of the registry that it finds. -/
def Each (holds : Context → Operation → Prop) : Context → List Operation → Prop
  | _, [] => True
  | context, operation :: later => holds context operation ∧ Each holds (operation.performed context) later

variable {context after : Context} {h : Handle} {key : EntityKey} {operation : Operation} {e : Error}

theorem claim_error_iff : context.claim h key = .error e ↔
    e = .nonUniqueObject key ∧ ∃ other, context.entity? key = some other ∧ other ≠ h := by
  unfold claim
  cases standing : context.entity? key with
  | none => simp
  | some other =>
    by_cases same : other = h
    · simp [same]
    · simp [same, eq_comm (a := e)]

theorem addEntity_error_iff {entry : Entry} : context.addEntity h entry = .error e ↔
    ∃ key, entry.key = some key ∧ context.claim h key = .error e := by
  unfold addEntity
  cases entry.key with
  | none => simp [bind, Except.bind, pure, Except.pure]
  | some key => cases claimed : context.claim h key <;> simp [claimed, bind, Except.bind, pure, Except.pure]

theorem assignKey_error_iff {entity : String} : context.assignKey h entity key = .error e ↔
    context.entry? h = none ∧ e = .transientObject entity ∨
      (∃ held, context.key? h = some held ∧ (held == key) = false ∧ e = .keyChange held key) ∨
      ∃ entry, context.entry? h = some entry ∧ entry.key = none ∧ context.claim h key = .error e := by
  unfold assignKey key?
  cases context.entry? h with
  | none => simp [eq_comm (a := e)]
  | some entry =>
    cases keyed : entry.key with
    | none => cases claimed : context.claim h key <;> simp [keyed, bind, Except.bind, pure, Except.pure]
    | some held => by_cases same : (held == key) = true <;> simp [keyed, same, eq_comm (a := e)]

theorem perform_error_iff : operation.perform context = .error e ↔ context.Refuses operation e := by
  cases operation with
  | add h entry =>
    rw [Operation.perform, addEntity_error_iff]
    constructor
    · rintro ⟨key, offered, claimed⟩
      obtain ⟨rfl, other, standing, different⟩ := claim_error_iff.mp claimed
      exact .taken offered standing different
    · rintro ⟨offered, standing, different⟩
      exact ⟨_, offered, claim_error_iff.mpr ⟨rfl, _, standing, different⟩⟩
  | assign h entity key =>
    rw [Operation.perform, assignKey_error_iff]
    constructor
    · rintro (⟨missing, rfl⟩ | ⟨held, has, different, rfl⟩ | ⟨entry, tracked, unkeyed, claimed⟩)
      · exact .untracked missing
      · exact .keyed has different
      · obtain ⟨rfl, other, standing, different⟩ := claim_error_iff.mp claimed
        exact .claimed tracked unkeyed standing different
    · intro refused
      cases refused with
      | untracked missing => exact .inl ⟨missing, rfl⟩
      | keyed has different => exact .inr (.inl ⟨_, has, different, rfl⟩)
      | claimed tracked unkeyed standing different =>
        exact .inr (.inr ⟨_, tracked, unkeyed, claim_error_iff.mpr ⟨rfl, _, standing, different⟩⟩)
  | removeEntity key => exact ⟨nofun, nofun⟩
  | removeEntry h => exact ⟨nofun, nofun⟩
  | clear => exact ⟨nofun, nofun⟩

theorem performed_eq (done : operation.perform context = .ok after) : operation.performed context = after := by
  rw [Operation.performed, done]

theorem performed_eq_self (refused : operation.perform context = .error e) : operation.performed context = context := by
  rw [Operation.performed, refused]

namespace Coherent

theorem settles (coherent : after.Coherent)
    (keyed : ∀ h key, context.key? h = some key → after.entry? h = none ∨ (after.key? h).any (· == key) = true) :
    context.Settles after where
  standing _ _ stands := coherent.standing stands
  single first second h here there := by
    obtain ⟨entry, held, tracked, has, same⟩ := coherent.standing here
    obtain ⟨entry', held', tracked', has', same'⟩ := coherent.standing there
    obtain rfl : entry = entry' := Option.some.inj (tracked.symm.trans tracked')
    obtain rfl : held = held' := Option.some.inj (has.symm.trans has')
    exact BEq.trans (BEq.symm same) same'
  keyed := keyed

theorem settles_of_keepsKeys (coherent : after.Coherent) (keeps : context.KeepsKeys after) : context.Settles after :=
  coherent.settles fun h key has => (keeps.keyed h key has).imp_right fun same => by
    rw [same]
    exact BEq.rfl

theorem performed (coherent : context.Coherent) (still : ¬ context.Rekeys operation) :
    (operation.performed context).Coherent ∧ context.Settles (operation.performed context) := by
  have kept {after : Context} (coherent : after.Coherent) (keeps : context.KeepsKeys after) :
      after.Coherent ∧ context.Settles after := ⟨coherent, coherent.settles_of_keepsKeys keeps⟩
  cases done : operation.perform context with
  | error e =>
    rw [performed_eq_self done]
    exact kept coherent (.refl context)
  | ok after =>
    rw [performed_eq done]
    cases operation with
    | add h entry =>
      have adds := addEntity_ok done
      have again (held : EntityKey) (has : context.key? h = some held) : entry.key.any (· == held) = true := by
        cases another : entry.key.any (· == held) with
        | true => rfl
        | false =>
          refine absurd (.add has another fun e refused => ?_) still
          rw [perform_error_iff.mpr refused] at done
          cases done
      have agrees := coherent.puts again adds
      refine ⟨agrees, agrees.settles fun other key has => .inr ?_⟩
      rw [adds.key?]
      split
      next same => exact again key (same ▸ has)
      next => rw [has]; exact BEq.rfl
    | assign h entity key =>
      have keeps : context.KeepsKeys after := .assignKey done
      obtain ⟨entry, held, tracked, -, ⟨-, rfl⟩ | ⟨unkeyed, -, adds⟩⟩ := assignKey_ok done
      · exact kept coherent keeps
      · refine kept (coherent.adds ?_ adds) keeps
        rw [key?, tracked]
        exact unkeyed
    | removeEntity key =>
      cases done
      exact kept (coherent.removeEntity key) (.removeEntity context key)
    | removeEntry h =>
      cases done
      exact kept (coherent.removeEntry h) (.of_forgets (entry?_removeEntry context h))
    | clear =>
      cases done
      exact ⟨.empty, Coherent.empty.settles fun _ _ _ => .inl rfl⟩

end Coherent

/-- The new key counts, and the old one goes on to stand for the instance. -/
theorem rekeyed {entry : Entry} {held : EntityKey} (another : entry.key.any (· == held) = false)
    (accepted : ∀ e, ¬ context.Refuses (.add h entry) e) :
    (Operation.performed context (.add h entry)).entity? held = context.entity? held ∧
      Context.entry? (Operation.performed context (.add h entry)) h = some entry ∧
      ∀ new, entry.key = some new → (Operation.performed context (.add h entry)).entity? new = some h := by
  cases done : (Operation.add h entry).perform context with
  | error e => exact absurd (perform_error_iff.mp done) (accepted e)
  | ok after =>
    have adds := addEntity_ok done
    rw [performed_eq done, adds.entity?, adds.entry?, another, if_pos rfl]
    refine ⟨rfl, rfl, fun new keyed => ?_⟩
    rw [adds.entity?, keyed, Option.any_some, BEq.rfl]
    rfl

theorem not_settles_of_rekeys (rekeys : context.Rekeys operation) : ¬ context.Settles (operation.performed context) := by
  cases rekeys with
  | @add h entry held has another accepted =>
    intro settles
    obtain ⟨-, put, -⟩ := rekeyed another accepted
    rcases settles.keyed h held has with gone | kept
    · rw [put] at gone
      cases gone
    · rw [key?, put, Option.bind_some, another] at kept
      cases kept

theorem Coherent.each_settles_iff {operations : List Operation} (coherent : context.Coherent) :
    Each (fun context operation => context.Settles (operation.performed context)) context operations ↔
      Each (fun context operation => ¬ context.Rekeys operation) context operations := by
  induction operations generalizing context with
  | nil => exact Iff.rfl
  | cons operation later ih =>
    constructor
    · rintro ⟨settles, rest⟩
      have still : ¬ context.Rekeys operation := fun rekeys => not_settles_of_rekeys rekeys settles
      exact ⟨still, (ih (coherent.performed still).1).mp rest⟩
    · rintro ⟨still, rest⟩
      obtain ⟨agrees, settles⟩ := coherent.performed still
      exact ⟨settles, (ih agrees).mpr rest⟩

theorem exec_action (operation : Operation) (s : State) :
    operation.action.exec s = match operation.perform s.context with
      | .ok context => (.ok (), s.mapContext fun _ => context)
      | .error e => (.error e, s) := exec_changeContext _ s

/-- Whatever is registered and forgotten, an instance stands under one key, that of its entry, and keeps it until it is
forgotten, just when no instance is registered again with another key than it has or with none. An operation fails just
when the key is taken, the instance is not tracked or it has another key to be given; it leaves everything as it was
then. Only registering again is not refused for another key: the entry gets it, and the old key stands for the instance
still. -/
theorem keys_settle_unless_rekeyed (operations : List Operation) :
    (Each (fun context operation => context.Settles (operation.performed context)) {} operations ↔
      Each (fun context operation => ¬ context.Rekeys operation) {} operations) ∧
    (∀ (s : State) (operation : Operation), (operation.action.exec s).2.context = operation.performed s.context) ∧
    (∀ (s after : State) (operation : Operation) e, operation.action.exec s = (.error e, after) ↔
      s.context.Refuses operation e ∧ after = s) ∧
    ∀ context h entry held, context.key? h = some held → entry.key.any (· == held) = false →
      (∀ e, ¬ context.Refuses (.add h entry) e) → context.entity? held = some h →
        (Operation.performed context (.add h entry)).entity? held = some h ∧
          Context.entry? (Operation.performed context (.add h entry)) h = some entry ∧
          ∀ new, entry.key = some new → (Operation.performed context (.add h entry)).entity? new = some h := by
  refine ⟨Coherent.empty.each_settles_iff, fun s operation => ?_, fun s after operation e => ?_,
    fun context h entry held has another accepted stands => ?_⟩
  · rw [exec_action, Operation.performed]
    cases operation.perform s.context <;> rfl
  · rw [← perform_error_iff, exec_action]
    cases operation.perform s.context <;> simp [eq_comm]
  · obtain ⟨old, put, new⟩ := rekeyed another accepted
    exact ⟨old.trans stands, put, new⟩

end Context

namespace Sample
open Context

def secondKey : EntityKey := customer.keyFor (.ofColumns [.bool false])

def managed (key : Option EntityKey) : Entry where
  key
  entity := "Customer"
  status := .managed
  loadedState := none
  version := none
  lock := .none
  existsInDatabase := true
  isMutable := true
  snapshot := none

def registered : Context := Operation.performed {} (.add ⟨0⟩ (managed (some firstKey)))

/-- The customer is registered twice under the same key, another one under it too, and it is given another key; then it
is forgotten, and the other one gets the key. -/
def history : List Operation :=
  [.add ⟨0⟩ (managed (some firstKey)), .add ⟨0⟩ (managed (some firstKey)), .add ⟨1⟩ (managed (some firstKey)),
    .assign ⟨0⟩ "Customer" secondKey, .removeEntity firstKey, .add ⟨1⟩ (managed none), .assign ⟨1⟩ "Customer" firstKey]

end Sample

open Sample Context in
theorem Context.keys_settle_unless_rekeyed_customers :
    Each (fun context operation => context.Settles (operation.performed context)) {} history ∧
    registered.Refuses (.add ⟨1⟩ (managed (some firstKey))) (.nonUniqueObject firstKey) ∧
    registered.Refuses (.assign ⟨0⟩ "Customer" secondKey) (.keyChange firstKey secondKey) ∧
    (Operation.performed registered (.add ⟨0⟩ (managed (some secondKey)))).entity? firstKey = some ⟨0⟩ := by
  have fresh {context : Context} {h : Handle} {entry : Entry} (unkeyed : context.key? h = none) :
      ¬ context.Rekeys (.add h entry) := by
    rintro ⟨has, -, -⟩
    rw [unkeyed] at has
    cases has
  have again : ¬ registered.Rekeys (.add ⟨0⟩ (managed (some firstKey))) := by
    rintro ⟨has, another, -⟩
    cases has
    cases another
  have still : Each (fun context operation => ¬ context.Rekeys operation) {} history :=
    ⟨fresh rfl, again, fresh rfl, nofun, nofun, fresh rfl, nofun, trivial⟩
  obtain ⟨settles, -, -, -⟩ := keys_settle_unless_rekeyed history
  refine ⟨settles.mpr still, .taken rfl rfl (by decide), .keyed rfl rfl, ?_⟩
  have accepted (e : Error) : ¬ registered.Refuses (.add ⟨0⟩ (managed (some secondKey))) e := by
    intro refused
    cases perform_error_iff.mpr refused
  exact ((keys_settle_unless_rekeyed []).2.2.2 registered ⟨0⟩ _ firstKey rfl rfl accepted rfl).1

open Sample Context in
/-- A customer that is registered again with another key stands under both. -/
theorem Context.customer_stands_under_both_keys : ∃ twice,
    (Operation.add ⟨0⟩ (managed (some secondKey))).perform registered = .ok twice ∧
    registered.key? ⟨0⟩ = some firstKey ∧ twice.key? ⟨0⟩ = some secondKey ∧ (firstKey == secondKey) = false ∧
    twice.entity? firstKey = some ⟨0⟩ ∧ twice.entity? secondKey = some ⟨0⟩ :=
  ⟨_, rfl, rfl, rfl, rfl, rfl, rfl⟩

end UnitOfWork
