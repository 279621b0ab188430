import UnitOfWork.Proofs.Execution
import UnitOfWork.Proofs.RegionItems

/-! What sessions of different tenants have of each other. Two states of a session are alike if they differ in nothing
but the items that other tenants have in the cache, and in statistics. An operation is blind to other tenants if it does
the same in alike states, and leaves their items; the rules here are one for each way to compose operations. -/

namespace UnitOfWork

namespace Region

/-- Regions of one name, in two states of the cache, that have the same items under some keys. -/
inductive Agree (on : CacheKey → Prop) : Option Region → Option Region → Prop
  | absent : Agree on none none
  | external (accepts : Bool) : Agree on (some (.external accepts)) (some (.external accepts))
  | memory {region other : MemoryRegion} (items : ∀ key, on key → other.items.find? key = region.items.find? key) :
      Agree on (some (.memory region)) (some (.memory other))

namespace Agree
variable {on fewer : CacheKey → Prop} {a b c : Option Region}

theorem refl (on : CacheKey → Prop) : ∀ a, Agree on a a
  | none => .absent
  | some (.external accepts) => .external accepts
  | some (.memory _) => .memory fun _ _ => rfl

theorem trans : Agree on a b → Agree on b c → Agree on a c
  | .absent, second => second
  | .external _, second => second
  | .memory items, .memory items' => .memory fun key held => (items' key held).trans (items key held)

theorem of_imp (imp : ∀ key, fewer key → on key) : Agree on a b → Agree fewer a b
  | .absent => .absent
  | .external accepts => .external accepts
  | .memory items => .memory fun key held => items key (imp key held)

end Agree
end Region

def Shared.Agree (on : CacheKey → Prop) (here there : Shared) : Prop :=
  ∀ name, Region.Agree on (here.regions.find? name) (there.regions.find? name)

namespace State

/-- The session reads and writes items of its tenant. -/
def Owns (s : State) (key : CacheKey) : Prop := key.tenant = s.session.config.tenant

/-- One session in two states that it cannot tell apart. -/
structure Alike (s t : State) : Prop where
  heap : t.heap = s.heap
  session : t.session = s.session
  shared : Shared.Agree s.Owns s.shared t.shared

/-- Nothing is done to the items of other tenants, and the tenant stays. -/
structure Confined (before after : State) : Prop where
  config : after.session.config = before.session.config
  others : Shared.Agree (fun key => ¬ before.Owns key) before.shared after.shared

variable {s t : State} {name : String}

theorem find?_setRegion (s : State) (name other : String) (region : MemoryRegion) :
    (s.setRegion name region).shared.regions.find? other =
      if name == other then some (.memory region) else s.shared.regions.find? other :=
  Registry.find?_insert _ _ _ _

theorem shared_of_same {f : State → State} (same : ∀ s shared, f { s with shared } = { f s with shared }) (s : State) :
    (f s).shared = s.shared := by
  have unchanged : f s = { f s with shared := s.shared } := same s s.shared
  rw [unchanged]

namespace Confined

theorem frame : Frame Confined where
  refl s := ⟨rfl, fun _ => .refl _ _⟩
  trans first second := by
    refine ⟨second.config.trans first.config, fun name => (first.others name).trans (.of_imp ?_ (second.others name))⟩
    exact fun key foreign owned => foreign (owned.trans (congrArg SessionConfig.tenant first.config))

theorem of_shared {after : State} (shared : after.shared = s.shared)
    (config : after.session.config = s.session.config) : Confined s after :=
  ⟨config, fun _ => shared ▸ .refl _ _⟩

theorem setRegion {region changed : MemoryRegion} {key : CacheKey} {item : Option CacheItem}
    (found : s.shared.regions.find? name = some (.memory region)) (owned : s.Owns key)
    (written : ∀ x, changed.items.find? x = if key == x then item else region.items.find? x) :
    Confined s (s.setRegion name changed) := by
  refine ⟨rfl, fun other => ?_⟩
  rw [find?_setRegion]
  split
  next same =>
    obtain rfl := eq_of_beq same
    rw [found]
    refine .memory fun x foreign => ?_
    have apart : ¬ (key == x) = true := fun same => foreign ((CacheKey.beq_iff.mp same).2.2.symm.trans owned)
    rw [written, if_neg apart]
  next => exact .refl _ _

end Confined

namespace Alike

theorem refl (s : State) : s.Alike s := ⟨rfl, rfl, fun _ => .refl _ _⟩

theorem context (alike : s.Alike t) : t.context = s.context := congrArg Session.context alike.session

theorem actions (alike : s.Alike t) : t.actions = s.actions := congrArg Session.actions alike.session

theorem eq (alike : s.Alike t) : t = { s with shared := t.shared } := by
  obtain ⟨heap, shared, session⟩ := t
  obtain ⟨rfl, rfl⟩ : heap = s.heap ∧ session = s.session := ⟨alike.heap, alike.session⟩
  rfl

theorem change (alike : s.Alike t) {f : State → State} (same : ∀ s shared, f { s with shared } = { f s with shared })
    (config : (f s).session.config = s.session.config) : (f s).Alike (f t) := by
  have before : (f s).shared = s.shared := shared_of_same same s
  have after : f t = { f s with shared := t.shared } := by
    rw [alike.eq, same]
  refine ⟨by rw [after], by rw [after], fun name => ?_⟩
  rw [after, before]
  exact (alike.shared name).of_imp fun key owned => owned.trans (congrArg SessionConfig.tenant config)

theorem region? (alike : s.Alike t) (d : Descriptor) :
    (s.region? d = none ∧ t.region? d = none) ∨
      (∃ name accepts, s.region? d = some (name, .external accepts) ∧ t.region? d = some (name, .external accepts)) ∨
      ∃ name region other, s.region? d = some (name, .memory region) ∧ t.region? d = some (name, .memory other) ∧
        s.shared.regions.find? name = some (.memory region) ∧
        ∀ key, s.Owns key → other.items.find? key = region.items.find? key := by
  unfold State.region?
  cases d.cacheRegion with
  | none => exact .inl ⟨rfl, rfl⟩
  | some name =>
    have agree := alike.shared name
    generalize here : s.shared.regions.find? name = region at agree
    generalize there : t.shared.regions.find? name = other at agree
    rw [Option.bind_some, Option.bind_some, here, there]
    cases agree with
    | absent => exact .inl ⟨rfl, rfl⟩
    | external accepts => exact .inr (.inl ⟨name, accepts, rfl, rfl⟩)
    | memory items => exact .inr (.inr ⟨name, _, _, rfl, rfl, here, items⟩)

theorem setRegion (alike : s.Alike t) {region other changed changed' : MemoryRegion} {key : CacheKey}
    {item : Option CacheItem} (items : ∀ x, s.Owns x → other.items.find? x = region.items.find? x)
    (here : ∀ x, changed.items.find? x = if key == x then item else region.items.find? x)
    (there : ∀ x, changed'.items.find? x = if key == x then item else other.items.find? x) :
    (s.setRegion name changed).Alike (t.setRegion name changed') := by
  refine ⟨alike.heap, alike.session, fun x => ?_⟩
  rw [find?_setRegion, find?_setRegion]
  split
  · refine .memory fun x owned => ?_
    rw [here, there, items x owned]
  · exact alike.shared x

theorem mapStatistics (alike : s.Alike t) (change : Statistics → Statistics) :
    (s.mapStatistics change).Alike (t.mapStatistics change) := ⟨alike.heap, alike.session, alike.shared⟩

end Alike
end State

namespace Action
variable {α β : Type} {s t : State}
open State (Alike Confined)

/-- Two operations give the same answer and leave alike states, and the first one is confined to its tenant. -/
def InStep (first second : Action α) (s t : State) : Prop :=
  ∃ answer a b, first.exec s = (answer, a) ∧ second.exec t = (answer, b) ∧ a.Alike b ∧ Confined s a

/-- What other tenants have in the cache makes no difference to the operation, and stays. -/
def Blind (action : Action α) : Prop := ∀ s t, s.Alike t → InStep action action s t

namespace InStep

theorem pure (alike : s.Alike t) {value other : α} (same : other = value) :
    InStep (pure value) (Pure.pure other) s t := ⟨_, s, t, rfl, same ▸ rfl, alike, Confined.frame.refl s⟩

theorem bind {first second : Action α} {rest rest' : α → Action β} (began : InStep first second s t)
    (then_ : ∀ value a b, first.exec s = (.ok value, a) → a.Alike b → InStep (rest value) (rest' value) a b) :
    InStep (first >>= rest) (second >>= rest') s t := by
  obtain ⟨answer, a, b, ran, ran', alike, confined⟩ := began
  cases answer with
  | error e => exact ⟨_, a, b, exec_bind_error _ ran, exec_bind_error _ ran', alike, confined⟩
  | ok value =>
    obtain ⟨answer, after, last, rested, rested', alike, confined'⟩ := then_ value a b ran alike
    exact ⟨answer, after, last, (exec_bind_ok _ ran).trans rested, (exec_bind_ok _ ran').trans rested', alike,
      Confined.frame.trans confined confined'⟩

theorem get_bind {rest rest' : State → Action α} (then_ : InStep (rest s) (rest' t) s t) :
    InStep (get >>= rest) (get >>= rest') s t := by
  unfold InStep at *
  rwa [exec_get_bind, exec_get_bind]

theorem set {a b : State} (alike : a.Alike b) (confined : Confined s a) :
    InStep (set a : Action PUnit) (set b : Action PUnit) s t :=
  ⟨_, a, b, rfl, rfl, alike, confined⟩

theorem modify {f g : State → State} (alike : (f s).Alike (g t)) (confined : Confined s (f s)) :
    InStep (modify f : Action PUnit) (modify g : Action PUnit) s t :=
  ⟨_, _, _, rfl, rfl, alike, confined⟩

end InStep

namespace Blind

theorem pure (value : α) : Blind (pure value) := fun _ _ alike => .pure alike rfl

theorem throw (e : Error) : Blind (throw e : Action α) :=
  fun s t alike => ⟨_, s, t, rfl, rfl, alike, Confined.frame.refl s⟩

theorem lift (result : Except Error α) : Blind (liftM result : Action α) :=
  fun s t alike => ⟨_, s, t, rfl, rfl, alike, Confined.frame.refl s⟩

theorem bind {first : Action α} {rest : α → Action β} (began : Blind first) (then_ : ∀ value, Blind (rest value)) :
    Blind (first >>= rest) :=
  fun s t alike => (began s t alike).bind fun value a b _ => then_ value a b

theorem get_bind {rest : State → Action α} (same : ∀ s shared, rest { s with shared } = rest s)
    (then_ : ∀ s, Blind (rest s)) : Blind (get >>= rest) := by
  intro s t alike
  apply InStep.get_bind
  have unread : rest t = rest s := by
    rw [alike.eq, same]
  rw [unread]
  exact then_ s s t alike

theorem change {f : State → State} (same : ∀ s shared, f { s with shared } = { f s with shared })
    (config : ∀ s, (f s).session.config = s.session.config) : Blind (modify f : Action PUnit) := by
  intro s t alike
  have shared : (f s).shared = s.shared := State.shared_of_same same s
  exact .modify (alike.change same (config s)) (.of_shared shared (config s))

theorem mapHeap (f : Heap → Heap) : Blind (modify fun s => s.mapHeap f : Action PUnit) :=
  .change (fun _ _ => rfl) fun _ => rfl

theorem mapContext (f : Context → Context) : Blind (modify fun s => s.mapContext f : Action PUnit) :=
  .change (fun _ _ => rfl) fun _ => rfl

theorem mapActions (f : ActionQueue → ActionQueue) : Blind (modify fun s => s.mapActions f : Action PUnit) :=
  .change (fun _ _ => rfl) fun _ => rfl

theorem mapStatistics (f : Statistics → Statistics) : Blind (modify fun s => s.mapStatistics f : Action PUnit) :=
  fun s _ alike => .modify (alike.mapStatistics f) ⟨rfl, (Confined.frame.refl s).others⟩

theorem record (call : Call) : Blind (record call) := .change (fun _ _ => rfl) fun _ => rfl

theorem descriptor (entity : String) : Blind (descriptor entity) := .get_bind (fun _ _ => rfl) fun _ => .lift _

theorem changeContext (change : Context → Except Error Context) : Blind (changeContext change) := by
  intro s t alike
  have context := alike.context
  cases changed : change s.context with
  | error e =>
    have refused : change t.context = .error e := context ▸ changed
    exact ⟨_, s, t, exec_changeContext_error changed, exec_changeContext_error refused, alike, Confined.frame.refl s⟩
  | ok next =>
    have changed' : change t.context = .ok next := context ▸ changed
    have after : (s.mapContext fun _ => next).Alike (t.mapContext fun _ => next) :=
      Alike.change (f := fun s => s.mapContext fun _ => next) alike (fun _ _ => rfl) rfl
    exact ⟨_, _, _, exec_changeContext_ok changed, exec_changeContext_ok changed', after, .of_shared rfl rfl⟩

theorem tryCatch {action : Action α} {handler : Error → Action α} (tried : Blind action)
    (handled : ∀ e, Blind (handler e)) : Blind (tryCatch action handler) := by
  intro s t alike
  obtain ⟨answer, a, b, ran, ran', alike, confined⟩ := tried s t alike
  unfold InStep
  rw [exec_tryCatch, exec_tryCatch, ran, ran']
  cases answer with
  | ok value => exact ⟨_, a, b, rfl, rfl, alike, confined⟩
  | error e =>
    obtain ⟨answer, after, last, handled, handled', alike, confined'⟩ := handled e a b alike
    exact ⟨answer, after, last, handled, handled', alike, Confined.frame.trans confined confined'⟩

end Blind
end Action

end UnitOfWork
