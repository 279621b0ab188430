import UnitOfWork.Proofs.ForeignKeys
import UnitOfWork.Proofs.SaveInvariant

/-! New instances that refer to each other. Whether a reference to one of them can be written depends only
on which of them have a row: one that is not saved yet is judged like one whose insert is pending. -/

namespace UnitOfWork
open UnitOfWork.Action

/-- New instances in the order in which they are saved. What they refer to is among them. -/
structure Family (s : State) where
  /-- The instances, each with the flag that its save is given. -/
  members : List (Handle × Bool)
  descriptor : Handle → Descriptor
  distinct : (members.map (·.1)).Nodup
  created : ∀ h ∈ members.map (·.1), h ∈ s.heap
  new : ∀ h ∈ members.map (·.1), s.heap.id? h = none
  mapped : ∀ h ∈ members.map (·.1), s.session.descriptor (s.heap.entity h) = .ok (descriptor h)
  generated : ∀ h ∈ members.map (·.1), (descriptor h).identifier.generator ≠ .assigned
  closed : ∀ h ∈ members.map (·.1), ∀ leaf ∈ Leaf.among "" (descriptor h).attributes (s.heap.values h),
    leaf.value = .null ∨ ∃ target ∈ members.map (·.1), leaf.value = .reference (.loaded target)

namespace Action
variable {s : State} {h : Handle} {d : Descriptor}

theorem classify_new (unasked : s.session.interceptor = none) (mapped : s.session.descriptor (s.heap.entity h) = .ok d)
    (new : s.heap.id? h = none) : (classify (.reference (.loaded h)) none).exec s = (.ok .transient, s) := by
  have transient : d.isTransient (s.heap.read h) = some true := by
    rw [Descriptor.isTransient, show (s.heap.read h).id = none from new]
  change (classifyInstance h none).exec s = _
  rw [classifyInstance_exec none unasked mapped, exec_bind_ok _ (typeOpinion_exec transient)]
  rfl

end Action

namespace Family
variable {s : State} (family : Family s)

def handles : List Handle := family.members.map (·.1)

/-- Whether the row of a member is written before its identifier is known. -/
def early (h : Handle) : Bool :=
  family.members.contains (h, true) || (family.descriptor h).identifier.generator = .identity

def leaves (h : Handle) : List Leaf := Leaf.among "" (family.descriptor h).attributes (s.heap.values h)

/-- The row of one member refers to that of the other, and must. A row that is its own target exists when it is
written, unless it is written early. -/
def Needs (x y : Handle) : Prop :=
  x ∈ family.handles ∧ (∃ leaf ∈ Nullifier.required (family.leaves x), leaf.value = .reference (.loaded y)) ∧
    (x = y → family.early x = true)

/-- Whether a reference of a member cannot be written yet, when these members have rows. -/
def judge (written : List Handle) (x : Handle) : Reference → Bool
  | .loaded y => if x = y then family.early x else !written.contains y
  | _ => false

theorem judge_self (written : List Handle) (x : Handle) : family.judge written x (.loaded x) = family.early x :=
  if_pos rfl

theorem judge_other {x y : Handle} (written : List Handle) (other : x ≠ y) :
    family.judge written x (.loaded y) = !written.contains y :=
  if_neg other

theorem needs_iff {x y : Handle} (member : x ∈ family.handles) : family.Needs x y ↔
    ∃ leaf ∈ Nullifier.required (family.leaves x), leaf.value = .reference (.loaded y) ∧
      family.judge [] x (.loaded y) = true := by
  have judged : family.judge [] x (.loaded y) = true ↔ (x = y → family.early x = true) := by
    by_cases same : x = y
    · subst y
      simp [family.judge_self]
    · simp [family.judge_other _ same, same]
  rw [Needs, judged]
  exact ⟨fun ⟨_, ⟨leaf, here, refers⟩, early⟩ => ⟨leaf, here, refers, early⟩,
    fun ⟨leaf, here, refers, early⟩ => ⟨member, ⟨leaf, here, refers⟩, early⟩⟩

theorem Needs.member {family : Family s} {x y : Handle} (needs : family.Needs x y) : y ∈ family.handles := by
  obtain ⟨member, ⟨leaf, here, refers⟩, -⟩ := needs
  rcases family.closed x member leaf (List.mem_filter.mp here).1 with null | ⟨target, known, value⟩
  · rw [refers] at null
    cases null
  · rw [refers] at value
    cases value
    exact known

/-- The members are as they were, but for the rows of those that are written. -/
structure Stands (written : List Handle) (t : State) : Prop where
  factory : t.session.factory = s.session.factory
  unasked : t.session.interceptor = none
  values : ∀ h, t.heap.values h = s.heap.values h
  entity : ∀ h, t.heap.entity h = s.heap.entity h
  unidentified : ∀ h ∈ family.handles, h ∉ written → t.heap.id? h = none
  pending : ∀ h ∈ family.handles, h ∉ written → ∀ entry, t.context.entry? h = some entry →
    entry.status = .saving ∧ entry.key = none
  recorded : ∀ h ∈ written, t.Written h
  kept : ∀ key, t.context.isNullifiableKey key = false

variable {family} {written : List Handle} {t after : State} {x : Handle}

namespace Stands

theorem asks (stands : family.Stands written t) (asks : Asks t after) : family.Stands written after := by
  obtain ⟨⟩ := asks
  exact ⟨stands.factory, stands.unasked, stands.values, stands.entity, stands.unidentified, stands.pending,
    stands.recorded, stands.kept⟩

theorem mapActions (stands : family.Stands written t) (change : ActionQueue → ActionQueue) :
    family.Stands written (t.mapActions change) :=
  ⟨stands.factory, stands.unasked, stands.values, stands.entity, stands.unidentified, stands.pending,
    stands.recorded, stands.kept⟩

theorem requeues (stands : family.Stands written t) (moved : Requeues t after) : family.Stands written after := by
  obtain ⟨asks, _, _⟩ := moved
  exact (stands.asks asks).mapActions _

theorem mapped (stands : family.Stands written t) {h : Handle} (member : h ∈ family.handles) :
    t.session.descriptor (t.heap.entity h) = .ok (family.descriptor h) := by
  rw [Session.descriptor, stands.factory, stands.entity]
  exact family.mapped h member

theorem judged (stands : family.Stands written t) {y : Handle} (target : y ∈ family.handles) :
    (Nullifier.isNullifiable ⟨some x, false, family.early x⟩ (.reference (.loaded y))).exec t =
      (.ok (family.judge written x (.loaded y)), t) := by
  unfold Nullifier.isNullifiable
  rw [exec_get_bind]
  dsimp only
  by_cases same : x = y
  · subst y
    rw [family.judge_self, if_pos rfl, Bool.false_and, Bool.or_false]
    rfl
  rw [family.judge_other _ same, if_neg (fun equal => same (Option.some.inj equal))]
  by_cases row : y ∈ written
  · obtain ⟨entry, found, managed, exists_⟩ := stands.recorded y row
    have writable : t.context.isNullifiable entry (family.early x) = false := by
      rw [Context.isNullifiable, managed, if_neg nofun, exists_]
      cases family.early x with
      | true => rfl
      | false =>
        rw [if_neg Bool.false_ne_true, Option.any_eq_false]
        exact fun key _ => stands.kept key
    rw [found, List.contains_iff_mem.mpr row]
    dsimp only
    rw [writable]
    rfl
  · rw [show written.contains y = false by simpa using row]
    cases found : t.context.entry? y with
    | some entry =>
      have saving := (stands.pending y target row entry found).1
      dsimp only
      rw [Context.isNullifiable, if_pos saving]
      rfl
    | none =>
      dsimp only
      rw [exec_bind_ok _ (classify_new stands.unasked (stands.mapped target) (stands.unidentified y target row))]
      rfl

theorem judges (stands : family.Stands written t) (member : x ∈ family.handles) :
    Nullifier.JudgesBy ⟨some x, false, family.early x⟩ (family.judge written x) (family.leaves x) t := by
  intro leaf here r value after asks
  rcases family.closed x member leaf here with null | ⟨target, known, refers⟩
  · rw [value] at null
    cases null
  · rw [value] at refers
    cases refers
    rw [(stands.asks asks).judged known]

theorem nulls (stands : family.Stands written t) (member : x ∈ family.handles) : ∃ judged, Asks t judged ∧
    (Nullifier.nullifyAll ⟨some x, false, family.early x⟩ (family.descriptor x).attributes (t.heap.values x)).exec t =
      (.ok (nulledAll (family.judge written x) (family.descriptor x).attributes (s.heap.values x)), judged) := by
  rw [stands.values]
  have settled := Nullifier.nullifyAll_settled "" _ _ t (stands.judges member)
  exact ⟨_, Nullifier.nullifyAll_asks _ _ _ t, settled.exec⟩

theorem collects (stands : family.Stands written t) (member : x ∈ family.handles) : ∃ asked, Asks t asked ∧
    (dependencies (family.descriptor x).name x (t.heap.values x) (family.early x)).exec t =
      (.ok (waits (family.judge written x) (family.leaves x)), asked) := by
  have named : (Action.descriptor (family.descriptor x).name).exec t = (.ok (family.descriptor x), t) := by
    rw [exec_descriptor, Session.descriptor_name (stands.mapped member)]
  have settled := Nullifier.collectAll_settled "" (family.descriptor x).attributes (s.heap.values x) t
    fun leaf here => stands.judges member leaf (List.mem_filter.mp here).1
  refine ⟨_, dependencies_asks (family.descriptor x).name x (t.heap.values x) (family.early x) t, ?_⟩
  rw [dependencies, exec_bind_ok _ named, stands.values]
  exact settled.exec

end Stands

variable (family)

/-- A queued insert of a member keeps all that may not be null, and all that it needs has a row. -/
structure Ready (written : List Handle) (insert : Insert) : Prop where
  member : insert.handle ∈ family.handles
  descriptor : insert.descriptor = family.descriptor insert.handle
  keeps : Nullifier.required (Leaf.among "" insert.descriptor.attributes insert.state) =
    Nullifier.required (family.leaves insert.handle)
  needs : ∀ y, family.Needs insert.handle y → y ∈ written

/-- A parked insert of a member waits for what it needs and has no row yet. -/
structure Waiting (written : List Handle) (insert : ParkedInsert) : Prop where
  member : insert.handle ∈ family.handles
  descriptor : insert.descriptor = family.descriptor insert.handle
  early : insert.early = family.early insert.handle
  waits : ∀ r, (∃ dependency ∈ insert.dependencies, dependency.reference = r) ↔
    ∃ y, r = .loaded y ∧ family.Needs insert.handle y ∧ y ∉ written

structure Queued (written : List Handle) (queue : ActionQueue) : Prop where
  inserts : ∀ insert ∈ queue.inserts, family.Ready written insert
  parked : ∀ insert ∈ queue.parked, family.Waiting written insert ∧ insert.dependencies ≠ []
  deletes : queue.deletes = []

variable {family}

theorem mem_waits_iff (member : x ∈ family.handles) (r : Reference) :
    (∃ dependency ∈ waits (family.judge [] x) (family.leaves x), dependency.reference = r) ↔
      ∃ y, r = .loaded y ∧ family.Needs x y := by
  constructor
  · rintro ⟨dependency, here, rfl⟩
    obtain ⟨leaf, required, target, value, judged, rfl⟩ := Nullifier.mem_waits.mp here
    cases target with
    | loaded y => exact ⟨y, rfl, (family.needs_iff member).mpr ⟨leaf, required, value, judged⟩⟩
    | notLoaded _ | removed _ => cases judged
  · rintro ⟨y, rfl, needs⟩
    obtain ⟨leaf, required, value, judged⟩ := (family.needs_iff member).mp needs
    exact ⟨_, Nullifier.mem_waits.mpr ⟨leaf, required, _, value, judged, rfl⟩, rfl⟩

namespace Stands

theorem queues (stands : family.Stands written t) (member : x ∈ family.handles) (new : x ∉ written)
    (needs : ∀ y, family.Needs x y → y ∈ written) : ∃ judged insert, Asks t judged ∧ insert.handle = x ∧
      family.Ready written insert ∧ (queueInsert x (family.descriptor x) (family.early x)).exec t =
        (.ok (), judged.mapActions fun queue => { queue with inserts := queue.inserts ++ [insert] }) := by
  obtain ⟨judged, asks, nulled⟩ := stands.nulls member
  let insert : Insert := ⟨x, family.descriptor x,
    nulledAll (family.judge written x) (family.descriptor x).attributes (s.heap.values x)⟩
  have writable : ∀ leaf ∈ Nullifier.required (family.leaves x), ∀ r, leaf.value = .reference r →
      family.judge written x r = false := by
    intro leaf here r value
    rcases family.closed x member leaf (List.mem_filter.mp here).1 with null | ⟨y, -, refers⟩
    · rw [value] at null
      cases null
    rw [value] at refers
    cases refers
    by_cases same : x = y
    · -- a row that needs itself cannot be queued
      subst y
      rw [family.judge_self]
      apply Bool.eq_false_iff.mpr
      intro early
      exact new (needs x ⟨member, ⟨leaf, here, value⟩, fun _ => early⟩)
    · have row : y ∈ written := needs y ⟨member, ⟨leaf, here, value⟩, fun equal => absurd equal same⟩
      rw [family.judge_other _ same, List.contains_iff_mem.mpr row]
      rfl
  have keeps : Nullifier.required (Leaf.among "" insert.descriptor.attributes insert.state) =
      Nullifier.required (family.leaves x) := by
    rw [among_nulledAll]
    exact Nullifier.required_nulled writable
  refine ⟨judged, insert, asks, rfl, ⟨member, rfl, keeps, needs⟩, ?_⟩
  rw [queueInsert, exec_get_bind, exec_bind_ok _ nulled]
  rfl

end Stands

end Family

end UnitOfWork
