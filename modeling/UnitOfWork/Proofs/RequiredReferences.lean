import UnitOfWork.Proofs.ForeignKeys
import UnitOfWork.Proofs.InsertOrigin

/-! Null at a foreign key that may not be null. Nulling does not ask whether a reference may be null, so it
relies on the insert having waited for those that may not. A save has just seen to that; a parked insert is
released by what its instance referred to when it was saved, whatever it refers to by then. -/

namespace UnitOfWork
open UnitOfWork.Action

namespace Queueing
variable (queueing : Queueing)

def nullifier : Nullifier := ⟨some queueing.insert.handle, false, queueing.early⟩

def attributes : List Attribute := queueing.insert.descriptor.attributes

/-- What the instance holds when its insert is queued. -/
def values : List AttributeValue := queueing.moment.heap.values queueing.insert.handle

def held : List Leaf := Leaf.among "" queueing.attributes queueing.values

def written : List Leaf := Leaf.among "" queueing.attributes queueing.insert.state

/-- Null is written where the instance holds a reference and null is not allowed. -/
def NullsRequired : Prop :=
  ∃ (i : Nat) (leaf : Leaf) (r : Reference), queueing.held[i]? = some leaf ∧ leaf.mapping.nullable = false ∧
    leaf.value = .reference r ∧ queueing.written[i]? = some { leaf with value := .null }

/-- Were it asked now what the insert has to wait for, it would have to wait. -/
def Blocked : Prop :=
  ∃ first rest after, (queueing.nullifier.collectAll "" queueing.attributes queueing.values).exec queueing.judged =
    (.ok (first :: rest), after)

variable {queueing}

theorem asks (queueing : Queueing) : Asks queueing.moment queueing.judged :=
  (Nullifier.nullifyAll_asks _ _ _ _).of_exec queueing.nulled

theorem judges (steady : queueing.moment.Steady) : queueing.nullifier.JudgesBy
    (queueing.nullifier.verdict queueing.judged) queueing.held queueing.judged :=
  Nullifier.nullifyAll_judges "" _ _ _ _ _ steady queueing.nulled

theorem written_eq (steady : queueing.moment.Steady) :
    queueing.written = queueing.held.map (Leaf.nulled (queueing.nullifier.verdict queueing.judged)) := by
  have state := Nullifier.nullifyAll_answer steady queueing.nulled
  rw [written, state]
  exact among_nulledAll _ _ _ _

theorem collected (steady : queueing.moment.Steady) :
    Settled (queueing.nullifier.collectAll "" queueing.attributes queueing.values) queueing.judged
      (waits (queueing.nullifier.verdict queueing.judged) queueing.held) :=
  Nullifier.collectAll_settled "" _ _ _ fun leaf member => judges steady leaf (List.mem_filter.mp member).1

/-- A required reference is nulled exactly when it should have been waited for. -/
theorem nullsRequired_iff (steady : queueing.moment.Steady) : queueing.NullsRequired ↔ queueing.Blocked := by
  have settled := collected steady
  constructor
  · rintro ⟨i, leaf, r, held, strict, value, null⟩
    have needed : queueing.nullifier.verdict queueing.judged r = true := by
      rw [written_eq steady, List.getElem?_map, held] at null
      have same : leaf.nulled (queueing.nullifier.verdict queueing.judged) = { leaf with value := .null } :=
        Option.some.inj null
      rw [Leaf.nulled, value] at same
      dsimp only at same
      split at same
      next judged => exact judged
      next =>
        rw [same] at value
        cases value
    have member : leaf ∈ Nullifier.required queueing.held :=
      List.mem_filter.mpr ⟨List.mem_of_getElem? held, by simp [strict]⟩
    have waiting := Nullifier.mem_waits.mpr ⟨leaf, member, r, value, needed, rfl⟩
    cases found : waits (queueing.nullifier.verdict queueing.judged) queueing.held with
    | nil =>
      rw [found] at waiting
      cases waiting
    | cons first rest =>
      rw [found] at settled
      exact ⟨first, rest, _, settled.exec⟩
  · rintro ⟨first, rest, after, collected⟩
    have answer : waits (queueing.nullifier.verdict queueing.judged) queueing.held = first :: rest := by
      have given := settled.exec
      rw [collected] at given
      exact (Except.ok.inj (congrArg Prod.fst given)).symm
    have member : first ∈ waits (queueing.nullifier.verdict queueing.judged) queueing.held := by
      rw [answer]
      exact List.mem_cons_self
    obtain ⟨leaf, present, r, value, judged, -⟩ := Nullifier.mem_waits.mp member
    obtain ⟨here, strict⟩ := List.mem_filter.mp present
    obtain ⟨i, held⟩ := List.getElem?_of_mem here
    refine ⟨i, leaf, r, held, by simpa using strict, value, ?_⟩
    rw [written_eq steady, List.getElem?_map, held, Option.map_some, Leaf.nulled, value]
    dsimp only
    rw [if_pos judged]

end Queueing

theorem Released.parked {released : List ParkedInsert} {s : State} {queueing : Queueing}
    (queued : Released released s queueing) : queueing.parked = true := by
  induction queued with
  | first _ _ _ parked => exact parked
  | later _ _ ih => exact ih

theorem Releases.parked {writer : Writer} {s : State} {queueing : Queueing} (releases : Releases writer s queueing) :
    queueing.parked = true := by
  induction releases with
  | now _ _ released => exact Released.parked released
  | later _ _ _ ih => exact ih

theorem Move.Queues.free {s : State} {move : Move} {queueing : Queueing} (queues : move.Queues s queueing)
    (direct : queueing.parked = false) (steady : queueing.moment.Steady) : ¬queueing.Blocked := by
  cases queues with
  | ready released =>
    rw [released.parked] at direct
    cases direct
  | released _ releases =>
    rw [releases.parked] at direct
    cases direct
  | @saved early d key context queueing unknown mapped added free of_entity written parked =>
    rintro ⟨first, rest, after, collected⟩
    have asks := (dependencies_asks _ _ _ _ _).of_exec free
    have before : (s.mapContext fun _ => context).Steady := asks.steady_iff.mp steady
    have same : queueing.values = s.heap.values queueing.insert.handle := by
      rw [Queueing.values, asks.heap]
      rfl
    have asked : (queueing.nullifier.collectAll "" queueing.attributes queueing.values).exec
        (s.mapContext fun _ => context) = (.ok [], queueing.moment) := by
      have named : (descriptor d.name).exec (s.mapContext fun _ => context) = (.ok d, s.mapContext fun _ => context) := by
        rw [exec_descriptor]
        exact Prod.ext (Session.descriptor_name mapped) rfl
      unfold dependencies at free
      rw [exec_bind_ok _ named] at free
      rw [Queueing.attributes, of_entity, same]
      exact free
    have judges := (Nullifier.collectAll_empty before asked).mono queueing.asks
    have again := Nullifier.collectAll_settled "" _ _ _ judges
    have empty : waits (fun _ => false) (Leaf.among "" queueing.attributes queueing.values) = [] := by
      apply List.filterMap_eq_nil_iff.mpr
      intro leaf member
      unfold Leaf.dependency?
      split <;> simp
    rw [empty] at again
    have given := again.exec
    rw [collected] at given
    cases congrArg Prod.fst given

/-- Whatever happens to a session, an insert is written with null for a required reference exactly if it was
parked and, asked again when it was released, would have had to wait. -/
theorem nulls_required_iff_released_too_early {start s after : State} {moves : List Move} {writer : Writer}
    {answer : Except Error FlushResult} (fresh : start.Fresh) (run : Run start moves s)
    (ran : (flush writer).exec s = (answer, after)) :
    ∃ calls, after.session.journal = s.session.journal ++ calls ∧
      ∀ h entity id state, .insert h entity id state ∈ calls →
        ∃ queueing : Queueing, queueing.insert.handle = h ∧ queueing.insert.descriptor.name = entity ∧
          queueing.insert.state = state ∧
          (Origin start moves s queueing ∨ (Move.flush writer).Queues s queueing) ∧
          (queueing.moment.Steady → (queueing.NullsRequired ↔ queueing.parked = true ∧ queueing.Blocked)) := by
  obtain ⟨inserts, ⟨calls, extended, passed⟩, queued⟩ := flush_passes ran
  have exact_ {before : State} {move : Move} {queueing : Queueing} (queues : move.Queues before queueing)
      (steady : queueing.moment.Steady) : queueing.NullsRequired ↔ queueing.parked = true ∧ queueing.Blocked := by
    rw [Queueing.nullsRequired_iff steady]
    refine ⟨fun blocked => ⟨?_, blocked⟩, And.right⟩
    cases direct : queueing.parked with
    | true => rfl
    | false => exact absurd blocked (queues.free direct steady)
  refine ⟨calls, extended, fun h entity id state member => ?_⟩
  obtain ⟨insert, here, handle, name, same⟩ := passed h entity id state member
  rcases queued insert here with old | ⟨queueing, rfl, queues⟩
  · obtain ⟨queueing, rfl, origin⟩ := run.origin fresh.sound (by rw [fresh.actions]) insert old
    refine ⟨queueing, handle, name, same, .inl origin, ?_⟩
    obtain ⟨_, _, _, _, _, _, _, queues, _⟩ := origin
    exact exact_ queues
  · exact ⟨queueing, handle, name, same, .inr queues, exact_ queues⟩

namespace Sample

/-- An order is saved before the first of two customers, which is its own, and then given to the second. -/
def reassigned : List Move :=
  [.save ⟨0⟩ false, .save ⟨1⟩ false, .save ⟨2⟩ false,
    .outside ⟨#[newOrder ⟨2⟩, newCustomer, newCustomer]⟩ {}]

def reassignedState : State :=
  reassigned.foldl (fun s move => move.perform s) (start #[newOrder ⟨1⟩, newCustomer, newCustomer])

theorem reassigned_run : Run (start #[newOrder ⟨1⟩, newCustomer, newCustomer]) reassigned
    reassignedState := by
  have created (h : Nat) (inside : h < 3) :
      (⟨h⟩ : Handle) ∈ (start #[newOrder ⟨1⟩, newCustomer, newCustomer]).heap := inside
  exact (Run.start : Run (start #[newOrder ⟨1⟩, newCustomer, newCustomer]) [] _)
    |>.extend (.save ⟨0⟩ false) (created 0 (by decide))
    |>.extend (.save ⟨1⟩ false) (created 1 (by decide))
    |>.extend (.save ⟨2⟩ false) (created 2 (by decide))
    |>.extend (.outside ⟨#[newOrder ⟨2⟩, newCustomer, newCustomer]⟩ {}) (Nat.le_refl 3)

def writesNull : Call → Bool
  | .insert ⟨0⟩ "Order" none [.null] => true
  | _ => false

theorem writesNull_eq {call : Call} (null : writesNull call = true) : call = .insert ⟨0⟩ "Order" none [.null] := by
  unfold writesNull at null
  split at null
  · rfl
  · cases null

theorem reassigned_flush :
    (flush writer).exec reassignedState = (.ok { inserted := 3, deleted := 0 }, ((flush writer).exec reassignedState).2) :=
  exec_of_toOption (by decide +kernel)

theorem reassigned_null :
    .insert ⟨0⟩ "Order" none [.null] ∈ ((flush writer).exec reassignedState).2.session.journal := by
  have written : ((flush writer).exec reassignedState).2.session.journal.any writesNull = true := by decide +kernel
  obtain ⟨call, member, null⟩ := List.any_eq_true.mp written
  exact writesNull_eq null ▸ member

end Sample

open Sample in
/-- The order is among the rows that the flush writes. -/
theorem nulls_required_iff_released_too_early_reassigned : ∃ s after,
    Run (start #[newOrder ⟨1⟩, newCustomer, newCustomer]) reassigned s ∧
      (flush writer).exec s = (.ok { inserted := 3, deleted := 0 }, after) ∧
      ∃ queueing : Queueing, queueing.insert.handle = ⟨0⟩ ∧ queueing.insert.state = [.null] ∧
        (Origin (start #[newOrder ⟨1⟩, newCustomer, newCustomer]) reassigned s queueing ∨
          (Move.flush writer).Queues s queueing) ∧
        (queueing.moment.Steady → (queueing.NullsRequired ↔ queueing.parked = true ∧ queueing.Blocked)) := by
  obtain ⟨calls, extended, traced⟩ :=
    nulls_required_iff_released_too_early (start_fresh _) reassigned_run reassigned_flush
  have written := reassigned_null
  rw [extended] at written
  obtain ⟨queueing, handle, -, state, origin, exact_⟩ := traced _ _ _ _ written
  exact ⟨_, _, reassigned_run, reassigned_flush, queueing, handle, state, origin, exact_⟩

open Sample in
/-- The order is written with null for its customer, although it has one when its insert is queued. -/
theorem reassigned_order_loses_customer : ∃ s after,
    Run (start #[newOrder ⟨1⟩, newCustomer, newCustomer]) reassigned s ∧
      (flush writer).exec s = (.ok { inserted := 3, deleted := 0 }, after) ∧
      .insert ⟨0⟩ "Order" none [.null] ∈ after.session.journal ∧
      ∃ queueing : Queueing, (Move.flush writer).Queues s queueing ∧ queueing.insert = ⟨⟨0⟩, order, [.null]⟩ ∧
        queueing.values = [.reference (.loaded ⟨2⟩)] ∧ queueing.moment.Steady ∧ queueing.NullsRequired := by
  refine ⟨_, _, reassigned_run, reassigned_flush, reassigned_null, ?_⟩
  let first : Insert := ⟨⟨1⟩, customer, []⟩
  let second : Insert := ⟨⟨2⟩, customer, []⟩
  -- the row of the first customer, and the state in which the order is released
  let row := ((writeInsert writer first).exec (reassignedState.taking [second])).2
  let moment := row.mapActions fun _ => (row.actions.release ⟨1⟩).2
  let queueing : Queueing := ⟨⟨⟨0⟩, order, [.null]⟩, false, true, moment, moment, rfl⟩
  have released : ReleasedBy ⟨1⟩ row queueing := @Released.first ⟨⟨0⟩, order, false, []⟩ [] queueing rfl rfl rfl rfl
  have releases : Releases writer reassignedState queueing :=
    @Releases.now writer reassignedState row first [second] queueing rfl rfl released
  refine ⟨queueing, .released (Prod.ext rfl rfl) releases, rfl, rfl, ?_, ?_⟩
  · exact ⟨(fun _ held => nomatch held), ExternalRegions.steady_default⟩
  · exact ⟨0, _, _, rfl, rfl, rfl, rfl⟩

end UnitOfWork
