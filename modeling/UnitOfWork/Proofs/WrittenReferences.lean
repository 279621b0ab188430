import UnitOfWork.Proofs.Ledger
import UnitOfWork.Proofs.RequiredReferences

/-! When the reference of an insert is written. It is judged when the insert is queued, by what the session knows
then: the target is taken to have a row, or the session does not know it and it has an identifier. What is known by
then stays so until the insert is written. -/

namespace UnitOfWork
open UnitOfWork.Action

namespace Action
variable {s after : State} {h : Handle}

theorem classifyInstance_unidentified {state : EntityState} (quiet : s.session.interceptor = none)
    (unidentified : s.heap.id? h = none) (ran : (classifyInstance h none).exec s = (.ok state, after)) :
    state = .transient := by
  have transient (d : Descriptor) : d.isTransient (s.heap.read h) = some true := by
    rw [Heap.id?] at unidentified
    rw [Descriptor.isTransient, unidentified]
  rw [classifyInstance_eq, exec_bind_ok _ (interceptorOpinion_exec h quiet)] at ran
  dsimp only at ran
  unfold classifyByType at ran
  rw [exec_get_bind] at ran
  obtain ⟨d, _, named, judged⟩ := bind_ok ran
  obtain ⟨-, rfl⟩ := lift_ok named
  rw [exec_bind_ok _ (typeOpinion_exec (transient d))] at judged
  cases judged
  rfl

end Action

/-- A reference that a write keeps is to an instance whose row is not going away, or to one that the session does not
know and that has an identifier. -/
theorem Nullifier.isNullifiable_false {nullifier : Nullifier} {s after : State} {t : Handle}
    (quiet : s.session.interceptor = none) (other : nullifier.owner ≠ some t)
    (ran : (nullifier.isNullifiable (.reference (.loaded t))).exec s = (.ok false, after)) :
    (∃ entry, s.context.entry? t = some entry ∧ s.context.isNullifiable entry nullifier.early = false) ∨
      s.context.entry? t = none ∧ s.heap.id? t ≠ none := by
  unfold Nullifier.isNullifiable at ran
  rw [exec_get_bind] at ran
  dsimp only at ran
  rw [if_neg other] at ran
  cases tracked : s.context.entry? t with
  | some entry =>
    rw [tracked] at ran
    exact .inl ⟨entry, rfl, Except.ok.inj (congrArg Prod.fst ran)⟩
  | none =>
    rw [tracked] at ran
    obtain ⟨state, _, classified, judged⟩ := bind_ok ran
    refine .inr ⟨rfl, fun unidentified => ?_⟩
    have transient := classifyInstance_unidentified quiet unidentified classified
    rw [transient] at judged
    cases judged

namespace Queueing
variable {queueing : Queueing} {t : Handle}

theorem kept (quiet : queueing.moment.session.interceptor = none) {leaf : Leaf} (member : leaf ∈ queueing.written)
    (reference : leaf.value = .reference (.loaded t)) (other : t ≠ queueing.insert.handle) :
    (∃ entry, queueing.moment.context.entry? t = some entry ∧
        queueing.moment.context.isNullifiable entry queueing.early = false) ∨
      queueing.moment.context.entry? t = none ∧ queueing.moment.heap.id? t ≠ none := by
  obtain ⟨asked, _, asks, judged⟩ := Nullifier.nullifyAll_left "" _ _ _ _ _ queueing.nulled leaf member _ reference
  have moved := Requeues.of_asks asks
  have continues := Continues.of_requeues moved
  have known := Nullifier.isNullifiable_false (continues.interceptor.trans quiet)
    (fun same => other (Option.some.inj same).symm) judged
  rw [moved.entry_eq, moved.heap, continues.isNullifiable] at known
  exact known

end Queueing

theorem Released.requeues {released : List ParkedInsert} {s : State} {queueing : Queueing}
    (queued : Released released s queueing) : Requeues s queueing.moment := by
  induction queued with
  | first _ _ _ _ => exact .refl _
  | later queued _ ih => exact (queueInsert_pending queued).1.trans ih

theorem ReleasedBy.requeues {h : Handle} {s : State} {queueing : Queueing} (queued : ReleasedBy h s queueing) :
    Requeues s queueing.moment :=
  (Requeues.mapActions s rfl).trans (Released.requeues queued)

theorem Releases.base {writer : Writer} {s : State} {queueing : Queueing} (releases : Releases writer s queueing)
    (sound : s.Sound) : ∃ row, row.Sound ∧ Advances s row ∧ Requeues row queueing.moment := by
  induction releases with
  | @now s row insert rest queueing next wrote released =>
    obtain ⟨taken, idle, -⟩ := sound.taking next
    exact ⟨row, writeInsert_sound taken idle wrote, (taking_advances s rest).trans (writeInsert_advances wrote),
      ReleasedBy.requeues released⟩
  | @later s middle insert rest queueing next wrote releases ih =>
    obtain ⟨taken, idle, -⟩ := sound.taking next
    obtain ⟨row, sound', advances, moved⟩ := ih (executeInsert_sound taken idle wrote)
    exact ⟨row, sound', (nextInsert_advances wrote).trans advances, moved⟩

namespace Move.Queues
variable {s : State} {move : Move} {queueing : Queueing}

/-- An insert is queued in a state that a sound one leads to by asking and rearranging the queue. -/
theorem base (queues : move.Queues s queueing) (sound : s.Sound) (allowed : move.Allowed s) :
    ∃ base : State, base.Sound ∧ Continues s base ∧ Requeues base queueing.moment ∧
      ∀ writer, move = .flush writer → Advances s base := by
  cases queues with
  | @saved early d key context queueing unknown mapped added free _ _ _ =>
    have untracked := (untracked_iff s _).mp unknown
    have adds := Context.addEntity_ok added
    refine ⟨s.mapContext fun _ => context, ?_, .mapContext s adds.nullifiable, ?_, nofun⟩
    · exact sound.adds allowed (Context.key?_eq_none untracked) (fun due => sound.tracked (.inl due) untracked) adds
    · exact .of_asks ((dependencies_asks _ _ _ _ _).of_exec free)
  | ready released =>
    exact ⟨s, sound, .refl s, (Requeues.mapActions s rfl).trans released.requeues, fun _ _ => .refl s⟩
  | released began releases =>
    have started := queueReady_advances began
    obtain ⟨row, sound', advances, moved⟩ := releases.base (ready_sound sound began)
    exact ⟨row, sound', (started.trans advances).toContinues, moved, fun _ _ => started.trans advances⟩

theorem continues (queues : move.Queues s queueing) (sound : s.Sound) (allowed : move.Allowed s) :
    Continues s queueing.moment := by
  obtain ⟨base, -, continues, moved, -⟩ := queues.base sound allowed
  exact continues.trans (.of_requeues moved)

theorem scheduled (queues : move.Queues s queueing) (sound : s.Sound) (allowed : move.Allowed s) (ledger : Ledger s)
    {delete : Delete} (member : delete ∈ queueing.moment.actions.deletes) :
    ∃ entry, queueing.moment.context.entry? delete.handle = some entry ∧
      entry.key.any queueing.moment.context.isNullifiableKey = true := by
  obtain ⟨base, sound', continues, moved, -⟩ := queues.base sound allowed
  rw [moved.deletes] at member
  have keyed := (sound'.coherent _ _).mp (sound'.scheduled delete member)
  rw [Context.key?] at keyed
  cases tracked : base.context.entry? delete.handle with
  | none =>
    rw [tracked] at keyed
    cases keyed
  | some entry =>
    rw [tracked] at keyed
    obtain ⟨key, held, same⟩ := Option.any_eq_true _ _ |>.mp keyed
    refine ⟨entry, by rw [moved.entry_eq, tracked], Option.any_eq_true _ _ |>.mpr ⟨key, held, ?_⟩⟩
    rw [(Continues.of_requeues moved).isNullifiableKey]
    exact (Registry.contains_congr _ same).trans (continues.marked ledger.marked delete member)

end Move.Queues

end UnitOfWork
