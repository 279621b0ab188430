import UnitOfWork.Proofs.FlushConservation

/-! An instance is never inserted twice over. It has at most one pending insert, while it is tracked as one
without a row and not to be deleted; and the writer gets it again only after it had been forgotten and was
saved anew. -/

namespace UnitOfWork
open UnitOfWork.Action

namespace Action
variable {s after : State} {h : Handle}

theorem save_reads {early : Bool} {answer : Except Error Unit} (ran : (save h early).exec s = (answer, after)) :
    Reads s after := by
  cases save_cases ran with
  | known => exact .refl s
  | refused => exact .refl s
  | scheduled _ _ _ _ ran => exact (scheduleInsert_pending ran).1.journal
  | undone _ _ _ _ failed => exact (scheduleInsert_pending failed).1.journal

theorem save_pending {x : Handle} {early : Bool} {answer : Except Error Unit}
    (ran : (save h early).exec s = (answer, after)) (due : x ∈ after.actions.pending) :
    x ∈ s.actions.pending ∨ x = h ∧ s.context.entry? h = none := by
  cases save_cases ran with
  | known => exact .inl due
  | refused => exact .inl due
  | scheduled unknown _ _ _ ran =>
    obtain ⟨-, ⟨_, wrong, _⟩ | ⟨-, grown⟩⟩ := scheduleInsert_pending ran
    · cases wrong
    · rcases List.mem_cons.mp (grown.mem_iff.mp due) with rfl | old
      · exact .inr ⟨rfl, (untracked_iff s _).mp unknown⟩
      · exact .inl old
  | @undone d key context e middle unknown _ _ _ failed =>
    obtain ⟨-, ⟨_, _, same⟩ | ⟨wrong, _⟩⟩ := scheduleInsert_pending failed
    · change x ∈ middle.actions.pending at due
      rw [same] at due
      exact .inl due
    · cases wrong

end Action

namespace Move
variable {s after : State} {move : Move}

theorem Performs.pending (performs : Performs s move after) {h : Handle} (due : h ∈ after.actions.pending) :
    h ∈ s.actions.pending ∨ s.context.entry? h = none ∧ ∃ early, move = .save h early := by
  cases performs with
  | saved ran =>
    rcases save_pending ran due with old | ⟨rfl, unknown⟩
    · exact .inl old
    · exact .inr ⟨unknown, _, rfl⟩
  | deleted ran =>
    cases delete_cases ran with
    | @canceled =>
      left
      change h ∈ (s.actions.cancelInsert _).pending at due
      rw [ActionQueue.pending_cancelInsert] at due
      exact (List.mem_filter.mp due).1
    | refused | gone | scheduled => exact .inl due
  | flushed ran =>
    obtain ⟨written, deleted, middle, phase, -, remaining, -⟩ := flush_phases ran
    rw [remaining] at due
    exact .inl (phase.conserved.mem_iff.mp (List.mem_append_right _ due))
  | loaded spares => exact .inl (spares.actions ▸ due)
  | attached => exact .inl due
  | cleared => exact absurd due List.not_mem_nil
  | aside _ aside => exact .inl (aside.beside.actions ▸ due)

/-- A move passes only instances with a pending insert to the writer, each once, and their inserts are not
pending afterwards. -/
theorem Performs.inserts (performs : Performs s move after) (sound : s.Sound) : ∃ calls,
    after.session.journal = s.session.journal ++ calls ∧ (calls.filterMap Call.inserted?).Nodup ∧
      ∀ h ∈ calls.filterMap Call.inserted?, h ∈ s.actions.pending ∧ h ∉ after.actions.pending := by
  have idle (reads : Reads s after) : ∃ calls, after.session.journal = s.session.journal ++ calls ∧
      (calls.filterMap Call.inserted?).Nodup ∧
      ∀ h ∈ calls.filterMap Call.inserted?, h ∈ s.actions.pending ∧ h ∉ after.actions.pending := by
    obtain ⟨calls, extended, quiet⟩ := reads
    have none_ := (Wrote.silent quiet).1
    exact ⟨calls, extended, by rw [none_]; exact .nil, by rw [none_]; exact fun _ wrong => nomatch wrong⟩
  cases performs with
  | saved ran => exact idle (save_reads ran)
  | deleted ran => cases delete_cases ran <;> exact idle (.of_same rfl)
  | flushed ran =>
    obtain ⟨written, deleted, middle, phase, deletes, remaining, -⟩ := flush_phases ran
    obtain ⟨calls, extended, same, -⟩ := phase.wrote.trans deletes
    have distinct := List.nodup_append.mp (phase.conserved.nodup_iff.mpr sound.distinct)
    rw [List.append_nil] at same
    rw [← same] at phase distinct
    refine ⟨calls, extended, distinct.1, fun h member => ⟨?_, fun due => ?_⟩⟩
    · exact phase.conserved.mem_iff.mp (List.mem_append_left _ member)
    · rw [remaining] at due
      exact distinct.2.2 h member h due rfl
  | loaded spares => exact idle spares.reads
  | attached => exact idle (.of_same rfl)
  | cleared => exact idle (.of_same rfl)
  | aside _ aside => exact idle aside.reads

end Move

/-- After these calls, and with no more than those that follow, the instance was untracked and was saved. -/
def Resaved (start : State) (moves : List Move) (h : Handle) (earlier later : Journal) : Prop :=
  ∃ before early rest t between, moves = before ++ .save h early :: rest ∧ Run start before t ∧
    t.context.entry? h = none ∧ t.session.journal = start.session.journal ++ earlier ++ between ∧ between <+: later

theorem Resaved.mono {start : State} {moves more : List Move} {h : Handle} {earlier later longer : Journal}
    (resaved : Resaved start moves h earlier later) (longer_ : later <+: longer) :
    Resaved start (moves ++ more) h earlier longer := by
  obtain ⟨before, early, rest, t, between, rfl, run, untracked, extended, inside⟩ := resaved
  refine ⟨before, early, rest ++ more, t, between, ?_, run, untracked, extended, inside.trans longer_⟩
  rw [List.append_assoc, List.cons_append]

/-- What the calls of a run say: a pending insert, and every insert but the first, comes from a save that found
the instance untracked after the insert before. -/
structure Accounts (start : State) (moves : List Move) (s : State) (calls : Journal) : Prop where
  journal : s.session.journal = start.session.journal ++ calls
  pending : ∀ h earlier first later, calls = earlier ++ first :: later → first.inserted? = some h →
    h ∈ s.actions.pending → Resaved start moves h (earlier ++ [first]) later
  repeated : ∀ h earlier first between second later, calls = earlier ++ first :: (between ++ second :: later) →
    first.inserted? = some h → second.inserted? = some h → Resaved start moves h (earlier ++ [first]) between

private theorem split_append {α : Type} {first second earlier later : List α} {x : α}
    (same : first ++ second = earlier ++ x :: later) :
    (∃ rest, first = earlier ++ x :: rest ∧ later = rest ++ second) ∨
      ∃ rest, earlier = first ++ rest ∧ second = rest ++ x :: later := by
  rcases List.append_eq_append_iff.mp same with ⟨rest, inside, here⟩ | ⟨rest, inside, here⟩
  · exact .inr ⟨rest, inside, here⟩
  · cases rest with
    | nil => exact .inr ⟨[], by rw [inside, List.append_nil, List.append_nil], here.symm⟩
    | cons head rest =>
      obtain ⟨rfl, rfl⟩ := List.cons.inj here
      exact .inl ⟨rest, inside, rfl⟩

private theorem mem_inserted {calls earlier later : Journal} {call : Call} {h : Handle}
    (split_ : calls = earlier ++ call :: later) (inserted : call.inserted? = some h) :
    h ∈ calls.filterMap Call.inserted? :=
  List.mem_filterMap.mpr ⟨call, split_ ▸ List.mem_append_right _ List.mem_cons_self, inserted⟩

theorem Accounts.step {start s : State} {moves : List Move} {calls : Journal} {move : Move}
    (accounts : Accounts start moves s calls) (run : Run start moves s) (sound : s.Sound) (allowed : move.Allowed s) :
    ∃ calls, Accounts start (moves ++ [move]) (move.perform s) calls := by
  have performs := move.performs sound allowed
  obtain ⟨new, extended, distinct, owed⟩ := performs.inserts sound
  refine ⟨calls ++ new, by rw [extended, accounts.journal, List.append_assoc], ?_, ?_⟩
  · intro h earlier first later split_ inserted due
    rcases split_append split_ with ⟨rest, old, rfl⟩ | ⟨rest, -, here⟩
    · rcases performs.pending due with pending | ⟨untracked, early, rfl⟩
      · exact (accounts.pending h earlier first rest old inserted pending).mono (List.prefix_append _ _)
      · refine ⟨moves, early, [], s, rest, rfl, run, untracked, ?_, List.prefix_append _ _⟩
        rw [accounts.journal, old]
        simp
    · exact absurd due (owed h (mem_inserted here inserted)).2
  · intro h earlier first between second later split_ inserted inserted'
    rcases split_append split_ with ⟨rest, old, others⟩ | ⟨rest, -, here⟩
    · rcases split_append others.symm with ⟨rest', rfl, -⟩ | ⟨rest', rfl, here⟩
      · exact (accounts.repeated h earlier first between second rest' old inserted inserted').mono (List.prefix_refl _)
      · have pending := (owed h (mem_inserted here inserted')).1
        exact (accounts.pending h earlier first rest old inserted pending).mono (List.prefix_append _ _)
    · -- both calls are of this move, which passes no instance twice
      rw [here] at distinct
      simp [List.filterMap_append, inserted, inserted', List.nodup_append] at distinct

theorem Run.accounts {start s : State} {moves : List Move} (run : Run start moves s) (initial : start.Sound) :
    ∃ calls, Accounts start moves s calls := by
  induction run with
  | start =>
    refine ⟨[], (List.append_nil _).symm, fun h earlier first later wrong => ?_,
      fun h earlier first between second later wrong => ?_⟩
    · cases earlier <;> cases wrong
    · cases earlier <;> cases wrong
  | @step moves s move run allowed ih =>
    obtain ⟨calls, accounts⟩ := ih
    exact accounts.step run (run.sound initial) allowed

/-- In every state of a session an instance has at most one insert that is queued or parked; one that has is
tracked as not existing in the database and is not to be deleted. Of any two inserts of an instance that the
writer was passed, the second comes after the instance was untracked and saved again. -/
theorem pending_insert_is_only_one {start s : State} {moves : List Move} (fresh : start.Fresh)
    (run : Run start moves s) :
    s.actions.pending.Nodup ∧
      (∀ h ∈ s.actions.pending, ∃ entry, s.context.entry? h = some entry ∧ entry.existsInDatabase = false) ∧
      (∀ delete ∈ s.actions.deletes, delete.handle ∉ s.actions.pending) ∧
      ∃ calls, s.session.journal = start.session.journal ++ calls ∧
        ∀ h earlier first between second later, calls = earlier ++ first :: (between ++ second :: later) →
          first.inserted? = some h → second.inserted? = some h →
          Resaved start moves h (earlier ++ [first]) between := by
  have sound := run.sound fresh.sound
  obtain ⟨calls, accounts⟩ := run.accounts fresh.sound
  refine ⟨sound.distinct, fun h due => ?_, sound.separate, calls, accounts.journal, accounts.repeated⟩
  obtain ⟨key, standing⟩ := sound.unwritten h due
  obtain ⟨entry, tracked, same⟩ := Option.map_eq_some_iff.mp standing
  exact ⟨entry, tracked, congrArg Prod.snd same⟩

namespace Sample

def keeping : Writer where
  insert journal d id state := if id.isSome then .ok none else writer.insert journal d id state
  delete := writer.delete

def reinserted : List Move :=
  [.save ⟨0⟩ false, .flush keeping, .delete ⟨0⟩, .flush keeping, .save ⟨0⟩ false, .flush keeping]

def reinsertedState : State := reinserted.foldl (fun s move => move.perform s) (start #[newCustomer])

theorem reinserted_run : Run (start #[newCustomer]) reinserted reinsertedState := by
  have created {s : State} (one : s.heap.size = 1) : (⟨0⟩ : Handle) ∈ s.heap :=
    Nat.lt_of_lt_of_eq Nat.zero_lt_one one.symm
  exact (Run.start : Run (start #[newCustomer]) [] _)
    |>.extend (.save ⟨0⟩ false) (created rfl)
    |>.extend (.flush keeping) trivial
    |>.extend (.delete ⟨0⟩) trivial
    |>.extend (.flush keeping) trivial
    |>.extend (.save ⟨0⟩ false) (created rfl)
    |>.extend (.flush keeping) trivial

end Sample

open Sample in
/-- A customer that is inserted, deleted and inserted again was saved again. -/
theorem pending_insert_is_only_one_reinserted : ∃ first between second,
    Run (start #[newCustomer]) reinserted reinsertedState ∧
      reinsertedState.session.journal = first :: between ++ [second] ∧ first.inserted? = some ⟨0⟩ ∧
      second.inserted? = some ⟨0⟩ ∧ reinsertedState.actions.pending.Nodup ∧
      Resaved (start #[newCustomer]) reinserted ⟨0⟩ [first] between := by
  obtain ⟨distinct, -, -, calls, extended, resaved⟩ := pending_insert_is_only_one (start_fresh _) reinserted_run
  obtain ⟨first, between, second, here, inserted, inserted'⟩ : ∃ first between second,
      reinsertedState.session.journal = first :: (between ++ [second]) ∧ first.inserted? = some ⟨0⟩ ∧
        second.inserted? = some ⟨0⟩ := ⟨_, [_], _, rfl, rfl, rfl⟩
  refine ⟨first, between, second, reinserted_run, here, inserted, inserted', distinct, ?_⟩
  exact resaved ⟨0⟩ [] first between second [] (extended.symm.trans here) inserted inserted'

end UnitOfWork
