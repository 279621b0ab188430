import UnitOfWork.Proofs.Lifecycle

/-! Whether pending work shows in the status of an entry. An instance that waits for its insert or its delete can be
made read-only like any other, which takes the place of the status it had; from then on the session takes it for one
whose row is there to stay. -/

namespace UnitOfWork
open UnitOfWork.Action

/-- The scheduled deletes of an instance. -/
def State.deletesOf (s : State) (h : Handle) : List Delete := s.actions.deletes.filter (·.handle = h)

theorem State.mem_deletesOf {s : State} {h : Handle} {delete : Delete} :
    delete ∈ s.deletesOf h ↔ delete ∈ s.actions.deletes ∧ delete.handle = h := by
  rw [deletesOf, List.mem_filter, decide_eq_true_iff]

theorem State.deletesOf_append {s after : State} {delete : Delete}
    (queued : after.actions.deletes = s.actions.deletes ++ [delete]) :
    after.deletesOf delete.handle = s.deletesOf delete.handle ++ [delete] := by
  unfold deletesOf
  rw [queued, List.filter_append, List.filter_singleton, decide_eq_true rfl]
  rfl

theorem State.Sound.keyed {s : State} (sound : s.Sound) {delete : Delete} {entry : Entry}
    (scheduled : delete ∈ s.actions.deletes) (tracked : s.context.entry? delete.handle = some entry) :
    ∃ key, entry.key = some key ∧ (key == delete.key) = true := by
  have keyed := (sound.coherent _ _).mp (sound.scheduled delete scheduled)
  rw [Context.key?, tracked] at keyed
  exact (Option.any_eq_true _ _).mp keyed

theorem Context.isNullifiable_late {context : Context} {entry : Entry} : context.isNullifiable entry false = true ↔
    entry.status = .saving ∨ entry.key.any context.isNullifiableKey = true := by
  unfold isNullifiable
  split <;> simp [*]

/-- The instance was made read-only, and since then this has held. -/
def SwitchedWhile (holds : State → Prop) (start : State) (moves : List Move) (s : State) (h : Handle) : Prop :=
  ∃ before rest t entry, moves = before ++ .setReadOnly h true :: rest ∧ Run start before t ∧
    ((Move.setReadOnly h true).perform t).context.entry? h = some entry ∧ entry.isReadOnly = true ∧
    Through holds ((Move.setReadOnly h true).perform t) rest s

namespace SwitchedWhile
variable {holds : State → Prop} {start s : State} {moves : List Move} {h : Handle}

theorem extend (switched : SwitchedWhile holds start moves s h) (move : Move) (allowed : move.Allowed s)
    (here : holds (move.perform s)) : SwitchedWhile holds start (moves ++ [move]) (move.perform s) h := by
  obtain ⟨before, rest, t, entry, rfl, run, now, readOnly, through⟩ := switched
  refine ⟨before, rest ++ [move], t, entry, ?_, run, now, readOnly, through.extend move allowed here⟩
  rw [List.append_assoc, List.cons_append]

theorem now (run : Run start moves s) {entry : Entry}
    (now : ((Move.setReadOnly h true).perform s).context.entry? h = some entry) (readOnly : entry.isReadOnly = true)
    (here : holds ((Move.setReadOnly h true).perform s)) :
    SwitchedWhile holds start (moves ++ [.setReadOnly h true]) ((Move.setReadOnly h true).perform s) h :=
  ⟨moves, [], s, entry, rfl, run, now, readOnly, .start here⟩

end SwitchedWhile

/-- Work that is pending for an instance, and the status its entry is given when it becomes so. While it is pending
the entry is changed only by switches. -/
structure Work (h : Handle) (status : Status) (holds : State → Prop) : Prop where
  other : status ≠ .readOnly ∧ status ≠ .managed
  fresh : ∀ {s : State}, s.Fresh → ¬holds s
  tracked : ∀ {s : State}, s.Sound → holds s → s.context.entry? h ≠ none
  begins : ∀ {s : State} {move : Move}, s.Sound → move.Allowed s → ¬holds s → holds (move.perform s) →
    ∀ {entry}, (move.perform s).context.entry? h = some entry → entry.status = status
  stays : ∀ {s : State} {move : Move}, s.Sound → move.Allowed s → holds s → holds (move.perform s) →
    ∀ {entry entry'}, s.context.entry? h = some entry → (move.perform s).context.entry? h = some entry' →
      entry' = entry ∨ ∃ readOnly d state, move = .setReadOnly h readOnly ∧ entry.isReadOnly ≠ readOnly ∧
        entry' = entry.switched readOnly d state

theorem Entry.status_switched (entry : Entry) (readOnly : Bool) (d : Descriptor) (state : List AttributeValue) :
    (entry.switched readOnly d state).status = if readOnly then .readOnly else .managed := by
  cases readOnly <;> rfl

namespace Work
variable {holds : State → Prop} {start s : State} {moves : List Move} {h : Handle} {status : Status} {entry : Entry}

/-- The status that a switch overwrote does not come back. -/
theorem hidden (work : Work h status holds) (fresh : start.Fresh) (switched : SwitchedWhile holds start moves s h)
    (tracked : s.context.entry? h = some entry) : entry.status ≠ status := by
  obtain ⟨before, rest, t, first, rfl, run, now, readOnly, through⟩ := switched
  have sound : ((Move.setReadOnly h true).perform t).Sound := Move.perform_sound _ (run.sound fresh.sound) trivial
  have keeps {s : State} {move : Move} (hidden : holds s ∧ ∀ entry, s.context.entry? h = some entry → entry.status ≠ status)
      (sound : s.Sound) (allowed : move.Allowed s) (here : holds (move.perform s)) : holds (move.perform s) ∧
      ∀ entry, (move.perform s).context.entry? h = some entry → entry.status ≠ status := by
    refine ⟨here, fun entry' still => ?_⟩
    obtain ⟨entry, tracked⟩ := Option.ne_none_iff_exists'.mp (work.tracked sound hidden.1)
    rcases work.stays sound allowed hidden.1 here tracked still with rfl | ⟨readOnly, d, state, -, -, rfl⟩
    · exact hidden.2 entry' tracked
    · rw [Entry.status_switched]
      split
      · exact work.other.1.symm
      · exact work.other.2.symm
  refine (through.preserves sound ⟨?_, fun entry tracked => ?_⟩ keeps).2.2 entry tracked
  · exact through.began
  · cases now.symm.trans tracked
    rw [of_decide_eq_true readOnly]
    exact work.other.1.symm

theorem switched (work : Work h status holds) (fresh : start.Fresh) (run : Run start moves s) (here : holds s)
    (tracked : s.context.entry? h = some entry) (hidden : entry.status ≠ status) :
    SwitchedWhile holds start moves s h := by
  induction run generalizing entry with
  | start => exact absurd here (work.fresh fresh)
  | @step moves s move run allowed ih =>
    have sound := run.sound fresh.sound
    by_cases before : holds s
    · obtain ⟨old, known⟩ := Option.ne_none_iff_exists'.mp (work.tracked sound before)
      by_cases shown : old.status = status
      · rcases work.stays sound allowed before here known tracked with rfl | ⟨readOnly, d, state, rfl, differs, rfl⟩
        · exact absurd shown hidden
        · cases readOnly with
          | true => exact .now run tracked rfl here
          | false =>
            rw [ne_eq, Bool.not_eq_false] at differs
            exact absurd (shown.symm.trans (of_decide_eq_true differs)) work.other.1
      · exact (ih before known shown).extend move allowed here
    · exact absurd (work.begins sound allowed before here tracked) hidden

/-- The status shows the work unless the instance was switched since the work became pending. -/
theorem shows_iff (work : Work h status holds) (fresh : start.Fresh) (run : Run start moves s) (here : holds s)
    (tracked : s.context.entry? h = some entry) : entry.status = status ↔ ¬SwitchedWhile holds start moves s h :=
  ⟨fun shown switched => work.hidden fresh switched tracked shown,
    fun never => Decidable.byContradiction fun hidden => never (work.switched fresh run here tracked hidden)⟩

end Work

theorem Work.insert (h : Handle) : Work h .saving (h ∈ ·.actions.pending) where
  other := ⟨nofun, nofun⟩
  fresh fresh due := by
    rw [fresh.actions] at due
    cases due
  tracked sound due := sound.tracked (.inl due)
  begins {s move} sound allowed idle due entry tracked := by
    rcases (move.performs sound allowed).pending due with before | ⟨unknown, early, rfl⟩
    · exact absurd before idle
    · cases Move.turns _ sound allowed h with
      | kept same =>
        rw [unknown, tracked] at same
        cases same
      | saved _ _ now =>
        cases tracked.symm.trans now
        rfl
  stays {s move} sound allowed due still entry entry' tracked now := by
    have later := move.perform_sound sound allowed
    rcases (move.turns sound allowed h).stays sound tracked now with same | ⟨-, -, delete, here, queued⟩ |
      ⟨-, key, d, state, rfl⟩ | switched
    · exact .inl same
    · refine absurd (here ▸ still) (later.separate delete ?_)
      rw [queued]
      exact List.mem_append_right _ (List.mem_singleton_self _)
    · obtain ⟨_, standing⟩ := later.unwritten h still
      unfold State.standing? at standing
      rw [now] at standing
      cases standing
    · exact .inr switched

theorem Turns.entity {s after : State} {h : Handle} {move : Move} {entry entry' : Entry} (turns : Turns s h after move)
    (sound : s.Sound) (tracked : s.context.entry? h = some entry) (still : after.context.entry? h = some entry') :
    entry'.entity = entry.entity := by
  rcases turns.stays sound tracked still with rfl | ⟨-, rfl, -⟩ | ⟨-, _, _, _, rfl⟩ | ⟨readOnly, _, _, -, -, rfl⟩
  · rfl
  · rfl
  · rfl
  · cases readOnly <;> rfl

namespace Action
variable {s after : State} {h : Handle}

theorem delete_exec {entry : Entry} {key : EntityKey} {d : Descriptor} (idle : s.actions.hasInsert h = false)
    (tracked : s.context.entry? h = some entry) (alive : entry.status.isDeletedOrGone = false)
    (keyed : entry.key = some key) (mapped : s.session.descriptor entry.entity = .ok d) :
    ((Action.delete h).exec s).2.actions.deletes = s.actions.deletes ++ [⟨h, key, d⟩] := by
  unfold delete
  rw [exec_get_bind, idle, if_neg Bool.false_ne_true, tracked]
  dsimp only
  rw [alive, if_neg Bool.false_ne_true, keyed]
  dsimp only
  rw [exec_bind, exec_descriptor, mapped]
  rfl

theorem delete_exec_deleted {entry : Entry} (idle : s.actions.hasInsert h = false)
    (tracked : s.context.entry? h = some entry) (deleted : entry.status = .deleted) :
    ((Action.delete h).exec s).2 = s := by
  unfold delete
  rw [exec_get_bind, idle, if_neg Bool.false_ne_true, tracked]
  dsimp only
  rw [deleted]
  rfl

theorem delete_schedules {answer : Except Error Unit} {delete : Delete} (ran : (Action.delete h).exec s = (answer, after))
    (queued : after.actions.deletes = s.actions.deletes ++ [delete]) : ∃ entry, s.context.entry? h = some entry ∧
      after.context.entry? h = some { entry with status := .deleted } ∧ delete.handle = h ∧
      s.session.descriptor entry.entity = .ok delete.descriptor ∧ after.context.isNullifiableKey delete.key = true := by
  cases delete_cases ran with
  | canceled | refused | gone =>
    cases List.self_eq_append_right.mp queued
  | @scheduled entry key d _ tracked _ _ mapped =>
    cases List.append_cancel_left queued
    have now := s.context.entry?_scheduled h h key
    rw [if_pos rfl, tracked] at now
    refine ⟨entry, tracked, now, rfl, mapped, ?_⟩
    refine (s.context.isNullifiableKey_scheduled h key key).trans ?_
    rw [BEq.rfl, Bool.true_or]

end Action

namespace Move
variable {s : State}

theorem deletesOf_cases (move : Move) (sound : s.Sound) (allowed : move.Allowed s) (h : Handle) :
    (move.perform s).deletesOf h = s.deletesOf h ∨ (move.perform s).deletesOf h = [] ∨ move = .delete h ∧
      ∃ delete, (move.perform s).actions.deletes = s.actions.deletes ++ [delete] := by
  unfold State.deletesOf
  rcases move.perform_deletes sound allowed with same | gone | ⟨delete, rfl, queued⟩
  · exact .inl (by rw [same])
  · exact .inr (.inl (by rw [gone]; rfl))
  · by_cases here : delete.handle = h
    · subst here
      exact .inr (.inr ⟨rfl, delete, queued⟩)
    · left
      rw [queued, List.filter_append, List.filter_singleton, decide_eq_false here]
      exact List.append_nil _

end Move

theorem Work.deletes {h : Handle} {deletes : List Delete} (some_ : deletes ≠ []) :
    Work h .deleted (·.deletesOf h = deletes) where
  other := ⟨nofun, nofun⟩
  fresh fresh same := by
    rw [State.deletesOf, fresh.actions] at same
    exact some_ same.symm
  tracked {s} sound same := by
    obtain ⟨delete, member⟩ := List.exists_mem_of_ne_nil _ (same ▸ some_)
    exact sound.tracked (.inr ⟨delete, State.mem_deletesOf.mp member⟩)
  begins {s move} sound allowed before same entry tracked := by
    rcases move.deletesOf_cases sound allowed h with kept | gone | ⟨rfl, delete, queued⟩
    · exact absurd (kept.symm.trans same) before
    · exact absurd (same.symm.trans gone) some_
    · obtain ⟨_, _, now, -⟩ := delete_schedules rfl queued
      cases tracked.symm.trans now
      rfl
  stays {s move} sound allowed before same entry entry' tracked now := by
    obtain ⟨delete, member⟩ := List.exists_mem_of_ne_nil _ (before ▸ some_)
    obtain ⟨scheduled, rfl⟩ := State.mem_deletesOf.mp member
    rcases (move.turns sound allowed _).stays sound tracked now with kept | ⟨rfl, -, delete', here, queued⟩ |
      ⟨due, -⟩ | switched
    · exact .inl kept
    · have grown := State.deletesOf_append queued
      rw [here] at grown
      cases List.self_eq_append_right.mp ((before.trans same.symm).trans grown)
    · exact absurd due (sound.separate delete scheduled)
    · exact .inr switched

/-- The keys of scheduled deletes are marked, and there are descriptors to schedule others. -/
def State.Deleting (s : State) : Prop :=
  ∀ delete ∈ s.actions.deletes, s.context.isNullifiableKey delete.key = true ∧
    ∃ entry d, s.context.entry? delete.handle = some entry ∧ s.session.descriptor entry.entity = .ok d

theorem State.Deleting.step {s : State} {move : Move} (deleting : s.Deleting) (sound : s.Sound) (own : move.Own)
    (allowed : move.Allowed s) : (move.perform s).Deleting := by
  have later := move.perform_sound sound allowed
  intro delete member
  have tracked := later.tracked (.inr ⟨delete, member, rfl⟩)
  by_cases old : delete ∈ s.actions.deletes
  · obtain ⟨marked, entry, d, known, mapped⟩ := deleting delete old
    refine ⟨move.mark_lasts own sound (sound.scheduled delete old) marked tracked, ?_⟩
    obtain ⟨entry', now⟩ := Option.ne_none_iff_exists'.mp tracked
    refine ⟨entry', d, now, ?_⟩
    rw [(move.turns sound allowed delete.handle).entity sound known now, move.perform_descriptor sound]
    exact mapped
  · rcases move.perform_deletes sound allowed with kept | gone | ⟨delete', rfl, queued⟩
    · exact absurd (kept ▸ member) old
    · rw [gone] at member
      cases member
    · obtain ⟨entry, -, now, -, mapped, marked⟩ := delete_schedules rfl queued
      rw [queued, List.mem_append, List.mem_singleton] at member
      obtain rfl := member.resolve_left old
      exact ⟨marked, _, _, now, (Move.perform_descriptor _ sound _).trans mapped⟩

theorem Run.deleting {start s : State} {moves : List Move} (fresh : start.Fresh) (run : Run start moves s)
    (own : ∀ move ∈ moves, move.Own) : s.Deleting := by
  refine run.preserves fresh.sound own (fun delete member => ?_) State.Deleting.step
  rw [fresh.actions] at member
  cases member

theorem Run.delete_again_iff {start s : State} {moves : List Move} (fresh : start.Fresh) (run : Run start moves s)
    (own : ∀ move ∈ moves, move.Own) {delete : Delete} {entry : Entry} (scheduled : delete ∈ s.actions.deletes)
    (tracked : s.context.entry? delete.handle = some entry) :
    ((Move.delete delete.handle).perform s).deletesOf delete.handle ≠ s.deletesOf delete.handle ↔
      entry.status ≠ .deleted := by
  have sound := run.sound fresh.sound
  have idle : s.actions.hasInsert delete.handle = false :=
    Bool.eq_false_iff.mpr fun due => sound.separate delete scheduled ((ActionQueue.hasInsert_iff _ _).mp due)
  constructor
  · intro again deleted
    exact again (congrArg (·.deletesOf delete.handle) (delete_exec_deleted idle tracked deleted))
  · intro hidden same
    obtain ⟨key, keyed, -⟩ := sound.keyed scheduled tracked
    obtain ⟨-, _, d, tracked', mapped⟩ := run.deleting fresh own delete scheduled
    cases tracked.symm.trans tracked'
    have alive : entry.status.isDeletedOrGone = false := by
      have orderly := run.orderly fresh own _ entry tracked
      unfold Entry.Orderly at orderly
      cases status : entry.status with
      | deleted => exact absurd status hidden
      | gone =>
        rw [status] at orderly
        exact orderly.elim
      | _ => rfl
    have queued := delete_exec idle tracked alive keyed mapped
    have grown : ((Move.delete delete.handle).perform s).deletesOf delete.handle =
        s.deletesOf delete.handle ++ [⟨delete.handle, key, d⟩] := State.deletesOf_append queued
    cases List.self_eq_append_right.mp (same.symm.trans grown)

/-- An instance whose insert or delete is pending has the status of that unless it was made read-only since. Its
insert shows no more in references to it, and another delete of its row can be scheduled. -/
theorem pending_work_shows_unless_switched {start s : State} {moves : List Move} (fresh : start.Fresh)
    (run : Run start moves s) (own : ∀ move ∈ moves, move.Own) :
    (∀ h ∈ s.actions.pending, ∃ entry, s.context.entry? h = some entry ∧
      (entry.status = .saving ↔ ¬SwitchedWhile (h ∈ ·.actions.pending) start moves s h) ∧
      (s.context.isNullifiable entry false = true ↔
        ¬SwitchedWhile (h ∈ ·.actions.pending) start moves s h ∨ entry.key.any s.context.isNullifiableKey = true)) ∧
    ∀ h, s.deletesOf h ≠ [] → ∃ entry, s.context.entry? h = some entry ∧
      (entry.status = .deleted ↔ ¬SwitchedWhile (·.deletesOf h = s.deletesOf h) start moves s h) ∧
      s.context.isNullifiable entry false = true ∧
      (((Move.delete h).perform s).deletesOf h ≠ s.deletesOf h ↔
        SwitchedWhile (·.deletesOf h = s.deletesOf h) start moves s h) := by
  have sound := run.sound fresh.sound
  constructor
  · intro h due
    obtain ⟨entry, tracked⟩ := Option.ne_none_iff_exists'.mp ((Work.insert h).tracked sound due)
    have shows := (Work.insert h).shows_iff fresh run due tracked
    refine ⟨entry, tracked, shows, ?_⟩
    rw [Context.isNullifiable_late, shows]
  · intro h some_
    have work := Work.deletes (h := h) some_
    obtain ⟨entry, tracked⟩ := Option.ne_none_iff_exists'.mp (work.tracked sound rfl)
    have shows := work.shows_iff fresh run rfl tracked
    obtain ⟨delete, member⟩ := List.exists_mem_of_ne_nil _ some_
    obtain ⟨scheduled, rfl⟩ := State.mem_deletesOf.mp member
    obtain ⟨key, keyed, same⟩ := sound.keyed scheduled tracked
    obtain ⟨marked, -⟩ := run.deleting fresh own delete scheduled
    refine ⟨entry, tracked, shows, ?_, ?_⟩
    · refine Context.isNullifiable_late.mpr (.inr ?_)
      rw [keyed]
      exact (Registry.contains_congr _ same).trans marked
    · rw [run.delete_again_iff fresh own scheduled tracked, Ne, shows, not_not]

namespace Sample

def switched : List Move :=
  [.save ⟨0⟩ false, .flush writer, .delete ⟨0⟩, .save ⟨1⟩ false, .setReadOnly ⟨0⟩ true, .setReadOnly ⟨1⟩ true]

def switchedState : State := switched.foldl (fun s move => move.perform s) (start #[newCustomer, newCustomer])

theorem switched_run : Run (start #[newCustomer, newCustomer]) switched switchedState := by
  have created (h : Nat) (inside : h < 2) : (⟨h⟩ : Handle) ∈ (start #[newCustomer, newCustomer]).heap := inside
  exact (Run.start : Run (start #[newCustomer, newCustomer]) [] _)
    |>.extend (.save ⟨0⟩ false) (created 0 (by decide))
    |>.extend (.flush writer) trivial
    |>.extend (.delete ⟨0⟩) trivial
    |>.extend (.save ⟨1⟩ false) (created 1 (by decide))
    |>.extend (.setReadOnly ⟨0⟩ true) trivial
    |>.extend (.setReadOnly ⟨1⟩ true) trivial

end Sample

open Sample in
theorem pending_work_shows_unless_switched_both : Run (start #[newCustomer, newCustomer]) switched switchedState ∧
    (∀ move ∈ switched, move.Own) ∧ ⟨1⟩ ∈ switchedState.actions.pending ∧ switchedState.deletesOf ⟨0⟩ ≠ [] ∧
    SwitchedWhile (⟨1⟩ ∈ ·.actions.pending) (start #[newCustomer, newCustomer]) switched switchedState ⟨1⟩ ∧
    SwitchedWhile (·.deletesOf ⟨0⟩ = switchedState.deletesOf ⟨0⟩) (start #[newCustomer, newCustomer]) switched
      switchedState ⟨0⟩ ∧
    ((Move.delete ⟨0⟩).perform switchedState).deletesOf ⟨0⟩ ≠ switchedState.deletesOf ⟨0⟩ := by
  have own : ∀ move ∈ switched, move.Own := by simp [switched, Move.Own]
  have due : ⟨1⟩ ∈ switchedState.actions.pending := List.mem_singleton_self _
  have scheduled : switchedState.deletesOf ⟨0⟩ ≠ [] := List.cons_ne_nil _ _
  obtain ⟨pending, deletes⟩ := pending_work_shows_unless_switched (start_fresh _) switched_run own
  obtain ⟨entry, tracked, shown, -⟩ := pending ⟨1⟩ due
  obtain ⟨entry', tracked', shown', -, again⟩ := deletes ⟨0⟩ scheduled
  have first : SwitchedWhile (⟨1⟩ ∈ ·.actions.pending) (start #[newCustomer, newCustomer]) switched switchedState ⟨1⟩ := by
    by_contra never
    have saving := shown.mpr never
    cases tracked
    cases saving
  have second : SwitchedWhile (·.deletesOf ⟨0⟩ = switchedState.deletesOf ⟨0⟩) (start #[newCustomer, newCustomer]) switched
      switchedState ⟨0⟩ := by
    by_contra never
    have deleted := shown'.mpr never
    cases tracked'
    cases deleted
  exact ⟨switched_run, own, due, scheduled, first, second, again.mpr second⟩

open Sample in
/-- A customer that is made read-only before its row is written counts as one that has a row, and one that is made
read-only before its row is deleted is deleted twice. -/
theorem read_only_customers_hide_their_work :
    (∃ s entry, Run (start #[newCustomer]) [.save ⟨0⟩ false, .setReadOnly ⟨0⟩ true] s ∧ ⟨0⟩ ∈ s.actions.pending ∧
      s.context.entry? ⟨0⟩ = some entry ∧ entry.status = .readOnly ∧ s.context.isNullifiable entry false = false) ∧
    ∃ s entry delete, Run (start #[newCustomer]) [.save ⟨0⟩ false, .flush writer, .delete ⟨0⟩, .setReadOnly ⟨0⟩ true] s ∧
      s.actions.deletes = [delete] ∧ s.context.entry? ⟨0⟩ = some entry ∧ entry.status = .readOnly ∧
      ((Move.delete ⟨0⟩).perform s).actions.deletes = [delete, delete] := by
  have created : (⟨0⟩ : Handle) ∈ (start #[newCustomer]).heap := Nat.zero_lt_one
  have saved := (Run.start : Run (start #[newCustomer]) [] _).extend (.save ⟨0⟩ false) created
  constructor
  · exact ⟨_, _, saved.extend (.setReadOnly ⟨0⟩ true) trivial, List.mem_singleton_self _, rfl, rfl, rfl⟩
  · have run := saved
      |>.extend (.flush writer) trivial
      |>.extend (.delete ⟨0⟩) trivial
      |>.extend (.setReadOnly ⟨0⟩ true) trivial
    exact ⟨_, _, ⟨⟨0⟩, firstKey, customer⟩, run, rfl, rfl, rfl, rfl⟩

end UnitOfWork
