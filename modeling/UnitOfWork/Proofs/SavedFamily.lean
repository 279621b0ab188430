import Mathlib.Data.List.Nodup
import UnitOfWork.Proofs.NewFamily

/-! Saving new instances that refer to each other. Every save succeeds, in any order; an insert is queued if
its row needs no other, and otherwise parked for all the rows that it needs. -/

namespace UnitOfWork
open UnitOfWork.Action

/-- Saves one after the other, each with its flag, as long as they succeed. -/
def Action.saveAll : List (Handle × Bool) → Action Unit
  | [] => return ()
  | (h, early) :: rest => do
    save h early
    saveAll rest

namespace Family
variable {s : State} {family : Family s} {done : List Handle} {t : State} {x : Handle}

theorem early_eq {flag : Bool} (member : (x, flag) ∈ family.members) :
    family.early x = (flag || (family.descriptor x).identifier.generator = .identity) := by
  have listed : family.members.contains (x, true) = flag := by
    cases flag with
    | true => exact List.contains_iff_mem.mpr member
    | false =>
      apply Bool.eq_false_iff.mpr
      intro both
      have same := List.inj_on_of_nodup_map family.distinct member (List.contains_iff_mem.mp both) rfl
      cases same
  rw [early, listed]

theorem keyToSave_new (member : x ∈ family.handles) (new : t.heap.id? x = none) :
    (keyToSave (family.descriptor x) x).exec t = (.ok none, t) := by
  rw [keyToSave, exec_get_bind, new]
  dsimp only
  rw [if_neg (family.generated x member)]
  rfl

theorem Queued.enqueue {queue : ActionQueue} {insert : Insert} (queued : family.Queued done queue)
    (ready : family.Ready done insert) : family.Queued done { queue with inserts := queue.inserts ++ [insert] } where
  inserts := List.forall_mem_append.mpr ⟨queued.inserts, List.forall_mem_singleton.mpr ready⟩
  parked := queued.parked
  deletes := queued.deletes

theorem Queued.park {queue : ActionQueue} {insert : ParkedInsert} (queued : family.Queued done queue)
    (waiting : family.Waiting done insert) (blocked : insert.dependencies ≠ []) :
    family.Queued done (queue.park [insert]) where
  inserts := queued.inserts
  parked := List.forall_mem_append.mpr ⟨queued.parked, List.forall_mem_singleton.mpr ⟨waiting, blocked⟩⟩
  deletes := queued.deletes

/-- A member is queued if it needs none of the others, and parked for those it needs if it does. -/
theorem Stands.schedules (stands : family.Stands [] t) (member : x ∈ family.handles)
    (queue : family.Queued [] t.actions) : ∃ after,
      (scheduleInsert x (family.descriptor x) (family.early x)).exec t = (.ok (), after) ∧
        family.Queued [] after.actions := by
  obtain ⟨asked, asks, collected⟩ := stands.collects member
  have needed := @mem_waits_iff s family x member
  rw [scheduleInsert, exec_get_bind, exec_bind_ok _ collected]
  generalize waits (family.judge [] x) (family.leaves x) = found at *
  rw [← asks.actions] at queue
  cases found with
  | nil =>
    have free : ∀ y, family.Needs x y → y ∈ [] := by
      intro y needs
      obtain ⟨_, none_, _⟩ := (needed (.loaded y)).mpr ⟨y, rfl, needs⟩
      cases none_
    obtain ⟨judged, insert, more, rfl, ready, queued⟩ := (stands.asks asks).queues member List.not_mem_nil free
    rw [← more.actions] at queue
    exact ⟨_, queued, queue.enqueue ready⟩
  | cons first rest =>
    have waiting : family.Waiting [] ⟨x, family.descriptor x, family.early x, first :: rest⟩ := by
      refine ⟨member, rfl, rfl, fun r => (needed r).trans ?_⟩
      exact ⟨fun ⟨y, target, needs⟩ => ⟨y, target, needs, List.not_mem_nil⟩,
        fun ⟨y, target, needs, _⟩ => ⟨y, target, needs⟩⟩
    exact ⟨_, rfl, queue.park waiting (List.cons_ne_nil _ _)⟩

variable (family)

/-- These members have been saved, and no row has been written. -/
structure Saved (done : List Handle) (t : State) : Prop where
  sound : t.Sound
  heap : t.heap = s.heap
  stands : family.Stands [] t
  tracked : ∀ h, t.context.entry? h ≠ none → h ∈ done
  unclaimed : ∀ key, t.context.entity? key = none
  queue : family.Queued [] t.actions
  pending : t.actions.pending.Perm done

variable {family}

theorem Saved.start (fresh : s.Fresh) (unasked : s.session.interceptor = none) : family.Saved [] s where
  sound := fresh.sound
  heap := rfl
  stands := by
    refine ⟨rfl, unasked, fun _ => rfl, fun _ => rfl, fun h member _ => family.new h member, ?_, ?_, fun key => ?_⟩
    · intro h _ _ entry tracked
      rw [fresh.context] at tracked
      cases tracked
    · exact fun h none_ => nomatch none_
    · rw [fresh.context]
      rfl
  tracked h tracked := by
    rw [fresh.context] at tracked
    exact absurd rfl tracked
  unclaimed key := by
    rw [fresh.context]
    rfl
  queue := by
    rw [fresh.actions]
    exact ⟨(fun _ none_ => nomatch none_), (fun _ none_ => nomatch none_), rfl⟩
  pending := by
    rw [fresh.actions]
    exact .refl _

theorem Stands.tracks {context : Context} (stands : family.Stands [] t)
    (adds : t.context.Adds x (.saved (family.descriptor x) none) context) :
    family.Stands [] (t.mapContext fun _ => context) := by
  refine ⟨stands.factory, stands.unasked, stands.values, stands.entity, stands.unidentified,
    fun h here fresh entry found => ?_, nofun, fun key => ?_⟩
  · change Context.entry? context h = some entry at found
    rw [adds.entry?] at found
    split at found
    · cases found
      exact ⟨rfl, rfl⟩
    · exact stands.pending h here fresh entry found
  · change context.nullifiable.contains key = false
    rw [adds.nullifiable]
    exact stands.kept key

/-- The save of a member that is not tracked yet comes down to its insert. -/
theorem Stands.saves {flag : Bool} {context : Context} {after : State} (stands : family.Stands [] t)
    (listed : (x, flag) ∈ family.members) (untracked : t.context.entry? x = none)
    (added : t.context.addEntity x (.saved (family.descriptor x) none) = .ok context)
    (scheduled : (scheduleInsert x (family.descriptor x) (family.early x)).exec (t.mapContext fun _ => context) =
      (.ok (), after)) : (save x flag).exec t = (.ok (), after) := by
  have member : x ∈ family.handles := List.mem_map_of_mem listed
  have found : (Action.descriptor (t.heap.entity x)).exec t = (.ok (family.descriptor x), t) := by
    rw [exec_descriptor, stands.mapped member]
  have tracks := @exec_changeContext_ok (fun context => context.addEntity x (.saved (family.descriptor x) none))
    t context added
  unfold Entry.saved at tracks
  rw [family.early_eq listed] at scheduled
  rw [save, exec_get_bind, (untracked_iff t x).mpr untracked, if_neg Bool.false_ne_true, exec_bind_ok _ found,
    exec_bind_ok _ (keyToSave_new member (stands.unidentified x member List.not_mem_nil)),
    exec_bind_ok _ tracks, exec_tryCatch, scheduled]

theorem Saved.step {flag : Bool} (saved : family.Saved done t) (listed : (x, flag) ∈ family.members) (new : x ∉ done) :
    ∃ after, (save x flag).exec t = (.ok (), after) ∧ family.Saved (done ++ [x]) after := by
  have member : x ∈ family.handles := List.mem_map_of_mem listed
  have untracked : t.context.entry? x = none := by
    apply Classical.byContradiction
    exact fun tracked => new (saved.tracked x tracked)
  let context : Context := { t.context with entries := t.context.entries.insert x (.saved (family.descriptor x) none) }
  have added : t.context.addEntity x (.saved (family.descriptor x) none) = .ok context := rfl
  have adds := Context.addEntity_ok added
  have stands := saved.stands.tracks adds
  obtain ⟨after, scheduled, queue⟩ := stands.schedules member saved.queue
  have ran := saved.stands.saves listed untracked added scheduled
  obtain ⟨moved, ⟨_, wrong, _⟩ | ⟨-, grown⟩⟩ := scheduleInsert_pending scheduled
  · cases wrong
  have allocated : x ∈ t.heap := by
    rw [saved.heap]
    exact family.created x member
  refine ⟨after, ran, save_sound saved.sound allocated ran, moved.heap.trans saved.heap, stands.requeues moved, ?_, ?_,
    queue, ?_⟩
  · intro h tracked
    rw [moved.entry_eq] at tracked
    change Context.entry? context h ≠ none at tracked
    rw [adds.entry?] at tracked
    split at tracked
    next same => exact List.mem_append_right _ (same ▸ List.mem_singleton_self h)
    next => exact List.mem_append_left _ (saved.tracked h tracked)
  · intro key
    rw [Context.entity?, moved.entities]
    exact saved.unclaimed key
  · have rotated : (x :: done).Perm (done ++ [x]) := @List.perm_append_comm _ [x] done
    exact grown.trans ((saved.pending.cons x).trans rotated)

theorem Saved.all (members : List (Handle × Bool)) (saved : family.Saved done t)
    (listed : ∀ member ∈ members, member ∈ family.members) (new : (done ++ members.map (·.1)).Nodup) :
    ∃ after, (saveAll members).exec t = (.ok (), after) ∧ family.Saved (done ++ members.map (·.1)) after := by
  induction members generalizing done t with
  | nil =>
    refine ⟨t, rfl, ?_⟩
    rw [List.map_nil, List.append_nil]
    exact saved
  | cons member rest ih =>
    obtain ⟨x, flag⟩ := member
    have absent : x ∉ done := fun old => (List.nodup_append.mp new).2.2 x old x List.mem_cons_self rfl
    obtain ⟨middle, ran, one⟩ := saved.step (listed _ List.mem_cons_self) absent
    have longer : done ++ ((x, flag) :: rest).map (·.1) = done ++ [x] ++ rest.map (·.1) := by simp
    rw [longer] at new ⊢
    obtain ⟨after, others, all⟩ := ih one (fun member late => listed member (List.mem_cons_of_mem _ late)) new
    exact ⟨after, by rw [saveAll, exec_bind_ok _ ran, others], all⟩

end Family

end UnitOfWork
