import Mathlib.Data.Fintype.Pigeonhole
import Mathlib.Data.Set.Finite.Basic
import Mathlib.Logic.Relation
import UnitOfWork.Proofs.InsertOrder

/-! The flush of new instances that refer to each other. A row is written, after all that it needs, unless it
needs itself or needs rows that do; the flush succeeds if there are none such, whatever the order in which the
instances were saved. -/

namespace UnitOfWork
open UnitOfWork.Action

/-- Among finitely many, going on for ever comes back to where it was. -/
theorem exists_cycle {α : Type} {r : α → α → Prop} (nodes : List α) (onward : ∀ x ∈ nodes, ∃ y ∈ nodes, r x y) {x : α}
    (member : x ∈ nodes) : ∃ y, Relation.ReflTransGen r x y ∧ Relation.TransGen r y y := by
  have finite : Finite {x // x ∈ nodes} := (List.finite_toSet nodes).to_subtype
  choose next here related using onward
  let walk : Nat → {x // x ∈ nodes} := fun n => (fun x => ⟨next x.1 x.2, here x.1 x.2⟩)^[n] ⟨x, member⟩
  have succ (n : Nat) : r (walk n).1 (walk (n + 1)).1 := by
    simp only [walk, Function.iterate_succ_apply']
    exact related _ _
  have reaches (n : Nat) : Relation.ReflTransGen r x (walk n).1 := by
    induction n with
    | zero => exact .refl
    | succ n ih => exact ih.tail (succ n)
  have onwards (first : Nat) {last : Nat} (later : first < last) :
      Relation.TransGen r (walk first).1 (walk last).1 := by
    induction later with
    | refl => exact .single (succ first)
    | step _ ih => exact ih.tail (succ _)
  obtain ⟨first, last, different, same⟩ := Finite.exists_ne_map_eq_of_infinite walk
  rcases Nat.lt_or_gt_of_ne different with later | later
  · refine ⟨_, reaches first, ?_⟩
    have cycle := onwards first later
    rwa [← same] at cycle
  · refine ⟨_, reaches last, ?_⟩
    have cycle := onwards last later
    rwa [same] at cycle

namespace Family
variable {s : State} (family : Family s)

/-- Some of what a member needs, directly or not, needs itself. -/
def Stuck (x : Handle) : Prop :=
  ∃ y, Relation.ReflTransGen family.Needs x y ∧ Relation.TransGen family.Needs y y

def Cyclic : Prop := ∃ x, Relation.TransGen family.Needs x x

variable {family} {written : List Handle} {x : Handle}

theorem Stuck.needs (stuck : family.Stuck x) : ∃ y, family.Needs x y ∧ family.Stuck y := by
  obtain ⟨y, path, cycle⟩ := stuck
  rcases path.cases_head with rfl | ⟨z, first, rest⟩
  · obtain ⟨z, first, back⟩ := Relation.TransGen.head'_iff.mp cycle
    exact ⟨z, first, x, back, cycle⟩
  · exact ⟨z, first, y, rest, cycle⟩

theorem not_stuck (ordered : ∀ earlier x later, written = earlier ++ x :: later → ∀ y, family.Needs x y → y ∈ earlier)
    (member : x ∈ written) : ¬family.Stuck x := by
  suffices early : ∀ earlier later, written = earlier ++ later → ∀ x ∈ earlier, ¬family.Stuck x from
    early written [] (List.append_nil _).symm x member
  intro earlier
  induction earlier using List.reverseRecOn with
  | nil => exact fun _ _ x none_ => nomatch none_
  | append_singleton earlier last ih =>
    intro later split_ x here stuck
    rw [List.append_assoc] at split_
    rcases List.mem_append.mp here with before | now
    · exact ih _ split_ x before stuck
    · rw [List.mem_singleton.mp now] at stuck
      obtain ⟨y, needs, stuck⟩ := stuck.needs
      exact ih _ split_ y (ordered earlier last later split_ y needs) stuck

variable {writer : Writer} {t after : State}

theorem Saved.underway (saved : family.Saved family.handles t) : family.Underway writer [] t where
  sound := saved.sound
  stands := saved.stands
  given key h claimed := by
    rw [saved.unclaimed] at claimed
    cases claimed
  queue := saved.queue
  conserved := saved.pending
  ordered earlier x later split_ := by cases earlier <;> cases split_

theorem Saved.begins (saved : family.Saved family.handles t) : (takeReady >>= queueReleased).exec t = (.ok (), t) := by
  have waits (parked : ParkedInsert) (here : parked ∈ t.actions.parked) : parked.isReady = false :=
    ParkedInsert.isReady_eq_false (saved.queue.parked parked here).2
  have none_ : t.actions.takeReady.1 = [] := by
    apply List.filter_eq_nil_iff.mpr
    intro parked here
    rw [waits parked here]
    exact Bool.false_ne_true
  have all : t.actions.takeReady.2 = t.actions := by
    have kept : t.actions.parked.filter (fun parked => !parked.isReady) = t.actions.parked := by
      apply List.filter_eq_self.mpr
      intro parked here
      rw [waits parked here]
      rfl
    rw [ActionQueue.takeReady, kept]
  rw [exec_bind_ok _ (takeReady_exec t), none_, all]
  rfl

namespace Underway

/-- Once no more can be written, each insert left needs another that is left. -/
theorem onward (underway : family.Underway writer written t) (drained : t.actions.inserts = []) :
    ∀ x ∈ t.actions.pending, ∃ y ∈ t.actions.pending, family.Needs x y := by
  intro x due
  rw [ActionQueue.pending, drained] at due
  obtain ⟨parked, here, rfl⟩ := List.mem_map.mp due
  obtain ⟨waiting, blocked⟩ := underway.queue.parked parked here
  obtain ⟨first, rest, found⟩ := List.exists_cons_of_ne_nil blocked
  obtain ⟨y, -, needs, unwritten⟩ := (waiting.waits _).mp ⟨first, found ▸ List.mem_cons_self, rfl⟩
  rcases List.mem_append.mp (underway.conserved.mem_iff.mpr needs.member) with row | left
  · exact absurd row unwritten
  · exact ⟨y, left, needs⟩

theorem mem_written_iff (underway : family.Underway writer written t) (drained : t.actions.inserts = []) (x : Handle) :
    x ∈ written ↔ x ∈ family.handles ∧ ¬family.Stuck x := by
  constructor
  · intro row
    exact ⟨underway.conserved.mem_iff.mp (List.mem_append_left _ row), not_stuck underway.ordered row⟩
  · rintro ⟨member, free⟩
    rcases List.mem_append.mp (underway.conserved.mem_iff.mpr member) with row | left
    · exact row
    · exact absurd (exists_cycle _ (underway.onward drained) left) free

theorem pending_ne_nil_iff (underway : family.Underway writer written t) (drained : t.actions.inserts = []) :
    t.actions.pending ≠ [] ↔ family.Cyclic := by
  constructor
  · intro some_
    obtain ⟨x, rest, found⟩ := List.exists_cons_of_ne_nil some_
    obtain ⟨y, -, cycle⟩ := exists_cycle _ (underway.onward drained) (found ▸ List.mem_cons_self : x ∈ t.actions.pending)
    exact ⟨y, cycle⟩
  · rintro ⟨x, cycle⟩ none_
    obtain ⟨y, needs, -⟩ := Relation.TransGen.head'_iff.mp cycle
    have member := underway.conserved.mem_iff.mpr needs.1
    rw [none_, List.append_nil] at member
    exact not_stuck underway.ordered member ⟨x, .refl, cycle⟩

end Underway

theorem Saved.flushes {inserts : List Insert} (saved : family.Saved family.handles t)
    (run : InsertRun writer t inserts after) (drained : after.actions.inserts = [])
    (underway : family.Underway writer written after) : ∃ last answer, (flush writer).exec t = (answer, last) ∧
      last.session.journal = after.session.journal ∧
      (after.actions.pending = [] → ∃ result, answer = .ok result) ∧
      (after.actions.pending ≠ [] → ∃ entity path target, answer = .error (.transientProperty entity path target)) := by
  cases waiting : after.actions.parked with
  | nil =>
    have deleted : DeleteRun writer after.withoutDeletes after.actions.deletes after.withoutDeletes := by
      rw [underway.queue.deletes]
      exact .done _
    refine ⟨_, _, (Flushes.done saved.begins run drained waiting deleted).exec, rfl, fun _ => ⟨_, rfl⟩, fun some_ => ?_⟩
    exact absurd (pending_eq_nil drained waiting) some_
  | cons parked rest =>
    obtain ⟨first, others, found⟩ :=
      List.exists_cons_of_ne_nil (underway.queue.parked parked (waiting ▸ List.mem_cons_self)).2
    have reported : after.actions.firstError? after.heap =
        some (.transientProperty parked.descriptor.name first.path (first.reference.describe after.heap)) := by
      rw [ActionQueue.firstError?, waiting, List.head?_cons, Option.map_some, found]
      rfl
    refine ⟨after, _, (Flushes.blocked saved.begins run drained reported).exec, rfl, fun none_ => ?_,
      fun _ => ⟨_, _, _, rfl⟩⟩
    rw [ActionQueue.pending, waiting, List.map_cons] at none_
    cases (List.append_eq_nil_iff.mp none_).2

end Family

/-- New instances that refer to each other can be saved in any order and with any flags. The flush writes each of
them once, after all that it needs, save those that need a cycle, and keeps all references that may not be null.
It succeeds exactly if there is no cycle. -/
theorem flush_writes_what_is_needed_first {s : State} (family : Family s) {writer : Writer} (fresh : s.Fresh)
    (unasked : s.session.interceptor = none) (numbers : writer.Numbers) :
    ∃ saved after answer calls, (saveAll family.members).exec s = (.ok (), saved) ∧
      (flush writer).exec saved = (answer, after) ∧ after.session.journal = saved.session.journal ++ calls ∧
      (calls.filterMap Call.inserted?).Nodup ∧
      (∀ x, x ∈ calls.filterMap Call.inserted? ↔ x ∈ family.handles ∧ ¬family.Stuck x) ∧
      (∀ earlier x later, calls.filterMap Call.inserted? = earlier ++ x :: later →
        ∀ y, family.Needs x y → y ∈ earlier) ∧
      ((∃ result, answer = .ok result) ↔ ¬family.Cyclic) ∧
      (family.Cyclic → ∃ entity path target, answer = .error (.transientProperty entity path target)) ∧
      ∀ h entity id state, .insert h entity id state ∈ calls → entity = (family.descriptor h).name ∧
        Nullifier.required (Leaf.among "" (family.descriptor h).attributes state) =
          Nullifier.required (family.leaves h) := by
  obtain ⟨saved, ran, all⟩ := (Family.Saved.start fresh unasked : family.Saved [] s).all family.members
    (fun _ here => here) family.distinct
  obtain ⟨inserts, after, run, drained, underway, ready⟩ := all.underway.run numbers
  obtain ⟨last, answer, flushed, journal, done, blocked⟩ := all.flushes run drained underway
  obtain ⟨calls, extended, handles, -⟩ := run.wrote
  obtain ⟨calls', extended', passed⟩ := run.passes
  obtain rfl : calls = calls' := List.append_cancel_left (extended.symm.trans extended')
  have cyclic := underway.pending_ne_nil_iff drained
  have failing (cycle : family.Cyclic) := blocked (cyclic.mpr cycle)
  refine ⟨saved, last, answer, calls, ran, flushed, journal.trans extended, ?_, ?_, ?_, ⟨?_, ?_⟩, failing, ?_⟩
  · rw [handles]
    exact (List.nodup_append.mp (underway.conserved.nodup_iff.mpr family.distinct)).1
  · rw [handles]
    exact underway.mem_written_iff drained
  · rw [handles]
    exact underway.ordered
  · rintro ⟨result, rfl⟩ cycle
    obtain ⟨_, _, _, wrong⟩ := failing cycle
    cases wrong
  · exact fun free => done (Classical.byContradiction fun some_ => free (cyclic.mp some_))
  · intro h entity id state member
    obtain ⟨insert, here, rfl, rfl, rfl⟩ := passed h entity id state member
    obtain ⟨_, kept⟩ := ready insert here
    rw [← kept.descriptor]
    exact ⟨rfl, kept.keeps⟩

namespace Sample

theorem writer_numbers : writer.Numbers where
  accepts journal _ _ _ := by
    refine ⟨_, rfl, ?_⟩
    simp [Identifier.isNull, Identifier.ofColumns, List.replicate_succ, Value.widen, Value.isNull]
  new journal h d current state rest d' current' state' id id' first second := by
    cases first
    cases second
    apply Bool.eq_false_iff.mpr
    intro same
    have lengths := Value.length_of_sameItems same
    simp only [Identifier.ofColumns, List.length_map, List.length_replicate, List.length_append,
      List.length_cons] at lengths
    omega

def family : Family (start #[newOrder ⟨1⟩, newCustomer]) where
  members := [(⟨0⟩, false), (⟨1⟩, false)]
  descriptor h := if h = ⟨0⟩ then order else customer
  distinct := by decide
  created := by
    intro h member
    rcases List.mem_cons.mp member with rfl | member
    · exact Nat.zero_lt_two
    · rw [List.mem_singleton.mp member]
      exact Nat.one_lt_two
  new := List.forall_mem_cons.mpr ⟨rfl, List.forall_mem_singleton.mpr rfl⟩
  mapped := List.forall_mem_cons.mpr ⟨rfl, List.forall_mem_singleton.mpr rfl⟩
  generated := List.forall_mem_cons.mpr ⟨nofun, List.forall_mem_singleton.mpr nofun⟩
  closed := by
    refine List.forall_mem_cons.mpr ⟨List.forall_mem_singleton.mpr ?_, List.forall_mem_singleton.mpr nofun⟩
    exact .inr ⟨⟨1⟩, List.mem_cons_of_mem _ List.mem_cons_self, rfl⟩

theorem family_needs {x y : Handle} (needs : family.Needs x y) : x = ⟨0⟩ ∧ y = ⟨1⟩ := by
  obtain ⟨member, ⟨leaf, here, refers⟩, -⟩ := needs
  rcases List.mem_cons.mp member with rfl | member
  · obtain rfl := List.mem_singleton.mp here
    cases refers
    exact ⟨rfl, rfl⟩
  · obtain rfl := List.mem_singleton.mp member
    cases here

theorem family_ordered (earlier : List Handle) (x : Handle) (later : List Handle)
    (split_ : [⟨1⟩, ⟨0⟩] = earlier ++ x :: later) (y : Handle) (needs : family.Needs x y) : y ∈ earlier := by
  obtain ⟨rfl, rfl⟩ := family_needs needs
  cases earlier with
  | nil => cases split_
  | cons first rest =>
    obtain ⟨rfl, -⟩ := List.cons.inj split_
    exact List.mem_cons_self

end Sample

open Sample in
/-- The order is parked and the customer is not; both are written, the customer first. -/
theorem flush_writes_what_is_needed_first_order : ∃ saved after result calls,
    (saveAll [(⟨0⟩, false), (⟨1⟩, false)]).exec (start #[newOrder ⟨1⟩, newCustomer]) = (.ok (), saved) ∧
      (flush writer).exec saved = (.ok result, after) ∧ after.session.journal = saved.session.journal ++ calls ∧
      (calls.filterMap Call.inserted?).Nodup ∧ ⟨0⟩ ∈ calls.filterMap Call.inserted? ∧
      ∀ earlier later, calls.filterMap Call.inserted? = earlier ++ ⟨0⟩ :: later → ⟨1⟩ ∈ earlier := by
  obtain ⟨saved, after, answer, calls, ran, flushed, extended, distinct, exactly, ordered, succeeds, -, -⟩ :=
    flush_writes_what_is_needed_first family (start_fresh _) rfl writer_numbers
  have acyclic : ¬family.Cyclic := by
    rintro ⟨x, cycle⟩
    obtain ⟨y, needs, -⟩ := Relation.TransGen.head'_iff.mp cycle
    obtain ⟨rfl, -⟩ := family_needs needs
    exact Family.not_stuck family_ordered (List.mem_cons_of_mem _ List.mem_cons_self) ⟨_, .refl, cycle⟩
  obtain ⟨result, rfl⟩ := succeeds.mpr acyclic
  have written : ⟨0⟩ ∈ calls.filterMap Call.inserted? := (exactly ⟨0⟩).mpr ⟨List.mem_cons_self,
    Family.not_stuck family_ordered (List.mem_cons_of_mem _ List.mem_cons_self)⟩
  refine ⟨saved, after, result, calls, ran, flushed, extended, distinct, written, fun earlier later split_ => ?_⟩
  refine ordered earlier _ later split_ _ ⟨List.mem_cons_self, ⟨_, List.mem_singleton_self _, rfl⟩, nofun⟩

end UnitOfWork
