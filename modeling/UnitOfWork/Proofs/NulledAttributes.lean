import UnitOfWork.Proofs.NulledPlaces
import UnitOfWork.Proofs.RecordedRows
import UnitOfWork.Proofs.SwitchedEntries

/-! What becomes of references that an insert wrote as null. The snapshot of the entry is taken of the state that was
written, while the instance has its references still, so dirty checking sees the difference and a later update can
restore the association. Attributes that take no part in updates are not in the snapshot: what is lost there is not
seen. -/

namespace UnitOfWork
open UnitOfWork.Action

/-- A reference was replaced by null here. -/
def Place.NullsReference (place : Place) : Prop := (∃ r, place.before = .reference r) ∧ place.after = .null

namespace Place

private theorem NullsReference.of_single {mapped : Option (String × Attribute)} {before after : AttributeValue} {place : Place}
    (nulls : place.NullsReference) (single : place ∈ [⟨mapped, before, after⟩]) :
    (∃ r, before = .reference r) ∧ after = .null := by
  cases List.mem_singleton.mp single
  exact nulls

mutual

theorem below_differs (mapped : Option (String × Attribute)) (before after : AttributeValue) {place : Place}
    (nulls : place.NullsReference) (member : place ∈ below mapped before after) : before.equal after = false := by
  cases before with
  | embedded befores =>
    cases after with
    | embedded afters =>
      unfold AttributeValue.equal
      unfold below at member
      split at member <;> exact among_differs _ _ befores afters nulls member
    | _ =>
      simp only [below] at member
      obtain ⟨⟨_, wrong⟩, -⟩ := nulls.of_single member
      cases wrong
  | reference r =>
    cases after with
    | null => rfl
    | _ =>
      simp only [below] at member
      obtain ⟨-, wrong⟩ := nulls.of_single member
      cases wrong
  | _ =>
    simp only [below] at member
    obtain ⟨⟨_, wrong⟩, -⟩ := nulls.of_single member
    cases wrong

/-- Dirty checking tells a state from one in which a reference was nulled, however deep. -/
theorem among_differs (stem : String) (attributes : List Attribute) (befores afters : List AttributeValue) {place : Place}
    (nulls : place.NullsReference) (member : place ∈ among stem attributes befores afters) :
    AttributeValue.equalAll befores afters = false := by
  cases befores with
  | nil => cases attributes <;> simp [among] at member
  | cons before befores =>
    cases afters with
    | nil => rfl
    | cons after afters =>
      unfold AttributeValue.equalAll
      rw [Bool.and_eq_false_iff]
      cases attributes with
      | nil =>
        rw [among, List.mem_append] at member
        exact member.imp (below_differs none before after nulls) (among_differs stem [] befores afters nulls)
      | cons a attributes =>
        rw [among, List.mem_append] at member
        exact member.imp (below_differs _ before after nulls) (among_differs stem attributes befores afters nulls)

end

end Place

namespace Snapshot

theorem changed_cons (a : Attribute) (attributes : List Attribute) (kept value : AttributeValue)
    (state current : List AttributeValue) :
    changed (a :: attributes) (keep (a :: attributes) (kept :: state)) (value :: current) =
      (if a.updatable && !value.equal kept then [a.name] else []) ++ changed attributes (keep attributes state) current := by
  simp only [keep]
  cases a.updatable with
  | false => rfl
  | true =>
    simp only [if_true, changed, Bool.true_and]
    cases value.equal kept <;> rfl

theorem mem_changed {attributes : List Attribute} {state current : List AttributeValue} {i : Nat} {a : Attribute}
    {value kept : AttributeValue} (mapped : attributes[i]? = some a) (now : current[i]? = some value)
    (then_ : state[i]? = some kept) (updatable : a.updatable = true) (differs : value.equal kept = false) :
    a.name ∈ changed attributes (keep attributes state) current := by
  induction attributes generalizing i state current with
  | nil => cases mapped
  | cons b attributes ih =>
    cases state with
    | nil => cases then_
    | cons kept' state =>
      cases current with
      | nil => cases now
      | cons value' current =>
        rw [changed_cons, List.mem_append]
        cases i with
        | zero =>
          cases mapped
          cases now
          cases then_
          left
          rw [updatable, differs]
          exact List.mem_singleton_self _
        | succ i => exact .inr (ih mapped now then_)

theorem updatable_of_mem_changed {attributes : List Attribute} {state current : List AttributeValue} {name : String}
    (named : name ∈ changed attributes (keep attributes state) current) :
    ∃ a ∈ attributes, a.updatable = true ∧ a.name = name := by
  induction attributes generalizing state current with
  | nil => cases state <;> simp [changed] at named
  | cons a attributes ih =>
    have later {state current : List AttributeValue} (named : name ∈ changed attributes (keep attributes state) current) :
        ∃ a' ∈ a :: attributes, a'.updatable = true ∧ a'.name = name := by
      obtain ⟨a', member, found⟩ := ih named
      exact ⟨a', List.mem_cons_of_mem _ member, found⟩
    cases state with
    | nil => simp [keep, changed] at named
    | cons kept state =>
      cases current with
      | nil =>
        simp only [keep] at named
        cases updatable : a.updatable with
        | true =>
          rw [updatable] at named
          rcases List.mem_cons.mp named with rfl | others
          · exact ⟨a, List.mem_cons_self, updatable, rfl⟩
          · exact later others
        | false =>
          rw [updatable] at named
          exact later named
      | cons value current =>
        rw [changed_cons, List.mem_append] at named
        rcases named with here | others
        · split at here
          next counts =>
            rw [List.mem_singleton.mp here]
            exact ⟨a, List.mem_cons_self, (Bool.and_eq_true _ _ ▸ counts).1, rfl⟩
          next => cases here
        · exact later others

end Snapshot

def State.Typed (s : State) (h : Handle) (d : Descriptor) : Prop :=
  ∀ entry, s.context.entry? h = some entry → entry.entity = d.name

/-- Entries of instances with a pending insert are of the entity type that is inserted. -/
structure State.Consistent (s : State) : Prop where
  inserts : ∀ insert ∈ s.actions.inserts, s.Typed insert.handle insert.descriptor
  parked : ∀ insert ∈ s.actions.parked, s.Typed insert.handle insert.descriptor

namespace State.Typed
variable {s : State} {move : Move} {h : Handle} {d : Descriptor}

theorem perform (typed : s.Typed h d) (sound : s.Sound) (allowed : move.Allowed s) (tracked : s.context.entry? h ≠ none) :
    (move.perform s).Typed h d := by
  intro entry now
  obtain ⟨before, known⟩ := Option.ne_none_iff_exists'.mp tracked
  rw [(move.turns sound allowed h).entity sound known now]
  exact typed before known

theorem save {early : Bool} (unknown : s.context.entry? h = none) (mapped : s.session.descriptor (s.heap.entity h) = .ok d) :
    ((Move.save h early).perform s).Typed h d := by
  intro entry now
  have turns : Turns s h ((Move.save h early).perform s) (.save h early) := save_turns rfl h
  cases turns with
  | kept same =>
    rw [unknown, now] at same
    cases same
  | saved _ mapped' now' =>
    cases mapped.symm.trans mapped'
    cases now.symm.trans now'
    rfl

end State.Typed

namespace State.Consistent
variable {start s : State} {move : Move} {moves : List Move}

theorem queued (consistent : s.Consistent) {insert : Insert} {writer : Writer} (queued : insert ∈ s.actions.inserts ∨
      ∃ queueing, queueing.insert = insert ∧ (Move.flush writer).Queues s queueing) :
    s.Typed insert.handle insert.descriptor ∧ insert.handle ∈ s.actions.pending := by
  rcases queued with due | ⟨queueing, rfl, queues⟩
  · exact ⟨consistent.inserts insert due, List.mem_append_left _ (List.mem_map_of_mem due)⟩
  · rcases queues.source with ⟨_, wrong, -⟩ | ⟨parked, member, handle, descriptor⟩
    · cases wrong
    · rw [handle, descriptor]
      exact ⟨consistent.parked parked member, List.mem_append_right _ (List.mem_map_of_mem member)⟩

theorem step (consistent : s.Consistent) (sound : s.Sound) (allowed : move.Allowed s) : (move.perform s).Consistent := by
  have parked {insert : ParkedInsert} (member : insert ∈ s.actions.parked) :
      (move.perform s).Typed insert.handle insert.descriptor :=
    (consistent.parked insert member).perform sound allowed
      (sound.tracked (.inl (List.mem_append_right _ (List.mem_map_of_mem member))))
  constructor
  · intro insert due
    rcases move.perform_inserts sound allowed due with old | ⟨queueing, rfl, queues⟩
    · exact (consistent.inserts insert old).perform sound allowed
        (sound.tracked (.inl (List.mem_append_left _ (List.mem_map_of_mem old))))
    · rcases queues.source with ⟨early, rfl, unknown, mapped⟩ | ⟨insert, member, handle, descriptor⟩
      · exact .save ((untracked_iff s _).mp unknown) mapped
      · rw [handle, descriptor]
        exact parked member
  · intro insert member
    rcases (move.performs sound allowed).resolves sound with resolves | ⟨new, early, rfl, unknown, mapped, -, grown, -⟩
    · obtain ⟨old, here, rfl⟩ := resolves.parked insert member
      have typed := parked here
      exact typed
    · rw [grown] at member
      rcases List.mem_append.mp member with old | last
      · exact parked old
      · rw [List.mem_singleton.mp last]
        exact .save ((untracked_iff s _).mp unknown) mapped

theorem of_fresh (fresh : s.Fresh) : s.Consistent where
  inserts insert due := by
    rw [fresh.actions] at due
    cases due
  parked insert member := by
    rw [fresh.actions] at member
    cases member

theorem of_run (run : Run start moves s) (fresh : start.Fresh) : s.Consistent :=
  run.preserves fresh.sound (fun _ _ => trivial) (of_fresh fresh) fun consistent sound _ allowed =>
    consistent.step sound allowed

end State.Consistent

/-- In the state that was written, a reference is null that the attribute had within these values. -/
def Insert.Nulls (insert : Insert) (values : List AttributeValue) (a : Attribute) : Prop :=
  ∃ (i : Nat) (value written : AttributeValue),
    insert.descriptor.attributes[i]? = some a ∧ values[i]? = some value ∧ insert.state[i]? = some written ∧
    ∃ place ∈ Place.below (some (a.name, a)) value written, place.NullsReference

theorem Action.dirtyAttributes_exec {s : State} {h : Handle} {entry : Entry} {d : Descriptor} {state : List AttributeValue}
    (tracked : s.context.entry? h = some entry) (typed : entry.entity = d.name) (maps : s.Maps d)
    (taken : entry.snapshot = some (.take d state)) :
    (dirtyAttributes h).exec s =
      (.ok (Snapshot.changed d.attributes (Snapshot.keep d.attributes state) (s.heap.values h)), s) := by
  unfold dirtyAttributes
  rw [exec_get_bind, tracked]
  dsimp only
  rw [taken, typed]
  dsimp only
  rw [exec_bind, exec_descriptor, show s.session.descriptor d.name = .ok d from maps]
  rfl

theorem FlushRecords.entered {s row after : State} {writer : Writer} {h : Handle} {key : EntityKey}
    {answer : Except Error FlushResult} (records : FlushRecords writer s h key row) (sound : s.Sound)
    (ran : (flush writer).exec s = (answer, after)) :
    ∃ (insert : Insert) (before : State) (entry : Entry), insert.handle = h ∧
      (insert ∈ s.actions.inserts ∨ ∃ queueing, queueing.insert = insert ∧ (Move.flush writer).Queues s queueing) ∧
      row.session.journal = before.session.journal ++ [before.insertCall insert] ∧
      after.context.entry? h = some entry ∧ entry.snapshot = some (.take insert.descriptor insert.state) := by
  obtain ⟨-, -, holder⟩ := records.stands sound
  have spares := records.spares sound holder ran
  obtain ⟨ready, began, written, -⟩ := records
  obtain ⟨_, middle, insert, rest, inserts, next, rfl, wrote⟩ := written.reached
  obtain ⟨given, id, context, -, -, assigned, recorded⟩ := writeInsert_recorded wrote
  obtain ⟨entry, held, -, -, entered⟩ := Context.entry?_recorded assigned insert.descriptor insert.state
  have due : insert ∈ s.actions.inserts ∨ ∃ queueing, queueing.insert = insert ∧ (Move.flush writer).Queues s queueing :=
    phase_inserts began inserts (.inr (next ▸ List.mem_cons_self))
  have last : row.session.journal = (middle.taking rest).session.journal ++ [(middle.taking rest).insertCall insert] := by
    rw [recorded]
  refine ⟨insert, _, { entry with key := some held }.inserted insert.descriptor insert.state, rfl, due, last, ?_, rfl⟩
  rw [spares.entry, recorded]
  exact entered

/-- When a flush has recorded the row of an instance, and the instance is as it was when its insert was queued, dirty
checking names every updatable attribute of which a reference was written as null, and none that is not updatable. -/
theorem nulled_references_are_dirty {start s row after : State} {moves : List Move} {writer : Writer} {h : Handle}
    {key : EntityKey} {answer : Except Error FlushResult} (fresh : start.Fresh) (run : Run start moves s)
    (records : FlushRecords writer s h key row) (ran : (flush writer).exec s = (answer, after)) :
    ∃ (insert : Insert) (before : State), insert.handle = h ∧ s.Maps insert.descriptor ∧
      row.session.journal = before.session.journal ++ [before.insertCall insert] ∧
      (∃ queueing, queueing.insert = insert ∧ (Origin start moves s queueing ∨ (Move.flush writer).Queues s queueing)) ∧
      ∀ queueing : Queueing, queueing.insert = insert → after.heap.values h = queueing.moment.heap.values h →
        ∃ names, (dirtyAttributes h).exec after = (.ok names, after) ∧
          (∀ a, insert.Nulls (queueing.moment.heap.values h) a → a.updatable = true → a.name ∈ names) ∧
          ∀ name ∈ names, ∃ a ∈ insert.descriptor.attributes, a.updatable = true ∧ a.name = name := by
  have sound := run.sound fresh.sound
  obtain ⟨insert, before, entry, rfl, queued, call, tracked, taken⟩ := records.entered sound ran
  obtain ⟨typed, due⟩ := (State.Consistent.of_run run fresh).queued queued
  have maps : s.Maps insert.descriptor := by
    rcases queued with old | ⟨queueing, rfl, queues⟩
    · exact (run.maps fresh).inserts insert old
    · exact queues.described (run.maps fresh)
  have typed' : entry.entity = insert.descriptor.name := by
    have kept : ((Move.flush writer).perform s).Typed insert.handle insert.descriptor :=
      typed.perform sound trivial (sound.tracked (.inl due))
    rw [Move.flush_perform ran] at kept
    exact kept entry tracked
  refine ⟨insert, before, rfl, maps, call, ?_, fun queueing same unchanged =>
    ⟨_, dirtyAttributes_exec tracked typed' (maps.congr (flush_factory ran)) taken, ?_,
      fun name => Snapshot.updatable_of_mem_changed⟩⟩
  · rcases queued with old | ⟨queueing, same, queues⟩
    · obtain ⟨queueing, same, origin⟩ := run.origin fresh.sound (congrArg ActionQueue.inserts fresh.actions) insert old
      exact ⟨queueing, same, .inl origin⟩
    · exact ⟨queueing, same, .inr queues⟩
  · rintro a ⟨i, value, written, mapped, now, then_, place, member, nulls⟩ updatable
    rw [← unchanged] at now
    exact Snapshot.mem_changed mapped now then_ updatable (Place.below_differs _ value written nulls member)

namespace Sample

/-- What is paid may be put right later, where it was paid may not. -/
def receipt : Descriptor where
  name := "Receipt"
  rootName := "Receipt"
  identifier := { name := "id" }
  attributes := [.embedded "parties" "Parties" [.manyToOne "payer" "Payer"],
    (Attribute.manyToOne "shop" "Payer").withStorage fun storage => { storage with updatable := false }]

def payer : Descriptor where
  name := "Payer"
  rootName := "Payer"
  identifier := { name := "id" }
  attributes := []

def receipts : State where
  heap := ⟨#[⟨"Receipt", none, [.embedded [.reference (.loaded ⟨1⟩)], .reference (.loaded ⟨1⟩)]⟩, ⟨"Payer", none, []⟩]⟩
  shared := {}
  session := { factory := { metamodel := ⟨[receipt, payer]⟩ } }

end Sample

open Sample in
/-- The receipt is written without its references. The payer is named afterwards. -/
theorem nulled_references_are_dirty_embedded : ∃ s row result after names, Run receipts [.save ⟨0⟩ false] s ∧
    FlushRecords onceOnly s ⟨0⟩ (receipt.keyFor number) row ∧ (flush onceOnly).exec s = (result, after) ∧
      row.session.journal = [.insert ⟨0⟩ "Receipt" none [.embedded [.null], .null]] ∧
      (dirtyAttributes ⟨0⟩).exec after = (.ok names, after) ∧ "parties" ∈ names := by
  have created : (⟨0⟩ : Handle) ∈ receipts.heap := (by decide : 0 < 2)
  have run := (Run.start : Run receipts [] _).extend (.save ⟨0⟩ false) created
  obtain ⟨s, run, factory, values, row, records, call, result, after, ran, kept, judged, nulled⟩ :
      ∃ s, Run receipts [.save ⟨0⟩ false] s ∧ s.session.factory = receipts.session.factory ∧
      s.heap.values ⟨0⟩ = [.embedded [.reference (.loaded ⟨1⟩)], .reference (.loaded ⟨1⟩)] ∧
      ∃ row, FlushRecords onceOnly s ⟨0⟩ (receipt.keyFor number) row ∧
        row.session.journal = [.insert ⟨0⟩ "Receipt" none [.embedded [.null], .null]] ∧
        ∃ result after, (flush onceOnly).exec s = (result, after) ∧ after.heap.values ⟨0⟩ = s.heap.values ⟨0⟩ ∧
        ∃ judged, (Nullifier.nullifyAll ⟨some ⟨0⟩, false, false⟩ receipt.attributes (s.heap.values ⟨0⟩)).exec s =
          (.ok [.embedded [.null], .null], judged) :=
    ⟨_, run, rfl, rfl, _, ⟨_, rfl, .now rfl rfl rfl, rfl⟩, rfl, _, _, rfl, rfl, _, rfl⟩
  obtain ⟨insert, before, same, maps, extended, -, dirty⟩ := nulled_references_are_dirty ⟨rfl, rfl, rfl⟩ run records ran
  have calls : [] ++ [Call.insert ⟨0⟩ "Receipt" none [.embedded [.null], .null]] =
      before.session.journal ++ [before.insertCall insert] := call.symm.trans extended
  obtain ⟨-, called⟩ := List.append_inj' calls rfl
  obtain ⟨h, d, state⟩ := insert
  injection List.singleton_inj.mp called with handle name _ written
  have mapped : d = receipt := by
    have known : s.session.descriptor d.name = .ok d := maps
    rw [Session.descriptor, factory, ← name] at known
    cases known
    rfl
  subst mapped written same
  obtain ⟨names, checked, named, -⟩ := dirty ⟨⟨⟨0⟩, receipt, _⟩, false, false, s, judged, nulled⟩ rfl kept
  have now : (s.heap.values ⟨0⟩)[0]? = some (.embedded [.reference (.loaded ⟨1⟩)]) := congrArg (·[0]?) values
  exact ⟨s, row, result, after, names, run, records, ran, call, checked,
    named _ ⟨0, _, _, rfl, now, rfl, _, List.mem_cons_self, ⟨_, rfl⟩, rfl⟩ rfl⟩

open Sample in
/-- The shop of the receipt is written as null for good: the receipt has it still, and dirty checking does not name it. -/
theorem fixed_reference_is_lost : ∃ s row result after shop, Run receipts [.save ⟨0⟩ false] s ∧
    FlushRecords onceOnly s ⟨0⟩ (receipt.keyFor number) row ∧ (flush onceOnly).exec s = (result, after) ∧
      row.session.journal = [.insert ⟨0⟩ "Receipt" none [.embedded [.null], .null]] ∧
      after.heap.values ⟨0⟩ = receipts.heap.values ⟨0⟩ ∧ shop ∈ receipt.attributes ∧ shop.name = "shop" ∧
      Insert.Nulls ⟨⟨0⟩, receipt, [.embedded [.null], .null]⟩ (after.heap.values ⟨0⟩) shop ∧
      (dirtyAttributes ⟨0⟩).exec after = (.ok ["parties"], after) := by
  have created : (⟨0⟩ : Handle) ∈ receipts.heap := (by decide : 0 < 2)
  have run := (Run.start : Run receipts [] _).extend (.save ⟨0⟩ false) created
  refine ⟨_, _, _, _, _, run, ⟨_, rfl, .now rfl rfl rfl, rfl⟩, rfl, rfl, rfl, List.mem_cons_of_mem _ List.mem_cons_self,
    rfl, ⟨1, _, _, rfl, rfl, rfl, _, List.mem_cons_self, ⟨_, rfl⟩, rfl⟩, rfl⟩

end UnitOfWork
