import UnitOfWork.Proofs.RowOrder

/-! Which of the instances that a load creates are read-only. Each of them is decided by its entity type, by the proxy
that stood for its row before the load, and by the options, in this order. References in the batch may lead to its
rows, but register no proxies for them, since all of its rows have instances before the first reference is resolved. -/

namespace UnitOfWork
open UnitOfWork.Action

/-- What a session knows before a load, and the options of the load, call for a read-only instance. -/
def State.LoadsReadOnly (s : State) (d : Descriptor) (options : LoadOptions) (key : EntityKey) : Prop :=
  d.isMutable = false ∨ s.context.proxy? key = some true ∨
    s.context.proxy? key = none ∧ options.readOnly.getD s.session.config.readOnly = true

theorem loadsReadOnly_iff {s : State} {d : Descriptor} {options : LoadOptions} {key : EntityKey} :
    loadsReadOnly s.session d key options = true ↔ s.LoadsReadOnly d options key := by
  unfold loadsReadOnly State.LoadsReadOnly State.context
  cases d.isMutable <;> cases s.session.context.proxy? key <;> simp

theorem load_tracks_rows {s after : State} {entity : String} {rows : List (Except Error Row)} {options : LoadOptions}
    {results : List Handle} (loaded : (load entity rows options).exec s = (.ok results, after)) :
    ∃ d found, s.session.descriptor entity = .ok d ∧ d.Hydrates rows found ∧
      (∀ h, s.context.isTracked h = false → after.context.isTracked h = true →
        ∃ row state, s.Introduces found row ∧ RowLoaded s d options row state h after) ∧
      ∀ key h, s.context.entity? key = none → after.context.entity? key = some h →
        ∃ row state, (row.key == key) = true ∧ RowLoaded s d options row state h after := by
  obtain ⟨d, found, progress, middle, mapped, hydrates, admitted, initialized, rfl⟩ := load_ok loaded
  refine ⟨d, found, mapped, hydrates, fun h untracked tracked => ?_, fun key h missing standing => ?_⟩
  · by_cases created : ∃ entity ∈ progress.batch.entities, entity.handle = h
    · obtain ⟨entity, member, rfl⟩ := created
      obtain ⟨state, loaded⟩ := admitted.row_loaded initialized member
      exact ⟨entity.row, state, (admitted.introduced entity.row).mp ⟨entity, member, rfl⟩, loaded⟩
    · have others : ∀ entity ∈ progress.batch.entities, entity.handle ≠ h :=
        fun entity member same => created ⟨entity, member, same⟩
      rw [Context.isTracked_eq] at untracked tracked
      rw [admitted.others initialized others, untracked] at tracked
      cases tracked
  · rw [initialized.entity?] at standing
    by_cases introduced : ∃ entity ∈ progress.batch.entities, (entity.key == key) = true
    · obtain ⟨entity, member, same⟩ := introduced
      obtain ⟨state, loaded⟩ := admitted.row_loaded initialized member
      obtain rfl : entity.handle = h :=
        Option.some.inj ((admitted.standing_of_same member same).symm.trans standing)
      exact ⟨entity.row, state, same, loaded⟩
    · have others : ∀ entity ∈ progress.batch.entities, (entity.key == key) = false :=
        fun entity member => Bool.eq_false_iff.mpr fun same => introduced ⟨entity, member, same⟩
      rw [admitted.keys key others, missing] at standing
      cases standing

/-- A proxy that a load registers is for a row without an instance, and so for none of its own. -/
theorem load_proxies {s after : State} {entity : String} {rows : List (Except Error Row)} {options : LoadOptions}
    {results : List Handle} (loaded : (load entity rows options).exec s = (.ok results, after)) {key : EntityKey}
    (changed : after.context.proxy? key ≠ s.context.proxy? key) :
    s.context.proxy? key = none ∧ after.context.entity? key = none := by
  obtain ⟨d, found, progress, middle, -, -, admitted, initialized, -⟩ := load_ok loaded
  have registering : middle.context.proxy? key = s.context.proxy? key := by
    unfold State.context
    rw [admitted.registers.session]
    rfl
  rw [← registering] at changed ⊢
  rcases initialized.proxies key with same | ⟨unmarked, missing, -⟩
  · exact absurd same changed
  · exact ⟨unmarked, (initialized.entity? key).trans missing⟩

namespace RowLoaded
variable {s after : State} {d : Descriptor} {options : LoadOptions} {row : HydratedRow} {state : List AttributeValue}
  {h : Handle} {entry : Entry}

theorem entry_eq (loaded : RowLoaded s d options row state h after) (entered : after.context.entry? h = some entry) :
    entry = row.entry d options (loadsReadOnly s.session d row.key options) state :=
  Option.some.inj (entered.symm.trans loaded.entered)

theorem readOnly_iff (loaded : RowLoaded s d options row state h after) (entered : after.context.entry? h = some entry) :
    entry.status = .readOnly ↔ s.LoadsReadOnly d options row.key := by
  rw [loaded.entry_eq entered, ← loadsReadOnly_iff, HydratedRow.entry]
  cases loadsReadOnly s.session d row.key options <;> simp

theorem managed_iff (loaded : RowLoaded s d options row state h after) (entered : after.context.entry? h = some entry) :
    entry.status = .managed ↔ ¬s.LoadsReadOnly d options row.key := by
  rw [loaded.entry_eq entered, ← loadsReadOnly_iff, HydratedRow.entry]
  cases loadsReadOnly s.session d row.key options <;> simp

end RowLoaded

theorem State.LoadsReadOnly.congr {s : State} {d : Descriptor} {options : LoadOptions} {key other : EntityKey}
    (same : (key == other) = true) : s.LoadsReadOnly d options key ↔ s.LoadsReadOnly d options other := by
  unfold LoadsReadOnly
  rw [show s.context.proxy? key = s.context.proxy? other from Registry.find?_congr _ same]

/-- A new instance is read-only just when its entity type is immutable, a read-only proxy stood for its row before the
load, or none did and the options say so; otherwise it is managed. This holds in whatever state a session is. The
proxies that a load registers itself are never for rows that have instances, so what else is loaded, and in which order,
makes no difference. -/
theorem read_only_is_decided_before_the_load {s after : State} {entity : String} {rows : List (Except Error Row)}
    {options : LoadOptions} {results : List Handle}
    (loaded : (load entity rows options).exec s = (.ok results, after)) :
    ∃ d found, s.session.descriptor entity = .ok d ∧ d.Hydrates rows found ∧
      (∀ h entry, s.context.isTracked h = false → after.context.entry? h = some entry →
        ∃ row, s.Introduces found row ∧ entry.key = some row.key ∧
          (entry.status = .readOnly ↔ s.LoadsReadOnly d options row.key) ∧
          (entry.status = .managed ↔ ¬s.LoadsReadOnly d options row.key)) ∧
      (∀ key, after.context.proxy? key ≠ s.context.proxy? key →
        s.context.proxy? key = none ∧ after.context.entity? key = none) ∧
      ∀ others results' after', (load entity others options).exec s = (.ok results', after') → ∀ key h h',
        s.context.entity? key = none → after.context.entity? key = some h → after'.context.entity? key = some h' →
          (after.context.entry? h).map (·.status) = (after'.context.entry? h').map (·.status) := by
  obtain ⟨d, found, mapped, hydrates, tracks, stands⟩ := load_tracks_rows loaded
  refine ⟨d, found, mapped, hydrates, fun h entry untracked entered => ?_, fun key => load_proxies loaded, ?_⟩
  · have tracked : after.context.isTracked h = true := by rw [Context.isTracked_eq, entered, Option.isSome_some]
    obtain ⟨row, state, introduced, loaded⟩ := tracks h untracked tracked
    refine ⟨row, introduced, ?_, loaded.readOnly_iff entered, loaded.managed_iff entered⟩
    rw [loaded.entry_eq entered]
    rfl
  · intro others results' after' loaded' key h h' missing standing standing'
    obtain ⟨other, _, mapped', -, -, stands'⟩ := load_tracks_rows loaded'
    obtain rfl : d = other := Except.ok.inj (mapped.symm.trans mapped')
    obtain ⟨row, state, same, loaded⟩ := stands key h missing standing
    obtain ⟨row', state', same', loaded'⟩ := stands' key h' missing standing'
    have alike : loadsReadOnly s.session d row.key options = loadsReadOnly s.session d row'.key options := by
      rw [Bool.eq_iff_iff, loadsReadOnly_iff, loadsReadOnly_iff]
      exact State.LoadsReadOnly.congr (PartialEquivBEq.trans same (BEq.symm same'))
    rw [loaded.entered, loaded'.entered, alike]
    rfl

namespace Sample

def staffRow (name manager : String) : Except Error Row := .ok { values := [.text name, .text manager] }

def supervised : List Move :=
  [.configure { readOnly := true } none none [] [], .load "Employee" [staffRow "Ann" "Bob"] {},
    .configure {} none none [] []]

def supervisedState : State := supervised.foldl (fun s move => move.perform s) staffed

def superiors : List (Except Error Row) := [staffRow "Bob" "Cid", staffRow "Cid" "Dee"]

def bob : EntityKey := employee.keyFor (.ofValue (.text "Bob"))

def cid : EntityKey := employee.keyFor (.ofValue (.text "Cid"))

end Sample

open Sample in
/-- Of the superiors of Ann, Bob alone is read-only, although Bob refers to Cid, and in the other order likewise. -/
theorem read_only_is_decided_before_the_load_of_superiors : ∃ after after', Run staffed supervised supervisedState ∧
    (load "Employee" superiors {}).exec supervisedState = (.ok [⟨1⟩, ⟨2⟩], after) ∧
    (load "Employee" superiors.reverse {}).exec supervisedState = (.ok [⟨1⟩, ⟨2⟩], after') ∧
    supervisedState.LoadsReadOnly employee {} bob ∧ ¬supervisedState.LoadsReadOnly employee {} cid ∧
    (after'.context.entry? ⟨1⟩).map (·.status) = some .managed ∧
    (after'.context.entry? ⟨2⟩).map (·.status) = some .readOnly ∧ after'.context.proxy? cid = none := by
  have run : Run staffed supervised supervisedState := (Run.start : Run staffed [] _)
    |>.extend (.configure { readOnly := true } none none [] []) trivial
    |>.extend (.load "Employee" [staffRow "Ann" "Bob"] {}) trivial
    |>.extend (.configure {} none none [] []) trivial
  have answered : ((load "Employee" superiors {}).exec supervisedState).1.toOption = some [⟨1⟩, ⟨2⟩] := by
    decide +kernel
  have answered' : ((load "Employee" superiors.reverse {}).exec supervisedState).1.toOption = some [⟨1⟩, ⟨2⟩] := by
    decide +kernel
  have loaded := exec_of_toOption answered
  have loaded' := exec_of_toOption answered'
  obtain ⟨_, _, -, -, -, -, alike⟩ := read_only_is_decided_before_the_load loaded
  obtain ⟨_, _, -, -, -, registered, -⟩ := read_only_is_decided_before_the_load loaded'
  have first := alike _ _ _ loaded' bob ⟨1⟩ ⟨2⟩ (by decide +kernel) (by decide +kernel) (by decide +kernel)
  have second := alike _ _ _ loaded' cid ⟨2⟩ ⟨1⟩ (by decide +kernel) (by decide +kernel) (by decide +kernel)
  refine ⟨_, _, run, loaded, loaded', .inr (.inl (by decide +kernel)), ?_, second.symm.trans (by decide +kernel),
    first.symm.trans (by decide +kernel), ?_⟩
  · rw [← loadsReadOnly_iff]
    decide +kernel
  · by_contra marked
    have missing : supervisedState.context.proxy? cid = none := by decide +kernel
    have standing : ((load "Employee" superiors.reverse {}).exec supervisedState).2.context.entity? cid = some ⟨1⟩ := by
      decide +kernel
    rw [← missing] at marked
    rw [(registered cid marked).2] at standing
    cases standing

end UnitOfWork
