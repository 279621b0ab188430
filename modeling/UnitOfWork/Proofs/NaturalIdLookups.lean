import UnitOfWork.NaturalIds

/-! Looking rows up by natural id. The two directions of an index are kept apart and are overwritten in turn, so each is
only part of the inverse of the other: identifiers that share a natural id all know it, and it leads to the last of
them. But it never leads to an identifier that has another one by now. -/

namespace UnitOfWork

namespace NaturalIdIndex

/-- A natural id leads only to an identifier that has it. -/
def Paired (index : NaturalIdIndex) : Prop :=
  ∀ naturalId id, index.ids.find? naturalId = some id →
    ∃ held, index.naturalIds.find? id = some held ∧ (held == naturalId) = true

variable {index : NaturalIdIndex}

theorem empty_paired : Paired {} := nofun

/-- Of the identifiers known before, a natural id leads after a recording to those that have not changed theirs. -/
theorem find?_record (index : NaturalIdIndex) (id : Identifier) (given naturalId : NaturalId) :
    (index.record id given).ids.find? naturalId =
      if given == naturalId then some id
      else if (index.naturalIds.find? id).any (· == naturalId) then none
      else index.ids.find? naturalId := by
  unfold record
  cases index.naturalIds.find? id with
  | none => exact Registry.find?_insert _ _ _ _
  | some previous =>
    refine (Registry.find?_insert _ _ _ _).trans ?_
    rw [Registry.find?_erase]
    rfl

theorem find?_remove (index : NaturalIdIndex) (id : Identifier) (naturalId : NaturalId) :
    (index.remove id).ids.find? naturalId =
      if (index.naturalIds.find? id).any (· == naturalId) then none else index.ids.find? naturalId := by
  unfold remove
  cases index.naturalIds.find? id with
  | none => rfl
  | some held => exact Registry.find?_erase _ _ _

theorem naturalIds_remove (index : NaturalIdIndex) (id other : Identifier) :
    (index.remove id).naturalIds.find? other = if id == other then none else index.naturalIds.find? other := by
  unfold remove
  split
  next naturalId held => exact Registry.find?_erase _ _ _
  next missing =>
    split
    next same => exact (Registry.find?_congr _ same).symm.trans missing
    next => rfl

namespace Paired
variable (paired : index.Paired)
include paired

theorem any_held {naturalId : NaturalId} {id other : Identifier} (found : index.ids.find? naturalId = some id)
    (same : (other == id) = true) : (index.naturalIds.find? other).any (· == naturalId) = true := by
  obtain ⟨held, has, equal⟩ := paired naturalId id found
  rw [Registry.find?_congr _ same, has]
  exact equal

theorem record (id : Identifier) (given : NaturalId) : (index.record id given).Paired := by
  intro naturalId found leads
  have known : (index.record id given).naturalIds.find? found =
      if id == found then some given else index.naturalIds.find? found := Registry.find?_insert _ _ _ _
  rw [find?_record] at leads
  rw [known]
  split at leads
  next same =>
    cases leads
    exact ⟨given, if_pos BEq.rfl, same⟩
  next =>
    split at leads
    next => cases leads
    next kept =>
      have apart : ¬ (id == found) = true := fun same => kept (paired.any_held leads same)
      rw [if_neg apart]
      exact paired naturalId found leads

theorem remove (id : Identifier) : (index.remove id).Paired := by
  intro naturalId found leads
  rw [find?_remove] at leads
  split at leads
  next => cases leads
  next kept =>
    have apart : ¬ (id == found) = true := fun same => kept (paired.any_held leads same)
    rw [naturalIds_remove, if_neg apart]
    exact paired naturalId found leads

theorem remove_unreachable {id found : Identifier} {naturalId : NaturalId}
    (leads : (index.remove id).ids.find? naturalId = some found) : (id == found) = false := by
  apply Bool.eq_false_iff.mpr
  intro same
  obtain ⟨held, has, -⟩ := paired.remove id naturalId found leads
  rw [naturalIds_remove, if_pos same] at has
  cases has

end Paired

end NaturalIdIndex

namespace NaturalIds

def Paired (resolutions : NaturalIds) : Prop := ∀ root, (resolutions.index root).Paired

theorem index_record {d : Descriptor} {heap : Heap} {state : List AttributeValue} {given : NaturalId}
    (resolutions : NaturalIds) (id : Identifier) (has : NaturalId.ofState? heap d state = some given) (root : String) :
    (resolutions.record heap d id state).index root =
      if d.rootName = root then (resolutions.index root).record id given else resolutions.index root := by
  unfold record
  rw [has]
  unfold index
  rw [Registry.find?_insert]
  by_cases same : d.rootName = root
  · subst same
    simp only [BEq.rfl, if_true, Option.getD_some]
  · rw [if_neg (by simpa using same), if_neg same]

theorem index_remove (resolutions : NaturalIds) (key : EntityKey) (root : String) :
    (resolutions.remove key).index root =
      if key.entity = root then (resolutions.index root).remove key.id else resolutions.index root := by
  unfold remove index
  rw [Registry.find?_modify]
  by_cases same : key.entity = root
  · subst same
    simp only [BEq.rfl, if_true]
    cases resolutions.indices.find? key.entity <;> rfl
  · rw [if_neg (by simpa using same), if_neg same]

theorem findNaturalId?_remove (resolutions : NaturalIds) (removed key : EntityKey) :
    (resolutions.remove removed).findNaturalId? key =
      if removed == key then none else resolutions.findNaturalId? key := by
  unfold findNaturalId?
  rw [index_remove]
  by_cases root : removed.entity = key.entity
  · rw [if_pos root, NaturalIdIndex.naturalIds_remove]
    simp [EntityKey.beq_iff, root]
  · rw [if_neg root, if_neg fun same => root (EntityKey.beq_iff.mp same).1]

end NaturalIds

/-- What is done to the natural ids that a session knows. The instances that a state refers to may change in between. -/
inductive NaturalIdChange where
  | record (heap : Heap) (d : Descriptor) (id : Identifier) (state : List AttributeValue)
  | remove (key : EntityKey)
  | clear

namespace NaturalIdChange

def perform (resolutions : NaturalIds) : NaturalIdChange → NaturalIds
  | .record heap d id state => resolutions.record heap d id state
  | .remove key => resolutions.remove key
  | .clear => {}

theorem perform_paired {resolutions : NaturalIds} (paired : resolutions.Paired) (change : NaturalIdChange) :
    (change.perform resolutions).Paired := by
  intro root
  cases change with
  | record heap d id state =>
    change ((resolutions.record heap d id state).index root).Paired
    cases has : NaturalId.ofState? heap d state with
    | none =>
      rw [NaturalIds.record, has]
      exact paired root
    | some given =>
      rw [NaturalIds.index_record resolutions id has]
      split
      · exact (paired root).record id given
      · exact paired root
  | remove key =>
    change ((resolutions.remove key).index root).Paired
    rw [NaturalIds.index_remove]
    split
    · exact (paired root).remove key.id
    · exact paired root
  | clear => exact NaturalIdIndex.empty_paired

end NaturalIdChange

namespace NaturalIds

/-- What is known after changes in this order. -/
def after (changes : List NaturalIdChange) : NaturalIds := changes.foldl NaturalIdChange.perform {}

theorem after_paired (changes : List NaturalIdChange) : (after changes).Paired := by
  have preserved (resolutions : NaturalIds) (paired : resolutions.Paired) :
      (changes.foldl NaturalIdChange.perform resolutions).Paired := by
    induction changes generalizing resolutions with
    | nil => exact paired
    | cons change rest ih => exact ih _ (change.perform_paired paired)
  exact preserved {} fun _ => NaturalIdIndex.empty_paired

end NaturalIds

/-- Whatever was recorded and removed before, a natural id leads to an identifier that has it still, so no identifier
is found by two of them; a natural id just recorded leads to its identifier; and a removed identifier is found by
none. -/
theorem natural_ids_are_current (changes : List NaturalIdChange) :
    (∀ root naturalId id, (NaturalIds.after changes).findId? root naturalId = some id →
      ∃ held, (NaturalIds.after changes).findNaturalId? ⟨root, id⟩ = some held ∧ (held == naturalId) = true) ∧
    (∀ root naturalId other id id', (NaturalIds.after changes).findId? root naturalId = some id →
      (NaturalIds.after changes).findId? root other = some id' → (id == id') = true → (naturalId == other) = true) ∧
    (∀ heap d id state given, NaturalId.ofState? heap d state = some given →
      ((NaturalIds.after changes).record heap d id state).findId? d.rootName given = some id ∧
      ((NaturalIds.after changes).record heap d id state).findNaturalId? ⟨d.rootName, id⟩ = some given) ∧
    (∀ key naturalId id, ((NaturalIds.after changes).remove key).findId? key.entity naturalId = some id →
      (key.id == id) = false) := by
  have paired := NaturalIds.after_paired changes
  refine ⟨fun root => paired root, ?_, ?_, ?_⟩
  · intro root naturalId other id id' leads leads' same
    obtain ⟨held, has, equal⟩ := paired root naturalId id leads
    obtain ⟨held', has', equal'⟩ := paired root other id' leads'
    rw [Registry.find?_congr _ same, has'] at has
    cases has
    exact BEq.trans (BEq.symm equal) equal'
  · intro heap d id state given has
    unfold NaturalIds.findId? NaturalIds.findNaturalId?
    rw [NaturalIds.index_record _ id has, if_pos rfl, NaturalIdIndex.find?_record, if_pos BEq.rfl]
    exact ⟨rfl, (Registry.find?_insert _ _ _ _).trans (if_pos BEq.rfl)⟩
  · intro key naturalId id leads
    unfold NaturalIds.findId? at leads
    rw [NaturalIds.index_remove, if_pos rfl] at leads
    exact (paired key.entity).remove_unreachable leads

namespace Sample

def product : Descriptor where
  name := "Product"
  rootName := "Item"
  identifier := { name := "id" }
  attributes := [.basic "code"]
  naturalId := some ["code"]

def coded (id code : Bool) : NaturalIdChange := .record ∅ product (.ofColumns [.bool id]) [.basic (.bool code)]

/-- Two products share a code, the later one changes its own, and the earlier one is seen once more. -/
def recoded : List NaturalIdChange := [coded false true, coded true true, coded true false, coded false true]

end Sample

open Sample in
theorem natural_ids_are_current_recoded :
    (NaturalIds.after recoded).findId? "Item" ⟨[.bool true]⟩ = some (.ofColumns [.bool false]) ∧
      (NaturalIds.after recoded).findId? "Item" ⟨[.bool false]⟩ = some (.ofColumns [.bool true]) ∧
      (∃ held, (NaturalIds.after recoded).findNaturalId? ⟨"Item", .ofColumns [.bool true]⟩ = some held ∧
        (held == ⟨[.bool false]⟩) = true) ∧
      ((NaturalIds.after recoded).remove ⟨"Item", .ofColumns [.bool true]⟩).findId? "Item" ⟨[.bool true]⟩ =
        some (.ofColumns [.bool false]) ∧
      (Identifier.ofColumns [.bool true] == .ofColumns [.bool false]) = false := by
  obtain ⟨current, -, -, removed⟩ := natural_ids_are_current recoded
  exact ⟨rfl, rfl, current "Item" ⟨[.bool false]⟩ _ rfl, rfl, removed ⟨"Item", .ofColumns [.bool true]⟩ ⟨[.bool true]⟩ _ rfl⟩

end UnitOfWork
