import UnitOfWork.Proofs.NaturalIdLookups

/-! Natural ids that several identifiers have at a time: rows without a value, or a value that moved from one row to
another. Such a natural id leads to the last of them. What an identifier had is forgotten by its values, so whichever of
them changes takes the lookup away from the one it led to. -/

namespace UnitOfWork

namespace NaturalIdIndex

def has (index : NaturalIdIndex) (id : Identifier) (naturalId : NaturalId) : Bool :=
  (index.naturalIds.find? id).any (· == naturalId)

/-- An identifier gets another natural id, or has none from then on. -/
def revise (index : NaturalIdIndex) (id : Identifier) : Option NaturalId → NaturalIdIndex
  | some given => index.record id given
  | none => index.remove id

variable (index : NaturalIdIndex)

theorem has_congr {id other : Identifier} (same : (id == other) = true) (naturalId : NaturalId) :
    index.has id naturalId = index.has other naturalId := by
  unfold has
  rw [Registry.find?_congr _ same]

/-- A natural id that nobody is given leads on as long as the changed identifier did not have it. -/
theorem find?_revise (id : Identifier) {given : Option NaturalId} {naturalId : NaturalId}
    (elsewhere : given.any (· == naturalId) = false) :
    (index.revise id given).ids.find? naturalId =
      if index.has id naturalId then none else index.ids.find? naturalId := by
  cases given with
  | none => exact index.find?_remove id naturalId
  | some given =>
    refine (index.find?_record id given naturalId).trans (if_neg ?_)
    exact Bool.eq_false_iff.mp elsewhere

theorem naturalIds_revise (id other : Identifier) (given : Option NaturalId) :
    (index.revise id given).naturalIds.find? other = if id == other then given else index.naturalIds.find? other := by
  cases given with
  | none => exact index.naturalIds_remove id other
  | some given => exact Registry.find?_insert _ _ _ _

theorem has_revise (id other : Identifier) {given : Option NaturalId} {naturalId : NaturalId}
    (elsewhere : given.any (· == naturalId) = false) :
    (index.revise id given).has other naturalId = (!(id == other) && index.has other naturalId) := by
  unfold has
  rw [naturalIds_revise]
  cases id == other with
  | true => exact elsewhere
  | false => rfl

def reviseAll (index : NaturalIdIndex) (revisions : List (Identifier × Option NaturalId)) : NaturalIdIndex :=
  revisions.foldl (fun index revision => index.revise revision.1 revision.2) index

variable {revisions : List (Identifier × Option NaturalId)} {naturalId : NaturalId}

/-- Nobody comes to have the natural id meanwhile, so those who have it at a change had it from the start. -/
theorem find?_reviseAll (elsewhere : ∀ revision ∈ revisions, revision.2.any (· == naturalId) = false) :
    (index.reviseAll revisions).ids.find? naturalId =
      if revisions.any (fun revision => index.has revision.1 naturalId) then none else index.ids.find? naturalId := by
  induction revisions generalizing index with
  | nil => rfl
  | cons first rest ih =>
    have away := elsewhere first List.mem_cons_self
    refine (ih (index.revise first.1 first.2) fun revision member =>
      elsewhere revision (List.mem_cons_of_mem _ member)).trans ?_
    rw [find?_revise index first.1 away, List.any_cons]
    cases had : index.has first.1 naturalId with
    | true => simp
    | false =>
      have unchanged (other : Identifier) :
          (index.revise first.1 first.2).has other naturalId = index.has other naturalId := by
        rw [has_revise index first.1 other away]
        cases same : first.1 == other with
        | true => rw [← has_congr index same, had]; rfl
        | false => rfl
      simp only [unchanged, Bool.false_or, Bool.false_eq_true, if_false]

theorem naturalIds_reviseAll {id : Identifier} (others : ∀ revision ∈ revisions, (revision.1 == id) = false) :
    (index.reviseAll revisions).naturalIds.find? id = index.naturalIds.find? id := by
  induction revisions generalizing index with
  | nil => rfl
  | cons first rest ih =>
    refine (ih (index.revise first.1 first.2) fun revision member =>
      others revision (List.mem_cons_of_mem _ member)).trans ?_
    rw [naturalIds_revise, others first List.mem_cons_self]
    rfl

end NaturalIdIndex

namespace NaturalIdChange

/-- Which identifier of the hierarchy is changed, and what it has then. -/
def revision? (root : String) : NaturalIdChange → Option (Identifier × Option NaturalId)
  | .record heap d id state =>
    if d.rootName = root then (NaturalId.ofState? heap d state).map fun given => (id, some given) else none
  | .remove key => if key.entity = root then some (key.id, none) else none
  | .clear => none

/-- Only other identifiers of the hierarchy are changed, and none of them is given the natural id. -/
structure Aside (change : NaturalIdChange) (root : String) (naturalId : NaturalId) (id : Identifier) : Prop where
  goesOn : change ≠ .clear
  other : ∀ revision, change.revision? root = some revision → (revision.1 == id) = false
  elsewhere : ∀ revision, change.revision? root = some revision → revision.2.any (· == naturalId) = false

def OfSharer (change : NaturalIdChange) (resolutions : NaturalIds) (root : String) (naturalId : NaturalId) : Prop :=
  ∃ revision held, change.revision? root = some revision ∧
    resolutions.findNaturalId? ⟨root, revision.1⟩ = some held ∧ (held == naturalId) = true

theorem index_perform (resolutions : NaturalIds) {change : NaturalIdChange} (goesOn : change ≠ .clear) (root : String) :
    (change.perform resolutions).index root =
      (resolutions.index root).reviseAll (change.revision? root).toList := by
  cases change with
  | clear => exact absurd rfl goesOn
  | remove key =>
    refine (NaturalIds.index_remove resolutions key root).trans ?_
    by_cases same : key.entity = root <;> simp [revision?, same, NaturalIdIndex.reviseAll, NaturalIdIndex.revise]
  | record heap d id state =>
    cases has : NaturalId.ofState? heap d state with
    | none =>
      have idle : resolutions.record heap d id state = resolutions := by rw [NaturalIds.record, has]
      have nothing : (NaturalIdChange.record heap d id state).revision? root = none := by simp [revision?, has]
      rw [nothing]
      exact congrArg (NaturalIds.index · root) idle
    | some given =>
      refine (NaturalIds.index_record resolutions id has root).trans ?_
      by_cases same : d.rootName = root <;>
        simp [revision?, has, same, NaturalIdIndex.reviseAll, NaturalIdIndex.revise]

end NaturalIdChange

namespace NaturalIds

theorem after_append (changes later : List NaturalIdChange) :
    after (changes ++ later) = later.foldl NaturalIdChange.perform (after changes) := List.foldl_append ..

theorem index_foldl {later : List NaturalIdChange} (goOn : ∀ change ∈ later, change ≠ .clear) (root : String)
    (resolutions : NaturalIds) :
    (later.foldl NaturalIdChange.perform resolutions).index root =
      (resolutions.index root).reviseAll (later.filterMap (·.revision? root)) := by
  induction later generalizing resolutions with
  | nil => rfl
  | cons change rest ih =>
    refine (ih (fun other member => goOn other (List.mem_cons_of_mem _ member)) _).trans ?_
    rw [NaturalIdChange.index_perform resolutions (goOn change List.mem_cons_self)]
    cases revised : change.revision? root with
    | none => rw [List.filterMap_cons_none revised]; rfl
    | some revision => rw [List.filterMap_cons_some revised]; rfl

theorem any_has_iff {later : List NaturalIdChange} {resolutions : NaturalIds} {root : String} {naturalId : NaturalId} :
    ((later.filterMap (·.revision? root)).any fun revision => (resolutions.index root).has revision.1 naturalId) = true ↔
      ∃ change ∈ later, change.OfSharer resolutions root naturalId := by
  rw [List.any_eq_true]
  constructor
  · rintro ⟨revision, member, has⟩
    obtain ⟨change, listed, revised⟩ := List.mem_filterMap.mp member
    obtain ⟨held, found, same⟩ := (Option.any_eq_true _ _).mp has
    exact ⟨change, listed, revision, held, revised, found, same⟩
  · rintro ⟨change, listed, revision, held, revised, found, same⟩
    refine ⟨revision, List.mem_filterMap.mpr ⟨change, listed, revised⟩, ?_⟩
    exact (Option.any_eq_true _ _).mpr ⟨held, found, same⟩

end NaturalIds

/-- A natural id that leads to one identifier goes on leading there, while others of the hierarchy are recorded with
different natural ids or removed, exactly until one of those others is changed that had the same natural id; then it
leads nowhere, though the identifier itself has it still. -/
theorem natural_id_leads_until_a_sharer_changes (changes later : List NaturalIdChange) {root : String}
    {naturalId : NaturalId} {id : Identifier} (leads : (NaturalIds.after changes).findId? root naturalId = some id)
    (aside : ∀ change ∈ later, change.Aside root naturalId id) :
    ((¬ ∃ change ∈ later, change.OfSharer (NaturalIds.after changes) root naturalId) →
      (NaturalIds.after (changes ++ later)).findId? root naturalId = some id) ∧
    ((∃ change ∈ later, change.OfSharer (NaturalIds.after changes) root naturalId) →
      (NaturalIds.after (changes ++ later)).findId? root naturalId = none) ∧
    ∃ held, (NaturalIds.after (changes ++ later)).findNaturalId? ⟨root, id⟩ = some held ∧ (held == naturalId) = true := by
  have indexed : (NaturalIds.after (changes ++ later)).index root =
      ((NaturalIds.after changes).index root).reviseAll (later.filterMap (·.revision? root)) := by
    rw [NaturalIds.after_append]
    exact NaturalIds.index_foldl (fun change member => (aside change member).goesOn) root _
  have elsewhere : ∀ revision ∈ later.filterMap (·.revision? root), revision.2.any (· == naturalId) = false := by
    intro revision member
    obtain ⟨change, listed, revised⟩ := List.mem_filterMap.mp member
    exact (aside change listed).elsewhere revision revised
  have others : ∀ revision ∈ later.filterMap (·.revision? root), (revision.1 == id) = false := by
    intro revision member
    obtain ⟨change, listed, revised⟩ := List.mem_filterMap.mp member
    exact (aside change listed).other revision revised
  have found : (NaturalIds.after (changes ++ later)).findId? root naturalId = if (later.filterMap (·.revision? root)).any
      (fun revision => ((NaturalIds.after changes).index root).has revision.1 naturalId) then none else some id := by
    unfold NaturalIds.findId?
    rw [indexed, NaturalIdIndex.find?_reviseAll _ elsewhere]
    exact congrArg _ leads
  refine ⟨fun apart => ?_, fun shared => ?_, ?_⟩
  · rw [found, if_neg (mt NaturalIds.any_has_iff.mp apart)]
  · rw [found, if_pos (NaturalIds.any_has_iff.mpr shared)]
  · obtain ⟨held, has, same⟩ := NaturalIds.after_paired changes root naturalId id leads
    refine ⟨held, ?_, same⟩
    unfold NaturalIds.findNaturalId?
    rw [indexed, NaturalIdIndex.naturalIds_reviseAll _ others]
    exact has

namespace Sample

def shared : List NaturalIdChange := [coded false true, coded true true]

def removed (id : Bool) : NaturalIdChange := .remove ⟨"Item", .ofColumns [.bool id]⟩

theorem coded_aside : (coded false false).Aside "Item" ⟨[.bool true]⟩ (.ofColumns [.bool true]) where
  goesOn := nofun
  other := by rintro _ ⟨⟩; rfl
  elsewhere := by rintro _ ⟨⟩; rfl

theorem removed_aside : (removed false).Aside "Item" ⟨[.bool true]⟩ (.ofColumns [.bool true]) where
  goesOn := nofun
  other := by rintro _ ⟨⟩; rfl
  elsewhere := by rintro _ ⟨⟩; rfl

end Sample

open Sample in
theorem natural_id_leads_until_a_sharer_changes_removed :
    (NaturalIds.after [coded true true, coded false false, removed false]).findId? "Item" ⟨[.bool true]⟩ =
      some (.ofColumns [.bool true]) ∧
    (NaturalIds.after (shared ++ [removed false])).findId? "Item" ⟨[.bool true]⟩ = none ∧
    ∃ held, (NaturalIds.after (shared ++ [removed false])).findNaturalId? ⟨"Item", .ofColumns [.bool true]⟩ = some held ∧
      (held == ⟨[.bool true]⟩) = true := by
  have aside : ∀ change ∈ [removed false], change.Aside "Item" ⟨[.bool true]⟩ (.ofColumns [.bool true]) := by
    intro change member
    cases List.mem_singleton.mp member
    exact removed_aside
  obtain ⟨kept, -, -⟩ :=
    natural_id_leads_until_a_sharer_changes [coded true true, coded false false] [removed false] rfl aside
  obtain ⟨-, lost, held⟩ := natural_id_leads_until_a_sharer_changes shared [removed false] rfl aside
  refine ⟨kept ?_, lost ⟨_, List.mem_cons_self, (_, none), ⟨[.bool true]⟩, rfl, rfl, rfl⟩, held⟩
  rintro ⟨change, member, revision, given, revised, found, same⟩
  cases List.mem_singleton.mp member
  cases revised
  cases found
  cases same

open Sample in
/-- Of two products with one code, the code leads to the one seen last until the other is removed, or is seen with
another code. -/
theorem shared_code_is_lost_with_the_other :
    (NaturalIds.after shared).findId? "Item" ⟨[.bool true]⟩ = some (.ofColumns [.bool true]) ∧
    (removed false).Aside "Item" ⟨[.bool true]⟩ (.ofColumns [.bool true]) ∧
    ((removed false).perform (NaturalIds.after shared)).findId? "Item" ⟨[.bool true]⟩ = none ∧
    (coded false false).Aside "Item" ⟨[.bool true]⟩ (.ofColumns [.bool true]) ∧
    ((coded false false).perform (NaturalIds.after shared)).findId? "Item" ⟨[.bool true]⟩ = none :=
  ⟨rfl, removed_aside, rfl, coded_aside, rfl⟩

end UnitOfWork
