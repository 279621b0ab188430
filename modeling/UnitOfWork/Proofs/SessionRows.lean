import UnitOfWork.Proofs.FlushFailure

/-! The rows a session has in the database, by the calls it has made, and what writing inserts leaves alone. -/

namespace UnitOfWork
open UnitOfWork.Action

/-- Whether the instance has a row after this call, if it had one before or not. -/
def Call.standing (h : Handle) (before : Bool) : Call → Bool
  | .insert other _ _ _ => before || other = h
  | .delete other _ _ => before && other ≠ h
  | _ => before

namespace State

/-- By the calls so far, the instance has been inserted and not been deleted since. -/
def hasRow (s : State) (h : Handle) : Bool := s.session.journal.foldl (Call.standing h) false

/-- The session takes the instance to have a row. -/
def Established (s : State) (h : Handle) : Prop :=
  ∃ entry, s.context.entry? h = some entry ∧ entry.status ≠ .saving

theorem Established.congr {s after : State} {h : Handle} (established : s.Established h)
    (same : after.context.entry? h = s.context.entry? h) : after.Established h := by
  unfold Established at *
  rw [same]
  exact established

theorem Established.tracked {s : State} {h : Handle} (established : s.Established h) : s.context.entry? h ≠ none := by
  obtain ⟨entry, tracked, -⟩ := established
  rw [tracked]
  exact nofun

end State

private theorem standing_inserts {h : Handle} {calls : Journal} {before : Bool}
    (undeleted : calls.filterMap Call.deleted? = []) :
    calls.foldl (Call.standing h) before = true ↔ before = true ∨ h ∈ calls.filterMap Call.inserted? := by
  induction calls generalizing before with
  | nil => simp
  | cons call rest ih =>
    rw [List.foldl_cons]
    cases call with
    | delete other entity id => cases undeleted
    | insert other entity id state =>
      rw [ih undeleted]
      change _ ↔ before = true ∨ h ∈ other :: rest.filterMap Call.inserted?
      rw [Call.standing, Bool.or_eq_true, decide_eq_true_iff, List.mem_cons, or_assoc, eq_comm (a := h)]
    | _ =>
      rw [ih undeleted]
      rfl

private theorem standing_deletes {h : Handle} {calls : Journal} {before : Bool}
    (uninserted : calls.filterMap Call.inserted? = []) :
    calls.foldl (Call.standing h) before = true ↔
      before = true ∧ h ∉ (calls.filterMap Call.deleted?).map Prod.fst := by
  induction calls generalizing before with
  | nil => simp
  | cons call rest ih =>
    rw [List.foldl_cons]
    cases call with
    | insert other entity id state => cases uninserted
    | delete other entity id =>
      rw [ih uninserted]
      change _ ↔ before = true ∧ h ∉ other :: (rest.filterMap Call.deleted?).map Prod.fst
      rw [Call.standing, Bool.and_eq_true, decide_eq_true_iff, List.mem_cons, not_or, and_assoc, Ne, eq_comm (a := h)]
    | _ =>
      rw [ih uninserted]
      rfl

namespace Wrote
variable {a b : State} {h : Handle}

theorem hasRow_inserts {inserted : List Handle} (wrote : Wrote a b inserted []) :
    b.hasRow h = true ↔ a.hasRow h = true ∨ h ∈ inserted := by
  obtain ⟨calls, extended, rfl, undeleted⟩ := wrote
  rw [State.hasRow, extended, List.foldl_append]
  exact standing_inserts undeleted

theorem hasRow_deletes {deleted : List (Handle × Identifier)} (wrote : Wrote a b [] deleted) :
    b.hasRow h = true ↔ a.hasRow h = true ∧ h ∉ deleted.map Prod.fst := by
  obtain ⟨calls, extended, uninserted, rfl⟩ := wrote
  rw [State.hasRow, extended, List.foldl_append]
  exact standing_deletes uninserted

end Wrote

theorem Reads.hasRow {a b : State} {h : Handle} (reads : Reads a b) : b.hasRow h = true ↔ a.hasRow h = true := by
  obtain ⟨calls, extended, quiet⟩ := reads
  have wrote : Wrote a b [] [] := ⟨calls, extended, Wrote.silent quiet⟩
  simpa using wrote.hasRow_inserts (h := h)

namespace Context
variable (context : Context) (h other : Handle) (key : EntityKey)

theorem nullifiable_removeEntry : (context.removeEntry h).nullifiable = context.nullifiable := by
  unfold removeEntry
  split <;> rfl

theorem entry?_scheduled : Context.entry? ((context.setStatus h .deleted).markNullifiable key) other =
    if h = other then (context.entry? other).map fun entry => { entry with status := .deleted }
    else context.entry? other := entry?_updateEntry context h other _

theorem isNullifiableKey_markNullifiable (other : EntityKey) :
    (context.markNullifiable key).isNullifiableKey other = (key == other || context.isNullifiableKey other) := by
  rw [isNullifiableKey, markNullifiable, isNullifiableKey, Registry.contains_eq_isSome, Registry.contains_eq_isSome,
    Registry.find?_insert]
  split
  next same => rw [same, Bool.true_or, Option.isSome_some]
  next different => rw [Bool.eq_false_iff.mpr different, Bool.false_or]

theorem isNullifiableKey_scheduled (otherKey : EntityKey) :
    ((context.setStatus h .deleted).markNullifiable key).isNullifiableKey otherKey =
      (key == otherKey || context.isNullifiableKey otherKey) :=
  isNullifiableKey_markNullifiable (context.setStatus h .deleted) key otherKey

end Context

/-- The session goes on as far as deletes and identifiers are concerned: an instance has an identifier that it had
before or was given by an insert. -/
structure Continues (before after : State) : Prop where
  factory : after.session.factory = before.session.factory
  deletes : after.actions.deletes = before.actions.deletes
  nullifiable : after.context.nullifiable = before.context.nullifiable
  interceptor : after.session.interceptor = before.session.interceptor
  identified : ∃ calls, after.session.journal = before.session.journal ++ calls ∧
    ∀ h, after.heap.id? h ≠ none → before.heap.id? h ≠ none ∨ h ∈ calls.filterMap Call.inserted?

namespace Continues
variable {a b c : State}

theorem refl (s : State) : Continues s s :=
  ⟨rfl, rfl, rfl, rfl, [], (List.append_nil _).symm, fun _ known => .inl known⟩

theorem trans (first : Continues a b) (second : Continues b c) : Continues a c := by
  refine ⟨second.factory.trans first.factory, second.deletes.trans first.deletes,
    second.nullifiable.trans first.nullifiable, second.interceptor.trans first.interceptor, ?_⟩
  obtain ⟨calls, extended, known⟩ := first.identified
  obtain ⟨others, extended', known'⟩ := second.identified
  refine ⟨calls ++ others, by rw [extended', extended, List.append_assoc], fun h has => ?_⟩
  rw [List.filterMap_append]
  rcases known' h has with before | given
  · exact (known h before).imp_right (List.mem_append_left _)
  · exact .inr (List.mem_append_right _ given)

theorem of_requeues (moved : Requeues a b) : Continues a b := by
  obtain ⟨⟨calls, _, _, _, _⟩, _, _⟩ := moved
  exact ⟨rfl, rfl, rfl, rfl, calls, rfl, fun _ known => .inl known⟩

theorem mapContext (s : State) {change : Context → Context}
    (same : (change s.context).nullifiable = s.context.nullifiable) : Continues s (s.mapContext change) :=
  ⟨rfl, rfl, same, rfl, [], (List.append_nil _).symm, fun _ known => .inl known⟩

theorem removeEntry (s : State) (h : Handle) : Continues s (s.mapContext fun context => context.removeEntry h) :=
  .mapContext s (Context.nullifiable_removeEntry _ _)

theorem isNullifiableKey (continues : Continues a b) : b.context.isNullifiableKey = a.context.isNullifiableKey := by
  funext key
  rw [Context.isNullifiableKey, continues.nullifiable, Context.isNullifiableKey]

theorem isNullifiable (continues : Continues a b) : b.context.isNullifiable = a.context.isNullifiable := by
  funext entry early
  rw [Context.isNullifiable, continues.isNullifiableKey, Context.isNullifiable]

end Continues

/-- Inserts are written: what is tracked stays so, and what has a row keeps it. -/
structure Advances (before after : State) : Prop extends Continues before after where
  tracked : ∀ h, after.context.entry? h = none ↔ before.context.entry? h = none
  established : ∀ h, before.Established h → after.Established h

namespace Advances
variable {a b c : State}

theorem refl (s : State) : Advances s s := ⟨.refl s, fun _ => .rfl, fun _ known => known⟩

theorem trans (first : Advances a b) (second : Advances b c) : Advances a c :=
  ⟨first.toContinues.trans second.toContinues, fun h => (second.tracked h).trans (first.tracked h),
    fun h known => second.established h (first.established h known)⟩

theorem of_entries (continues : Continues a b) (same : ∀ h, b.context.entry? h = a.context.entry? h) : Advances a b :=
  ⟨continues, fun h => by rw [same], fun h known => known.congr (same h)⟩

theorem of_requeues (moved : Requeues a b) : Advances a b :=
  .of_entries (.of_requeues moved) moved.entry_eq

end Advances

namespace Action
variable {writer : Writer} {s after : State} {insert : Insert}

theorem writeInsert_advances {answer : Except Error Unit} (ran : (writeInsert writer insert).exec s = (answer, after)) :
    Advances s after := by
  have identified {given : Option Identifier} (h : Handle) (known : (s.heap.identify insert.handle given).id? h ≠ none) :
      s.heap.id? h ≠ none ∨ h ∈ [s.insertCall insert].filterMap Call.inserted? := by
    by_cases same : insert.handle = h
    · exact .inr (List.mem_singleton.mpr same.symm)
    · rw [Heap.id?_identify _ _ same] at known
      exact .inl known
  cases answer with
  | error e =>
    obtain ⟨-, given, rfl⟩ := writeInsert_error ran
    exact .of_entries ⟨rfl, rfl, rfl, rfl, _, rfl, identified⟩ fun _ => rfl
  | ok _ =>
    obtain ⟨⟨written, recorded, managed, -⟩, others⟩ := writeInsert_entries ran
    obtain ⟨given, id, context, naturalIds, -, -, assigned, rfl⟩ := writeInsert_ok ran
    obtain ⟨entry, held, tracked, -, kept⟩ := Context.assignKey_ok assigned
    have same : context.nullifiable = s.context.nullifiable := by
      rcases kept with ⟨-, rfl⟩ | ⟨-, -, adds⟩
      · rfl
      · exact adds.nullifiable
    refine ⟨⟨rfl, rfl, same, rfl, _, rfl, identified⟩, fun h => ?_, fun h known => ?_⟩
    · by_cases here : h = insert.handle
      · rw [here, recorded, tracked]
        exact iff_of_false nofun nofun
      · rw [others h here]
    · by_cases here : h = insert.handle
      · subst here
        exact ⟨written, recorded, by rw [managed]; exact nofun⟩
      · exact known.congr (others h here)

theorem executeInsert_advances {answer : Except Error Unit}
    (ran : (executeInsert writer insert).exec s = (answer, after)) : Advances s after := by
  rcases executeInsert_cases ran with ⟨_, _, failed⟩ | ⟨row, wrote, released⟩
  · exact writeInsert_advances failed
  · exact (writeInsert_advances wrote).trans (.of_requeues (releaseParked_pending released).1)

theorem taking_advances (s : State) (rest : List Insert) : Advances s (s.taking rest) :=
  .of_entries ⟨rfl, rfl, rfl, rfl, [], (List.append_nil _).symm, fun _ known => .inl known⟩ fun _ => rfl

theorem nextInsert_advances {rest : List Insert} {answer : Except Error Unit}
    (ran : (executeInsert writer insert).exec (s.taking rest) = (answer, after)) : Advances s after :=
  (taking_advances s rest).trans (executeInsert_advances ran)

theorem queueReady_advances {answer : Except Error Unit} (ran : (takeReady >>= queueReleased).exec s = (answer, after)) :
    Advances s after := .of_requeues (queueReady_pending ran).1

end Action

theorem InsertRun.advances {writer : Writer} {s after : State} {written : List Insert}
    (run : InsertRun writer s written after) : Advances s after := by
  induction run with
  | done s => exact .refl s
  | step next wrote run ih => exact (nextInsert_advances wrote).trans ih

end UnitOfWork
