import UnitOfWork.Proofs.RememberedRows

/-! Whether a row that a session has written counts as one. The database is asked once, and the session does not
correct the answer when it writes the row itself: an instance of a row that was looked for too early is taken for one
without a row for as long as the instance is tracked whose row it is. -/

namespace UnitOfWork
open UnitOfWork.Action

/-- From one journal to another the source finds a row under the key. -/
def SnapshotSource.Finds (source : SnapshotSource) (key : EntityKey) (from_ until_ : Journal) : Prop :=
  ∀ moment d id, (d.keyFor id == key) = true → from_ <+: moment → moment <+: until_ → source.select moment d id ≠ .ok none

/-- The inserts of a flush come to that of an instance, and this is the state when its row is in the books. -/
inductive Records (writer : Writer) (h : Handle) (row : State) : State → Prop where
  | now {s : State} {insert : Insert} {rest : List Insert} (next : s.actions.inserts = insert :: rest)
      (same : insert.handle = h) (wrote : (writeInsert writer insert).exec (s.taking rest) = (.ok (), row)) :
      Records writer h row s
  | later {s middle : State} {insert : Insert} {rest : List Insert} (next : s.actions.inserts = insert :: rest)
      (wrote : (executeInsert writer insert).exec (s.taking rest) = (.ok (), middle))
      (records : Records writer h row middle) : Records writer h row s

def FlushRecords (writer : Writer) (s : State) (h : Handle) (key : EntityKey) (row : State) : Prop :=
  ∃ ready, (takeReady >>= queueReleased).exec s = (.ok (), ready) ∧ Records writer h row ready ∧
    row.context.key? h = some key

theorem Proceeds.loop {writer : Writer} {s after : State} {bound : Nat} {answer : Except Error Nat}
    (enough : s.actions.pendingInserts ≤ bound) (ran : (runInserts writer bound).exec s = (answer, after)) :
    Proceeds s after := by
  rcases runInserts_cases bound enough ran with ⟨written, run, -⟩ | ⟨e, written, middle, insert, rest, run, next, failed, -⟩
  · exact .run run
  · exact (Proceeds.run run).trans (.next next failed)

namespace Records
variable {writer : Writer} {h : Handle} {row s after : State}

theorem rest (records : Records writer h row s) {bound : Nat} {answer : Except Error Nat}
    (enough : s.actions.pendingInserts ≤ bound) (ran : (runInserts writer bound).exec s = (answer, after)) :
    ∃ middle, Requeues row middle ∧ middle.actions.pending.Perm row.actions.pending ∧ (after = middle ∨
      ∃ bound answer, middle.actions.pendingInserts ≤ bound ∧
        (runInserts writer bound).exec middle = (answer, after)) := by
  -- along the rows up to this one; what is left of the bound covers what is left in the queue
  induction records generalizing bound answer with
  | @now s insert rest next same wrote =>
    have remaining := pendingInserts_taking next
    obtain ⟨bound, rfl⟩ : ∃ fewer, bound = fewer + 1 := ⟨bound - 1, by omega⟩
    rcases runInserts_step next ran with ⟨e, failed⟩ | ⟨middle, answer, done, others⟩
    · rw [executeInsert_eq, exec_bind_ok _ wrote] at failed
      obtain ⟨moved, conserved⟩ := releaseParked_pending failed
      exact ⟨after, moved, conserved, .inl rfl⟩
    · have decreases := executeInsert_decreases next done
      rw [executeInsert_eq, exec_bind_ok _ wrote] at done
      obtain ⟨moved, conserved⟩ := releaseParked_pending done
      exact ⟨middle, moved, conserved, .inr ⟨bound, answer, by omega, others⟩⟩
  | @later s middle insert rest next wrote records ih =>
    have remaining := pendingInserts_taking next
    obtain ⟨bound, rfl⟩ : ∃ fewer, bound = fewer + 1 := ⟨bound - 1, by omega⟩
    rcases runInserts_step next ran with ⟨e, failed⟩ | ⟨other, answer, done, others⟩
    · rw [wrote] at failed
      cases failed
    · rw [wrote] at done
      cases done
      have decreases := executeInsert_decreases next wrote
      exact ih (by omega) others

theorem onward (records : Records writer h row s) {bound : Nat} {answer : Except Error Nat}
    (enough : s.actions.pendingInserts ≤ bound) (ran : (runInserts writer bound).exec s = (answer, after)) :
    Proceeds row after := by
  obtain ⟨middle, moved, conserved, rfl | ⟨bound, answer, enough, others⟩⟩ := records.rest enough ran
  · exact .of_requeues moved conserved
  · exact (Proceeds.of_requeues moved conserved).trans (.loop enough others)

theorem sound (records : Records writer h row s) (sound : s.Sound) : row.Sound ∧ h ∉ row.actions.pending := by
  induction records with
  | now next same wrote =>
    obtain ⟨taken, idle, -⟩ := sound.taking next
    refine ⟨writeInsert_sound taken idle wrote, ?_⟩
    rw [writeInsert_actions wrote, ← same]
    exact idle
  | later next wrote records ih =>
    obtain ⟨taken, idle, -⟩ := sound.taking next
    exact ih (executeInsert_sound taken idle wrote)

end Records

/-- How things stand with a row that was recorded: the instance it is of goes together with the answer about it. -/
structure Holds (h : Handle) (key : EntityKey) (s : State) : Prop where
  forgotten : s.context.isTracked h = false → s.context.databaseSnapshot? key = none
  holder : s.context.isTracked h = true → s.context.entity? key = some h ∧ h ∉ s.actions.pending

namespace FlushRecords
variable {writer : Writer} {s row : State} {h : Handle} {key : EntityKey}

theorem stands (records : FlushRecords writer s h key row) (sound : s.Sound) :
    row.Sound ∧ h ∉ row.actions.pending ∧ row.context.entity? key = some h := by
  obtain ⟨ready, began, written, keyed⟩ := records
  obtain ⟨recorded, idle⟩ := written.sound (ready_sound sound began)
  refine ⟨recorded, idle, (recorded.coherent key h).mpr ?_⟩
  rw [keyed]
  exact BEq.rfl

theorem finishes (records : FlushRecords writer s h key row) (sound : s.Sound) {after : State}
    {answer : Except Error FlushResult} (ran : (flush writer).exec s = (answer, after)) : Finishes row after := by
  obtain ⟨ready, began, written, -⟩ := records
  obtain ⟨handles, middle, gone, last, stage, scheduled, deleted, ends⟩ := flush_stages ran
  obtain ⟨answer, looped⟩ := stage.loop began
  exact .intro (written.onward (Nat.le_refl _) looped) (stage.sound sound) scheduled deleted ends

end FlushRecords

theorem Finishes.holds {row after : State} {h : Handle} {key : EntityKey} (finishes : Finishes row after)
    (sound : row.Sound) (later : after.Sound) (idle : h ∉ row.actions.pending)
    (holder : row.context.entity? key = some h) : Holds h key after where
  forgotten := (finishes.remembers sound holder).1
  holder still := by
    rw [Context.isTracked_eq, Option.isSome_iff_ne_none] at still
    exact ⟨finishes.keepsKeys.holder sound.coherent later.coherent holder still, fun due => idle (finishes.pending due)⟩

theorem Move.keeps_holder {s : State} (move : Move) (sound : s.Sound) (allowed : move.Allowed s) {h : Handle}
    {key : EntityKey} (holder : s.context.entity? key = some h) (idle : h ∉ s.actions.pending)
    (still : (move.perform s).context.isTracked h = true) :
    (move.perform s).context.entity? key = some h ∧ h ∉ (move.perform s).actions.pending := by
  have performs := move.performs sound allowed
  obtain ⟨entry, tracked⟩ := sound.coherent.tracked holder
  constructor
  · have keyed := (sound.coherent key h).mp holder
    obtain ⟨held, known, same⟩ := (Option.any_eq_true _ _).mp keyed
    refine ((move.perform_sound sound allowed).coherent key h).mpr ?_
    rcases performs.keeps_key sound known with gone | kept
    · rw [← untracked_iff, still] at gone
      cases gone
    · rw [kept]
      exact same
  · intro due
    rcases performs.pending due with before | ⟨unknown, -⟩
    · exact idle before
    · rw [tracked] at unknown
      cases unknown

theorem Through.holder {start s : State} {moves : List Move} {h : Handle} {key : EntityKey}
    (through : Through (·.context.isTracked h = true) start moves s) (sound : start.Sound) (holds : Holds h key start) :
    s.context.entity? key = some h ∧ h ∉ s.actions.pending := by
  have keeps {s : State} {move : Move} (stands : s.context.entity? key = some h ∧ h ∉ s.actions.pending) (sound : s.Sound)
      (allowed : move.Allowed s) (still : (move.perform s).context.isTracked h = true) :
      (move.perform s).context.entity? key = some h ∧ h ∉ (move.perform s).actions.pending :=
    move.keeps_holder sound allowed stands.1 stands.2 still
  exact (through.preserves sound (holds.holder through.began) keeps).2

def State.Finds (s : State) (key : EntityKey) (from_ until_ : Journal) : Prop :=
  ∀ source, s.session.snapshotSource = some source → source.Finds key from_ until_

theorem State.Finds.not_selects {s : State} {key : EntityKey} {from_ until_ journal : Journal}
    (finds : s.Finds key from_ until_) (later : from_ <+: s.session.journal) (within : journal <+: until_) :
    ¬s.Selects Descriptor.Keys journal key none := by
  rintro ⟨source, d, asked, moment, held, keys, same, after, before, found⟩
  refine finds source held moment d asked.id ?_ (later.trans after) (before.trans within) found
  rw [show d.keyFor asked.id = asked from keys]
  exact same

/-- A row that was not found before it was recorded is not found either while its instance is tracked. -/
theorem Through.missed_iff {start s : State} {moves : List Move} {h : Handle} {key : EntityKey} {from_ until_ : Journal}
    (through : Through (·.Finds key from_ until_) start moves s) (keyed : ∀ move ∈ moves, move.Keyed)
    (sound : start.Sound) (holds : Holds h key start) (later : from_ <+: start.session.journal)
    (within : s.session.journal <+: until_) : start.session.journal <+: s.session.journal ∧
      (s.context.databaseSnapshot? key = some none ↔ start.context.databaseSnapshot? key = some none ∧
        Through (·.context.isTracked h = true) start moves s) := by
  induction through with
  | start here =>
    refine ⟨List.prefix_refl _, fun missed => ⟨missed, .start ?_⟩, And.left⟩
    by_contra gone
    cases missed.symm.trans (holds.forgotten (Bool.eq_false_iff.mpr gone))
  | @step moves s move through allowed here ih =>
    have own := keyed move (List.mem_append_right _ (List.mem_singleton_self _))
    have earlier : ∀ move ∈ moves, move.Keyed := fun move member => keyed move (List.mem_append_left _ member)
    have sound' := through.sound sound
    have discovers := move.discovers own sound'
    have extended := discovers.journal
    obtain ⟨longer, missed⟩ := ih earlier (extended.trans within)
    refine ⟨longer.trans extended, ?_⟩
    rw [through.extend_iff move allowed]
    constructor
    · intro none_
      have before := (discovers.learns key none none_).resolve_right
        (through.here.not_selects (later.trans longer) within)
      obtain ⟨began, tracked⟩ := missed.mp before
      obtain ⟨holder, idle⟩ := tracked.holder sound holds
      refine ⟨began, tracked, ?_⟩
      by_contra gone
      have forgotten := (move.remembers own sound' allowed holder idle).1 (Bool.eq_false_iff.mpr gone)
      cases none_.symm.trans forgotten
    · rintro ⟨began, tracked, still⟩
      obtain ⟨holder, idle⟩ := tracked.holder sound holds
      exact (move.remembers own sound' allowed holder idle).2 still none (missed.mpr ⟨began, tracked⟩)

/-- An instance about which only the database has anything to say. -/
structure State.LeftToRow (s : State) (x : Handle) (d : Descriptor) (id : Identifier) : Prop where
  mapped : s.session.descriptor (s.heap.entity x) = .ok d
  identified : s.heap.id? x = some id
  undefined : d.identifier.unsaved = .undefined
  unversioned : d.isVersioned = false
  uncached : d.cacheRegion = none
  unasked : s.session.interceptor = none

namespace State.LeftToRow
variable {s after : State} {x : Handle} {d : Descriptor} {id : Identifier}

theorem isTransient_eq (left : s.LeftToRow x d id) :
    d.isTransient (s.heap.read x) = if id.isNull then some true else none := by
  have known : (s.heap.read x).id = some id := left.identified
  unfold Descriptor.isTransient
  rw [known, left.unversioned, left.undefined]
  rfl

theorem classify_ok (left : s.LeftToRow x d id) {state : EntityState}
    (ran : (classify (.reference (.loaded x)) none).exec s = (.ok state, after)) :
    id.isNull = true ∧ state = .transient ∨ id.isNull = false ∧ ∃ row,
      (databaseSnapshot d (d.keyFor id)).exec s = (.ok row, after) ∧ state = .ofTransient row.isNone := by
  have decided := left.isTransient_eq
  change (classifyInstance x none).exec s = _ at ran
  rw [classifyInstance_exec none left.unasked left.mapped] at ran
  split at decided
  next null =>
    rw [exec_bind_ok _ (typeOpinion_exec decided)] at ran
    cases ran
    exact .inl ⟨null, rfl⟩
  next known =>
    have silent : (typeOpinion d x).exec s = (.ok none, s) := by
      have unknown : s.region? d = none := by rw [State.region?, left.uncached, Option.bind_none]
      unfold typeOpinion cacheOpinion
      rw [exec_get_bind]
      dsimp only
      rw [decided, show (s.heap.read x).id = some id from left.identified]
      dsimp only
      rw [exec_get_bind, unknown]
      exact apply_ite (fun action => Action.exec action s) _ _ _ |>.trans (ite_self _)
    rw [exec_bind_ok _ silent] at ran
    change (classifyByRow d x).exec s = _ at ran
    unfold classifyByRow at ran
    rw [exec_get_bind, left.identified] at ran
    obtain ⟨row, middle, found, ended⟩ := bind_ok ran
    cases ended
    exact .inr ⟨Bool.eq_false_iff.mpr known, row, found, rfl⟩

theorem transient_iff (left : s.LeftToRow x d id) {key : EntityKey} {from_ : Journal} {state : EntityState}
    (same : (d.keyFor id == key) = true) (finds : s.Finds key from_ s.session.journal)
    (later : from_ <+: s.session.journal)
    (ran : (classify (.reference (.loaded x)) none).exec s = (.ok state, after)) :
    state = .transient ↔ id.isNull = true ∨ s.context.databaseSnapshot? key = some none := by
  rcases left.classify_ok ran with ⟨null, rfl⟩ | ⟨known, found, selected, rfl⟩
  · exact ⟨fun _ => .inl null, fun _ => rfl⟩
  · rw [known, ← show s.context.databaseSnapshot? (d.keyFor id) = s.context.databaseSnapshot? key from
      Registry.find?_congr _ same]
    obtain ⟨source, held, ⟨told, -⟩ | ⟨untold, answered, -⟩⟩ := databaseSnapshot_ok selected
    · rw [told]
      cases found <;> simp [EntityState.ofTransient]
    · rw [untold]
      cases found with
      | none => exact absurd answered (finds source held _ d id same later (List.prefix_refl _))
      | some _ => simp [EntityState.ofTransient]

end State.LeftToRow

/-- The session remembers that there is no row which it has written if it had not found the row before and the instance
has been tracked since of which it is; an instance with that identifier then counts as one without a row. -/
theorem written_row_counts_unless_missed {start t row s : State} {before later : List Move} {writer : Writer} {h : Handle}
    {key : EntityKey} (fresh : start.Fresh) (run : Run start before t) (records : FlushRecords writer t h key row)
    (keyed : ∀ move ∈ later, move.Keyed)
    (honest : Through (·.Finds key row.session.journal s.session.journal) ((Move.flush writer).perform t) later s) :
    (s.context.databaseSnapshot? key = some none ↔ row.context.databaseSnapshot? key = some none ∧
      Through (·.context.isTracked h = true) ((Move.flush writer).perform t) later s) ∧
    ∀ x d id state after, s.LeftToRow x d id → (d.keyFor id == key) = true →
      (classify (.reference (.loaded x)) none).exec s = (.ok state, after) →
      (state = .transient ↔ id.isNull = true ∨ s.context.databaseSnapshot? key = some none) := by
  have sound := run.sound fresh.sound
  rcases ran : (flush writer).exec t with ⟨answer, flushed⟩
  rw [Move.flush_perform ran] at honest ⊢
  have finishes := records.finishes sound ran
  have flushedSound := flush_sound sound ran
  obtain ⟨recorded, idle, holder⟩ := records.stands sound
  have holds := finishes.holds recorded flushedSound idle holder
  have extended := finishes.discovers.journal
  obtain ⟨longer, missed⟩ := honest.missed_iff keyed flushedSound holds extended (List.prefix_refl _)
  constructor
  · rw [missed]
    refine ⟨fun ⟨before, tracked⟩ => ⟨?_, tracked⟩, fun ⟨before, tracked⟩ =>
      ⟨(finishes.remembers recorded holder).2 tracked.began none before, tracked⟩⟩
    have finds : row.Finds key row.session.journal s.session.journal := fun selects held =>
      honest.began selects (finishes.source.trans held)
    exact (finishes.discovers.learns key none before).resolve_right (finds.not_selects (List.prefix_refl _) longer)
  · exact fun x d id state after left same ran => left.transient_iff same honest.here (extended.trans longer) ran

namespace Sample

def ticket : Descriptor where
  name := "Ticket"
  identifier := { name := "number", generator := .assigned }

def number : Identifier := .ofValue (.bool true)

def newTicket : Instance := { entity := "Ticket", values := [], id := some number }

def written : SnapshotSource where
  select journal d id := .ok (if journal.any (fun call => match call with
    | .insert _ entity (some given) _ => (⟨entity, given⟩ : EntityKey) == d.keyFor id
    | _ => false) then some [] else none)

def accepting : Writer where
  insert _ _ _ _ := .ok none
  delete _ _ _ := .ok ()

def tickets : State where
  heap := ⟨#[newTicket, newTicket]⟩
  shared := {}
  session := { factory := { metamodel := ⟨[ticket]⟩ }, snapshotSource := some written }

/-- Before one of them is saved the database is asked about the other. -/
def asked : List Move := [.ask (.classify (.reference (.loaded ⟨1⟩)) none), .save ⟨0⟩ false]

def askedState : State := asked.foldl (fun s move => move.perform s) tickets

theorem asked_run : Run tickets asked askedState := by
  have created : (⟨0⟩ : Handle) ∈ tickets.heap := Nat.zero_lt_two
  exact (Run.start : Run tickets [] _)
    |>.extend (.ask (.classify (.reference (.loaded ⟨1⟩)) none)) trivial
    |>.extend (.save ⟨0⟩ false) created

theorem written_finds {key : EntityKey} {s : State} {h : Handle} {state : List AttributeValue} {from_ until_ : Journal}
    (source : s.session.snapshotSource = some written) (inserted : .insert h key.entity (some key.id) state ∈ from_) :
    s.Finds key from_ until_ := by
  intro selects held moment d id same ⟨rest, extended⟩ _ missing
  cases source.symm.trans held
  have present : moment.any (fun call => match call with
      | .insert _ entity (some given) _ => (⟨entity, given⟩ : EntityKey) == d.keyFor id
      | _ => false) = true := by
    refine List.any_eq_true.mpr ⟨_, extended ▸ List.mem_append_left rest inserted, ?_⟩
    exact BEq.symm same
  unfold written at missing
  dsimp only at missing
  rw [present] at missing
  cases missing

def flushedState : State := (Move.flush accepting).perform askedState

theorem number_recorded : ∃ row, FlushRecords accepting askedState ⟨0⟩ (ticket.keyFor number) row ∧
    row.context.databaseSnapshot? (ticket.keyFor number) = some none ∧
    .insert ⟨0⟩ "Ticket" (some number) [] ∈ row.session.journal :=
  ⟨_, ⟨_, rfl, .now rfl rfl rfl, rfl⟩, rfl, List.mem_cons_of_mem _ (List.mem_singleton_self _)⟩

end Sample

open Sample in
/-- When the session is cleared, it forgets that it had not found the ticket. -/
theorem written_row_counts_unless_missed_cleared : ∃ row after state,
    Run tickets asked askedState ∧ FlushRecords accepting askedState ⟨0⟩ (ticket.keyFor number) row ∧
      row.context.databaseSnapshot? (ticket.keyFor number) = some none ∧
      (classify (.reference (.loaded ⟨1⟩)) none).exec (Move.clear.perform flushedState) =
        (.ok state, after) ∧ state ≠ .transient := by
  obtain ⟨row, records, missed, inserted⟩ := number_recorded
  obtain ⟨state, after, classified⟩ : ∃ state after, (classify (.reference (.loaded ⟨1⟩)) none).exec
      (Move.clear.perform flushedState) = (.ok state, after) := ⟨_, _, rfl⟩
  have finds {s : State} {until_ : Journal} (source : s.session.snapshotSource = some written) :
      s.Finds (ticket.keyFor number) row.session.journal until_ := written_finds source inserted
  have began : Through (·.Finds (ticket.keyFor number) row.session.journal (Move.clear.perform flushedState).session.journal)
      flushedState [] flushedState := .start (finds rfl)
  have honest := began.extend .clear trivial (finds rfl)
  have left : (Move.clear.perform flushedState).LeftToRow ⟨1⟩ ticket number :=
    ⟨rfl, rfl, rfl, rfl, rfl, rfl⟩
  obtain ⟨remembers, counts⟩ :=
    written_row_counts_unless_missed ⟨rfl, rfl, rfl⟩ asked_run records (by simp [Move.Keyed]) honest
  refine ⟨row, after, state, asked_run, records, missed, classified, fun transient => ?_⟩
  rcases (counts _ _ _ _ _ left BEq.rfl classified).mp transient with null | told
  · cases null
  · cases (remembers.mp told).2.here

open Sample in
/-- The other instance of the ticket is taken for one without a row, although the database has the row. -/
theorem written_ticket_counts_as_new : ∃ row after,
    Run tickets asked askedState ∧ FlushRecords accepting askedState ⟨0⟩ (ticket.keyFor number) row ∧
      (∀ until_, flushedState.Finds (ticket.keyFor number) row.session.journal until_) ∧
      flushedState.LeftToRow ⟨1⟩ ticket number ∧
      (classify (.reference (.loaded ⟨1⟩)) none).exec flushedState =
        (.ok .transient, after) := by
  obtain ⟨row, records, missed, inserted⟩ := number_recorded
  exact ⟨row, _, asked_run, records, fun _ => written_finds rfl inserted, ⟨rfl, rfl, rfl, rfl, rfl, rfl⟩, rfl⟩

end UnitOfWork
