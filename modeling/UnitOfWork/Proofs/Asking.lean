import UnitOfWork.Proofs.Execution
import UnitOfWork.Session.References

/-! What a session may change by asking. Judging a reference calls collaborators, selects rows and counts
cache reads, and touches nothing else. An answer once had is had again, whatever is asked in between. -/

namespace UnitOfWork

namespace Call

def inserted? : Call → Option Handle
  | .insert h _ _ _ => some h
  | _ => none

def deleted? : Call → Option (Handle × Identifier)
  | .delete h _ id => some (h, id)
  | _ => none

def isWrite (call : Call) : Bool := call.inserted?.isSome || call.deleted?.isSome

/-- What is asked about a row, of the application, the database or a region. -/
def isQuestion : Call → Bool
  | .intercept _ | .probe .. | .region _ (.get _) => true
  | _ => false

theorem isWrite_of_isQuestion {call : Call} (asks : call.isQuestion = true) : call.isWrite = false := by
  unfold isQuestion at asks
  split at asks
  all_goals first | rfl | cases asks

end Call

/-- The state with more calls in the journal and other rows and counts remembered. -/
def State.asking (s : State) (calls : Journal) (rows : Registry EntityKey (Option (List Value)))
    (statistics : Statistics) : State :=
  { s with
    shared := { s.shared with statistics }
    session := { s.session with
      journal := s.session.journal ++ calls
      context := { s.session.context with databaseSnapshots := rows } } }

/-- The source of the session selects this row at some moment up to this journal, by a descriptor that fits the key. -/
def State.Selects (s : State) (fits : Descriptor → EntityKey → Prop) (journal : Journal) (key : EntityKey)
    (row : Option (List Value)) : Prop :=
  ∃ source d asked moment, s.session.snapshotSource = some source ∧ fits d asked ∧ (asked == key) = true ∧
    s.session.journal <+: moment ∧ moment <+: journal ∧ source.select moment d asked.id = .ok row

/-- No row is written, no selected row is forgotten, and rows are remembered only as they are selected. -/
inductive AsksBy (fits : Descriptor → EntityKey → Prop) (before : State) : State → Prop where
  | intro (calls : Journal) (rows : Registry EntityKey (Option (List Value))) (statistics : Statistics)
      (asks : ∀ call ∈ calls, call.isQuestion = true)
      (remembers : ∀ key row, before.context.databaseSnapshot? key = some row → rows.find? key = some row)
      (learns : ∀ key row, rows.find? key = some row → before.context.databaseSnapshot? key = some row ∨
        before.Selects fits (before.session.journal ++ calls) key row) :
      AsksBy fits before (before.asking calls rows statistics)

/-- The key is one of the descriptor's. -/
def Descriptor.Keys (d : Descriptor) (key : EntityKey) : Prop := d.keyFor key.id = key

abbrev Asks : State → State → Prop := AsksBy Descriptor.Keys

namespace AsksBy
variable {fits : Descriptor → EntityKey → Prop}

theorem refl (s : State) : AsksBy fits s s := by
  have same : s.asking [] s.context.databaseSnapshots s.shared.statistics = s := by
    simp [State.asking, State.context]
  have unasked := @AsksBy.intro fits s [] s.context.databaseSnapshots s.shared.statistics
    (by simp) (fun _ _ held => held) (fun _ _ held => .inl held)
  rwa [same] at unasked

theorem trans {a b c : State} (first : AsksBy fits a b) (second : AsksBy fits b c) : AsksBy fits a c := by
  obtain ⟨calls, rows, statistics, asks, remembers, learns⟩ := first
  obtain ⟨others, rows', statistics', asks', remembers', learns'⟩ := second
  have same : (a.asking calls rows statistics).asking others rows' statistics' =
      a.asking (calls ++ others) rows' statistics' := by
    simp [State.asking]
  rw [same]
  refine .intro _ _ _ ?_ (fun key row held => remembers' key row (remembers key row held)) fun key row held => ?_
  · intro call member
    rcases List.mem_append.mp member with early | late
    · exact asks call early
    · exact asks' call late
  · rw [← List.append_assoc]
    rcases learns' key row held with known | ⟨source, d, asked, moment, held, fit, same, from_, until_, found⟩
    · refine (learns key row known).imp_right ?_
      rintro ⟨source, d, asked, moment, held, fit, same, from_, until_, found⟩
      exact ⟨source, d, asked, moment, held, fit, same, from_, until_.trans (List.prefix_append _ _), found⟩
    · exact .inr ⟨source, d, asked, moment, held, fit, same, (List.prefix_append _ _).trans from_, until_, found⟩

theorem frame : Frame (AsksBy fits) := ⟨refl, trans⟩

theorem mono {others : Descriptor → EntityKey → Prop} (implies : ∀ d key, fits d key → others d key)
    {before after : State} (asks : AsksBy fits before after) : AsksBy others before after := by
  obtain ⟨calls, rows, statistics, questions, remembers, learns⟩ := asks
  refine .intro calls rows statistics questions remembers fun key row held => (learns key row held).imp_right ?_
  rintro ⟨source, d, asked, moment, held, fit, selected⟩
  exact ⟨source, d, asked, moment, held, implies d asked fit, selected⟩

theorem heap {before after : State} (asks : AsksBy fits before after) : after.heap = before.heap := by
  cases asks
  rfl

theorem actions {before after : State} (asks : AsksBy fits before after) : after.actions = before.actions := by
  cases asks
  rfl

theorem session {before after : State} (asks : AsksBy fits before after) : ∃ journal rows, after.session =
    { before.session with journal, context := { before.context with databaseSnapshots := rows } } := by
  cases asks
  exact ⟨_, _, rfl⟩

theorem record (s : State) {call : Call} (asks : call.isQuestion = true) : AsksBy fits s (s.record call) :=
  .intro [call] s.context.databaseSnapshots s.shared.statistics (by simpa using asks) (fun _ _ held => held)
    fun _ _ held => .inl held

theorem mapStatistics (s : State) (change : Statistics → Statistics) : AsksBy fits s (s.mapStatistics change) := by
  have same : s.mapStatistics change = s.asking [] s.context.databaseSnapshots (change s.shared.statistics) := by
    simp [State.mapStatistics, State.asking, State.context]
  rw [same]
  exact .intro _ _ _ (by simp) (fun _ _ held => held) fun _ _ held => .inl held

theorem select (s : State) {source : SnapshotSource} {d : Descriptor} {key : EntityKey} {row : Option (List Value)}
    (held : s.session.snapshotSource = some source) (fit : fits d key) (unknown : s.context.databaseSnapshot? key = none)
    (found : source.select s.session.journal d key.id = .ok row) :
    AsksBy fits s ((s.record (.probe d.name key.id)).mapContext fun context => context.rememberSnapshot key row) := by
  have same : (s.record (.probe d.name key.id)).mapContext (fun context => context.rememberSnapshot key row) =
      s.asking [.probe d.name key.id] (s.context.databaseSnapshots.insert key row) s.shared.statistics := by
    simp [State.record, State.mapContext, State.mapSession, Context.rememberSnapshot, State.asking, State.context]
  rw [same]
  refine .intro _ _ _ (List.forall_mem_singleton.mpr rfl) (fun other held known => ?_)
    fun other held known => ?_
  · rw [Registry.find?_insert]
    split
    next equal =>
      have missing : s.context.databaseSnapshot? other = none := by
        rw [← unknown]
        exact (Registry.find?_congr _ equal).symm
      rw [missing] at known
      cases known
    next => exact known
  · rw [Registry.find?_insert] at known
    split at known
    next equal =>
      cases known
      exact .inr ⟨source, d, key, s.session.journal, held, fit, equal, List.prefix_refl _, List.prefix_append _ _, found⟩
    next => exact .inl known

end AsksBy

theorem Asks.frame : Frame Asks := AsksBy.frame

/-- A cache read is counted under one of these. -/
def Metric.isRead : Metric → Bool
  | .cacheHits | .cacheMisses => true
  | .entityLoads | .cachePuts => false

/-- A relation that what asking does cannot leave. Rows are selected by descriptors that fit the key in the state that
asks. -/
structure Admits (fits : State → Descriptor → EntityKey → Prop) (relation : State → State → Prop) : Prop where
  frame : Frame relation
  record : ∀ s {call : Call}, call.isQuestion = true → call.isProbe = false → relation s (s.record call)
  count : ∀ s {metric : Metric} name, metric.isRead = true →
    relation s (s.mapStatistics fun statistics => statistics.increment metric name)
  select : ∀ s {source : SnapshotSource} {d : Descriptor} {key : EntityKey} {row : Option (List Value)},
    s.session.snapshotSource = some source → fits s d key → s.context.databaseSnapshot? key = none →
    source.select s.session.journal d key.id = .ok row →
    relation s ((s.record (.probe d.name key.id)).mapContext fun context => context.rememberSnapshot key row)
  fail : ∀ s {source : SnapshotSource} {d : Descriptor} {key : EntityKey} {e : Error},
    s.session.snapshotSource = some source → fits s d key → s.context.databaseSnapshot? key = none →
    source.select s.session.journal d key.id = .error e → relation s (s.record (.probe d.name key.id))

theorem AsksBy.admits {fits : Descriptor → EntityKey → Prop} : Admits (fun _ => fits) (AsksBy fits) where
  frame := frame
  record s _ asks _ := record s asks
  count s _ _ _ := mapStatistics s _
  select := select
  fail s _ _ _ _ _ _ _ _ := record s rfl

/-- The descriptors of the session fit their keys, also when more has been asked. -/
structure AdmitsKeys (fits : State → Descriptor → EntityKey → Prop) (relation : State → State → Prop) : Prop
    extends Admits fits relation where
  keyed : ∀ {s after : State} {entity : String} {d : Descriptor} (id : Identifier), s.session.descriptor entity = .ok d →
    Asks s after → fits after d (d.keyFor id)

theorem Asks.admits : AdmitsKeys (fun _ => Descriptor.Keys) Asks := ⟨AsksBy.admits, fun _ _ _ => rfl⟩

/-- What the counts of a session become by cache reads. -/
structure Statistics.CountsReads (before after : Statistics) : Prop where
  enabled : after.enabled = before.enabled
  duplicates : after.duplicates = before.duplicates
  others : ∀ metric name, metric.isRead = false → after.counter metric name = before.counter metric name

namespace Statistics.CountsReads

theorem refl (statistics : Statistics) : CountsReads statistics statistics := ⟨rfl, rfl, fun _ _ _ => rfl⟩

theorem trans {a b c : Statistics} (first : CountsReads a b) (second : CountsReads b c) : CountsReads a c where
  enabled := second.enabled.trans first.enabled
  duplicates := second.duplicates.trans first.duplicates
  others metric name other := (second.others metric name other).trans (first.others metric name other)

theorem increment (statistics : Statistics) {metric : Metric} (name : String) (read : metric.isRead = true) :
    CountsReads statistics (statistics.increment metric name) where
  enabled := enabled_increment ..
  duplicates := duplicates_increment ..
  others other label unread := by
    have differ : metric ≠ other := by
      rintro rfl
      rw [read] at unread
      cases unread
    cases counting : statistics.enabled with
    | false =>
      rw [Statistics.increment, counting, if_neg Bool.false_ne_true]
    | true => rw [counter_increment _ _ _ counting, if_neg fun same => differ same.1, UInt64.add_zero]

theorem admits : AdmitsKeys (fun _ => Descriptor.Keys) fun before after =>
    CountsReads before.shared.statistics after.shared.statistics where
  frame := ⟨fun s => refl s.shared.statistics, trans⟩
  record s _ _ _ := refl s.shared.statistics
  count s _ name read := increment s.shared.statistics name read
  select s _ _ _ _ _ _ _ _ := refl s.shared.statistics
  fail s _ _ _ _ _ _ _ _ := refl s.shared.statistics
  keyed _ _ _ := rfl

end Statistics.CountsReads

namespace Action

section
variable {fits : State → Descriptor → EntityKey → Prop} {relation : State → State → Prop}

theorem interceptorOpinion_keeps (admits : Admits fits relation) (h : Handle) (s : State) :
    Keeps relation (interceptorOpinion h) s := by
  apply Keeps.get_bind
  cases s.session.interceptor with
  | none => exact .pure admits.frame _ _
  | some interceptor => exact .bind admits.frame (admits.record s rfl rfl) fun _ _ _ => .pure admits.frame _ _

theorem readRegion_keeps (admits : Admits fits relation) (name : String) (region : Region) (key : CacheKey) (s : State) :
    Keeps relation (readRegion name region key) s := by
  cases region with
  | memory region => exact .pure admits.frame _ s
  | external accepts =>
    exact .get_bind (.bind admits.frame (admits.record s rfl rfl) fun _ s _ => .pure admits.frame _ s)

theorem cacheOpinion_keeps (admits : Admits fits relation) (d : Descriptor) (id : Identifier) (s : State) :
    Keeps relation (cacheOpinion d id) s := by
  apply Keeps.get_bind
  split
  · cases s.region? d with
    | none => exact .pure admits.frame _ _
    | some found =>
      refine .bind admits.frame (readRegion_keeps admits found.1 found.2 _ s) fun value s _ => ?_
      cases value with
      | some _ => exact .bind admits.frame (admits.count s found.1 rfl) fun _ s _ => .pure admits.frame _ s
      | none => exact .bind admits.frame (admits.count s found.1 rfl) fun _ s _ => .pure admits.frame _ s
  · exact .pure admits.frame _ _

theorem typeOpinion_keeps (admits : Admits fits relation) (d : Descriptor) (h : Handle) (s : State) :
    Keeps relation (typeOpinion d h) s := by
  apply Keeps.get_bind
  dsimp only
  split
  · exact .pure admits.frame _ _
  · split
    · exact cacheOpinion_keeps admits d _ s
    · exact .pure admits.frame _ _

theorem databaseSnapshot_keeps (admits : Admits fits relation) (d : Descriptor) (key : EntityKey) (s : State)
    (fit : fits s d key) : Keeps relation (databaseSnapshot d key) s := by
  apply Keeps.get_bind
  cases held : s.session.snapshotSource with
  | none => exact .throw admits.frame _ _
  | some source =>
    dsimp only
    cases unknown : s.context.databaseSnapshot? key with
    | some _ => exact .pure admits.frame _ _
    | none =>
      dsimp only
      cases found : source.select s.session.journal d key.id with
      | error e => exact .bind admits.frame (admits.fail s held fit unknown found) fun _ _ _ => .throw admits.frame _ _
      | ok row => exact admits.select s held fit unknown found

end

theorem interceptorOpinion_asks (h : Handle) (s : State) : Keeps Asks (interceptorOpinion h) s :=
  interceptorOpinion_keeps AsksBy.admits h s

theorem typeOpinion_asks (d : Descriptor) (h : Handle) (s : State) : Keeps Asks (typeOpinion d h) s :=
  typeOpinion_keeps AsksBy.admits d h s

theorem databaseSnapshot_asks {fits : Descriptor → EntityKey → Prop} (d : Descriptor) (key : EntityKey) (s : State)
    (fit : fits d key) : Keeps (AsksBy fits) (databaseSnapshot d key) s :=
  databaseSnapshot_keeps AsksBy.admits d key s fit

theorem databaseSnapshot_ok {d : Descriptor} {key : EntityKey} {s after : State} {row : Option (List Value)}
    (ran : (databaseSnapshot d key).exec s = (.ok row, after)) : ∃ source, s.session.snapshotSource = some source ∧
      (s.context.databaseSnapshot? key = some row ∧ after = s ∨
        s.context.databaseSnapshot? key = none ∧ source.select s.session.journal d key.id = .ok row ∧
          after = (s.record (.probe d.name key.id)).mapContext fun context => context.rememberSnapshot key row) := by
  unfold databaseSnapshot at ran
  rw [exec_get_bind] at ran
  cases held : s.session.snapshotSource with
  | none =>
    rw [held] at ran
    cases ran
  | some source =>
    refine ⟨source, rfl, ?_⟩
    rw [held] at ran
    dsimp only at ran
    cases known : s.context.databaseSnapshot? key with
    | some remembered =>
      rw [known] at ran
      cases ran
      exact .inl ⟨rfl, rfl⟩
    | none =>
      rw [known] at ran
      dsimp only at ran
      rw [exec_record_bind] at ran
      cases found : source.select s.session.journal d key.id with
      | error e =>
        rw [found] at ran
        cases ran
      | ok selected =>
        rw [found] at ran
        cases ran
        exact .inr ⟨rfl, rfl, rfl⟩

/-- The database decides about an instance that has an identifier. -/
def classifyByRow (d : Descriptor) (h : Handle) : Action EntityState := do
  match (← get).heap.id? h with
  | none => return .transient
  | some id => return .ofTransient (← databaseSnapshot d (d.keyFor id)).isNone

/-- What the entity type leaves open is decided by the caller or by the row. -/
def classifyByOpinion (d : Descriptor) (h : Handle) (assumed : Option Bool) : Option Bool → Action EntityState
  | some transient => return .ofTransient transient
  | none =>
    match assumed with
    | some transient => return .ofTransient transient
    | none => classifyByRow d h

/-- What decides when the interceptor has no opinion. -/
def classifyByType (h : Handle) (assumed : Option Bool) : Action EntityState := do
  let d ← descriptor ((← get).heap.entity h)
  let opinion ← typeOpinion d h
  classifyByOpinion d h assumed opinion

theorem classifyInstance_eq (h : Handle) (assumed : Option Bool) :
    classifyInstance h assumed = (do
      match ← interceptorOpinion h with
      | some transient => return .ofTransient transient
      | none => classifyByType h assumed) := rfl

theorem interceptorOpinion_exec {s : State} (h : Handle) (unasked : s.session.interceptor = none) :
    (interceptorOpinion h).exec s = (.ok none, s) := by
  unfold interceptorOpinion
  rw [exec_get_bind, unasked]
  rfl

theorem typeOpinion_exec {s : State} {d : Descriptor} {h : Handle} {transient : Bool}
    (decided : d.isTransient (s.heap.read h) = some transient) :
    (typeOpinion d h).exec s = (.ok (some transient), s) := by
  unfold typeOpinion
  rw [exec_get_bind]
  dsimp only
  rw [decided]
  rfl

theorem classifyInstance_exec {s : State} {d : Descriptor} {h : Handle} (assumed : Option Bool)
    (unasked : s.session.interceptor = none) (mapped : s.session.descriptor (s.heap.entity h) = .ok d) :
    (classifyInstance h assumed).exec s = (typeOpinion d h >>= classifyByOpinion d h assumed).exec s := by
  have found : (descriptor (s.heap.entity h)).exec s = (.ok d, s) := by rw [exec_descriptor, mapped]
  rw [classifyInstance_eq, exec_bind_ok _ (interceptorOpinion_exec h unasked)]
  dsimp only
  rw [classifyByType, exec_get_bind, exec_bind_ok _ found]

section
variable {fits : State → Descriptor → EntityKey → Prop} {relation : State → State → Prop}

section
variable (admits : Admits fits relation)
include admits

theorem classifyByRow_keeps (d : Descriptor) (h : Handle) (s : State) (fit : ∀ id, fits s d (d.keyFor id)) :
    Keeps relation (classifyByRow d h) s := by
  apply Keeps.get_bind
  cases s.heap.id? h with
  | none => exact .pure admits.frame _ _
  | some id =>
    exact .bind admits.frame (databaseSnapshot_keeps admits d _ s (fit id)) fun _ _ _ => .pure admits.frame _ _

theorem classifyByOpinion_keeps (d : Descriptor) (h : Handle) (assumed opinion : Option Bool) (s : State)
    (fit : ∀ id, fits s d (d.keyFor id)) : Keeps relation (classifyByOpinion d h assumed opinion) s := by
  cases opinion with
  | some _ => exact .pure admits.frame _ _
  | none =>
    cases assumed with
    | some _ => exact .pure admits.frame _ _
    | none => exact classifyByRow_keeps admits d h s fit

end

variable (admits : AdmitsKeys fits relation)
include admits

theorem classifyByType_keeps (h : Handle) (assumed : Option Bool) (s : State) :
    Keeps relation (classifyByType h assumed) s := by
  apply Keeps.get_bind
  refine .bind admits.frame (.lift admits.frame _ _) fun d s found => ?_
  obtain ⟨mapped, rfl⟩ := lift_ok found
  refine .bind admits.frame (typeOpinion_keeps admits.toAdmits d h s) fun opinion after asked => ?_
  have asks : Asks s after := (typeOpinion_keeps AsksBy.admits d h s).of_exec asked
  exact classifyByOpinion_keeps admits.toAdmits d h assumed opinion after fun id => admits.keyed id mapped asks

theorem classifyInstance_keeps (h : Handle) (assumed : Option Bool) (s : State) :
    Keeps relation (classifyInstance h assumed) s := by
  rw [classifyInstance_eq]
  refine .bind admits.frame (interceptorOpinion_keeps admits.toAdmits h s) fun opinion s _ => ?_
  cases opinion with
  | some _ => exact .pure admits.frame _ _
  | none => exact classifyByType_keeps admits h assumed s

theorem classify_keeps (value : AttributeValue) (assumed : Option Bool) (s : State) :
    Keeps relation (classify value assumed) s := by
  cases value with
  | basic _ | embedded _ => exact .get_bind (.throw admits.frame _ _)
  | null | unfetched | foreignKey _ | anyKey _ _ => exact .pure admits.frame _ _
  | reference target =>
    cases target with
    | loaded h => exact classifyInstance_keeps admits h assumed s
    | notLoaded _ | removed _ => exact .pure admits.frame _ _

theorem isNotTransient_keeps (value : AttributeValue) (assumed : Option Bool) (s : State) :
    Keeps relation (isNotTransient value assumed) s := by
  have judged (s : State) : Keeps relation (do return !(← classify value assumed).isTransient : Action Bool) s :=
    .bind admits.frame (classify_keeps admits value assumed s) fun _ s _ => .pure admits.frame _ s
  cases value with
  | reference target =>
    cases target with
    | loaded h =>
      apply Keeps.get_bind
      split
      · exact .pure admits.frame _ s
      · exact judged s
    | notLoaded _ | removed _ => exact .pure admits.frame _ s
  | null | unfetched | foreignKey _ | anyKey _ _ | basic _ | embedded _ => exact judged s

theorem identifierIfSaved_keeps (entity : Option String) (value : AttributeValue) (s : State) :
    Keeps relation (identifierIfSaved entity value) s := by
  cases value with
  | null | unfetched | foreignKey _ | anyKey _ _ => exact .pure admits.frame _ s
  | basic _ | embedded _ => exact .get_bind (.throw admits.frame _ s)
  | reference target =>
    cases target with
    | notLoaded _ | removed _ => exact .pure admits.frame _ s
    | loaded h =>
      apply Keeps.get_bind
      split
      · exact .pure admits.frame _ s
      · refine .bind admits.frame (classifyInstance_keeps admits h _ s) fun state s _ => ?_
        split
        · exact .get_bind (.throw admits.frame _ s)
        · exact .get_bind (.pure admits.frame _ s)

end

theorem classifyByRow_asks (d : Descriptor) (h : Handle) (s : State) : Keeps Asks (classifyByRow d h) s :=
  classifyByRow_keeps AsksBy.admits d h s fun _ => rfl

theorem classifyByOpinion_asks (d : Descriptor) (h : Handle) (assumed opinion : Option Bool) (s : State) :
    Keeps Asks (classifyByOpinion d h assumed opinion) s :=
  classifyByOpinion_keeps AsksBy.admits d h assumed opinion s fun _ => rfl

theorem classifyByType_asks (h : Handle) (assumed : Option Bool) (s : State) :
    Keeps Asks (classifyByType h assumed) s :=
  classifyByType_keeps Asks.admits h assumed s

theorem classifyInstance_asks (h : Handle) (assumed : Option Bool) (s : State) :
    Keeps Asks (classifyInstance h assumed) s :=
  classifyInstance_keeps Asks.admits h assumed s

theorem classify_asks (value : AttributeValue) (assumed : Option Bool) (s : State) :
    Keeps Asks (classify value assumed) s :=
  classify_keeps Asks.admits value assumed s

end Action

namespace Nullifier
open UnitOfWork.Action

section
variable {fits : State → Descriptor → EntityKey → Prop} {relation : State → State → Prop}
  (admits : AdmitsKeys fits relation) (nullifier : Nullifier)
include admits

theorem isNullifiable_keeps (value : AttributeValue) (s : State) :
    Keeps relation (nullifier.isNullifiable value) s := by
  apply Keeps.get_bind
  split
  · split
    · exact .pure admits.frame _ _
    · split
      · exact .pure admits.frame _ _
      · exact .bind admits.frame (classify_keeps admits _ none s) fun _ _ _ => .pure admits.frame _ _
  · exact .pure admits.frame _ _
  · exact .pure admits.frame _ _

mutual

theorem nullify_keeps (a : Attribute) : ∀ (value : AttributeValue) (s : State),
    Keeps relation (nullifier.nullify a value) s
  | .embedded children, s => by
    unfold nullify
    split
    · exact .bind admits.frame (nullifyAll_keeps _ children s) fun _ _ _ => .pure admits.frame _ _
    · exact .pure admits.frame _ _
  | .reference r, s => by
    have judged : Keeps relation (do
        if ← nullifier.isNullifiable (.reference r) then return AttributeValue.null else return .reference r) s := by
      refine .bind admits.frame (isNullifiable_keeps admits nullifier _ s) fun answer _ _ => ?_
      cases answer <;> exact .pure admits.frame _ _
    unfold nullify
    split
    · exact judged
    · exact judged
    · exact .pure admits.frame _ _
  | .null, s | .basic _, s | .foreignKey _, s | .anyKey _ _, s | .unfetched, s => .pure admits.frame _ s

theorem nullifyAll_keeps : ∀ (attributes : List Attribute) (values : List AttributeValue) (s : State),
    Keeps relation (nullifier.nullifyAll attributes values) s
  | _, [], s => by
    unfold nullifyAll
    exact .pure admits.frame _ s
  | [], _ :: _, s => .pure admits.frame _ s
  | a :: attributes, value :: values, s => by
    refine .bind admits.frame (nullify_keeps a value s) fun _ middle _ => ?_
    exact .bind admits.frame (nullifyAll_keeps attributes values middle) fun _ _ _ => .pure admits.frame _ _

end

mutual

theorem collect_keeps (path : String) (a : Attribute) : ∀ (value : AttributeValue) (s : State),
    Keeps relation (nullifier.collect path a value) s
  | .embedded children, s => by
    unfold collect
    split
    · exact collectAll_keeps _ _ children s
    · exact .pure admits.frame _ _
  | .reference r, s => by
    have judged : Keeps relation (do
        if ← nullifier.isNullifiable (.reference r) then return [Dependency.mk path r] else return []) s := by
      refine .bind admits.frame (isNullifiable_keeps admits nullifier _ s) fun answer _ _ => ?_
      cases answer <;> exact .pure admits.frame _ _
    unfold collect
    split
    · split
      · exact .pure admits.frame _ _
      · exact judged
    · split
      · exact .pure admits.frame _ _
      · exact judged
    · exact .pure admits.frame _ _
  | .null, s | .basic _, s | .foreignKey _, s | .anyKey _ _, s | .unfetched, s => .pure admits.frame _ s

theorem collectAll_keeps (stem : String) : ∀ (attributes : List Attribute) (values : List AttributeValue) (s : State),
    Keeps relation (nullifier.collectAll stem attributes values) s
  | a :: attributes, value :: values, s => by
    refine .bind admits.frame (collect_keeps _ a value s) fun _ middle _ => ?_
    exact .bind admits.frame (collectAll_keeps stem attributes values middle) fun _ _ _ => .pure admits.frame _ _
  | [], _, s => by
    unfold collectAll
    exact .pure admits.frame _ s
  | _ :: _, [], s => .pure admits.frame _ s

end

end

theorem isNullifiable_asks (nullifier : Nullifier) (value : AttributeValue) (s : State) :
    Keeps Asks (nullifier.isNullifiable value) s :=
  isNullifiable_keeps Asks.admits nullifier value s

theorem nullify_asks (nullifier : Nullifier) (a : Attribute) (value : AttributeValue) (s : State) :
    Keeps Asks (nullifier.nullify a value) s :=
  nullify_keeps Asks.admits nullifier a value s

theorem nullifyAll_asks (nullifier : Nullifier) (attributes : List Attribute) (values : List AttributeValue)
    (s : State) : Keeps Asks (nullifier.nullifyAll attributes values) s :=
  nullifyAll_keeps Asks.admits nullifier attributes values s

theorem collect_asks (nullifier : Nullifier) (path : String) (a : Attribute) (value : AttributeValue) (s : State) :
    Keeps Asks (nullifier.collect path a value) s :=
  collect_keeps Asks.admits nullifier path a value s

theorem collectAll_asks (nullifier : Nullifier) (stem : String) (attributes : List Attribute)
    (values : List AttributeValue) (s : State) : Keeps Asks (nullifier.collectAll stem attributes values) s :=
  collectAll_keeps Asks.admits nullifier stem attributes values s

end Nullifier

theorem Action.dependencies_keeps {fits : State → Descriptor → EntityKey → Prop} {relation : State → State → Prop}
    (admits : AdmitsKeys fits relation) (entity : String) (h : Handle) (values : List AttributeValue)
    (early : Bool) (s : State) : Keeps relation (dependencies entity h values early) s :=
  .bind admits.frame (.lift admits.frame _ s) fun d middle _ =>
    Nullifier.collectAll_keeps admits _ "" d.attributes values middle

theorem Action.dependencies_asks (entity : String) (h : Handle) (values : List AttributeValue) (early : Bool)
    (s : State) : Keeps Asks (dependencies entity h values early) s :=
  dependencies_keeps Asks.admits entity h values early s

end UnitOfWork
