import UnitOfWork.Proofs.SettledAnswers

/-! Classifying an instance comes in two halves. Interceptor, entity type, cache and caller are heard first. Only about an
instance with an identifier on which none of them has an opinion is the database asked, and what it tells of a row is
remembered. So a classification that is repeated does not ask again. -/

namespace UnitOfWork

namespace Action

def openByOpinion (d : Descriptor) (h : Handle) (assumed : Option Bool) :
    Option Bool → Action (Bool ⊕ Descriptor × Identifier)
  | some transient => return .inl transient
  | none =>
    match assumed with
    | some transient => return .inl transient
    | none => do
      match (← get).heap.id? h with
      | none => return .inl true
      | some id => return .inr (d, id)

def openByType (h : Handle) (assumed : Option Bool) : Action (Bool ⊕ Descriptor × Identifier) := do
  let d ← descriptor ((← get).heap.entity h)
  let opinion ← typeOpinion d h
  openByOpinion d h assumed opinion

/-- What is known of an instance without the database: whether it is transient, or else which row tells. -/
def openQuestion (h : Handle) (assumed : Option Bool) : Action (Bool ⊕ Descriptor × Identifier) := do
  match ← interceptorOpinion h with
  | some transient => return .inl transient
  | none => openByType h assumed

def answerQuestion : Bool ⊕ Descriptor × Identifier → Action EntityState
  | .inl transient => return .ofTransient transient
  | .inr (d, id) => return .ofTransient (← databaseSnapshot d (d.keyFor id)).isNone

theorem classifyByOpinion_open (d : Descriptor) (h : Handle) (assumed opinion : Option Bool) :
    classifyByOpinion d h assumed opinion = openByOpinion d h assumed opinion >>= answerQuestion := by
  cases opinion with
  | some _ => rfl
  | none =>
    cases assumed with
    | some _ => rfl
    | none =>
      change classifyByRow d h = openByOpinion d h none none >>= answerQuestion
      unfold classifyByRow openByOpinion
      dsimp only
      rw [bind_assoc]
      refine congrArg _ (funext fun s => ?_)
      cases s.heap.id? h <;> rfl

theorem classifyInstance_open (h : Handle) (assumed : Option Bool) :
    classifyInstance h assumed = openQuestion h assumed >>= answerQuestion := by
  rw [classifyInstance_eq, openQuestion, bind_assoc]
  refine congrArg _ (funext fun opinion => ?_)
  cases opinion with
  | some _ => rfl
  | none =>
    simp only [classifyByType, openByType, bind_assoc, classifyByOpinion_open]

section
variable {fits : State → Descriptor → EntityKey → Prop} {relation : State → State → Prop} (admits : Admits fits relation)
include admits

theorem openByOpinion_keeps (d : Descriptor) (h : Handle) (assumed opinion : Option Bool) (s : State) :
    Keeps relation (openByOpinion d h assumed opinion) s := by
  cases opinion with
  | some _ => exact .pure admits.frame _ s
  | none =>
    cases assumed with
    | some _ => exact .pure admits.frame _ s
    | none =>
      apply Keeps.get_bind
      cases s.heap.id? h <;> exact .pure admits.frame _ s

theorem openByType_keeps (h : Handle) (assumed : Option Bool) (s : State) : Keeps relation (openByType h assumed) s := by
  refine .get_bind (.bind admits.frame (.lift admits.frame _ s) fun d s _ => ?_)
  exact .bind admits.frame (typeOpinion_keeps admits d h s) fun opinion s _ => openByOpinion_keeps admits d h _ opinion s

theorem openQuestion_keeps (h : Handle) (assumed : Option Bool) (s : State) :
    Keeps relation (openQuestion h assumed) s := by
  refine .bind admits.frame (interceptorOpinion_keeps admits h s) fun opinion s _ => ?_
  cases opinion with
  | some _ => exact .pure admits.frame _ s
  | none => exact openByType_keeps admits h assumed s

end

theorem openByType_settles (h : Handle) (assumed : Option Bool) {s : State} (steady : s.Steady) :
    Settles (openByType h assumed) s := by
  have asks (d : Descriptor) (opinion : Option Bool) (s : State) : Keeps Asks (openByOpinion d h assumed opinion) s :=
    openByOpinion_keeps AsksBy.admits d h assumed opinion s
  refine .get_bind (openByType_keeps AsksBy.admits h assumed s) (fun after asks => ?_) ?_
  · cases asks
    rfl
  · refine .bind (fun s => .lift Asks.frame _ s) (fun d s => ?_) (descriptor_settles _ s) fun d middle found => ?_
    · exact .bind Asks.frame (typeOpinion_asks d h s) fun opinion s _ => asks d opinion s
    · obtain ⟨-, rfl⟩ := lift_ok found
      refine .bind (typeOpinion_asks d h) (asks d) (typeOpinion_settles d h steady) fun opinion middle _ => ?_
      cases opinion with
      | some _ => exact .pure _ middle
      | none =>
        cases assumed with
        | some _ => exact .pure _ middle
        | none =>
          refine .get_bind (asks d none middle) (fun after asks => ?_) ?_
          · cases asks
            rfl
          · cases middle.heap.id? h <;> exact .pure _ middle

theorem openQuestion_settles (h : Handle) (assumed : Option Bool) {s : State} (steady : s.Steady) :
    Settles (openQuestion h assumed) s := by
  refine .bind (interceptorOpinion_asks h) (fun opinion s => ?_) (interceptorOpinion_settles h steady)
    fun opinion middle asked => ?_
  · cases opinion with
    | some _ => exact .pure Asks.frame _ s
    | none => exact openByType_keeps AsksBy.admits h assumed s
  · cases opinion with
    | some _ => exact .pure _ middle
    | none => exact openByType_settles h assumed (((interceptorOpinion_asks h s).of_exec asked).steady steady)

end Action

/-- No row is looked for, and nothing changes but what cache reads count. -/
def State.Unprobed (before after : State) : Prop :=
  ∃ calls statistics, after = before.asking calls before.context.databaseSnapshots statistics ∧
    (∀ call ∈ calls, call.isWrite = false ∧ call.isProbe = false) ∧ before.shared.statistics.CountsReads statistics

namespace State.Unprobed

theorem refl (s : State) : s.Unprobed s :=
  ⟨[], s.shared.statistics, by simp [State.asking, State.context], List.forall_mem_nil _, .refl _⟩

theorem trans {a b c : State} : a.Unprobed b → b.Unprobed c → a.Unprobed c := by
  rintro ⟨calls, statistics, rfl, quiet, counts⟩ ⟨others, statistics', rfl, quiet', counts'⟩
  refine ⟨calls ++ others, statistics', by simp [State.asking, State.context], ?_, counts.trans counts'⟩
  exact List.forall_mem_append.mpr ⟨quiet, quiet'⟩

theorem admits : Admits (fun s _ key => s.context.databaseSnapshot? key ≠ none) State.Unprobed where
  frame := ⟨refl, trans⟩
  record s call asks other :=
    ⟨[call], s.shared.statistics, by simp [State.asking, State.context, State.record, State.mapSession],
      List.forall_mem_singleton.mpr ⟨Call.isWrite_of_isQuestion asks, other⟩, .refl _⟩
  count s _ name read :=
    ⟨[], _, by simp [State.asking, State.context, State.mapStatistics], List.forall_mem_nil _, .increment _ name read⟩
  select _ _ _ _ _ _ known unknown _ := absurd unknown known
  fail _ _ _ _ _ _ known unknown _ := absurd unknown known

theorem databaseSnapshot? {a b : State} (unprobed : a.Unprobed b) (key : EntityKey) :
    b.context.databaseSnapshot? key = a.context.databaseSnapshot? key := by
  obtain ⟨calls, statistics, rfl, -, -⟩ := unprobed
  rfl

end State.Unprobed

namespace Action

theorem answerQuestion_asks (question : Bool ⊕ Descriptor × Identifier) (s : State) :
    Keeps Asks (answerQuestion question) s := by
  cases question with
  | inl transient => exact .pure Asks.frame _ s
  | inr row => exact .bind Asks.frame (databaseSnapshot_asks row.1 _ s rfl) fun _ s _ => .pure Asks.frame _ s

theorem answerQuestion_ok {d : Descriptor} {id : Identifier} {state : EntityState} {s after : State}
    (ran : (answerQuestion (.inr (d, id))).exec s = (.ok state, after)) : ∃ row,
      (databaseSnapshot d (d.keyFor id)).exec s = (.ok row, after) ∧ state = .ofTransient row.isNone ∧
        after.context.databaseSnapshot? (d.keyFor id) = some row := by
  obtain ⟨row, middle, found, ended⟩ := bind_ok ran
  cases ended
  refine ⟨row, found, rfl, ?_⟩
  obtain ⟨source, -, ⟨known, rfl⟩ | ⟨-, -, rfl⟩⟩ := databaseSnapshot_ok found
  · exact known
  · exact (Registry.find?_insert _ _ _ _).trans (if_pos BEq.rfl)

theorem classifyInstance_again {h : Handle} {assumed : Option Bool} {state : EntityState} {s after : State}
    (steady : s.Steady) (ran : (classifyInstance h assumed).exec s = (.ok state, after)) :
    ∃ later, (classifyInstance h assumed).exec after = (.ok state, later) ∧ after.Unprobed later := by
  have again := (classifyInstance_settles h assumed steady state after ran).exec
  refine ⟨_, again, ?_⟩
  rw [classifyInstance_open] at ran ⊢
  obtain ⟨question, middle, opened, answered⟩ := bind_ok ran
  have settled := openQuestion_settles h assumed steady question middle opened
  refine Keeps.bind State.Unprobed.admits.frame (openQuestion_keeps State.Unprobed.admits h assumed after) ?_
  intro same reopened opened'
  have unprobed : after.Unprobed reopened := (openQuestion_keeps State.Unprobed.admits h assumed after).of_exec opened'
  have asked : Asks middle after := (answerQuestion_asks question middle).of_exec answered
  cases (settled.mono asked).exec.symm.trans opened'
  cases question with
  | inl transient => exact .pure State.Unprobed.admits.frame _ _
  | inr row =>
    obtain ⟨found, -, -, known⟩ := answerQuestion_ok answered
    refine .bind State.Unprobed.admits.frame ?_ fun _ s _ => .pure State.Unprobed.admits.frame _ s
    refine databaseSnapshot_keeps State.Unprobed.admits row.1 _ _ ?_
    rw [unprobed.databaseSnapshot?, known]
    exact Option.some_ne_none found

theorem classify_again {value : AttributeValue} {assumed : Option Bool} {state : EntityState} {s after : State}
    (steady : s.Steady) (ran : (classify value assumed).exec s = (.ok state, after)) :
    ∃ later, (classify value assumed).exec after = (.ok state, later) ∧ after.Unprobed later := by
  cases value with
  | basic _ | embedded _ => cases ran
  | null | unfetched | foreignKey _ | anyKey _ _ =>
    cases ran
    exact ⟨_, rfl, .refl _⟩
  | reference target =>
    cases target with
    | loaded h => exact classifyInstance_again steady ran
    | notLoaded _ | removed _ =>
      cases ran
      exact ⟨_, rfl, .refl _⟩

end Action

end UnitOfWork
