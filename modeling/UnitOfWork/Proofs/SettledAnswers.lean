import UnitOfWork.Proofs.Asking

/-! An answer about a reference, once given, is given again by every later question, whatever the database
answers meanwhile: a selected row is remembered, and nothing else that counts changes by asking. Only the
interceptor and the regions kept elsewhere have to be such that questions do not change their answers. -/

namespace UnitOfWork

/-- What is read is changed by writes, evictions and the like, but not by questions. -/
def ExternalRegions.Steady (regions : ExternalRegions) : Prop :=
  ∀ journal call name key, call.isQuestion = true → regions.get (journal ++ [call]) name key = regions.get journal name key

namespace ExternalRegions

theorem steady_default : Steady {} := fun _ _ _ _ _ => rfl

theorem Steady.get_append {regions : ExternalRegions} (steady : regions.Steady) (journal : Journal) {calls : Journal}
    (asks : ∀ call ∈ calls, call.isQuestion = true) (name : String) (key : CacheKey) :
    regions.get (journal ++ calls) name key = regions.get journal name key := by
  induction calls generalizing journal with
  | nil => rw [List.append_nil]
  | cons call rest ih =>
    obtain ⟨asked, asks⟩ := List.forall_mem_cons.mp asks
    rw [List.append_cons, ih (journal ++ [call]) asks, steady journal call name key asked]

end ExternalRegions

/-- The collaborators that are asked more than once answer alike. -/
structure State.Steady (s : State) : Prop where
  /-- The interceptor goes by the instance and not by what it was asked before. -/
  interceptor : ∀ interceptor, s.session.interceptor = some interceptor → ∀ first second h heap,
    interceptor.isTransient first h heap = interceptor.isTransient second h heap
  regions : s.session.factory.external.Steady

theorem Asks.steady_iff {s after : State} (asks : Asks s after) : after.Steady ↔ s.Steady := by
  cases asks
  exact ⟨fun steady => ⟨steady.interceptor, steady.regions⟩, fun steady => ⟨steady.interceptor, steady.regions⟩⟩

theorem Asks.steady {s after : State} (asks : Asks s after) (steady : s.Steady) : after.Steady :=
  asks.steady_iff.mpr steady

namespace Action
variable {α β : Type}

/-- Every question from now on gets this answer. -/
def Settled (action : Action α) (s : State) (answer : α) : Prop :=
  ∀ after, Asks s after → (action.exec after).1 = .ok answer

/-- An answer given now is given from now on. -/
def Settles (action : Action α) (s : State) : Prop :=
  ∀ answer after, action.exec s = (.ok answer, after) → Settled action after answer

theorem Settled.mono {action : Action α} {s after : State} {answer : α} (settled : Settled action s answer)
    (asks : Asks s after) : Settled action after answer :=
  fun later more => settled later (asks.trans more)

theorem Settled.exec {action : Action α} {s : State} {answer : α} (settled : Settled action s answer) :
    action.exec s = (.ok answer, (action.exec s).2) := by
  rw [← settled s (AsksBy.refl s)]

theorem Settled.eq {action : Action α} {s : State} {first second : α} (settled : Settled action s first)
    (again : Settled action s second) : first = second := by
  have same := (settled s (AsksBy.refl s)).symm.trans (again s (AsksBy.refl s))
  exact Except.ok.inj same

theorem Settled.bind {first : Action α} {rest : α → Action β} {s : State} {value : α} {answer : β}
    (asking : ∀ s, Keeps Asks first s) (settled : Settled first s value)
    (then_ : Settled (rest value) s answer) : Settled (first >>= rest) s answer := by
  intro after asks
  rw [exec_bind, (settled.mono asks).exec]
  exact then_ _ (asks.trans (asking after))

theorem Settles.pure (value : α) (s : State) : Settles (pure value : Action α) s := by
  intro answer after ran
  cases ran
  exact fun _ _ => rfl

theorem Settles.bind {first : Action α} {rest : α → Action β} {s : State}
    (asking : ∀ s, Keeps Asks first s) (later : ∀ value s, Keeps Asks (rest value) s) (settles : Settles first s)
    (then_ : ∀ value middle, first.exec s = (.ok value, middle) → Settles (rest value) middle) :
    Settles (first >>= rest) s := by
  intro answer after ran
  obtain ⟨value, middle, began, ended⟩ := bind_ok ran
  have asks : Asks middle after := (later value middle).of_exec ended
  exact .bind asking ((settles value middle began).mono asks) (then_ value middle began answer after ended)

theorem Settles.get_bind {rest : State → Action β} {s : State} (later : Keeps Asks (rest s) s)
    (same : ∀ after, Asks s after → rest after = rest s) (settles : Settles (rest s) s) :
    Settles (get >>= rest) s := by
  intro answer after ran
  have ended : (rest s).exec s = (.ok answer, after) := ran
  intro again asks
  rw [exec_get_bind, same again ((later.of_exec ended).trans asks)]
  exact settles answer after ended again asks

/-- Questions do not change the answer if it is made of what they leave alone. -/
theorem Settles.of_asked {action : Action α} {s : State} (asking : Keeps Asks action s)
    (same : ∀ after, Asks s after → (action.exec after).1 = (action.exec s).1) : Settles action s := by
  intro answer after ran later asks
  rw [same later ((asking.of_exec ran).trans asks), ran]

theorem descriptor_settles (entity : String) (s : State) : Settles (descriptor entity) s := by
  refine .of_asked (.lift Asks.frame _ s) fun after asks => ?_
  cases asks
  rfl

theorem interceptorOpinion_settles (h : Handle) {s : State} (steady : s.Steady) :
    Settles (interceptorOpinion h) s := by
  refine .of_asked (interceptorOpinion_asks h s) fun after asks => ?_
  have interceptor : after.session.interceptor = s.session.interceptor := by cases asks; rfl
  unfold interceptorOpinion
  rw [exec_get_bind, exec_get_bind, interceptor]
  cases held : s.session.interceptor with
  | none => rfl
  | some interceptor =>
    change Except.ok (interceptor.isTransient _ h after.heap) = .ok (interceptor.isTransient _ h s.heap)
    rw [asks.heap, steady.interceptor interceptor held]

theorem readRegion_asked (name : String) (region : Region) (key : CacheKey) {s after : State} (steady : s.Steady)
    (asks : Asks s after) : ((readRegion name region key).exec after).1 = ((readRegion name region key).exec s).1 := by
  obtain ⟨calls, rows, statistics, asks, _⟩ := asks
  cases region with
  | memory region => rfl
  | external accepts => exact congrArg Except.ok (steady.regions.get_append s.session.journal asks name key)

theorem cacheOpinion_asked (d : Descriptor) (id : Identifier) {s after : State} (steady : s.Steady)
    (asks : Asks s after) : ((cacheOpinion d id).exec after).1 = ((cacheOpinion d id).exec s).1 := by
  have config : after.session.config = s.session.config := by cases asks; rfl
  have key : after.session.cacheKey d id = s.session.cacheKey d id := by cases asks; rfl
  have region : after.region? d = s.region? d := by cases asks; rfl
  unfold cacheOpinion
  rw [exec_get_bind, exec_get_bind, config, key, region]
  split
  · cases s.region? d with
    | none => rfl
    | some found =>
      refine exec_bind_answer (readRegion_asked found.1 found.2 _ steady asks) fun value s t => ?_
      cases value <;> rfl
  · rfl

theorem typeOpinion_settles (d : Descriptor) (h : Handle) {s : State} (steady : s.Steady) :
    Settles (typeOpinion d h) s := by
  refine .of_asked (typeOpinion_asks d h s) fun after asks => ?_
  unfold typeOpinion
  rw [exec_get_bind, exec_get_bind, asks.heap]
  dsimp only
  cases d.isTransient (s.heap.read h) with
  | some _ => rfl
  | none =>
    cases (s.heap.read h).id with
    | some id => exact cacheOpinion_asked d id steady asks
    | none => rfl

theorem databaseSnapshot_settles (d : Descriptor) (key : EntityKey) (s : State) :
    Settles (databaseSnapshot d key) s := by
  intro answer after ran later asks
  have asked : AsksBy (fun _ _ => True) s after := (databaseSnapshot_asks d key s trivial).of_exec ran
  have told : s.session.snapshotSource.isSome ∧ after.context.databaseSnapshot? key = some answer := by
    obtain ⟨source, held, ⟨known, rfl⟩ | ⟨-, -, rfl⟩⟩ := databaseSnapshot_ok ran
    · exact ⟨by rw [held]; rfl, known⟩
    · exact ⟨by rw [held]; rfl, (Registry.find?_insert _ key key answer).trans (by rw [if_pos BEq.rfl])⟩
  obtain ⟨present, remembered⟩ := told
  have kept : later.context.databaseSnapshot? key = some answer := by
    obtain ⟨_, _, _, _, remembers⟩ := asks
    exact remembers key answer remembered
  have same : later.session.snapshotSource = s.session.snapshotSource := by
    cases asked.trans (asks.mono fun _ _ _ => trivial)
    rfl
  unfold databaseSnapshot
  rw [exec_get_bind, same]
  cases source : s.session.snapshotSource with
  | none => rw [source] at present; cases present
  | some selects =>
    dsimp only
    rw [kept]
    rfl

theorem classifyByRow_settles (d : Descriptor) (h : Handle) (s : State) : Settles (classifyByRow d h) s := by
  refine .get_bind ?_ (fun after asks => ?_) ?_
  · exact (classifyByRow_asks d h s)
  · cases asks
    rfl
  · cases s.heap.id? h with
    | none => exact .pure _ s
    | some id =>
      exact .bind (fun s => databaseSnapshot_asks d _ s rfl) (fun _ s => .pure Asks.frame _ s) (databaseSnapshot_settles d _ s)
        fun _ middle _ => .pure _ middle

theorem classifyByType_settles (h : Handle) (assumed : Option Bool) {s : State} (steady : s.Steady) :
    Settles (classifyByType h assumed) s := by
  refine .get_bind (classifyByType_asks h assumed s) (fun after asks => ?_) ?_
  · cases asks
    rfl
  · refine .bind (fun s => .lift Asks.frame _ s) (fun d s => ?_) (descriptor_settles _ s) fun d middle found => ?_
    · exact .bind Asks.frame (typeOpinion_asks d h s) fun opinion s _ => classifyByOpinion_asks d h assumed opinion s
    · obtain ⟨-, rfl⟩ := lift_ok found
      refine .bind (typeOpinion_asks d h) (classifyByOpinion_asks d h assumed) (typeOpinion_settles d h steady)
        fun opinion middle _ => ?_
      cases opinion with
      | some _ => exact .pure _ middle
      | none =>
        cases assumed with
        | some _ => exact .pure _ middle
        | none => exact classifyByRow_settles d h middle

theorem classifyInstance_settles (h : Handle) (assumed : Option Bool) {s : State} (steady : s.Steady) :
    Settles (classifyInstance h assumed) s := by
  rw [classifyInstance_eq]
  refine .bind (interceptorOpinion_asks h) (fun opinion s => ?_) (interceptorOpinion_settles h steady)
    fun opinion middle asked => ?_
  · cases opinion with
    | some _ => exact .pure Asks.frame _ s
    | none => exact classifyByType_asks h assumed s
  · cases opinion with
    | some _ => exact .pure _ middle
    | none => exact classifyByType_settles h assumed (((interceptorOpinion_asks h s).of_exec asked).steady steady)

theorem classify_settles (value : AttributeValue) (assumed : Option Bool) {s : State} (steady : s.Steady) :
    Settles (classify value assumed) s := by
  cases value with
  | basic _ | embedded _ =>
    intro answer after ran
    cases ran
  | null | unfetched | foreignKey _ | anyKey _ _ => exact .pure _ s
  | reference target =>
    cases target with
    | loaded h => exact classifyInstance_settles h assumed steady
    | notLoaded _ | removed _ => exact .pure _ s

end Action

open UnitOfWork.Action in
theorem Nullifier.isNullifiable_settles (nullifier : Nullifier) (value : AttributeValue) {s : State}
    (steady : s.Steady) : Settles (nullifier.isNullifiable value) s := by
  refine .get_bind (nullifier.isNullifiable_asks value s) (fun after asks => ?_) ?_
  · cases asks
    rfl
  · split
    · split
      · exact .pure _ s
      · split
        · exact .pure _ s
        · exact .bind (classify_asks _ none) (fun _ s => .pure Asks.frame _ s) (classify_settles _ none steady)
            fun _ middle _ => .pure _ middle
    · exact .pure _ s
    · exact .pure _ s

end UnitOfWork
