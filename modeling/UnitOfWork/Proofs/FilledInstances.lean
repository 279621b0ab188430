import UnitOfWork.Proofs.LoadNotices

/-! How the instances of a load stand when the first post-load listener is called. All of them have been filled with
the state that pre-load listeners left, and since then only listeners and hooks have written to them. -/

namespace UnitOfWork

/-- When an instance has been filled: the listeners before that, the calls since, and what has become of it. -/
structure State.Filled (start : State) (entity : LoadingEntity) (told since : List Notice) (state : List AttributeValue)
    (began prepared m : Moment) : Prop where
  heard : start.HearsPreLoad entity began told (.ok state) prepared
  entered : ∃ entry, m.entry? entity.handle = some entry ∧ (entry.status = .managed ∨ entry.status = .readOnly) ∧
    entry.loadedState = some state
  holds : m.heap.read entity.handle = { prepared.heap.read entity.handle with values := state }.rewritten entity.handle
    (Notice.writes since)
  hooksOnly : (∀ listener ∈ start.session.preLoadListeners, listener.Writes fun given h => h = given) →
    m.heap.read entity.handle = { prepared.heap.read entity.handle with values := state }.rewritten entity.handle
      (Notice.writes (since.filter fun notice => notice.call.isHook))

theorem Notice.rewritten_filter {h : Handle} {notices : List Notice}
    (elsewhere : ∀ notice ∈ notices, notice.call.isHook = false → ∀ edit ∈ notice.edits, edit.1 ≠ h) (x : Instance) :
    x.rewritten h (writes notices) = x.rewritten h (writes (notices.filter fun notice => notice.call.isHook)) := by
  induction notices generalizing x with
  | nil => rfl
  | cons notice rest ih =>
    obtain ⟨first, others⟩ := List.forall_mem_cons.mp elsewhere
    have written : x.rewritten h (writes (notice :: rest)) = (x.rewritten h notice.edits).rewritten h (writes rest) :=
      Instance.rewritten_append h x _ _
    rw [written, ih others]
    rw [List.filter_cons]
    split
    next => exact (Instance.rewritten_append h x _ _).symm
    next unhooked => rw [Instance.rewritten_of_ne h x (first (Bool.eq_false_iff.mpr unhooked))]

theorem State.HearsPreLoad.writes {start : State} {entity : LoadingEntity} {m last : Moment} {told : List Notice}
    {answer : Except Error (List AttributeValue)} (heard : start.HearsPreLoad entity m told answer last)
    {may : Handle → Handle → Prop} (writes : ∀ listener ∈ start.session.preLoadListeners, listener.Writes may) :
    ∀ notice ∈ told, ∀ edit ∈ notice.edits, may entity.handle edit.1 := by
  refine Listening.Hears.all heard fun listening member position state m => ?_
  obtain ⟨listener, among, rfl⟩ := List.mem_map.mp member
  exact writes listener among _ _ _

theorem LoadingEntity.hooked_isHook (entity : LoadingEntity) (m : Moment) :
    ∀ notice ∈ entity.hooked m, notice.call.isHook = true ∧ notice.call.isPostLoad = false := by
  unfold hooked
  cases entity.descriptor.afterInitialize with
  | none => exact List.forall_mem_nil _
  | some hook => exact List.forall_mem_singleton.mpr ⟨rfl, rfl⟩

namespace State
variable {start : State} {entities : List LoadingEntity} {m last : Moment} {notices : List Notice} {answer : Except Error Unit}

theorem Initializes.not_postLoad (ran : start.Initializes entities m notices answer last) :
    ∀ notice ∈ notices, notice.call.isPostLoad = false := by
  induction ran with
  | done | lost => exact List.forall_mem_nil _
  | stopped _ heard => exact fun notice member => (heard.calls notice member).2
  | @next entity _ _ _ filled _ _ _ _ _ heard _ _ ih =>
    refine List.forall_mem_append.mpr ⟨?_, List.forall_mem_append.mpr ⟨?_, ih⟩⟩
    · exact fun notice member => (heard.calls notice member).2
    · exact fun notice member => (entity.hooked_isHook filled notice member).2

theorem Initializes.writes (ran : start.Initializes entities m notices answer last)
    (own : ∀ listener ∈ start.session.preLoadListeners, listener.Writes fun given h => h = given) :
    ∀ notice ∈ notices, notice.call.isHook = false → ∀ edit ∈ notice.edits, ∃ entity ∈ entities, edit.1 = entity.handle := by
  induction ran with
  | done | lost => exact List.forall_mem_nil _
  | stopped rest heard =>
    exact fun notice member _ edit written => ⟨_, List.mem_cons_self, heard.writes own notice member edit written⟩
  | @next entity rest _ _ filled _ _ _ _ _ heard _ _ ih =>
    refine List.forall_mem_append.mpr ⟨?_, List.forall_mem_append.mpr ⟨?_, ?_⟩⟩
    · exact fun notice member _ edit written => ⟨_, List.mem_cons_self, heard.writes own notice member edit written⟩
    · intro notice member unhooked
      rw [(entity.hooked_isHook filled notice member).1] at unhooked
      cases unhooked
    · intro notice member unhooked edit written
      obtain ⟨other, inside, same⟩ := ih notice member unhooked edit written
      exact ⟨other, List.mem_cons_of_mem _ inside, same⟩

/-- The induction is on the instances: one that is filled is not touched by the filling of those after it. -/
theorem Initializes.filled (ran : start.Initializes entities m notices (.ok ()) last)
    (distinct : entities.Pairwise fun a b => a.handle ≠ b.handle) (inside : ∀ entity ∈ entities, entity.handle ∈ m.heap)
    (tracked : ∀ entity ∈ entities, m.entry? entity.handle ≠ none) : ∀ entity ∈ entities,
      ∃ before told since state began prepared, notices = before ++ told ++ since ∧
        start.Filled entity told since state began prepared last := by
  generalize answered : (.ok () : Except Error Unit) = answer at ran
  induction ran with
  | done => exact List.forall_mem_nil _
  | lost | stopped => cases answered
  | @next entity rest m prepared filled last told notices state _ heard fills others ih =>
    obtain ⟨apart, distinct⟩ := List.pairwise_cons.mp distinct
    have hooked := entity.hooked_passes filled fun _ => True
    have prepares := heard.passes fun _ => True
    have size : (filled.through (entity.hooked filled)).heap.size = m.heap.size :=
      hooked.size.trans (fills.passes.size.trans prepares.size)
    refine List.forall_mem_cons.mpr ⟨⟨[], told, entity.hooked filled ++ notices, state, m, prepared, rfl, ?_⟩, ?_⟩
    · have away : ∀ other ∈ rest, other.handle ≠ entity.handle := fun other member => (apart other member).symm
      have later := (hooked.mono fun _ _ => trivial).append others.passes
      have here : entity.handle ∈ prepared.heap :=
        Nat.lt_of_lt_of_eq (inside entity List.mem_cons_self) prepares.size.symm
      have given : entity.handle ∈ filled.heap := Nat.lt_of_lt_of_eq here fills.passes.size.symm
      have holds : last.heap.read entity.handle =
          { prepared.heap.read entity.handle with values := state }.rewritten entity.handle
            (Notice.writes (entity.hooked filled ++ notices)) := by
        rw [later.read away given, fills.heap, prepared.heap.read_update _ _ here]
      refine ⟨heard, ?_, holds, fun own => ?_⟩
      · obtain ⟨readOnly, entered⟩ := fills.entry
        obtain ⟨entry, found⟩ := Option.ne_none_iff_exists'.mp (tracked entity List.mem_cons_self)
        have found : prepared.entry? entity.handle = some entry := (prepares.entry? trivial).trans found
        rw [found] at entered
        refine ⟨_, (later.entry? away).trans entered, ?_, rfl⟩
        cases readOnly with
        | true => exact .inr rfl
        | false => exact .inl rfl
      · rw [holds]
        refine Notice.rewritten_filter (List.forall_mem_append.mpr ⟨?_, ?_⟩) _
        · intro notice member unhooked
          rw [(entity.hooked_isHook filled notice member).1] at unhooked
          cases unhooked
        · intro notice member unhooked edit written
          obtain ⟨other, within, same⟩ := others.writes own notice member unhooked edit written
          rw [same]
          exact away other within
    · intro other member
      have still : ∀ one ∈ rest, one.handle ∈ (filled.through (entity.hooked filled)).heap := fun one within =>
        Nat.lt_of_lt_of_eq (inside one (List.mem_cons_of_mem _ within)) size.symm
      have known : ∀ one ∈ rest, Moment.entry? (filled.through (entity.hooked filled)) one.handle ≠ none := by
        intro one within
        rw [hooked.entry? trivial, fills.others _ (apart one within), prepares.entry? trivial]
        exact tracked one (List.mem_cons_of_mem _ within)
      obtain ⟨before, told', since, state', began, prepared', split_, filled'⟩ := ih distinct still known answered other member
      refine ⟨told ++ (entity.hooked filled ++ before), told', since, state', began, prepared', ?_, filled'⟩
      rw [split_]
      simp only [List.append_assoc]

theorem Announces.head (ran : start.Announces entities m notices answer last) :
    (notices = [] ∧ last = m) ∨ ∃ notice rest, notices = notice :: rest ∧ notice.moment = m := by
  induction ran with
  | done => exact .inl ⟨rfl, rfl⟩
  | stopped _ heard => exact Listening.Hears.head heard
  | next heard _ ih =>
    rcases Listening.Hears.head heard with ⟨rfl, rfl⟩ | ⟨notice, rest, rfl, same⟩
    · exact ih
    · exact .inr ⟨notice, _, rfl, same⟩

theorem Announces.unheard (nobody : start.session.postLoadListeners = []) (entities : List LoadingEntity) (m : Moment) :
    start.Announces entities m [] (.ok ()) m := by
  induction entities with
  | nil => exact .done m
  | cons entity rest ih =>
    have silent : start.HearsPostLoad entity m [] (.ok ()) m := by
      unfold HearsPostLoad
      rw [nobody]
      exact .done 0 () m
    exact .next silent ih

theorem Announces.isPostLoad (ran : start.Announces entities m notices answer last) :
    ∀ notice ∈ notices, notice.call.isPostLoad = true := by
  induction ran with
  | done => exact List.forall_mem_nil _
  | stopped _ heard => exact fun notice member => (heard.calls notice member).2
  | next heard _ ih =>
    exact List.forall_mem_append.mpr ⟨fun notice member => (heard.calls notice member).2, ih⟩

/-- When the first post-load listener is called, all instances have been filled. -/
theorem Tells.ready (ran : start.Tells entities notices answer last)
    (distinct : entities.Pairwise fun a b => a.handle ≠ b.handle) (inside : ∀ entity ∈ entities, entity.handle ∈ start.heap)
    (tracked : ∀ entity ∈ entities, start.context.entry? entity.handle ≠ none) {first rest : List Notice} {notice : Notice}
    (split_ : notices = first ++ notice :: rest) (before : ∀ earlier ∈ first, earlier.call.isPostLoad = false)
    (postLoad : notice.call.isPostLoad = true) : ∀ entity ∈ entities, ∃ before told since state began prepared,
      first = before ++ told ++ since ∧ start.Filled entity told since state began prepared notice.moment := by
  cases ran with
  | stopped initialized =>
    have quiet := initialized.not_postLoad notice (split_ ▸ List.mem_append_right _ List.mem_cons_self)
    rw [postLoad] at quiet
    cases quiet
  | @finished notices others _ middle _ initialized announced =>
    have quiet := initialized.not_postLoad
    have whole : notices = first ∧ others = notice :: rest := by
      rcases List.append_eq_append_iff.mp split_ with ⟨between, rfl, later⟩ | ⟨between, rfl, later⟩
      · cases between with
        | nil => exact ⟨(List.append_nil _).symm, later⟩
        | cons earlier _ =>
          have told := announced.isPostLoad earlier (later ▸ List.mem_cons_self)
          rw [before earlier (List.mem_append_right _ List.mem_cons_self)] at told
          cases told
      · cases between with
        | nil => exact ⟨List.append_nil _, later.symm⟩
        | cons earlier _ =>
          obtain ⟨rfl, -⟩ := List.cons.inj later
          have told := quiet notice (List.mem_append_right _ List.mem_cons_self)
          rw [postLoad] at told
          cases told
    obtain ⟨rfl, rfl⟩ := whole
    rcases announced.head with ⟨none_, -⟩ | ⟨_, _, same, moment⟩
    · cases none_
    · obtain ⟨rfl, -⟩ := List.cons.inj same
      rw [moment]
      exact initialized.filled distinct inside tracked

end State

end UnitOfWork
