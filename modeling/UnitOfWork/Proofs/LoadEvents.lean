import UnitOfWork.Proofs.FilledInstances

/-! The protocol of load events. A load that has registered its rows calls pre-load listeners and the hook for each of
its new instances, in the order of their first rows, and only then post-load listeners; rows that are not new are
not announced to anybody. -/

namespace UnitOfWork
open UnitOfWork.Action

theorem State.moment_proxying (s : State) (keys : List EntityKey) : (s.proxying keys).moment = s.moment := by
  have entries : (s.proxying keys).context.entry? = s.context.entry? := by
    funext h
    exact Context.entry?_withProxies _ _ _ _
  unfold moment
  rw [entries]
  rfl

namespace Action
variable {s after : State}

theorem firePreLoad_hears {listeners : List PreLoadListener} {position : Nat} (event : PreLoadEvent)
    (state : List AttributeValue) {answer : Except Error (List AttributeValue)}
    (ran : (firePreLoad listeners position { event with state }).exec s = (answer, after)) : ∃ told,
      Listening.Hears (listeners.map (PreLoadListener.listening event)) position state s.moment told answer after.moment := by
  induction listeners generalizing position state s with
  | nil =>
    cases ran
    exact ⟨[], .done position state _⟩
  | cons listener rest ih =>
    unfold firePreLoad at ran
    rw [exec_get_bind, exec_record_bind, exec_modify_bind, exec_bind, exec_lift] at ran
    cases answered : (listener.call s.session.journal { event with state } s.heap).1 with
    | error e =>
      rw [answered] at ran
      cases ran
      exact ⟨_, .stopped _ answered⟩
    | ok next =>
      rw [answered] at ran
      obtain ⟨told, heard⟩ := ih next ran
      exact ⟨_, .heard answered heard⟩

theorem prepare_hears {start : State} {entity : LoadingEntity} {answer : Except Error (List AttributeValue)}
    (listeners : s.session.preLoadListeners = start.session.preLoadListeners)
    (ran : (prepare (entity.event start)).exec s = (answer, after)) :
    ∃ told, start.HearsPreLoad entity s.moment told answer after.moment := by
  unfold prepare at ran
  rw [exec_get_bind] at ran
  unfold State.HearsPreLoad
  rw [← listeners]
  unfold Session.preLoadListeners
  dsimp only at ran
  split at ran
  next heard =>
    rw [if_pos heard]
    exact firePreLoad_hears (entity.event start) (entity.resolved start) ran
  next unheard =>
    rw [if_neg unheard]
    cases ran
    exact ⟨[], .done 0 _ _⟩

theorem firePostLoad_hears {listeners : List PostLoadListener} {position : Nat} {event : PostLoadEvent}
    {answer : Except Error Unit} (ran : (firePostLoad listeners position event).exec s = (answer, after)) : ∃ told,
      Listening.Hears (listeners.map (PostLoadListener.listening event)) position () s.moment told answer after.moment := by
  induction listeners generalizing position s with
  | nil =>
    cases ran
    exact ⟨[], .done position () _⟩
  | cons listener rest ih =>
    unfold firePostLoad at ran
    rw [exec_get_bind, exec_record_bind, exec_modify_bind, exec_bind, exec_lift] at ran
    cases answered : (listener.call s.session.journal event s.heap).1 with
    | error e =>
      rw [answered] at ran
      cases ran
      exact ⟨_, .stopped _ answered⟩
    | ok _ =>
      rw [answered] at ran
      obtain ⟨told, heard⟩ := ih ran
      exact ⟨_, .heard answered heard⟩

theorem announceLoaded_announces {start : State} {entities : List LoadingEntity} {answer : Except Error Unit}
    (listeners : s.session.postLoad = start.session.postLoadListeners)
    (ran : (announceLoaded entities).exec s = (answer, after)) :
    ∃ notices, start.Announces entities s.moment notices answer after.moment := by
  induction entities generalizing s with
  | nil =>
    cases ran
    exact ⟨[], .done _⟩
  | cons entity rest ih =>
    unfold announceLoaded at ran
    rw [exec_get_bind, listeners] at ran
    change (firePostLoad start.session.postLoadListeners 0 entity.announcement >>= fun _ => announceLoaded rest).exec s =
      _ at ran
    rcases first : (firePostLoad start.session.postLoadListeners 0 entity.announcement).exec s with ⟨e | _, middle⟩
    · rw [exec_bind_error _ first] at ran
      cases ran
      obtain ⟨told, heard⟩ := firePostLoad_hears first
      exact ⟨told, .stopped rest heard⟩
    · rw [exec_bind_ok _ first] at ran
      obtain ⟨told, heard⟩ := firePostLoad_hears first
      obtain ⟨_, same⟩ := ((firePostLoad_serves _ _ _ s).of_exec first).session
      have still : middle.session.postLoad = start.session.postLoadListeners := by
        rw [same]
        exact listeners
      obtain ⟨notices, announced⟩ := ih still ran
      exact ⟨_, .next heard announced⟩

theorem runHook_moment (entity : LoadingEntity) (s : State) : ∃ after,
    (runHook entity.descriptor entity.handle).exec s = (.ok (), after) ∧
      after.moment = s.moment.through (entity.hooked s.moment) := by
  unfold runHook LoadingEntity.hooked
  cases entity.descriptor.afterInitialize with
  | none => exact ⟨s, rfl, rfl⟩
  | some hook => exact ⟨_, rfl, rfl⟩

theorem install_moment (options : LoadOptions) (entity : LoadingEntity) (state : List AttributeValue) (s : State) :
    ∃ filled after, (install entity.descriptor entity.key options entity.handle state).exec s = (.ok (), after) ∧
      entity.Fills state s.moment filled ∧ after.moment = filled.through (entity.hooked filled) := by
  obtain ⟨cached, cacheRan, caches, -⟩ := cacheLoaded_exec entity.descriptor entity.key state (s.filling entity state)
  obtain ⟨journal, extended, quiet⟩ := (cacheLoaded_silent _ _ _ _).of_exec cacheRan
  obtain ⟨hooked, hookRan, moment⟩ := runHook_moment entity (cached.entering options entity state)
  refine ⟨(cached.entering options entity state).moment,
    hooked.mapStatistics fun statistics => statistics.increment .entityLoads entity.descriptor.name, ?_, ?_, moment⟩
  · unfold install
    rw [exec_modify_bind]
    change (cacheLoaded entity.descriptor entity.key state >>= _).exec (s.filling entity state) = _
    rw [exec_bind_ok _ cacheRan, exec_modify_bind, exec_modify_bind]
    exact exec_bind_ok _ hookRan
  · have context : cached.context = s.context := by
      obtain ⟨_, same⟩ := caches.session
      unfold State.context
      rw [same]
      rfl
    have entries (h : Handle) : (cached.entering options entity state).context.entry? h = if entity.handle = h
        then (s.context.entry? h).map (loadedEntry entity.descriptor state
          (loadsReadOnly cached.session entity.descriptor entity.key options))
        else s.context.entry? h := by
      rw [← context]
      exact Context.entry?_updateEntry ..
    constructor
    case journal => exact ⟨journal, extended, quiet⟩
    case heap => exact caches.heap
    case entry => exact ⟨_, (entries entity.handle).trans (if_pos rfl)⟩
    case others => exact fun h other => (entries h).trans (if_neg other)

variable {start : State} {batch : Batch} {options : LoadOptions} {entity : LoadingEntity} {answer : Except Error Unit}

theorem materialize_initializes (ready : batch.Ready s) (member : entity ∈ batch.entities)
    (listeners : s.session.preLoadListeners = start.session.preLoadListeners)
    (model : s.session.factory = start.session.factory) (event : entity.event s = entity.event start)
    (ran : (materialize batch options entity).exec s = (answer, after)) (rest : List LoadingEntity) :
    (∃ e told, answer = .error e ∧ start.Initializes (entity :: rest) s.moment told (.error e) after.moment) ∨
      answer = .ok () ∧ ∃ told, ∀ {notices : List Notice} {ended : Except Error Unit} {last : Moment},
        start.Initializes rest after.moment notices ended last →
          start.Initializes (entity :: rest) s.moment (told ++ notices) ended last := by
  have tracked : s.context.isTracked entity.handle = true := by
    obtain ⟨entry, found, -⟩ := ready.tracked entity member
    rw [Context.isTracked_eq, found]
    rfl
  rw [materialize_exec batch options (ready.keyed entity member) tracked] at ran
  cases resolveAll_resolution batch entity.descriptor.name entity.descriptor.attributes entity.hydrated s ready.known with
  | lost e some_ among unsound lost =>
    rw [exec_bind_error _ lost] at ran
    cases ran
    rw [s.moment_proxying]
    rw [model] at unsound
    exact .inl ⟨e, [], rfl, .lost rest _ e unsound⟩
  | done sound resolved =>
    rw [exec_bind_ok _ resolved] at ran
    change (prepare (entity.event s) >>= install entity.descriptor entity.key options entity.handle).exec
      (s.proxying (entity.keys s.session.factory.metamodel)) = _ at ran
    rw [event] at ran
    rcases prepared : (prepare (entity.event start)).exec (s.proxying (entity.keys s.session.factory.metamodel)) with
      ⟨e | state, middle⟩
    all_goals
      have same : (s.proxying (entity.keys s.session.factory.metamodel)).session.preLoadListeners =
        start.session.preLoadListeners := listeners
      obtain ⟨told, heard⟩ := prepare_hears same prepared
      rw [s.moment_proxying] at heard
    · rw [exec_bind_error _ prepared] at ran
      cases ran
      exact .inl ⟨e, told, rfl, .stopped rest heard⟩
    · rw [exec_bind_ok _ prepared] at ran
      obtain ⟨filled, last, installed, fills, moment⟩ := install_moment options entity state middle
      rw [installed] at ran
      cases ran
      refine .inr ⟨rfl, told ++ entity.hooked filled, fun others => ?_⟩
      rw [moment] at others
      rw [List.append_assoc]
      exact .next heard fills others

/-- The induction is on what is left of the batch, while the batch stays ready. -/
theorem materializeAll_initializes (initial : batch.Ready start) : ∀ (rest : List LoadingEntity) (s : State),
    rest ⊆ batch.entities → batch.Ready s → Finishing batch.entities start s →
      (materializeAll batch options rest).exec s = (answer, after) →
        Finishing batch.entities start after ∧ ∃ notices, start.Initializes rest s.moment notices answer after.moment
  | [], s, _, _, finishing, ran => by
    cases ran
    exact ⟨finishing, [], .done _⟩
  | entity :: rest, s, members, ready, finishing, ran => by
    obtain ⟨member, others⟩ := List.cons_subset.mp members
    unfold materializeAll at ran
    rcases first : (materialize batch options entity).exec s with ⟨e | _, middle⟩
    all_goals
      have initializes := materialize_initializes ready member (Initialized.preLoadListeners finishing)
        finishing.factory (Initialized.event finishing entity) first rest
      have finishing := finishing.trans (ready.finishing member first)
    · rw [exec_bind_error _ first] at ran
      cases ran
      obtain ⟨e, told, same, stopped⟩ | ⟨fine, -⟩ := initializes
      · exact ⟨finishing, told, same ▸ stopped⟩
      · cases fine
    · rw [exec_bind_ok _ first] at ran
      obtain ⟨e, told, refused, -⟩ | ⟨-, told, next⟩ := initializes
      · cases refused
      · obtain ⟨finishing, notices, rested⟩ :=
          materializeAll_initializes initial rest middle others (ready.next member first) finishing ran
        exact ⟨finishing, told ++ notices, next rested⟩

theorem finishUp_tells (ready : batch.Ready s) (ran : (finishUp batch options).exec s = (answer, after)) :
    ∃ notices, s.Tells batch.entities notices answer after.moment := by
  unfold finishUp at ran
  rcases first : (materializeAll batch options batch.entities).exec s with ⟨e | _, middle⟩
  all_goals
    obtain ⟨finishing, notices, initialized⟩ :=
      materializeAll_initializes ready batch.entities s (List.Subset.refl _) ready (.refl s) first
  · rw [exec_bind_error _ first] at ran
    cases ran
    exact ⟨notices, .stopped initialized⟩
  · rw [exec_bind_ok _ first, exec_get_bind] at ran
    obtain ⟨_, _, _, _, same⟩ := finishing.session
    split at ran
    next heard =>
      have listeners : middle.session.postLoad = s.session.postLoadListeners := by
        rw [finishing.config] at heard
        rw [same, Session.postLoadListeners, if_pos heard]
      obtain ⟨others, announced⟩ := announceLoaded_announces listeners ran
      exact ⟨notices ++ others, .finished initialized announced⟩
    next unheard =>
      cases ran
      rw [finishing.config] at unheard
      refine ⟨notices ++ [], .finished initialized (.unheard ?_ _ _)⟩
      rw [Session.postLoadListeners, if_neg unheard]

theorem admitRow_silent (d : Descriptor) (options : LoadOptions) (progress : LoadProgress) (row : HydratedRow) (s : State) :
    Keeps Silent (admitRow d options progress row.key row.values) s := by
  have register (batch : Batch) (entity : LoadingEntity) (s : State) : Keeps Silent (registerLoading batch entity) s := by
    unfold registerLoading
    dsimp only
    split
    · exact .get_bind (.bind Silent.frame (Silent.record s rfl) fun _ s _ => .pure Silent.frame _ s)
    · exact .pure Silent.frame _ s
  have track (entity : LoadingEntity) (key : EntityKey) (s : State) : Keeps Silent (trackLoading entity key options) s := by
    unfold Keeps trackLoading
    rw [exec_changeContext]
    split <;> exact .of_same rfl
  rw [admitRow_eq]
  apply Keeps.get_bind
  split
  · exact .pure Silent.frame _ s
  · have created : Silent s (s.creating d row) := .of_same rfl
    refine .bind Silent.frame created fun _ s' _ => ?_
    refine .bind Silent.frame (register _ _ s') fun registered s' _ => ?_
    split
    · exact .bind Silent.frame (track _ _ s') fun _ s' _ => .pure Silent.frame _ s'
    · exact .bind Silent.frame (Silent.of_same rfl) fun _ s' _ => .pure Silent.frame _ s'

theorem hydrateRows_silent (d : Descriptor) (options : LoadOptions) : ∀ (rows : List (Except Error Row))
    (progress : LoadProgress) (s : State), Silent s (hydrateRows d options rows progress s).2
  | [], _, s | .error _ :: _, _, s => .of_same rfl
  | .ok row :: rest, progress, s => by
    cases hydrated : d.hydrateRow row with
    | error e =>
      rw [hydrateRows_refused rest hydrated]
      exact .of_same rfl
    | ok found =>
      rcases ran : (admitRow d options progress found.1 found.2).exec s with ⟨answer, middle⟩
      have first : Silent s middle := (admitRow_silent d options progress ⟨found.1, found.2⟩ s).of_exec ran
      rw [hydrateRows_step ⟨found.1, found.2⟩ rest hydrated ran]
      cases answer with
      | error e => exact first
      | ok grown => exact Silent.frame.trans first (hydrateRows_silent d options rest grown middle)

end Action

/-! The rows that get new instances. -/

namespace State

/-- The rows that a session has no instance for, each key once, in the order of their first rows. -/
def introduced (s : State) (rows : List HydratedRow) : List HydratedRow :=
  (rows.filter fun row => (s.context.entity? row.key).isNone).eraseDupsBy fun row other => row.key == other.key

variable {s : State} {row : HydratedRow}

theorem introduced_known (rows : List HydratedRow) (known : s.context.entity? row.key ≠ none) :
    s.introduced (row :: rows) = s.introduced rows := by
  unfold introduced
  rw [List.filter_cons_of_neg]
  rwa [Option.isNone_iff_eq_none]

theorem introduced_new (d : Descriptor) (options : LoadOptions) (rows : List HydratedRow)
    (missing : s.context.entity? row.key = none) :
    s.introduced (row :: rows) = row :: (s.tracking d options row).introduced rows := by
  unfold introduced
  rw [List.filter_cons, if_pos (Option.isNone_iff_eq_none.mpr missing), List.eraseDupsBy_cons, List.filter_filter]
  refine congrArg (fun others => row :: List.eraseDupsBy _ others) (List.filter_congr fun other _ => ?_)
  have stands : (s.tracking d options row).context.entity? other.key =
      if row.key == other.key then some ⟨s.heap.size⟩ else s.context.entity? other.key := Registry.find?_insert _ _ _ _
  rw [stands, BEq.comm]
  cases row.key == other.key <;> rfl

end State

namespace Action
variable {d : Descriptor} {options : LoadOptions} {rows : List (Except Error Row)} {found : List HydratedRow}

/-- The induction is on the rows; a row whose key has come before finds an instance, that of the first one. -/
theorem hydrateRows_introduces (hydrates : d.Hydrates rows found) : ∀ (progress : LoadProgress) (s : State)
    {grown : LoadProgress} {after : State},
    (∀ entity ∈ progress.batch.entities, entity.handle ∈ s.heap ∧ s.context.entity? entity.key ≠ none) →
      hydrateRows d options rows progress s = ((.ok (), grown), after) →
        grown.batch.entities.map LoadingEntity.row = progress.batch.entities.map LoadingEntity.row ++ s.introduced found := by
  induction hydrates with
  | nil =>
    intro progress s grown after _ ran
    cases ran
    exact (List.append_nil _).symm
  | @cons given row rows found first rest ih =>
    intro progress s grown after standing ran
    obtain ⟨r, rfl, read⟩ := first
    have allocated : ∀ entity ∈ progress.batch.entities, entity.handle ∈ s.heap :=
      fun entity member => (standing entity member).1
    obtain ⟨more, middle, admitted, admits⟩ := admitRow_exec d options row allocated
    rw [hydrateRows_step row rows read admitted] at ran
    dsimp only at ran
    cases admits with
    | @reused h unseen stands =>
      rw [s.introduced_known found (stands ▸ nofun)]
      exact ih { progress with results := progress.results ++ [h] } s standing ran
    | @repeated held seen =>
      obtain ⟨member, same⟩ := Batch.mem_of_find? seen
      have known : s.context.entity? row.key ≠ none := by
        rw [← s.context.entity?_congr same]
        exact (standing _ member).2
      rw [s.introduced_known found known]
      refine ih { progress with results := progress.results ++ [held.handle] } (s.dropping d row)
        (fun entity inside => ⟨?_, (standing entity inside).2⟩) ran
      exact s.heap.mem_create _ (standing entity inside).1
    | added unseen missing =>
      have stands (key : EntityKey) : (s.tracking d options row).context.entity? key =
          if row.key == key then some ⟨s.heap.size⟩ else s.context.entity? key := Registry.find?_insert _ _ _ _
      have still : ∀ entity ∈ progress.batch.entities ++ [s.loading d row],
          entity.handle ∈ (s.tracking d options row).heap ∧ (s.tracking d options row).context.entity? entity.key ≠ none := by
        refine List.forall_mem_append.mpr ⟨fun entity member => ⟨?_, ?_⟩, List.forall_mem_singleton.mpr ⟨?_, ?_⟩⟩
        · exact s.heap.mem_create _ (standing entity member).1
        · rw [stands]
          split
          · exact nofun
          · exact (standing entity member).2
        · exact s.heap.next_mem_create _
        · have here : (s.tracking d options row).context.entity? row.key = some ⟨s.heap.size⟩ :=
            (stands row.key).trans (if_pos BEq.rfl)
          exact here ▸ nofun
      rw [s.introduced_new d options found missing, ih _ (s.tracking d options row) still ran, List.map_append,
        List.append_assoc]
      rfl

end Action

/-- What is announced by a load that has found its rows and registered new instances for some of them. -/
structure LoadEvents (s registered : State) (created : List LoadingEntity) (notices : List Notice)
    (answer : Except Error (List Handle)) (after : State) : Prop where
  new : ∀ entity ∈ created, entity.handle ∉ s.heap
  distinct : created.Pairwise fun a b => a.handle ≠ b.handle
  registers : Registers s registered
  reads : ∀ h ∈ s.heap, registered.heap.read h = s.heap.read h
  blank : ∀ entity ∈ created, registered.heap.read entity.handle = entity.descriptor.instantiate (some entity.key.id)
  standing : ∀ entity ∈ created, registered.context.entity? entity.key = some entity.handle
  recorded : Journal.notices after.session.journal = Journal.notices s.session.journal ++ notices.map Notice.call
  moments : ∀ notice ∈ notices, notice.moment.journal ++ [notice.call] <+: after.session.journal
  follow : Notice.Follow (s.session.agenda created) notices answer
  told : ∃ last, registered.Tells created notices (answer.map fun _ => ()) last
  ready : ∀ {first rest : List Notice} {notice : Notice}, notices = first ++ notice :: rest →
    (∀ earlier ∈ first, earlier.call.isPostLoad = false) → notice.call.isPostLoad = true →
      ∀ entity ∈ created, ∃ before told since state began prepared,
        first = before ++ told ++ since ∧ registered.Filled entity told since state began prepared notice.moment

theorem Registers.agenda {s registered : State} (registers : Registers s registered) (created : List LoadingEntity) :
    registered.session.agenda created = s.session.agenda created := by
  unfold Session.agenda Session.preLoadListeners Session.postLoadListeners
  rw [registers.session]

theorem Notice.Follow.of_map {α β : Type} {agenda : List Topic} {notices : List Notice} {answer : Except Error α}
    {change : α → β} (follow : Notice.Follow agenda notices (answer.map change)) : Notice.Follow agenda notices answer where
  inOrder := follow.inOrder
  complete value answered := follow.complete (change value) (congrArg (Except.map change) answered)
  stops before notice rest e split_ failed := by
    obtain ⟨none_, same⟩ := follow.stops before notice rest e split_ failed
    cases answer with
    | error given => exact ⟨none_, congrArg Except.error (Except.error.inj same)⟩
    | ok value => cases same

namespace Admitted
variable {s registered : State} {d : Descriptor} {options : LoadOptions} {found : List HydratedRow}
  {progress : LoadProgress}

theorem events (admitted : Admitted s d options found progress registered) (silent : Silent s registered)
    {finished : Except Error Unit} {last : State} (answer : Except Error (List Handle)) (after : State)
    (ran : (finishUp progress.batch options).exec registered = (finished, last))
    (answered : finished = answer.map fun _ => ()) (journal : after.session.journal = last.session.journal) :
    ∃ notices, LoadEvents s registered progress.batch.entities notices answer after := by
  obtain ⟨notices, tells⟩ := finishUp_tells admitted.ready ran
  obtain ⟨calls, extended, quiet⟩ := silent
  obtain ⟨-, recorded, moments⟩ := tells.passes.recorded
  have before : Journal.notices registered.session.journal = Journal.notices s.session.journal := by
    rw [extended, Journal.notices_append, quiet, List.append_nil]
  have follow := tells.follow
  rw [admitted.registers.agenda, answered] at follow
  refine ⟨notices, ?_⟩
  constructor
  case new => exact fun entity member => (admitted.created entity member).1
  case distinct => exact admitted.apart
  case registers => exact admitted.registers
  case reads => exact admitted.reads
  case blank =>
    intro entity member
    rw [admitted.described entity member]
    exact admitted.blank entity member
  case standing => exact admitted.standing
  case recorded => rw [journal, ← before]; exact recorded
  case moments => rw [journal]; exact moments
  case follow => exact follow.of_map
  case told => exact ⟨_, answered ▸ tells⟩
  case ready =>
    intro first rest notice split_ earlier postLoad
    refine tells.ready admitted.apart (fun entity member => (admitted.created entity member).2) (fun entity member => ?_)
      split_ earlier postLoad
    rw [admitted.tracked entity member]
    exact nofun

end Admitted

/-- Which listeners and hooks a load calls, in which order, and what they find. A load that has not found all its rows
calls nobody. Any other load goes through the instances that it creates, in the order of their first rows, and calls for
each of them all pre-load listeners, each with the state that the one before it left, and then its hook; after that it
goes through them once more and calls all post-load listeners. When the first of these is called, all instances hold the
state that pre-load listeners left, but for what has been written since, and are managed or read-only. After a listener
that fails nobody is called, and the load fails in the same way. -/
theorem load_tells_in_order {s after : State} {entity : String} {rows : List (Except Error Row)} {options : LoadOptions}
    {answer : Except Error (List Handle)} (ran : (load entity rows options).exec s = (answer, after)) :
    ((∃ e, answer = .error e) ∧ Journal.notices after.session.journal = Journal.notices s.session.journal) ∨
    ∃ d found created registered notices, s.session.descriptor entity = .ok d ∧ d.Hydrates rows found ∧
      (∀ one ∈ created, one.descriptor = d) ∧ created.map LoadingEntity.row = s.introduced found ∧
      LoadEvents s registered created notices answer after := by
  have quiet {registered : State} (silent : Silent s registered) :
      Journal.notices registered.session.journal = Journal.notices s.session.journal := by
    obtain ⟨calls, extended, none_⟩ := silent
    rw [extended, Journal.notices_append, none_, List.append_nil]
  have rows_silent {d : Descriptor} {outcome : Except Error Unit} {progress : LoadProgress} {registered : State}
      (passed : hydrateRows d options rows {} s = ((outcome, progress), registered)) : Silent s registered := by
    have silent := hydrateRows_silent d options rows {} s
    rwa [passed] at silent
  have inOrder {d : Descriptor} {found : List HydratedRow} {progress : LoadProgress} {registered : State}
      (hydrates : d.Hydrates rows found) (passed : hydrateRows d options rows {} s = ((.ok (), progress), registered)) :
      progress.batch.entities.map LoadingEntity.row = s.introduced found :=
    hydrateRows_introduces hydrates {} s (List.forall_mem_nil _) passed
  cases load_loads ran with
  | refused => exact .inl ⟨⟨_, rfl⟩, rfl⟩
  | stopped _ _ passed _ _ =>
    have silent := quiet (rows_silent passed)
    exact .inl ⟨⟨_, rfl⟩, silent⟩
  | failed _ mapped hydrates passed admitted finished =>
    obtain ⟨notices, events⟩ := admitted.events (rows_silent passed) (.error _) (State.discarding _ _) finished rfl rfl
    exact .inr ⟨_, _, _, _, notices, mapped, hydrates, admitted.described, inOrder hydrates passed, events⟩
  | loaded _ mapped hydrates passed admitted finished =>
    obtain ⟨notices, events⟩ := admitted.events (rows_silent passed) (.ok _) _ finished rfl rfl
    exact .inr ⟨_, _, _, _, notices, mapped, hydrates, admitted.described, inOrder hydrates passed, events⟩

namespace Sample

def greeting : Hook where
  run _ h heap := [(h, (heap.read h).setValue 0 (.basic (.bool true)))]

def badge : Descriptor where
  name := "Badge"
  identifier := { name := "id" }
  attributes := [.basic "shown"]
  afterInitialize := some greeting

def blotting : PreLoadListener where
  call _ event _ := (.ok (event.state.map fun _ => .null), [])

def attending : PostLoadListener where
  call _ _ _ := (.ok (), [])

def entrance : State where
  heap := ⟨#[]⟩
  shared := {}
  session := { factory := { metamodel := ⟨[badge]⟩ }, preLoad := [blotting, blotting], postLoad := [attending] }

def badgeRow (id : Bool) : Except Error Row := .ok { values := [.bool id, .bool false] }

end Sample

open Sample in
/-- Two badges, of which one comes twice. -/
theorem load_tells_in_order_of_badges : ∃ after,
    (load "Badge" [badgeRow true, badgeRow false, badgeRow true] {}).exec entrance = (.ok [⟨0⟩, ⟨1⟩, ⟨0⟩], after) ∧
      ∃ found created registered notices, badge.Hydrates [badgeRow true, badgeRow false, badgeRow true] found ∧
        created.map LoadingEntity.row = entrance.introduced found ∧ Notice.topics notices = entrance.session.agenda created ∧
        LoadEvents entrance registered created notices (.ok [⟨0⟩, ⟨1⟩, ⟨0⟩]) after := by
  have answered : ((load "Badge" [badgeRow true, badgeRow false, badgeRow true] {}).exec entrance).1.toOption =
      some [⟨0⟩, ⟨1⟩, ⟨0⟩] := by decide +kernel
  have loaded := exec_of_toOption answered
  rcases load_tells_in_order loaded with ⟨⟨e, failed⟩, -⟩ | told
  · cases failed
  · obtain ⟨d, found, created, registered, notices, mapped, hydrates, -, rows, events⟩ := told
    obtain rfl : badge = d := Except.ok.inj mapped
    exact ⟨_, loaded, found, created, registered, notices, hydrates, rows, events.follow.complete _ rfl, events⟩

end UnitOfWork
