import UnitOfWork.Proofs.MirroredLoads

/-! A load that has failed can be repeated. Had it succeeded at first with other listeners, it succeeds with them now, and
but for the names of the new instances the session is then as it would have been. -/

namespace UnitOfWork
open UnitOfWork.Action
open AttributeValue (renameAll)

structure Listeners where
  preLoad : List PreLoadListener
  postLoad : List PostLoadListener

def State.heardBy (s : State) (listeners : Listeners) : State :=
  s.mapSession fun session => { session with preLoad := listeners.preLoad, postLoad := listeners.postLoad }

namespace Listeners

/-- Listeners that have heard what there was to hear up to some moment, as they are at a later one of which they have
heard nothing in between. -/
def resumed (listeners : Listeners) (heard missed : Journal) : Listeners where
  preLoad := listeners.preLoad.map fun listener =>
    { call := fun journal => listener.call (heard ++ journal.drop missed.length) }
  postLoad := listeners.postLoad.map fun listener =>
    { call := fun journal => listener.call (heard ++ journal.drop missed.length) }

/-- Listeners that let a row pass do so, with the same state, whatever new instances are named. They go by what there is
to see of instances, and by what they and the hooks have been told. -/
structure Uniform (listeners : Listeners) (kept : Heap) (heard : Journal) : Prop where
  preLoad : ∀ listener ∈ listeners.preLoad, ∀ names, kept.Renaming names →
    PreLoadListener.Mirrors names heard heard listener listener
  postLoad : ∀ listener ∈ listeners.postLoad, ∀ names, kept.Renaming names →
    PostLoadListener.Mirrors names heard heard listener listener

end Listeners

/-- Instances refer only to instances that there are: nobody holds one that is still to be created. -/
def Heap.Closed (heap : Heap) : Prop := ∀ h ∈ heap, ∀ other ∈ AttributeValue.handlesAmong (heap.values h), other ∈ heap

/-- A row source that is to give these rows gives them, or stops at an error before it has given them all. -/
def Attempts (rows : List Row) (given : List (Except Error Row)) : Prop :=
  given = rows.map .ok ∨ ∃ before e rest, before <+: rows ∧ given = before.map .ok ++ .error e :: rest

theorem Attempts.eq_of_hydrates {rows : List Row} {given : List (Except Error Row)} {d : Descriptor}
    {found : List HydratedRow} (attempts : Attempts rows given) (hydrates : d.Hydrates given found) :
    given = rows.map .ok := by
  rcases attempts with same | ⟨before, e, rest, -, rfl⟩
  · exact same
  · have readable : ∀ row ∈ before.map Except.ok ++ .error e :: rest, ∃ r, row = .ok r := by
      refine ((List.forall₂_and_left _ _).mp (hydrates.imp fun row _ first => ⟨?_, first⟩)).1
      obtain ⟨r, same, -⟩ := first
      exact ⟨r, same⟩
    obtain ⟨_, same⟩ := readable (.error e) (List.mem_append_right _ List.mem_cons_self)
    cases same

theorem Instance.rename_eq_self {heap : Heap} (closed : heap.Closed) {names : Handle → Handle}
    (named : heap.Renaming names) {h : Handle} (inside : h ∈ heap) : (heap.read h).rename names = heap.read h :=
  congrArg (fun values => { heap.read h with values }) (AttributeValue.renameAll_eq_self names _ fun other member =>
    named.fixed other (closed h inside other member))

namespace Undone
variable {entity : String} {given : List (Except Error Row)} {s failed : State} {listeners : Listeners}

/-- What a failure leaves does not show, but in the names of instances to come. -/
theorem mirrors (undone : Undone entity given s failed) (closed : s.heap.Closed)
    (keys : ∀ key, failed.context.entity? key = s.context.entity? key) (sound : s.Sound)
    (uniform : listeners.Uniform s.heap s.session.journal)
    (writes : ∀ d, s.session.descriptor entity = .ok d → s.Writes (fun given h => h = given) d) :
    Mirrors s failed (s.heardBy listeners)
      (failed.heardBy (listeners.resumed s.session.journal failed.session.journal)) := by
  have named := s.shift_renaming failed
  have size := undone.size
  constructor
  case factory => exact undone.factory
  case config => exact undone.config
  case preLoad =>
    refine List.forall₂_map_right_iff.mpr (List.forall₂_same.mpr fun listener member => ?_)
    intro since since' event heap heap' state edits told alike called
    rw [← uniform.preLoad listener member _ named since since' event heap heap' state edits told alike called]
    dsimp only
    rw [List.drop_left]
  case postLoad =>
    refine List.forall₂_map_right_iff.mpr (List.forall₂_same.mpr fun listener member => ?_)
    intro since since' event heap heap' edits told alike called
    rw [← uniform.postLoad listener member _ named since since' event heap heap' edits told alike called]
    dsimp only
    rw [List.drop_left]
  case journal => exact ⟨[], [], (List.append_nil _).symm, (List.append_nil _).symm, rfl⟩
  case heap =>
    constructor
    case inside =>
      intro h
      change (s.shift failed h).index < failed.heap.size ↔ h.index < s.heap.size
      rw [State.index_shift]
      split <;> omega
    case reads =>
      intro h
      by_cases old : h ∈ s.heap
      · rw [named.fixed h old]
        exact (undone.instances writes h old).trans (Instance.rename_eq_self closed named old).symm
      · have outside : s.shift failed h ∉ failed.heap := by
          intro inside
          have there : (s.shift failed h).index < failed.heap.size := inside
          have here : ¬ h.index < s.heap.size := old
          rw [State.index_shift, if_neg here] at there
          omega
        exact (failed.heap.read_outside outside).trans (congrArg (Instance.rename (s.shift failed))
          (s.heap.read_outside old)).symm
  case grown => exact Nat.le_refl _
  case size =>
    change failed.heap.size = s.heap.size + _
    omega
  case context =>
    constructor
    case standing =>
      intro key
      refine (keys key).trans ?_
      change s.context.entity? key = (s.context.entity? key).map _
      cases standing : s.context.entity? key with
      | none => rfl
      | some h => rw [Option.map_some, named.fixed h (sound.standing_old standing)]
    case old => exact fun h _ => undone.entries h
    case new =>
      intro h new
      have fresh : s.shift failed h ∉ s.heap := fun old => named.not_kept new _ old rfl
      refine (undone.entries _).trans ?_
      change s.context.entry? _ = (s.context.entry? h).map _
      rw [sound.untracked new, sound.untracked fresh]
      rfl
    case proxies => exact fun _ agreed => agreed

theorem proxies_left (undone : Undone entity given s failed) {rows : List Row} (attempts : Attempts rows given)
    {d : Descriptor} {found : List HydratedRow} (mapped : s.session.descriptor entity = .ok d)
    (hydrates : d.Hydrates (rows.map .ok) found) (key : EntityKey) :
    failed.context.proxy? key = s.context.proxy? key ∨
      s.context.proxy? key = none ∧ failed.context.proxy? key = some s.session.config.readOnly ∧
        s.context.entity? key = none ∧ (∀ row ∈ found, (row.key == key) = false) ∧ ∃ row, s.Introduces found row ∧
          (s.session.factory.metamodel.keysAmong d.attributes row.values).any (· == key) = true := by
  rcases undone.proxies key with same | ⟨unmarked, missing, marked, other, seen, same, again, apart, led⟩
  · exact .inl same
  · obtain rfl := Except.ok.inj (mapped.symm.trans same)
    rw [attempts.eq_of_hydrates again] at again
    obtain rfl := hydrates.unique again
    exact .inr ⟨unmarked, marked, missing, apart, led⟩

theorem agreed (undone : Undone entity given s failed) {rows : List Row} (attempts : Attempts rows given) {d : Descriptor}
    {found : List HydratedRow} (mapped : s.session.descriptor entity = .ok d)
    (hydrates : d.Hydrates (rows.map .ok) found) :
    ∀ row ∈ found, failed.context.proxy? row.key = s.context.proxy? row.key := by
  intro row member
  rcases undone.proxies_left attempts mapped hydrates row.key with same | ⟨-, -, -, apart, -⟩
  · exact same
  · have different := apart row member
    rw [BEq.rfl] at different
    cases different

theorem proxies_again (undone : Undone entity given s failed) {rows : List Row} (attempts : Attempts rows given)
    {d : Descriptor} {options : LoadOptions} {found : List HydratedRow} {progress progress' : LoadProgress}
    {middle middle' after again : State} {others : Listeners} (mapped : s.session.descriptor entity = .ok d)
    (hydrates : d.Hydrates (rows.map .ok) found) (keys : ∀ key, failed.context.entity? key = s.context.entity? key)
    (first : Admitted (s.heardBy listeners) d options found progress middle)
    (one : Initialized options progress.batch.entities middle after)
    (second : Admitted (failed.heardBy others) d options found progress' middle')
    (two : Initialized options progress'.batch.entities middle' again) {key : EntityKey}
    (missing : again.context.entity? key = none ↔ after.context.entity? key = none) :
    again.context.proxy? key = after.context.proxy? key := by
  have introduces (row : HydratedRow) : failed.Introduces found row ↔ s.Introduces found row := by
    unfold State.Introduces
    rw [keys row.key]
  apply Option.ext
  intro readOnly
  have here := first.proxies one key readOnly
  have there := second.proxies two key readOnly
  change _ ↔ failed.context.proxy? key = some readOnly ∨ failed.context.proxy? key = none ∧
    readOnly = failed.session.config.readOnly ∧ again.context.entity? key = none ∧ ∃ row, failed.Introduces found row ∧
      (failed.session.factory.metamodel.keysAmong d.attributes row.values).any (· == key) = true at there
  rw [undone.config, undone.factory, missing] at there
  simp only [introduces] at there
  rw [there, here]
  change _ ↔ s.context.proxy? key = some readOnly ∨ s.context.proxy? key = none ∧
    readOnly = s.session.config.readOnly ∧ after.context.entity? key = none ∧ ∃ row, s.Introduces found row ∧
      (s.session.factory.metamodel.keysAmong d.attributes row.values).any (· == key) = true
  rcases undone.proxies_left attempts mapped hydrates key with same | ⟨unmarked, marked, absent, apart, led⟩
  · rw [same]
  · have unknown : after.context.entity? key = none := by
      rw [one.entity?]
      exact (first.entity?_eq_none key).mpr ⟨absent, apart⟩
    rw [marked, unmarked]
    constructor
    · rintro (same | ⟨held, -⟩)
      · exact .inr ⟨rfl, (Option.some.inj same).symm, unknown, led⟩
      · cases held
    · rintro (held | ⟨-, same, -⟩)
      · cases held
      · exact .inl (congrArg some same.symm)

end Undone

section
variable {s failed after : State} {entity : String} {given : List (Except Error Row)} {rows : List Row}
  {options : LoadOptions} {e : Error} {listeners : Listeners} {results : List Handle} {d : Descriptor}

theorem load_repeated (sound : s.Sound) (refused : (load entity given options).exec s = (.error e, failed))
    (attempts : Attempts rows given) (closed : s.heap.Closed)
    (writes : ∀ d, s.session.descriptor entity = .ok d → s.Writes (fun given h => h = given) d)
    (hooks : ∀ d, s.session.descriptor entity = .ok d → ∀ hook, d.afterInitialize = some hook → hook.Uniform s.heap)
    (uniform : listeners.Uniform s.heap s.session.journal)
    (writes' : ∀ d, s.session.descriptor entity = .ok d → (s.heardBy listeners).Writes (fun given h => h = given) d)
    (loaded : (load entity (rows.map .ok) options).exec (s.heardBy listeners) = (.ok results, after)) :
    ∃ names again, (load entity (rows.map .ok) options).exec
        (failed.heardBy (listeners.resumed s.session.journal failed.session.journal)) =
          (.ok (results.map names), again) ∧ Renamed names s after again := by
  have undone := load_undone sound refused
  have keys := load_undone_keys sound refused
  have named := s.shift_renaming failed
  have mirrors := undone.mirrors closed keys sound uniform writes
  cases load_loads loaded with
  | @loaded d found progress middle _ supported mapped hydrates passed admitted ran =>
    have mapped : s.session.descriptor entity = .ok d := mapped
    obtain ⟨middle', passed', mirrors⟩ := hydrateRows_follows options hydrates {} _ _ mirrors passed
    have repeatable : ∀ entity ∈ progress.batch.entities, entity.Repeatable s failed := by
      intro entity member
      refine ⟨(admitted.created entity member).1, ?_, fun hook given => ?_⟩
      · exact undone.agreed attempts mapped hydrates entity.row
          ((admitted.introduced entity.row).mp ⟨entity, member, rfl⟩).2.mem
      · rw [admitted.described entity member] at given
        exact hooks d mapped hook given
    obtain ⟨_, again, ran', -, mirrors⟩ := finishUp_follows repeatable options _ _ mirrors _ _ ran
    have mapped' : (failed.heardBy (listeners.resumed s.session.journal failed.session.journal)).session.descriptor
        entity = .ok d := by
      change failed.session.factory.metamodel.descriptor entity = _
      rw [undone.factory]
      exact mapped
    have reloaded := load_passed supported mapped' passed' ran'
    have initialized := (finishUp_initialized admitted.ready admitted.apart ran).2 rfl
    obtain ⟨other, found', _, _, same, hydrates', admitted', initialized', -⟩ := load_ok reloaded
    obtain rfl := Except.ok.inj (mapped'.symm.trans same)
    obtain rfl := hydrates.unique hydrates'
    have untouched := admitted.untouched initialized.toFinishing (writes' d mapped)
    refine ⟨s.shift failed, again, reloaded, ?_⟩
    constructor
    case keeps => exact named.fixed
    case creates =>
      exact fun h inside new => ⟨(mirrors.heap.inside h).mpr inside, fun old => named.not_kept new _ old rfl⟩
    case injective => exact fun x _ y _ same => named.injective x y same
    case standing => exact mirrors.context.standing
    case entries => exact mirrors.context.old
    case instances =>
      intro h old
      have reads := mirrors.heap.reads h
      have same : after.heap.read h = s.heap.read h := untouched h old
      rw [named.fixed h old, same, Instance.rename_eq_self closed named old] at reads
      rw [reads, same]
    case newEntries => exact fun h _ new => mirrors.context.new h new
    case newInstances => exact fun h _ _ => mirrors.heap.reads h
    case proxies =>
      intro key
      refine undone.proxies_again attempts mapped hydrates keys admitted initialized admitted' initialized' ?_
      rw [mirrors.context.standing key, Option.map_eq_none_iff]

end

/-- A load that fails leaves the session with the entries, keys and work that it had, and leaves other instances alone
if listeners and hooks do. It can be repeated: had the rows loaded at first with some listeners, they load with them
after the failure, and but for the names of the new instances all is then as it would have been. -/
theorem failed_load_is_undone {start s failed : State} {moves : List Move} {entity : String}
    {given : List (Except Error Row)} {options : LoadOptions} {e : Error} (fresh : start.Fresh) (run : Run start moves s)
    (refused : (load entity given options).exec s = (.error e, failed)) :
    (∀ h, failed.context.entry? h = s.context.entry? h) ∧
      (∀ key, failed.context.entity? key = s.context.entity? key) ∧ failed.actions = s.actions ∧
      failed.context.nullifiable = s.context.nullifiable ∧ failed.context.insertedKeys = s.context.insertedKeys ∧
      failed.context.databaseSnapshots = s.context.databaseSnapshots ∧
      ((∀ d, s.session.descriptor entity = .ok d → s.Writes (fun given h => h = given) d) →
        (∀ h ∈ s.heap, failed.heap.read h = s.heap.read h) ∧
        ∀ (rows : List Row) (listeners : Listeners) (results : List Handle) (after : State), Attempts rows given →
          s.heap.Closed → listeners.Uniform s.heap s.session.journal →
          (∀ d, s.session.descriptor entity = .ok d → (s.heardBy listeners).Writes (fun given h => h = given) d ∧
            ∀ hook, d.afterInitialize = some hook → hook.Uniform s.heap) →
          (load entity (rows.map .ok) options).exec (s.heardBy listeners) = (.ok results, after) →
          ∃ names again, (load entity (rows.map .ok) options).exec
              (failed.heardBy (listeners.resumed s.session.journal failed.session.journal)) =
                (.ok (results.map names), again) ∧ Renamed names s after again) := by
  have sound := run.sound fresh.sound
  have undone := load_undone sound refused
  obtain ⟨journal, naturalIds, entries, entities, proxies, same⟩ := undone.session
  have context : failed.context = { s.context with entries, entities, proxies } := congrArg Session.context same
  refine ⟨undone.entries, load_undone_keys sound refused, ?_, ?_, ?_, ?_, fun writes => ?_⟩
  · unfold State.actions
    rw [same]
  · rw [context]
  · rw [context]
  · rw [context]
  · refine ⟨undone.instances writes, fun rows listeners results after attempts closed uniform alone loaded => ?_⟩
    exact load_repeated sound refused attempts closed writes (fun d mapped => (alone d mapped).2) uniform
      (fun d mapped => (alone d mapped).1) loaded

namespace Sample

def choosy : PreLoadListener where
  call _ event _ :=
    if event.id == .ofColumns [.bool true] then (.ok event.state, []) else (.error (.listener "no"), [])

def lenient : PreLoadListener where
  call _ event _ := (.ok event.state, [])

def watched : State := (Move.configure {} none none [choosy] []).perform withCustomer

def orders : List Row := [{ values := [.bool true, .bool true] }, { values := [.bool false, .bool false] }]

end Sample

open Sample in
/-- A listener stops the second of two orders, after a proxy was made for its customer. -/
theorem failed_load_is_undone_watched : ∃ e failed after names again,
    Run (start #[]) [.load "Customer" [customerRow true] {}, .configure {} none none [choosy] []] watched ∧
      (load "Order" (orders.map .ok) {}).exec watched = (.error e, failed) ∧
      failed.context.entry? ⟨0⟩ = watched.context.entry? ⟨0⟩ ∧
      (load "Order" (orders.map .ok) {}).exec (watched.heardBy ⟨[lenient], []⟩) = (.ok [⟨1⟩, ⟨2⟩], after) ∧
      (load "Order" (orders.map .ok) {}).exec (failed.heardBy
        ((Listeners.mk [lenient] []).resumed watched.session.journal failed.session.journal)) =
          (.ok ([⟨1⟩, ⟨2⟩].map names), again) ∧ Renamed names watched after again := by
  have run : Run (start #[]) [.load "Customer" [customerRow true] {}, .configure {} none none [choosy] []] watched :=
    (Run.start.extend (.load "Customer" [customerRow true] {}) trivial).extend (.configure {} none none [choosy] []) trivial
  have stopped : ((load "Order" (orders.map .ok) {}).exec watched).1.toOption = none := by decide +kernel
  have answered : ((load "Order" (orders.map .ok) {}).exec (watched.heardBy ⟨[lenient], []⟩)).1.toOption =
      some [⟨1⟩, ⟨2⟩] := by decide +kernel
  have loaded := exec_of_toOption answered
  have closed : watched.heap.Closed := by
    intro h inside other member
    have first : h.index < 1 := inside
    obtain rfl : h = ⟨0⟩ := congrArg Handle.mk (Nat.lt_one_iff.mp first)
    cases member
  have uniform : (Listeners.mk [lenient] []).Uniform watched.heap watched.session.journal := by
    refine ⟨List.forall_mem_singleton.mpr fun names _ => ?_, nofun⟩
    intro since since' event heap heap' state edits _ _ called
    cases called
    rfl
  rcases ran : (load "Order" (orders.map .ok) {}).exec watched with ⟨e | results, failed⟩
  · obtain ⟨kept, -, -, -, -, -, repeated⟩ := failed_load_is_undone (start_fresh _) run ran
    have writes (d : Descriptor) (mapped : watched.session.descriptor "Order" = .ok d) :
        watched.Writes (fun given h => h = given) d := by
      obtain rfl : order = d := Except.ok.inj mapped
      refine ⟨List.forall_mem_singleton.mpr fun journal event heap edit member => ?_, nofun, nofun⟩
      unfold choosy at member
      dsimp only at member
      split at member <;> cases member
    have alone (d : Descriptor) (mapped : watched.session.descriptor "Order" = .ok d) :
        (watched.heardBy ⟨[lenient], []⟩).Writes (fun given h => h = given) d ∧
          ∀ hook, d.afterInitialize = some hook → hook.Uniform watched.heap := by
      obtain rfl : order = d := Except.ok.inj mapped
      refine ⟨⟨List.forall_mem_singleton.mpr fun journal event heap edit member => ?_, nofun, nofun⟩, nofun⟩
      cases member
    obtain ⟨-, repeated⟩ := repeated writes
    obtain ⟨names, again, reloaded, renamed⟩ :=
      repeated orders ⟨[lenient], []⟩ _ _ (.inl rfl) closed uniform alone loaded
    exact ⟨e, failed, _, names, again, run, rfl, kept ⟨0⟩, loaded, reloaded, renamed⟩
  · rw [ran] at stopped
    cases stopped

end UnitOfWork
