import UnitOfWork.Proofs.MirroredLoads

/-! What a load tells listeners and hooks, call by call. In the first pass over its instances each of them is announced
to the pre-load listeners, is filled with the state that they leave, and runs its hook; in the second pass each is
announced to the post-load listeners. The first listener that fails is the last one to be called. -/

namespace UnitOfWork
open UnitOfWork.Action

/-- What a listener or a hook is called for. -/
inductive Topic where
  | preLoad (listener : Nat) (h : Handle) (id : Identifier) (entity : String)
  | initialized (h : Handle)
  | postLoad (listener : Nat) (h : Handle) (id : Identifier) (entity : String)

namespace Call

def topic? : Call → Option Topic
  | .preLoad listener h id entity _ _ => some (.preLoad listener h id entity)
  | .initialized h _ => some (.initialized h)
  | .postLoad listener h id entity _ => some (.postLoad listener h id entity)
  | _ => none

def isHook : Call → Bool
  | .initialized .. => true
  | _ => false

def isPostLoad : Call → Bool
  | .postLoad .. => true
  | _ => false

end Call

/-- What a listener or a hook finds: the calls so far, what instances hold, and how they are tracked. -/
structure Moment where
  journal : Journal
  heap : Heap
  entry? : Handle → Option Entry

def State.moment (s : State) : Moment := ⟨s.session.journal, s.heap, s.context.entry?⟩

/-- A call of a listener or a hook, at its moment, and what came of it. -/
structure Notice where
  moment : Moment
  call : Call
  /-- Why the listener has stopped the load. -/
  failed : Option Error
  edits : List (Handle × Instance)

def Notice.after (notice : Notice) : Moment where
  journal := notice.moment.journal ++ [notice.call]
  heap := notice.moment.heap.edit notice.edits
  entry? := notice.moment.entry?

def Notice.topics (notices : List Notice) : List Topic := notices.filterMap fun notice => notice.call.topic?

/-- What these calls have written, in order. -/
def Notice.writes (notices : List Notice) : List (Handle × Instance) := notices.flatMap Notice.edits

def Instance.rewritten (h : Handle) (x : Instance) (edits : List (Handle × Instance)) : Instance :=
  edits.foldl (fun x edit => if edit.1 = h then edit.2 else x) x

theorem Instance.rewritten_append (h : Handle) (x : Instance) (edits others : List (Handle × Instance)) :
    x.rewritten h (edits ++ others) = (x.rewritten h edits).rewritten h others := List.foldl_append

theorem Instance.rewritten_of_ne (h : Handle) (x : Instance) {edits : List (Handle × Instance)}
    (elsewhere : ∀ edit ∈ edits, edit.1 ≠ h) : x.rewritten h edits = x := by
  unfold rewritten
  induction edits with
  | nil => rfl
  | cons edit rest ih =>
    rw [List.foldl_cons, if_neg (elsewhere edit List.mem_cons_self)]
    exact ih fun other member => elsewhere other (List.mem_cons_of_mem _ member)

theorem Heap.read_edit_inside (heap : Heap) {h : Handle} (inside : h ∈ heap) (edits : List (Handle × Instance)) :
    (heap.edit edits).read h = (heap.read h).rewritten h edits := by
  unfold edit Instance.rewritten
  induction edits generalizing heap with
  | nil => rfl
  | cons edit rest ih =>
    have still : h ∈ heap.update edit.1 fun _ => edit.2 := Nat.lt_of_lt_of_eq inside (heap.size_update _ _).symm
    rw [List.foldl_cons, List.foldl_cons, ih _ still]
    congr 1
    split
    next same =>
      subst h
      exact heap.read_update _ _ inside
    next other => exact heap.read_update_of_ne _ other

/-! The calls of one event. -/

/-- Somebody who is called for an event, with a state that may be handed on. -/
structure Listening (σ : Type) where
  call : Nat → σ → Moment → Call
  answer : σ → Moment → Except Error σ × List (Handle × Instance)

namespace Listening
variable {σ : Type}

def notice (listening : Listening σ) (position : Nat) (state : σ) (m : Moment) : Notice where
  moment := m
  call := listening.call position state m
  failed := match (listening.answer state m).1 with
    | .ok _ => none
    | .error e => some e
  edits := (listening.answer state m).2

/-- All are called in order, each with the state that the one before it left, until one fails. -/
inductive Hears : List (Listening σ) → Nat → σ → Moment → List Notice → Except Error σ → Moment → Prop
  | done (position : Nat) (state : σ) (m : Moment) : Hears [] position state m [] (.ok state) m
  | heard {listening : Listening σ} {rest : List (Listening σ)} {position : Nat} {state next : σ} {m last : Moment}
      {notices : List Notice} {answer : Except Error σ} (answered : (listening.answer state m).1 = .ok next)
      (others : Hears rest (position + 1) next (listening.notice position state m).after notices answer last) :
      Hears (listening :: rest) position state m (listening.notice position state m :: notices) answer last
  | stopped {listening : Listening σ} (rest : List (Listening σ)) {position : Nat} {state : σ} {m : Moment} {e : Error}
      (refused : (listening.answer state m).1 = .error e) :
      Hears (listening :: rest) position state m [listening.notice position state m] (.error e)
        (listening.notice position state m).after

end Listening

def PreLoadListener.listening (event : PreLoadEvent) (listener : PreLoadListener) : Listening (List AttributeValue) where
  call position state m :=
    .preLoad position event.entity event.id event.descriptor.name state (m.heap.values event.entity)
  answer state m := listener.call m.journal { event with state } m.heap

def PostLoadListener.listening (event : PostLoadEvent) (listener : PostLoadListener) : Listening Unit where
  call position _ m := .postLoad position event.entity event.id event.entityName (m.heap.values event.entity)
  answer _ m := listener.call m.journal event m.heap

/-! The calls of a load, for one instance after the other. -/

namespace LoadingEntity
variable (entity : LoadingEntity)

def preLoadTopics (listeners : Nat) : List Topic :=
  (List.range listeners).map fun position => .preLoad position entity.handle entity.key.id entity.descriptor.name

def hookTopics : List Topic :=
  if entity.descriptor.afterInitialize.isSome then [.initialized entity.handle] else []

def postLoadTopics (listeners : Nat) : List Topic :=
  (List.range listeners).map fun position => .postLoad position entity.handle entity.key.id entity.descriptor.name

/-- The call of the hook, if there is one. -/
def hooked (m : Moment) : List Notice :=
  match entity.descriptor.afterInitialize with
  | none => []
  | some hook =>
    [⟨m, .initialized entity.handle (m.heap.values entity.handle), none, hook.run m.journal entity.handle m.heap⟩]

def announcement : PostLoadEvent := ⟨entity.handle, entity.key.id, entity.descriptor.name⟩

/-- The instance is given its state, and its entry says so. Nobody is told. -/
structure Fills (state : List AttributeValue) (before after : Moment) : Prop where
  journal : ∃ calls, after.journal = before.journal ++ calls ∧ Journal.notices calls = []
  heap : after.heap = before.heap.update entity.handle fun x => { x with values := state }
  entry : ∃ readOnly, after.entry? entity.handle =
    (before.entry? entity.handle).map (loadedEntry entity.descriptor state readOnly)
  others : ∀ h, entity.handle ≠ h → after.entry? h = before.entry? h

end LoadingEntity

def Moment.through (m : Moment) (notices : List Notice) : Moment := notices.foldl (fun _ notice => notice.after) m

/-- All that a load which creates these instances has to tell, in order. -/
def Session.agenda (session : Session) (created : List LoadingEntity) : List Topic :=
  (created.flatMap fun entity => entity.preLoadTopics session.preLoadListeners.length ++ entity.hookTopics) ++
    created.flatMap fun entity => entity.postLoadTopics session.postLoadListeners.length

namespace State

def HearsPreLoad (start : State) (entity : LoadingEntity) (m : Moment) (told : List Notice)
    (answer : Except Error (List AttributeValue)) (last : Moment) : Prop :=
  Listening.Hears (start.session.preLoadListeners.map (PreLoadListener.listening (entity.event start))) 0
    (entity.resolved start) m told answer last

def HearsPostLoad (start : State) (entity : LoadingEntity) (m : Moment) (told : List Notice) (answer : Except Error Unit)
    (last : Moment) : Prop :=
  Listening.Hears (start.session.postLoadListeners.map (PostLoadListener.listening entity.announcement)) 0 () m told answer
    last

/-- The first pass, up to the first instance of which a key leads nowhere or a listener fails. -/
inductive Initializes (start : State) : List LoadingEntity → Moment → List Notice → Except Error Unit → Moment → Prop
  | done (m : Moment) : Initializes start [] m [] (.ok ()) m
  | lost {entity : LoadingEntity} (rest : List LoadingEntity) (m : Moment) (e : Error)
      (unsound : entity.leads start.session.factory.metamodel = false) :
      Initializes start (entity :: rest) m [] (.error e) m
  | stopped {entity : LoadingEntity} (rest : List LoadingEntity) {m last : Moment} {told : List Notice} {e : Error}
      (heard : start.HearsPreLoad entity m told (.error e) last) :
      Initializes start (entity :: rest) m told (.error e) last
  | next {entity : LoadingEntity} {rest : List LoadingEntity} {m prepared filled last : Moment}
      {told notices : List Notice} {state : List AttributeValue} {answer : Except Error Unit}
      (heard : start.HearsPreLoad entity m told (.ok state) prepared)
      (fills : entity.Fills state prepared filled)
      (others : Initializes start rest (filled.through (entity.hooked filled)) notices answer last) :
      Initializes start (entity :: rest) m (told ++ (entity.hooked filled ++ notices)) answer last

/-- The second pass, up to the first listener that fails. -/
inductive Announces (start : State) : List LoadingEntity → Moment → List Notice → Except Error Unit → Moment → Prop
  | done (m : Moment) : Announces start [] m [] (.ok ()) m
  | stopped {entity : LoadingEntity} (rest : List LoadingEntity) {m last : Moment} {told : List Notice} {e : Error}
      (heard : start.HearsPostLoad entity m told (.error e) last) :
      Announces start (entity :: rest) m told (.error e) last
  | next {entity : LoadingEntity} {rest : List LoadingEntity} {m middle last : Moment} {told notices : List Notice}
      {answer : Except Error Unit}
      (heard : start.HearsPostLoad entity m told (.ok ()) middle)
      (others : Announces start rest middle notices answer last) :
      Announces start (entity :: rest) m (told ++ notices) answer last

/-- Both passes: the second one begins when the first one is over. -/
inductive Tells (start : State) (created : List LoadingEntity) : List Notice → Except Error Unit → Moment → Prop
  | stopped {notices : List Notice} {e : Error} {last : Moment}
      (first : start.Initializes created start.moment notices (.error e) last) : Tells start created notices (.error e) last
  | finished {notices others : List Notice} {answer : Except Error Unit} {middle last : Moment}
      (first : start.Initializes created start.moment notices (.ok ()) middle)
      (second : start.Announces created middle others answer last) : Tells start created (notices ++ others) answer last

end State

theorem Journal.notices_append (journal others : Journal) :
    Journal.notices (journal ++ others) = Journal.notices journal ++ Journal.notices others := List.filter_append ..

/-! What the calls leave of the instances that a load does not fill at that time. -/

/-- Calls in a row. Between them the instances with this property are as the calls have left them. -/
inductive Moment.Passes (kept : Handle → Prop) : Moment → List Notice → Moment → Prop
  | refl (m : Moment) : Passes kept m [] m
  | told (notice : Notice) {notices : List Notice} {last : Moment} (noticed : notice.call.isNotice = true)
      (others : Passes kept notice.after notices last) : Passes kept notice.moment (notice :: notices) last
  | silent {m middle last : Moment} {notices : List Notice}
      (journal : ∃ calls, middle.journal = m.journal ++ calls ∧ Journal.notices calls = [])
      (size : middle.heap.size = m.heap.size)
      (same : ∀ h, kept h → middle.heap.read h = m.heap.read h ∧ middle.entry? h = m.entry? h)
      (others : Passes kept middle notices last) : Passes kept m notices last

namespace Moment.Passes
variable {kept : Handle → Prop} {a b c : Moment} {notices others : List Notice}

theorem append (first : Passes kept a notices b) (second : Passes kept b others c) :
    Passes kept a (notices ++ others) c := by
  induction first with
  | refl => exact second
  | told notice noticed _ ih => exact .told notice noticed (ih second)
  | silent journal size same _ ih => exact .silent journal size same (ih second)

theorem mono {fewer : Handle → Prop} (weaker : ∀ h, fewer h → kept h) (passes : Passes kept a notices b) :
    Passes fewer a notices b := by
  induction passes with
  | refl m => exact .refl m
  | told notice noticed _ ih => exact .told notice noticed ih
  | silent journal size same _ ih => exact .silent journal size (fun h held => same h (weaker h held)) ih

theorem size (passes : Passes kept a notices b) : b.heap.size = a.heap.size := by
  induction passes with
  | refl => rfl
  | told notice _ _ ih => exact ih.trans (Heap.size_edit _ _)
  | silent _ size _ _ ih => exact ih.trans size

theorem entry? (passes : Passes kept a notices b) {h : Handle} (held : kept h) : b.entry? h = a.entry? h := by
  induction passes with
  | refl => rfl
  | told notice _ _ ih => exact ih
  | silent _ _ same _ ih => exact ih.trans (same h held).2

theorem read (passes : Passes kept a notices b) {h : Handle} (held : kept h) (inside : h ∈ a.heap) :
    b.heap.read h = (a.heap.read h).rewritten h (Notice.writes notices) := by
  induction passes with
  | refl => rfl
  | @told notice _ _ _ _ ih =>
    have still : h ∈ notice.after.heap := Nat.lt_of_lt_of_eq inside (Heap.size_edit _ _).symm
    have edited : notice.after.heap.read h = (notice.moment.heap.read h).rewritten h notice.edits :=
      Heap.read_edit_inside _ inside _
    rw [ih still, edited]
    exact (Instance.rewritten_append h _ _ _).symm
  | silent _ size same _ ih =>
    rw [ih (Nat.lt_of_lt_of_eq inside size.symm), (same h held).1]

/-- The calls are recorded in the order in which they are made, each after all that was recorded at its moment. -/
theorem recorded (passes : Passes kept a notices b) : a.journal <+: b.journal ∧
    Journal.notices b.journal = Journal.notices a.journal ++ notices.map Notice.call ∧
      ∀ notice ∈ notices, notice.moment.journal ++ [notice.call] <+: b.journal := by
  induction passes with
  | refl => exact ⟨List.prefix_refl _, (List.append_nil _).symm, List.forall_mem_nil _⟩
  | @told notice notices last noticed _ ih =>
    obtain ⟨grown, recorded, each⟩ := ih
    refine ⟨(List.prefix_append _ _).trans grown, ?_, List.forall_mem_cons.mpr ⟨grown, each⟩⟩
    have told : Journal.notices [notice.call] = [notice.call] := List.filter_cons_of_pos noticed
    have last : Journal.notices notice.after.journal = Journal.notices notice.moment.journal ++ [notice.call] :=
      (Journal.notices_append _ _).trans (congrArg _ told)
    rw [recorded, last, List.append_assoc]
    rfl
  | silent journal _ _ _ ih =>
    obtain ⟨calls, extended, quiet⟩ := journal
    obtain ⟨grown, recorded, each⟩ := ih
    refine ⟨?_, ?_, each⟩
    · rw [extended] at grown
      exact (List.prefix_append _ _).trans grown
    · rw [recorded, extended, Journal.notices_append, quiet, List.append_nil]

end Moment.Passes

namespace Listening.Hears
variable {σ : Type} {listeners : List (Listening σ)} {position : Nat} {state : σ} {m last : Moment} {told : List Notice}
  {answer : Except Error σ}

theorem all (heard : Hears listeners position state m told answer last) {holds : Notice → Prop}
    (each : ∀ listening ∈ listeners, ∀ position state m, holds (listening.notice position state m)) :
    ∀ notice ∈ told, holds notice := by
  induction heard with
  | done => exact List.forall_mem_nil _
  | heard _ _ ih =>
    obtain ⟨first, others⟩ := List.forall_mem_cons.mp each
    exact List.forall_mem_cons.mpr ⟨first _ _ _, ih others⟩
  | stopped _ _ => exact List.forall_mem_singleton.mpr ((List.forall_mem_cons.mp each).1 _ _ _)

theorem passes (heard : Hears listeners position state m told answer last)
    (noticed : ∀ notice ∈ told, notice.call.isNotice = true) (kept : Handle → Prop) : Moment.Passes kept m told last := by
  induction heard with
  | done _ _ m => exact .refl m
  | @heard listening _ position state _ m _ _ _ _ _ ih =>
    obtain ⟨first, others⟩ := List.forall_mem_cons.mp noticed
    exact .told (listening.notice position state m) first (ih others)
  | @stopped listening _ position state m _ _ =>
    exact .told (listening.notice position state m) (noticed _ List.mem_cons_self) (.refl _)

theorem head (heard : Hears listeners position state m told answer last) :
    (told = [] ∧ last = m) ∨ ∃ notice rest, told = notice :: rest ∧ notice.moment = m := by
  cases heard with
  | done => exact .inl ⟨rfl, rfl⟩
  | heard => exact .inr ⟨_, _, rfl, rfl⟩
  | stopped => exact .inr ⟨_, _, rfl, rfl⟩

end Listening.Hears

namespace State
variable {start : State} {entity : LoadingEntity} {m last : Moment} {told : List Notice}

theorem HearsPreLoad.calls {answer : Except Error (List AttributeValue)}
    (heard : start.HearsPreLoad entity m told answer last) :
    ∀ notice ∈ told, notice.call.isNotice = true ∧ notice.call.isPostLoad = false := by
  refine Listening.Hears.all heard fun listening member position state m => ?_
  obtain ⟨listener, -, rfl⟩ := List.mem_map.mp member
  exact ⟨rfl, rfl⟩

theorem HearsPreLoad.passes {answer : Except Error (List AttributeValue)}
    (heard : start.HearsPreLoad entity m told answer last) (kept : Handle → Prop) : Moment.Passes kept m told last :=
  Listening.Hears.passes heard (fun notice member => (heard.calls notice member).1) kept

theorem HearsPostLoad.calls {answer : Except Error Unit} (heard : start.HearsPostLoad entity m told answer last) :
    ∀ notice ∈ told, notice.call.isNotice = true ∧ notice.call.isPostLoad = true := by
  refine Listening.Hears.all heard fun listening member position state m => ?_
  obtain ⟨listener, -, rfl⟩ := List.mem_map.mp member
  exact ⟨rfl, rfl⟩

theorem HearsPostLoad.passes {answer : Except Error Unit} (heard : start.HearsPostLoad entity m told answer last)
    (kept : Handle → Prop) : Moment.Passes kept m told last :=
  Listening.Hears.passes heard (fun notice member => (heard.calls notice member).1) kept

end State

namespace LoadingEntity
variable {entity : LoadingEntity}

theorem hooked_passes (entity : LoadingEntity) (m : Moment) (kept : Handle → Prop) :
    Moment.Passes kept m (entity.hooked m) (m.through (entity.hooked m)) := by
  unfold hooked
  cases entity.descriptor.afterInitialize with
  | none => exact .refl m
  | some hook => exact .told ⟨m, .initialized entity.handle _, none, hook.run m.journal entity.handle m.heap⟩ rfl (.refl _)

theorem Fills.passes {state : List AttributeValue} {before after : Moment} (fills : entity.Fills state before after) :
    Moment.Passes (fun h => entity.handle ≠ h) before [] after := by
  refine .silent fills.journal ?_ (fun h other => ⟨?_, fills.others h other⟩) (.refl after)
  · rw [fills.heap]
    exact before.heap.size_update _ _
  · rw [fills.heap]
    exact before.heap.read_update_of_ne _ other

end LoadingEntity

namespace State
variable {start : State} {entities : List LoadingEntity} {m last : Moment} {notices : List Notice} {answer : Except Error Unit}

theorem Initializes.passes (ran : start.Initializes entities m notices answer last) :
    Moment.Passes (fun h => ∀ entity ∈ entities, entity.handle ≠ h) m notices last := by
  induction ran with
  | done m => exact .refl m
  | lost _ m => exact .refl m
  | stopped _ heard => exact heard.passes _
  | @next entity _ _ _ filled _ _ _ _ _ heard fills _ ih =>
    have filled := fills.passes.append (entity.hooked_passes filled _)
    refine (heard.passes _).append ((filled.mono fun h others => ?_).append (ih.mono fun h others one member => ?_))
    · exact others _ List.mem_cons_self
    · exact others one (List.mem_cons_of_mem _ member)

theorem Announces.passes (ran : start.Announces entities m notices answer last) (kept : Handle → Prop) :
    Moment.Passes kept m notices last := by
  induction ran with
  | done m => exact .refl m
  | stopped _ heard => exact heard.passes _
  | next heard _ ih => exact (heard.passes _).append ih

theorem Tells.passes (ran : start.Tells entities notices answer last) :
    Moment.Passes (fun h => ∀ entity ∈ entities, entity.handle ≠ h) start.moment notices last := by
  cases ran with
  | stopped first => exact first.passes
  | finished first second => exact first.passes.append (second.passes _)

end State

/-! Which calls there are, and which is the last one. -/

theorem Notice.topics_append (notices others : List Notice) :
    Notice.topics (notices ++ others) = Notice.topics notices ++ Notice.topics others := List.filterMap_append

/-- Once some listener has failed, nobody else is called. -/
def Notice.StopsAtFailure {α : Type} (notices : List Notice) (answer : Except Error α) : Prop :=
  ∀ before notice rest e, notices = before ++ notice :: rest → notice.failed = some e → rest = [] ∧ answer = .error e

namespace Notice.StopsAtFailure
variable {α β : Type} {notices others : List Notice}

theorem nothing (answer : Except Error α) : StopsAtFailure [] answer := by
  intro before notice rest e split_
  cases before <;> cases split_

theorem cons {notice : Notice} {answer : Except Error α} (fine : notice.failed = none)
    (then_ : StopsAtFailure others answer) : StopsAtFailure (notice :: others) answer := by
  intro before failing rest e split_ failed
  cases before with
  | nil =>
    obtain ⟨rfl, rfl⟩ := List.cons.inj split_
    rw [fine] at failed
    cases failed
  | cons first before => exact then_ before failing rest e (List.cons.inj split_).2 failed

theorem last {notice : Notice} {e : Error} (failed : notice.failed = some e) :
    StopsAtFailure [notice] (.error e : Except Error α) := by
  intro before failing rest e' split_ failed'
  cases before with
  | nil =>
    obtain ⟨rfl, rfl⟩ := List.cons.inj split_
    rw [failed] at failed'
    cases failed'
    exact ⟨rfl, rfl⟩
  | cons first before =>
    have none_ := (List.cons.inj split_).2
    cases before <;> cases none_

theorem append {value : α} {answer : Except Error β} (first : StopsAtFailure notices (.ok value : Except Error α))
    (second : StopsAtFailure others answer) : StopsAtFailure (notices ++ others) answer := by
  induction notices with
  | nil => exact second
  | cons notice notices ih =>
    have fine : notice.failed = none := by
      cases failed : notice.failed with
      | none => rfl
      | some e => cases (first [] notice notices e rfl failed).2
    refine cons fine (ih fun before failing rest e split_ failed => ?_)
    exact first (notice :: before) failing rest e (congrArg _ split_) failed

end Notice.StopsAtFailure

/-- The calls are the beginning of what there is to tell, and all of it unless something fails. -/
structure Notice.Follow {α : Type} (agenda : List Topic) (notices : List Notice) (answer : Except Error α) : Prop where
  inOrder : Notice.topics notices <+: agenda
  complete : ∀ value, answer = .ok value → Notice.topics notices = agenda
  stops : Notice.StopsAtFailure notices answer

namespace Notice.Follow
variable {α β : Type} {agenda more : List Topic} {notices others : List Notice}

theorem nothing (answer : Except Error α) : Follow [] [] answer :=
  ⟨List.prefix_refl _, fun _ _ => rfl, .nothing answer⟩

theorem append {value : α} {answer : Except Error β} (first : Follow agenda notices (.ok value : Except Error α))
    (second : Follow more others answer) : Follow (agenda ++ more) (notices ++ others) answer where
  inOrder := by
    rw [Notice.topics_append, first.complete value rfl]
    exact (List.prefix_append_right_inj agenda).mpr second.inOrder
  complete value' answered := by
    rw [Notice.topics_append, first.complete value rfl, second.complete value' answered]
  stops := first.stops.append second.stops

theorem stop {e : Error} (first : Follow agenda notices (.error e : Except Error α)) (more : List Topic) :
    Follow (agenda ++ more) notices (.error e : Except Error β) where
  inOrder := first.inOrder.trans (List.prefix_append agenda more)
  complete := nofun
  stops before notice rest e' split_ failed := by
    obtain ⟨none_, same⟩ := first.stops before notice rest e' split_ failed
    cases same
    exact ⟨none_, rfl⟩

end Notice.Follow

theorem Listening.Hears.follow {σ : Type} {listeners : List (Listening σ)} {position : Nat} {state : σ} {m last : Moment}
    {told : List Notice} {answer : Except Error σ} (heard : Hears listeners position state m told answer last)
    {topic : Nat → Topic} (topics : ∀ listening ∈ listeners, ∀ position state m,
      (listening.call position state m).topic? = some (topic position)) :
    Notice.Follow ((List.range' position listeners.length).map topic) told answer := by
  induction heard with
  | done => exact .nothing _
  | @heard listening rest position state next m last notices answer answered _ ih =>
    obtain ⟨first, others⟩ := List.forall_mem_cons.mp topics
    have follows := ih others
    have fine : (listening.notice position state m).failed = none := by
      unfold notice
      simp only [answered]
    have begins : Notice.topics (listening.notice position state m :: notices) = topic position :: Notice.topics notices :=
      List.filterMap_cons_some (first position state m)
    refine ⟨?_, fun value answered => ?_, .cons fine follows.stops⟩
    · rw [begins]
      exact (List.prefix_cons_inj _).mpr follows.inOrder
    · rw [begins, follows.complete value answered]
      rfl
  | @stopped listening rest position state m e refused =>
    have failed : (listening.notice position state m).failed = some e := by
      unfold notice
      simp only [refused]
    have begins : Notice.topics [listening.notice position state m] = [topic position] :=
      List.filterMap_cons_some ((List.forall_mem_cons.mp topics).1 position state m)
    refine ⟨?_, nofun, .last failed⟩
    rw [begins]
    exact (List.prefix_cons_inj _).mpr List.nil_prefix

theorem State.HearsPreLoad.follow {start : State} {entity : LoadingEntity} {m last : Moment} {told : List Notice}
    {answer : Except Error (List AttributeValue)} (heard : start.HearsPreLoad entity m told answer last) :
    Notice.Follow (entity.preLoadTopics start.session.preLoadListeners.length) told answer := by
  have follows := Listening.Hears.follow heard fun listening member position state m => by
    obtain ⟨listener, -, rfl⟩ := List.mem_map.mp member
    rfl
  rwa [List.length_map, ← List.range_eq_range'] at follows

theorem State.HearsPostLoad.follow {start : State} {entity : LoadingEntity} {m last : Moment} {told : List Notice}
    {answer : Except Error Unit} (heard : start.HearsPostLoad entity m told answer last) :
    Notice.Follow (entity.postLoadTopics start.session.postLoadListeners.length) told answer := by
  have follows := Listening.Hears.follow heard fun listening member position state m => by
    obtain ⟨listener, -, rfl⟩ := List.mem_map.mp member
    rfl
  rwa [List.length_map, ← List.range_eq_range'] at follows

theorem LoadingEntity.hooked_follow (entity : LoadingEntity) (m : Moment) :
    Notice.Follow entity.hookTopics (entity.hooked m) (.ok () : Except Error Unit) := by
  unfold hookTopics hooked
  cases entity.descriptor.afterInitialize with
  | none => exact .nothing _
  | some hook => exact ⟨List.prefix_refl _, fun _ _ => rfl, .cons rfl (.nothing _)⟩

namespace State
variable {start : State} {entities : List LoadingEntity} {m last : Moment} {notices : List Notice} {answer : Except Error Unit}

theorem Initializes.follow (ran : start.Initializes entities m notices answer last) : Notice.Follow
    (entities.flatMap fun entity =>
      entity.preLoadTopics start.session.preLoadListeners.length ++ entity.hookTopics) notices answer := by
  induction ran with
  | done m => exact .nothing _
  | lost rest m e _ => exact ⟨List.nil_prefix, nofun, .nothing _⟩
  | stopped rest heard =>
    rw [List.flatMap_cons, List.append_assoc]
    exact heard.follow.stop _
  | @next entity _ _ _ filled _ _ _ _ _ heard _ _ ih =>
    rw [List.flatMap_cons, List.append_assoc]
    exact heard.follow.append ((entity.hooked_follow filled).append ih)

theorem Announces.follow (ran : start.Announces entities m notices answer last) : Notice.Follow
    (entities.flatMap fun entity => entity.postLoadTopics start.session.postLoadListeners.length) notices answer := by
  induction ran with
  | done m => exact .nothing _
  | stopped rest heard =>
    rw [List.flatMap_cons]
    exact heard.follow.stop _
  | next heard _ ih =>
    rw [List.flatMap_cons]
    exact heard.follow.append ih

theorem Tells.follow (ran : start.Tells entities notices answer last) :
    Notice.Follow (start.session.agenda entities) notices answer := by
  cases ran with
  | stopped first => exact first.follow.stop _
  | finished first second => exact first.follow.append second.follow

end State

end UnitOfWork
