import UnitOfWork.Proofs.FailedLoads
import UnitOfWork.Proofs.Renaming

/-! Loading once more after a load that has failed. The instances that were created in vain stay on the heap, so new ones
get other names than they would have had; whatever the load does is done in step with a load without the failure,
these names apart. -/

namespace UnitOfWork
open AttributeValue (renameAll)

namespace Action
variable {α β γ δ : Type} {alike : State → State → Prop} {s t : State}

/-- Two operations in step: what the first one answers the second answers too, and the states that they leave are
alike. -/
def Follows (alike : State → State → Prop) (same : α → β → Prop) (first : Action α) (second : Action β) (s t : State) :
    Prop :=
  ∀ value after, first.exec s = (.ok value, after) →
    ∃ other last, second.exec t = (.ok other, last) ∧ same value other ∧ alike after last

namespace Follows
variable {same : α → β → Prop} {same' : γ → δ → Prop}

theorem pure {value : α} {other : β} (held : alike s t) (equal : same value other) :
    Follows alike same (pure value) (pure other) s t := by
  intro _ _ ran
  cases ran
  exact ⟨_, _, rfl, equal, held⟩

theorem throw (e : Error) (second : Action β) : Follows alike same (throw e) second s t := by
  intro _ _ ran
  cases ran

theorem modify {change other : State → State} (held : alike (change s) (other t)) :
    Follows alike (fun _ _ => True) (modify change) (modify other) s t := by
  intro _ _ ran
  cases ran
  exact ⟨(), _, rfl, trivial, held⟩

theorem set {after last : State} (held : alike after last) :
    Follows alike (fun _ _ => True) (set after : Action PUnit) (set last : Action PUnit) s t := modify held

theorem bind {first : Action α} {second : Action β} {rest : α → Action γ} {rest' : β → Action δ}
    (began : Follows alike same first second s t)
    (then_ : ∀ value other a b, same value other → alike a b → Follows alike same' (rest value) (rest' other) a b) :
    Follows alike same' (first >>= rest) (second >>= rest') s t := by
  intro answer after ran
  obtain ⟨value, middle, ran, rested⟩ := bind_ok ran
  obtain ⟨other, middle', ran', equal, held⟩ := began value middle ran
  obtain ⟨answer', last, rested', equal', ended⟩ := then_ value other middle middle' equal held answer after rested
  exact ⟨answer', last, (exec_bind_ok _ ran').trans rested', equal', ended⟩

theorem get_bind {rest : State → Action α} {rest' : State → Action β} (then_ : Follows alike same (rest s) (rest' t) s t) :
    Follows alike same (get >>= rest) (get >>= rest') s t := by
  intro value after ran
  rw [exec_get_bind] at ran
  obtain ⟨other, last, ran', ended⟩ := then_ value after ran
  exact ⟨other, last, (exec_get_bind _ _).trans ran', ended⟩

end Follows

end Action

/-! What is told to listeners and hooks, and what they see, under other names. -/

namespace Call

def isNotice : Call → Bool
  | .preLoad .. | .postLoad .. | .initialized .. => true
  | _ => false

def rename (names : Handle → Handle) : Call → Call
  | .preLoad position h id entity state values =>
    .preLoad position (names h) id entity (renameAll names state) (renameAll names values)
  | .postLoad position h id entity values => .postLoad position (names h) id entity (renameAll names values)
  | .initialized h values => .initialized (names h) (renameAll names values)
  | call => call

end Call

/-- What listeners and hooks have been told. -/
def Journal.notices (journal : Journal) : Journal := journal.filter Call.isNotice

/-- Two journals tell listeners and hooks the same, under other names. -/
def Journal.Corresponds (names : Handle → Handle) (journal other : Journal) : Prop :=
  Journal.notices other = (Journal.notices journal).map (Call.rename names)

/-- Two heaps hold the same instances under other names; one may hold others besides. -/
structure Heap.Corresponds (names : Handle → Handle) (heap other : Heap) : Prop where
  inside : ∀ h, names h ∈ other ↔ h ∈ heap
  reads : ∀ h, other.read (names h) = (heap.read h).rename names

/-- Instances get names of their own, and those of a heap keep theirs. -/
structure Heap.Renaming (heap : Heap) (names : Handle → Handle) : Prop where
  injective : ∀ x y, names x = names y → x = y
  fixed : ∀ h ∈ heap, names h = h

def PreLoadEvent.rename (names : Handle → Handle) (event : PreLoadEvent) : PreLoadEvent :=
  { event with
    entity := names event.entity
    state := renameAll names event.state }

def PostLoadEvent.rename (names : Handle → Handle) (event : PostLoadEvent) : PostLoadEvent :=
  { event with entity := names event.entity }

def renameEdits (names : Handle → Handle) (edits : List (Handle × Instance)) : List (Handle × Instance) :=
  edits.map fun edit => (names edit.1, edit.2.rename names)

/-- A listener of one session takes what comes after its journal as one of another session would, under other names. -/
def PreLoadListener.Mirrors (names : Handle → Handle) (past past' : Journal) (listener other : PreLoadListener) : Prop :=
  ∀ since since' event heap heap' state edits, Journal.Corresponds names since since' →
    Heap.Corresponds names heap heap' → listener.call (past ++ since) event heap = (.ok state, edits) →
      other.call (past' ++ since') (event.rename names) heap' = (.ok (renameAll names state), renameEdits names edits)

def PostLoadListener.Mirrors (names : Handle → Handle) (past past' : Journal) (listener other : PostLoadListener) : Prop :=
  ∀ since since' event heap heap' edits, Journal.Corresponds names since since' →
    Heap.Corresponds names heap heap' → listener.call (past ++ since) event heap = (.ok (), edits) →
      other.call (past' ++ since') (event.rename names) heap' = (.ok (), renameEdits names edits)

/-- A hook goes by what it sees of instances, whatever they are named and whatever came before. -/
def Hook.Uniform (kept : Heap) (hook : Hook) : Prop :=
  ∀ names journal journal' h heap heap', kept.Renaming names → Heap.Corresponds names heap heap' →
    hook.run journal' (names h) heap' = renameEdits names (hook.run journal h heap)

theorem Heap.Renaming.not_kept {kept : Heap} {names : Handle → Handle} (named : kept.Renaming names) {h : Handle}
    (new : h ∉ kept) : ∀ x ∈ kept, names h ≠ x := by
  rintro x old same
  exact new (named.injective h x (same.trans (named.fixed x old).symm) ▸ old)

namespace Heap.Corresponds
variable {names : Handle → Handle} {heap other : Heap}

theorem update (corresponds : heap.Corresponds names other) (injective : ∀ x y, names x = names y → x = y) (h : Handle)
    {change change' : Instance → Instance} (alike : ∀ x, change' (x.rename names) = (change x).rename names) :
    (heap.update h change).Corresponds names (other.update (names h) change') := by
  constructor
  case inside =>
    intro x
    have here : x ∈ heap.update h change ↔ x ∈ heap := by
      change x.index < (heap.update h change).size ↔ x.index < heap.size
      rw [heap.size_update]
    have there : names x ∈ other.update (names h) change' ↔ names x ∈ other := by
      change (names x).index < (other.update (names h) change').size ↔ (names x).index < other.size
      rw [other.size_update]
    rw [here, there]
    exact corresponds.inside x
  case reads =>
    intro x
    by_cases same : h = x
    · subst x
      by_cases inside : h ∈ heap
      · rw [heap.read_update _ _ inside, other.read_update _ _ ((corresponds.inside h).mpr inside), corresponds.reads,
          alike]
      · rw [heap.update_outside _ inside, other.update_outside _ fun there => inside ((corresponds.inside h).mp there)]
        exact corresponds.reads h
    · rw [heap.read_update_of_ne _ same, other.read_update_of_ne _ fun equal => same (injective _ _ equal)]
      exact corresponds.reads x

theorem edit (corresponds : heap.Corresponds names other) (injective : ∀ x y, names x = names y → x = y)
    (edits : List (Handle × Instance)) : (heap.edit edits).Corresponds names (other.edit (renameEdits names edits)) := by
  unfold Heap.edit renameEdits
  induction edits generalizing heap other with
  | nil => exact corresponds
  | cons edit rest ih => exact ih (corresponds.update injective edit.1 fun _ => rfl)

end Heap.Corresponds

/-! The state of a load after a failure, beside that of a load without. -/

namespace State
variable (s failed : State)

/-- The names that instances have after a failure: those that were created in vain come before the new ones. -/
def shift (h : Handle) : Handle :=
  if h.index < s.heap.size then h else ⟨h.index + (failed.heap.size - s.heap.size)⟩

theorem index_shift (h : Handle) : (s.shift failed h).index =
    if h.index < s.heap.size then h.index else h.index + (failed.heap.size - s.heap.size) := by
  unfold shift
  split <;> rfl

theorem shift_renaming : s.heap.Renaming (s.shift failed) where
  injective x y same := by
    have indices := congrArg Handle.index same
    rw [index_shift, index_shift] at indices
    have equal : x.index = y.index := by
      split at indices <;> split at indices <;> omega
    exact congrArg Handle.mk equal
  fixed h old := if_pos old

theorem shift_new {h : Handle} (new : h ∉ s.heap) :
    s.shift failed h = ⟨h.index + (failed.heap.size - s.heap.size)⟩ := if_neg new

end State

section
variable (names : Handle → Handle) (kept : Heap) (agreed : EntityKey → Prop)

/-- Two sessions know the same of instances, under other names, and of the proxies of some rows. -/
structure Context.Mirrors (a b : Context) : Prop where
  standing : ∀ key, b.entity? key = (a.entity? key).map names
  old : ∀ h ∈ kept, b.entry? h = a.entry? h
  new : ∀ h, h ∉ kept → b.entry? (names h) = (a.entry? h).map (Entry.rename names)
  proxies : ∀ key, agreed key → b.proxy? key = a.proxy? key

end

namespace Context.Mirrors
variable {names : Handle → Handle} {kept : Heap} {agreed : EntityKey → Prop} {a b : Context}
  (mirrors : Context.Mirrors names kept agreed a b) (named : kept.Renaming names)
include mirrors

theorem addProxy (key : EntityKey) (readOnly : Bool) :
    Context.Mirrors names kept agreed (a.addProxy key readOnly) (b.addProxy key readOnly) where
  standing := mirrors.standing
  old := mirrors.old
  new := mirrors.new
  proxies other agreed := by
    rw [proxy?_addProxy, proxy?_addProxy, mirrors.proxies other agreed]
    by_cases same : (key == other) = true
    · have here : a.proxy? key = a.proxy? other := Registry.find?_congr _ same
      have there : b.proxy? key = b.proxy? other := Registry.find?_congr _ same
      rw [here, there, mirrors.proxies other agreed]
    · simp [same]

include named

theorem deleted (h : Handle) : ((b.entry? (names h)).any fun entry => entry.status.isDeletedOrGone) =
    (a.entry? h).any fun entry => entry.status.isDeletedOrGone := by
  by_cases old : h ∈ kept
  · rw [named.fixed h old, mirrors.old h old]
  · rw [mirrors.new h old, Option.any_map]
    rfl

theorem isTracked (h : Handle) : b.isTracked (names h) = a.isTracked h := by
  rw [isTracked_eq, isTracked_eq]
  by_cases old : h ∈ kept
  · rw [named.fixed h old, mirrors.old h old]
  · rw [mirrors.new h old, Option.isSome_map]

theorem updateEntry {h : Handle} (new : h ∉ kept) {change change' : Entry → Entry}
    (alike : ∀ entry : Entry, change' (entry.rename names) = (change entry).rename names) :
    Context.Mirrors names kept agreed (a.updateEntry h change) (b.updateEntry (names h) change') where
  standing := mirrors.standing
  proxies := mirrors.proxies
  old x old := by
    have other : h ≠ x := by
      rintro rfl
      exact new old
    rw [entry?_updateEntry, entry?_updateEntry, if_neg other, if_neg (named.not_kept new x old)]
    exact mirrors.old x old
  new x fresh := by
    rw [entry?_updateEntry, entry?_updateEntry, mirrors.new x fresh]
    by_cases same : h = x
    · subst x
      rw [if_pos rfl, if_pos rfl, Option.map_map, Option.map_map]
      congr 1
      funext entry
      exact alike entry
    · rw [if_neg same, if_neg fun equal => same (named.injective _ _ equal)]

theorem enter {h : Handle} (new : h ∉ kept) (entry : Entry) :
    Context.Mirrors names kept agreed { a with entries := a.entries.insert h entry }
      { b with entries := b.entries.insert (names h) (entry.rename names) } where
  standing := mirrors.standing
  proxies := mirrors.proxies
  old x old := by
    have other : h ≠ x := by
      rintro rfl
      exact new old
    rw [entry?_inserted, entry?_inserted, if_neg other, if_neg (named.not_kept new x old)]
    exact mirrors.old x old
  new x fresh := by
    rw [entry?_inserted, entry?_inserted, mirrors.new x fresh]
    by_cases same : h = x
    · rw [if_pos same, if_pos (congrArg names same)]
      rfl
    · rw [if_neg same, if_neg fun equal => same (named.injective _ _ equal)]

omit named in
theorem stand (key : EntityKey) (h : Handle) : Context.Mirrors names kept agreed
    { a with entities := a.entities.insert key h } { b with entities := b.entities.insert key (names h) } where
  standing other := by
    refine (Registry.find?_insert _ _ _ _).trans ?_
    have here : Context.entity? { a with entities := a.entities.insert key h } other =
        if key == other then some h else a.entity? other := Registry.find?_insert _ _ _ _
    rw [here]
    split
    · rfl
    · exact mirrors.standing other
  old := mirrors.old
  new := mirrors.new
  proxies := mirrors.proxies

theorem addEntity {h : Handle} (new : h ∉ kept) {key : EntityKey} {entry : Entry} (keyed : entry.key = some key)
    {context : Context} (added : a.addEntity h entry = .ok context) :
    ∃ other, b.addEntity (names h) (entry.rename names) = .ok other ∧ Context.Mirrors names kept agreed context other := by
  have keyed' : (entry.rename names).key = some key := keyed
  have stands := mirrors.standing key
  cases standing : a.entity? key with
  | none =>
    rw [standing] at stands
    simp only [Context.addEntity, Context.claim, keyed, standing] at added
    cases added
    simp only [Context.addEntity, Context.claim, keyed', stands, Option.map_none]
    exact ⟨_, rfl, (mirrors.stand key h).enter named new entry⟩
  | some holder =>
    rw [standing] at stands
    by_cases same : holder = h
    · subst holder
      simp only [Context.addEntity, Context.claim, keyed, standing, if_true] at added
      cases added
      simp only [Context.addEntity, Context.claim, keyed', stands, Option.map_some, if_true]
      exact ⟨_, rfl, mirrors.enter named new entry⟩
    · simp only [Context.addEntity, Context.claim, keyed, standing, if_neg same] at added
      cases added

end Context.Mirrors

/-- A load that runs after a failure, beside one that runs without. -/
structure Mirrors (s failed a b : State) : Prop where
  factory : b.session.factory = a.session.factory
  config : b.session.config = a.session.config
  preLoad : List.Forall₂ (PreLoadListener.Mirrors (s.shift failed) s.session.journal failed.session.journal)
    a.session.preLoad b.session.preLoad
  postLoad : List.Forall₂ (PostLoadListener.Mirrors (s.shift failed) s.session.journal failed.session.journal)
    a.session.postLoad b.session.postLoad
  journal : ∃ since since', a.session.journal = s.session.journal ++ since ∧
    b.session.journal = failed.session.journal ++ since' ∧ Journal.Corresponds (s.shift failed) since since'
  heap : a.heap.Corresponds (s.shift failed) b.heap
  grown : s.heap.size ≤ a.heap.size
  size : b.heap.size = a.heap.size + (failed.heap.size - s.heap.size)
  context : a.context.Mirrors (s.shift failed) s.heap
    (fun key => failed.context.proxy? key = s.context.proxy? key) b.context

namespace Mirrors
variable {s failed a b : State} (mirrors : Mirrors s failed a b)
include mirrors

theorem mapContext (change change' : Context → Context)
    (context : (change a.context).Mirrors (s.shift failed) s.heap
      (fun key => failed.context.proxy? key = s.context.proxy? key) (change' b.context)) :
    Mirrors s failed (a.mapContext change) (b.mapContext change') :=
  { mirrors with context }

theorem mapHeap (change change' : Heap → Heap)
    (heap : (change a.heap).Corresponds (s.shift failed) (change' b.heap)) (size : (change a.heap).size = a.heap.size)
    (size' : (change' b.heap).size = b.heap.size) : Mirrors s failed (a.mapHeap change) (b.mapHeap change') :=
  { mirrors with
    heap
    grown := Nat.le_trans mirrors.grown (Nat.le_of_eq size.symm)
    size := by
      change (change' b.heap).size = (change a.heap).size + _
      rw [size, size']
      exact mirrors.size }

theorem record {call call' : Call} (told : Journal.Corresponds (s.shift failed) [call] [call']) :
    Mirrors s failed (a.record call) (b.record call') :=
  { mirrors with
    journal := by
      obtain ⟨since, since', here, there, corresponds⟩ := mirrors.journal
      refine ⟨since ++ [call], since' ++ [call'], ?_, ?_, ?_⟩
      · change a.session.journal ++ [call] = _
        rw [here, List.append_assoc]
      · change b.session.journal ++ [call'] = _
        rw [there, List.append_assoc]
      · unfold Journal.Corresponds Journal.notices at *
        rw [List.filter_append, List.filter_append, List.map_append, corresponds, told] }

theorem next_new : (⟨a.heap.size⟩ : Handle) ∉ s.heap := Nat.not_lt.mpr mirrors.grown

theorem next : s.shift failed ⟨a.heap.size⟩ = ⟨b.heap.size⟩ := by
  rw [State.shift_new _ _ mirrors.next_new]
  exact congrArg Handle.mk mirrors.size.symm

theorem create {x : Instance} (blank : x.rename (s.shift failed) = x) :
    Mirrors s failed (a.mapHeap fun _ => (a.heap.create x).2) (b.mapHeap fun _ => (b.heap.create x).2) :=
  { mirrors with
    heap := by
      constructor
      case inside =>
        intro h
        have here : h ∈ (a.heap.create x).2 ↔ h.index < a.heap.size + 1 := by
          rw [← a.heap.size_create x]
          rfl
        have there : s.shift failed h ∈ (b.heap.create x).2 ↔ (s.shift failed h).index < b.heap.size + 1 := by
          rw [← b.heap.size_create x]
          rfl
        have size := mirrors.size
        have grown := mirrors.grown
        refine there.trans (Iff.trans ?_ here.symm)
        rw [State.index_shift]
        split <;> omega
      case reads =>
        intro h
        by_cases last : h = ⟨a.heap.size⟩
        · subst last
          rw [mirrors.next]
          exact (b.heap.read_create_next x).trans (blank.symm.trans
            (congrArg (Instance.rename (s.shift failed)) (a.heap.read_create_next x).symm))
        · have other : s.shift failed h ≠ ⟨b.heap.size⟩ := by
            rw [← mirrors.next]
            exact fun same => last ((s.shift_renaming failed).injective _ _ same)
          refine (b.heap.read_create_of_ne x other).trans ((mirrors.heap.reads h).trans ?_)
          exact congrArg (Instance.rename (s.shift failed)) (a.heap.read_create_of_ne x last).symm
    grown := by
      refine Nat.le_trans mirrors.grown ?_
      refine Nat.le_trans (Nat.le_succ _) (Nat.le_of_eq (a.heap.size_create x).symm)
    size := by
      refine (b.heap.size_create x).trans ?_
      have here : (a.mapHeap fun _ => (a.heap.create x).2).heap.size = a.heap.size + 1 := a.heap.size_create x
      have size := mirrors.size
      omega }

end Mirrors

end UnitOfWork
