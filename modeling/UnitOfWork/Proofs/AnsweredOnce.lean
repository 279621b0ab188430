import UnitOfWork.Proofs.DeletedRows
import UnitOfWork.Proofs.OpenQuestions

/-! How often the database answers a question about a row. It may fail any number of times, and is asked again; but its
first answer is remembered, also when there is no row, and is what everyone gets who asks about the key from then on,
until the instance is deleted that stands for the key or the session is cleared. -/

namespace UnitOfWork
open UnitOfWork.Action

abbrev RowAnswer := Except Error (Option (List Value))

/-- What the source answers to those of some calls that concern it. -/
def SnapshotSource.answers (source : SnapshotSource) (about : String → Identifier → Option Descriptor) :
    Journal → List Call → List RowAnswer
  | _, [] => []
  | moment, .probe entity id :: rest =>
    ((about entity id).map fun d => source.select moment d id).toList ++
      source.answers about (moment ++ [.probe entity id]) rest
  | moment, call :: rest => source.answers about (moment ++ [call]) rest

theorem SnapshotSource.answers_append (source : SnapshotSource) (about : String → Identifier → Option Descriptor)
    (moment : Journal) (calls later : List Call) : source.answers about moment (calls ++ later) =
      source.answers about moment calls ++ source.answers about (moment ++ calls) later := by
  induction calls generalizing moment with
  | nil => simp [answers]
  | cons call rest ih =>
    cases call <;> simp [answers, ih, List.append_assoc]

theorem SnapshotSource.answers_unprobed (source : SnapshotSource) (about : String → Identifier → Option Descriptor)
    (moment : Journal) {calls : List Call} (unprobed : ∀ call ∈ calls, call.isProbe = false) :
    source.answers about moment calls = [] := by
  induction calls generalizing moment with
  | nil => rfl
  | cons call rest ih =>
    obtain ⟨first, others⟩ := List.forall_mem_cons.mp unprobed
    cases call with
    | probe entity id => cases first
    | _ => exact ih _ others

/-- A row becomes known by the first answer that is no failure, and then no more answers are given. -/
inductive Learned : Option (Option (List Value)) → List RowAnswer → Option (Option (List Value)) → Prop where
  | unasked (known : Option (Option (List Value))) : Learned known [] known
  | failed {answers : List RowAnswer} {last : Option (Option (List Value))} (e : Error) (later : Learned none answers last) :
      Learned none (.error e :: answers) last
  | told (row : Option (List Value)) : Learned none [.ok row] (some row)

namespace Learned
variable {a b c : Option (Option (List Value))} {answers later : List RowAnswer} {row : Option (List Value)}

theorem of_known (learned : Learned (some row) answers b) : answers = [] ∧ b = some row := by
  cases learned
  exact ⟨rfl, rfl⟩

theorem trans (first : Learned a answers b) (second : Learned b later c) : Learned a (answers ++ later) c := by
  induction first with
  | unasked known => exact second
  | failed e _ ih => exact .failed e (ih second)
  | told row =>
    obtain ⟨rfl, rfl⟩ := second.of_known
    exact .told row

theorem once (learned : Learned a answers b) : (answers.filter Except.isOk).length ≤ 1 := by
  induction learned with
  | unasked known => exact Nat.zero_le _
  | failed e _ ih => exact ih
  | told row => exact Nat.le_refl _

theorem remembers (learned : Learned a answers b) (known : a = some row) : b = some row := by
  subst known
  exact learned.of_known.2

theorem of_told (learned : Learned a answers b) (told : .ok row ∈ answers) : b = some row := by
  induction learned with
  | unasked known => cases told
  | failed e _ ih => exact ih ((List.mem_cons.mp told).resolve_left nofun)
  | told row =>
    cases List.mem_singleton.mp told
    rfl

end Learned

/-- Which descriptor it is that a row is looked for by, if that is the row under the key. -/
def Factory.about (key : EntityKey) (factory : Factory) (entity : String) (id : Identifier) : Option Descriptor :=
  match factory.metamodel.descriptor entity with
  | .ok d => if d.keyFor id == key then some d else none
  | .error _ => none

namespace State

def answers (s : State) (about : Factory → String → Identifier → Option Descriptor) (calls : List Call) : List RowAnswer :=
  match s.session.snapshotSource with
  | some source => source.answers (about s.session.factory) s.session.journal calls
  | none => []

variable {s : State} {about : Factory → String → Identifier → Option Descriptor}

theorem answers_append_unprobed (calls : List Call) {later : List Call} (unprobed : ∀ call ∈ later, call.isProbe = false) :
    s.answers about (calls ++ later) = s.answers about calls := by
  unfold answers
  cases s.session.snapshotSource with
  | none => rfl
  | some source =>
    dsimp only
    rw [source.answers_append, source.answers_unprobed _ _ unprobed, List.append_nil]

theorem answers_unprobed {calls : List Call} (unprobed : ∀ call ∈ calls, call.isProbe = false) :
    s.answers about calls = [] := by
  refine (answers_append_unprobed [] unprobed).trans ?_
  unfold answers
  cases s.session.snapshotSource <;> rfl

end State

namespace Context
variable {context : Context} {asked key : EntityKey}

theorem learned_select (unknown : context.databaseSnapshot? asked = none) (row : Option (List Value)) :
    Learned (context.databaseSnapshot? key) (if asked == key then [.ok row] else [])
      ((context.rememberSnapshot asked row).databaseSnapshot? key) := by
  have rows : (context.rememberSnapshot asked row).databaseSnapshot? key =
      if asked == key then some row else context.databaseSnapshot? key := Registry.find?_insert _ _ _ _
  rw [rows]
  cases same : asked == key with
  | true =>
    have unknown : context.databaseSnapshot? key = none := (Registry.find?_congr _ same).symm.trans unknown
    rw [unknown]
    exact .told row
  | false => exact .unasked _

theorem learned_fail (unknown : context.databaseSnapshot? asked = none) (e : Error) :
    Learned (context.databaseSnapshot? key) (if asked == key then [.error e] else []) (context.databaseSnapshot? key) := by
  cases same : asked == key with
  | true =>
    have unknown : context.databaseSnapshot? key = none := (Registry.find?_congr _ same).symm.trans unknown
    rw [unknown]
    exact .failed e (.unasked none)
  | false => exact .unasked _

end Context

/-- The source is asked about a row until it is known. -/
structure Consults (about : Factory → String → Identifier → Option Descriptor) (key : EntityKey) (before after : State) :
    Prop where
  factory : after.session.factory = before.session.factory
  source : after.session.snapshotSource = before.session.snapshotSource
  learned : ∃ calls, after.session.journal = before.session.journal ++ calls ∧
    Learned (before.context.databaseSnapshot? key) (before.answers about calls) (after.context.databaseSnapshot? key)

namespace Consults
variable {about : Factory → String → Identifier → Option Descriptor} {key : EntityKey} {a b c s after : State}

theorem of_unprobed {calls : List Call} (factory : b.session.factory = a.session.factory)
    (source : b.session.snapshotSource = a.session.snapshotSource)
    (journal : b.session.journal = a.session.journal ++ calls) (unprobed : ∀ call ∈ calls, call.isProbe = false)
    (rows : b.context.databaseSnapshot? key = a.context.databaseSnapshot? key) : Consults about key a b := by
  refine ⟨factory, source, calls, journal, ?_⟩
  rw [State.answers_unprobed unprobed, rows]
  exact .unasked _

theorem trans (first : Consults about key a b) (second : Consults about key b c) : Consults about key a c := by
  obtain ⟨calls, extended, learned⟩ := first.learned
  obtain ⟨others, extended', learned'⟩ := second.learned
  refine ⟨second.factory.trans first.factory, second.source.trans first.source, calls ++ others, ?_, ?_⟩
  · rw [extended', extended, List.append_assoc]
  · have later : a.answers about (calls ++ others) = a.answers about calls ++ b.answers about others := by
      unfold State.answers
      rw [first.source, first.factory, extended]
      cases a.session.snapshotSource with
      | none => rfl
      | some source => exact source.answers_append _ _ _ _
    rw [later]
    exact learned.trans learned'

theorem answers_probe {source : SnapshotSource} {d : Descriptor} {asked : EntityKey}
    (held : s.session.snapshotSource = some source)
    (fit : about s.session.factory d.name asked.id = if asked == key then some d else none) :
    s.answers about [.probe d.name asked.id] =
      if asked == key then [source.select s.session.journal d asked.id] else [] := by
  unfold State.answers
  rw [held]
  dsimp only [SnapshotSource.answers]
  rw [fit]
  cases asked == key <;> rfl

theorem admits (about : Factory → String → Identifier → Option Descriptor) (key : EntityKey) :
    Admits (fun s d asked => about s.session.factory d.name asked.id = if asked == key then some d else none)
      (Consults about key) where
  frame := ⟨fun s => .of_unprobed rfl rfl (List.append_nil _).symm (List.forall_mem_nil _) rfl, trans⟩
  record s call _ other := .of_unprobed rfl rfl rfl (List.forall_mem_singleton.mpr other) rfl
  count s _ _ _ := .of_unprobed rfl rfl (List.append_nil _).symm (List.forall_mem_nil _) rfl
  select s source d asked row held fit unknown found := by
    refine ⟨rfl, rfl, [.probe d.name asked.id], rfl, ?_⟩
    rw [answers_probe held fit, found]
    exact Context.learned_select unknown row
  fail s source d asked e held fit unknown failed := by
    refine ⟨rfl, rfl, [.probe d.name asked.id], rfl, ?_⟩
    rw [answers_probe held fit, failed]
    exact Context.learned_fail unknown e

theorem permits (key : EntityKey) : Permits
    (fun s d asked => Factory.about key s.session.factory d.name asked.id = if asked == key then some d else none)
    (Consults (Factory.about key) key) where
  toAdmits := admits (Factory.about key) key
  keyed := by
    rintro s after entity d id mapped ⟨calls, rows, statistics, -, -, -⟩
    have named : s.session.factory.metamodel.descriptor d.name = .ok d := Session.descriptor_name mapped
    change Factory.about key s.session.factory d.name id = _
    unfold Factory.about
    rw [named]
  silent uneventful := by
    refine .of_unprobed uneventful.factory uneventful.source ?_ (List.forall_mem_nil _) ?_
    · exact uneventful.journal.trans (List.append_nil _).symm
    · exact congrArg (·.find? key) uneventful.rows
  tell s call other := .of_unprobed rfl rfl rfl (List.forall_mem_singleton.mpr other) rfl
  name s _ _ _ := .of_unprobed rfl rfl (List.append_nil _).symm (List.forall_mem_nil _) rfl

theorem since (consults : Consults about key a b) : Learned (a.context.databaseSnapshot? key)
    (a.answers about (b.session.journal.drop a.session.journal.length)) (b.context.databaseSnapshot? key) := by
  obtain ⟨calls, extended, learned⟩ := consults.learned
  rwa [extended, List.drop_left]

end Consults

theorem State.Evicts.unprobed {s : State} {delete : Delete} {shared : Shared} {told : Journal}
    (evicts : s.Evicts delete shared told) : ∀ call ∈ deleteCall delete :: told, call.isProbe = false :=
  List.forall_mem_cons.mpr ⟨rfl, fun call member => (evicts.told call member).2⟩

theorem Consults.of_executeDelete {key : EntityKey} {writer : Writer} {s after : State} {delete : Delete}
    (other : (delete.key == key) = false) (wrote : (executeDelete writer delete).exec s = (.ok (), after)) :
    Consults (Factory.about key) key s after := by
  obtain ⟨shared, told, evicts, rfl⟩ := executeDelete_removes wrote
  refine .of_unprobed rfl rfl rfl evicts.unprobed ?_
  exact (Context.databaseSnapshot?_removeEntity _ _ _).trans (if_neg fun both => Bool.eq_false_iff.mp other both.1)

theorem DeleteRun.unprobed {writer : Writer} {s after : State} {deletes : List Delete}
    (run : DeleteRun writer s deletes after) :
    ∃ calls, after.session.journal = s.session.journal ++ calls ∧ ∀ call ∈ calls, call.isProbe = false := by
  induction run with
  | done s => exact ⟨[], (List.append_nil _).symm, List.forall_mem_nil _⟩
  | @step s middle after delete rest wrote run ih =>
    obtain ⟨shared, told, evicts, rfl⟩ := executeDelete_removes wrote
    obtain ⟨calls, extended, unprobed⟩ := ih
    refine ⟨(deleteCall delete :: told) ++ calls, extended.trans (List.append_assoc _ _ _), ?_⟩
    exact List.forall_mem_append.mpr ⟨evicts.unprobed, unprobed⟩

namespace Move
variable {s : State} {key : EntityKey}

/-- The instance that stands for the key is deleted, or the session forgets everything. -/
def Drops (key : EntityKey) (s : State) : Move → Prop
  | .clear => True
  | .flush writer => s.context.entity? key ≠ none ∧ ((Move.flush writer).perform s).context.entity? key = none
  | _ => False

/-- The session is not given answers that nobody asked for. -/
def Honest : Move → Prop
  | .annotate _ _ _ _ => False
  | _ => True

def about (key : EntityKey) : Move → Factory → String → Identifier → Option Descriptor
  | .ask (.databaseSnapshot d asked) => fun _ _ _ => if asked == key then some d else none
  | _ => Factory.about key

def answers (key : EntityKey) (s : State) (move : Move) : List RowAnswer :=
  s.answers (move.about key) ((move.perform s).session.journal.drop s.session.journal.length)

theorem consults (move : Move) (operates : move.Operates) (key : EntityKey) (s : State) :
    Consults (move.about key) key s (move.perform s) := by
  by_cases asking : ∃ d asked, move = .ask (.databaseSnapshot d asked)
  · obtain ⟨d, asked, rfl⟩ := asking
    have admits := Consults.admits (fun _ _ _ => if asked == key then some d else none) key
    exact Keeps.bind admits.frame (databaseSnapshot_keeps admits d asked s rfl) fun _ s _ => .pure admits.frame _ s
  · have about : move.about key = Factory.about key := by
      unfold Move.about
      split
      next d asked => exact absurd ⟨d, asked, rfl⟩ asking
      next => rfl
    rw [about]
    exact move.perform_keeps (Consults.permits key) operates s fun d asked same => absurd ⟨d, asked, same⟩ asking

/-- The deletes of a flush forget what is known under their keys, for which there were instances, and nothing else. -/
theorem flush_forgets {writer : Writer} {middle last : State} {written : List Handle} {gone : List Delete}
    (sound : s.Sound) (stage : InsertStage writer s written middle) (scheduled : gone <+: middle.actions.deletes)
    (deleted : DeleteRun writer middle.withoutDeletes gone last) (key : EntityKey) :
    (s.context.entity? key ≠ none ∧ last.context.entity? key = none → last.context.databaseSnapshot? key = none) ∧
      (¬(s.context.entity? key ≠ none ∧ last.context.entity? key = none) →
        last.context.databaseSnapshot? key = middle.context.databaseSnapshot? key) := by
  have later := stage.sound sound
  have grasped : ∀ delete ∈ gone, middle.withoutDeletes.Grasps delete.key := by
    intro delete member
    refine .inl fun missing => ?_
    cases (later.scheduled delete (scheduled.subset member)).symm.trans missing
  have known := deleted.knows grasped key
  cases among : gone.any fun delete => delete.key == key with
  | true =>
    rw [among, if_pos rfl] at known
    refine ⟨fun _ => congrArg RowKnowledge.row known, fun kept => absurd ⟨?_, congrArg RowKnowledge.holder known⟩ kept⟩
    obtain ⟨delete, member, same⟩ := List.any_eq_true.mp among
    have held : s.context.entity? delete.key = some delete.handle :=
      sound.scheduled delete (stage.advances.deletes ▸ scheduled.subset member)
    intro missing
    cases held.symm.trans ((Registry.find?_congr _ same).trans missing)
  | false =>
    rw [among, if_neg Bool.false_ne_true] at known
    refine ⟨fun ⟨held, missing⟩ => ?_, fun _ => congrArg RowKnowledge.row known⟩
    obtain ⟨h, holder⟩ := Option.ne_none_iff_exists'.mp held
    have still : last.context.entity? key = middle.context.entity? key := congrArg RowKnowledge.holder known
    cases (stage.holder sound holder).symm.trans (still.symm.trans missing)

theorem flush_answers {writer : Writer} {middle last after : State} {calls : Journal} {gone : List Delete}
    (inserted : middle.session.journal = s.session.journal ++ calls)
    (deleted : DeleteRun writer middle.withoutDeletes gone last) (ends : Ends last after) (key : EntityKey) :
    s.answers (Factory.about key) (after.session.journal.drop s.session.journal.length) =
      s.answers (Factory.about key) calls := by
  obtain ⟨others, extended, unprobed⟩ := deleted.unprobed
  obtain ⟨rest, extended', unprobed'⟩ := ends.told
  have journal : after.session.journal = s.session.journal ++ (calls ++ (others ++ rest)) := by
    rw [extended', extended]
    change middle.session.journal ++ others ++ rest = _
    rw [inserted, List.append_assoc, List.append_assoc]
  rw [journal, List.drop_left]
  exact State.answers_append_unprobed calls (List.forall_mem_append.mpr ⟨unprobed, unprobed'⟩)

theorem flush_learned (writer : Writer) (key : EntityKey) (sound : s.Sound) : ∃ told,
    Learned (s.context.databaseSnapshot? key) ((Move.flush writer).answers key s) told ∧
      (((Move.flush writer).Drops key s → ((Move.flush writer).perform s).context.databaseSnapshot? key = none) ∧
      (¬(Move.flush writer).Drops key s → ((Move.flush writer).perform s).context.databaseSnapshot? key = told)) := by
  rcases ran : (Action.flush writer).exec s with ⟨answer, after⟩
  obtain ⟨written, middle, gone, last, stage, scheduled, deleted, ends⟩ := flush_stages ran
  obtain ⟨-, -, calls, inserted, learned⟩ := stage.keeps (Consults.permits key)
  rw [← flush_answers inserted deleted ends key] at learned
  have drops : (Move.flush writer).Drops key s = (s.context.entity? key ≠ none ∧ last.context.entity? key = none) := by
    change (_ ∧ ((Move.flush writer).perform s).context.entity? key = none) = _
    rw [flush_perform ran, ends.context]
  rw [drops, answers, flush_perform ran, ends.context]
  exact ⟨_, learned, flush_forgets sound stage scheduled deleted key⟩

/-- A move asks about a row until it is known, and forgets it only with the instance. -/
theorem learned (move : Move) (honest : move.Honest) (key : EntityKey) (sound : s.Sound) : ∃ told,
    Learned (s.context.databaseSnapshot? key) (move.answers key s) told ∧
      ((move.Drops key s → (move.perform s).context.databaseSnapshot? key = none) ∧
      (¬move.Drops key s → (move.perform s).context.databaseSnapshot? key = told)) := by
  have quiet (same : (move.perform s).session.journal = s.session.journal) :
      Learned (s.context.databaseSnapshot? key) (move.answers key s) (s.context.databaseSnapshot? key) := by
    rw [answers, same, List.drop_length, State.answers_unprobed (List.forall_mem_nil _)]
    exact .unasked _
  have operating (operates : move.Operates) (keeps : ¬move.Drops key s) : ∃ told,
      Learned (s.context.databaseSnapshot? key) (move.answers key s) told ∧
        ((move.Drops key s → (move.perform s).context.databaseSnapshot? key = none) ∧
        (¬move.Drops key s → (move.perform s).context.databaseSnapshot? key = told)) :=
    ⟨_, (move.consults operates key s).since, fun drops => absurd drops keeps, fun _ => rfl⟩
  cases move with
  | flush writer => exact flush_learned writer key sound
  | clear => exact ⟨_, quiet rfl, fun _ => rfl, fun keeps => absurd trivial keeps⟩
  | configure => exact ⟨_, quiet rfl, False.elim, fun _ => rfl⟩
  | annotate => exact honest.elim
  | _ => exact operating trivial id

end Move

/-! Those who ask whether an instance is transient. -/

/-- Nobody but the database has an opinion on the instance, and its row is the one under the key. -/
def State.ComesToRow (s : State) (x : Handle) (assumed : Option Bool) (key : EntityKey) : Prop :=
  ∃ d id, ((openQuestion x assumed).exec s).1 = .ok (.inr (d, id)) ∧ (d.keyFor id == key) = true

/-- An instance is judged transient or not by the row under a key, whoever asks and for whatever write. -/
inductive Judged (key : EntityKey) (s : State) : Bool → State → Prop where
  | classified {x : Handle} {assumed : Option Bool} {state : EntityState} {after : State} (comes : s.ComesToRow x assumed key)
      (ran : (classify (.reference (.loaded x)) assumed).exec s = (.ok state, after)) : Judged key s state.isTransient after
  | doubted {x : Handle} {assumed : Option Bool} {sure : Bool} {after : State} (comes : s.ComesToRow x assumed key)
      (untracked : s.context.isTracked x = false)
      (ran : (isNotTransient (.reference (.loaded x)) assumed).exec s = (.ok sure, after)) : Judged key s (!sure) after
  | nullifiable {nullifier : Nullifier} {x : Handle} {answer : Bool} {after : State} (comes : s.ComesToRow x none key)
      (other : nullifier.owner ≠ some x) (untracked : s.context.isTracked x = false)
      (ran : (nullifier.isNullifiable (.reference (.loaded x))).exec s = (.ok answer, after)) : Judged key s answer after
  | nulled {nullifier : Nullifier} {a : Attribute} {x : Handle} {written : AttributeValue} {after : State}
      (comes : s.ComesToRow x none key) (other : nullifier.owner ≠ some x) (untracked : s.context.isTracked x = false)
      (kind : (∃ target, a.kind = .manyToOne target) ∨ a.kind = .any)
      (ran : (nullifier.nullify a (.reference (.loaded x))).exec s = (.ok written, after)) :
      Judged key s (written matches .null) after
  | collected {nullifier : Nullifier} {path : String} {a : Attribute} {x : Handle} {waits : List Dependency} {after : State}
      (comes : s.ComesToRow x none key) (other : nullifier.owner ≠ some x) (untracked : s.context.isTracked x = false)
      (kind : (∃ target, a.kind = .manyToOne target) ∨ a.kind = .any) (required : a.nullable = false)
      (ran : (nullifier.collect path a (.reference (.loaded x))).exec s = (.ok waits, after)) :
      Judged key s (!waits.isEmpty) after

theorem Nullifier.isNullifiable_classified {nullifier : Nullifier} {s after : State} {x : Handle} {answer : Bool}
    (other : nullifier.owner ≠ some x) (untracked : s.context.isTracked x = false)
    (ran : (nullifier.isNullifiable (.reference (.loaded x))).exec s = (.ok answer, after)) : ∃ state,
      (classify (.reference (.loaded x)) none).exec s = (.ok state, after) ∧ answer = state.isTransient := by
  rw [untracked_iff] at untracked
  unfold isNullifiable at ran
  rw [exec_get_bind] at ran
  dsimp only at ran
  rw [if_neg other, untracked] at ran
  obtain ⟨state, middle, classified, ended⟩ := bind_ok ran
  cases ended
  exact ⟨state, classified, rfl⟩

namespace Judged
variable {key : EntityKey} {s after : State} {verdict : Bool}

theorem classification (judged : Judged key s verdict after) : ∃ x assumed state, s.ComesToRow x assumed key ∧
    (classify (.reference (.loaded x)) assumed).exec s = (.ok state, after) ∧ verdict = state.isTransient := by
  cases judged with
  | classified comes ran => exact ⟨_, _, _, comes, ran, rfl⟩
  | doubted comes untracked ran =>
    unfold isNotTransient at ran
    dsimp only at ran
    rw [exec_get_bind, untracked, if_neg Bool.false_ne_true] at ran
    obtain ⟨state, middle, classified, ended⟩ := bind_ok ran
    cases ended
    exact ⟨_, _, state, comes, classified, Bool.not_not _⟩
  | nullifiable comes other untracked ran =>
    obtain ⟨state, classified, same⟩ := Nullifier.isNullifiable_classified other untracked ran
    exact ⟨_, _, state, comes, classified, same⟩
  | @nulled nullifier a x written _ comes other untracked kind ran =>
    have asked : (do
        if ← nullifier.isNullifiable (.reference (.loaded x)) then return AttributeValue.null
        else return .reference (.loaded x) : Action AttributeValue).exec s = (.ok written, after) := by
      unfold Nullifier.nullify at ran
      rcases kind with ⟨target, kind⟩ | kind <;> rwa [kind] at ran
    obtain ⟨answer, middle, nullifiable, ended⟩ := bind_ok asked
    obtain ⟨state, classified, same⟩ := Nullifier.isNullifiable_classified other untracked nullifiable
    cases answer <;> cases ended <;> exact ⟨_, _, state, comes, classified, same⟩
  | @collected nullifier path a x waits _ comes other untracked kind required ran =>
    have asked : (do
        if ← nullifier.isNullifiable (.reference (.loaded x)) then return [Dependency.mk path (.loaded x)]
        else return [] : Action (List Dependency)).exec s = (.ok waits, after) := by
      unfold Nullifier.collect at ran
      rcases kind with ⟨target, kind⟩ | kind <;> rw [kind, required] at ran <;> exact ran
    obtain ⟨answer, middle, nullifiable, ended⟩ := bind_ok asked
    obtain ⟨state, classified, same⟩ := Nullifier.isNullifiable_classified other untracked nullifiable
    cases answer <;> cases ended <;> exact ⟨_, _, state, comes, classified, same⟩

theorem knows (judged : Judged key s verdict after) :
    ∃ row, after.context.databaseSnapshot? key = some row ∧ verdict = row.isNone := by
  obtain ⟨x, assumed, state, ⟨d, id, comes, same⟩, ran, rfl⟩ := judged.classification
  change (classifyInstance x assumed).exec s = _ at ran
  rw [classifyInstance_open] at ran
  obtain ⟨question, middle, opened, answered⟩ := bind_ok ran
  rw [opened] at comes
  cases comes
  obtain ⟨row, -, rfl, known⟩ := answerQuestion_ok answered
  refine ⟨row, (Registry.find?_congr _ same).symm.trans known, ?_⟩
  cases row <;> rfl

theorem consults (judged : Judged key s verdict after) : Consults (Factory.about key) key s after := by
  obtain ⟨x, assumed, state, -, ran, -⟩ := judged.classification
  exact (classify_keeps (Consults.permits key).toAdmitsKeys _ assumed s).of_exec ran

end Judged

/-- A part of an operation. It keeps whatever the steps of operations keep. -/
def Action.Works {α : Type} (part : Action α) (s : State) : Prop :=
  ∀ {fits : State → Descriptor → EntityKey → Prop} {relation : State → State → Prop},
    Permits fits relation → Keeps relation part s

namespace State

/-- No operation is under way. -/
def Reached (s : State) : Prop := ∃ start moves, start.Fresh ∧ Run start moves s

theorem Reached.sound {s : State} (reached : s.Reached) : s.Sound := by
  obtain ⟨start, moves, fresh, run⟩ := reached
  exact run.sound fresh.sound

/-- What has been answered about a key since. -/
def heard (s : State) (key : EntityKey) (later : State) : List RowAnswer :=
  s.answers (Factory.about key) (later.session.journal.drop s.session.journal.length)

end State

/-- As long as a key is not let go of, instances are judged by its row, between the operations of a session and in the
midst of them. Here are the verdicts, and what the database has answered about the key. -/
inductive Hearing (key : EntityKey) (start : State) : List Bool → List RowAnswer → State → Prop where
  | start : Hearing key start [] [] start
  | moved {verdicts : List Bool} {heard : List RowAnswer} {s : State} {move : Move}
      (hearing : Hearing key start verdicts heard s) (reached : s.Reached) (allowed : move.Allowed s)
      (honest : move.Honest) (keeps : ¬move.Drops key s) :
      Hearing key start verdicts (heard ++ move.answers key s) (move.perform s)
  | worked {verdicts : List Bool} {heard : List RowAnswer} {s after : State} {α : Type} {part : Action α}
      {answer : Except Error α} (hearing : Hearing key start verdicts heard s) (works : part.Works s)
      (ran : part.exec s = (answer, after)) : Hearing key start verdicts (heard ++ s.heard key after) after
  | deleted {verdicts : List Bool} {heard : List RowAnswer} {s after : State} {writer : Writer} {delete : Delete}
      (hearing : Hearing key start verdicts heard s) (other : (delete.key == key) = false)
      (wrote : (executeDelete writer delete).exec s = (.ok (), after)) :
      Hearing key start verdicts (heard ++ s.heard key after) after
  | judged {verdicts : List Bool} {heard : List RowAnswer} {s after : State} {verdict : Bool}
      (hearing : Hearing key start verdicts heard s) (judged : Judged key s verdict after) :
      Hearing key start (verdicts ++ [verdict]) (heard ++ s.heard key after) after

namespace Hearing
variable {key : EntityKey} {start s : State} {verdicts : List Bool} {heard : List RowAnswer}

theorem learned (hearing : Hearing key start verdicts heard s) :
    Learned (start.context.databaseSnapshot? key) heard (s.context.databaseSnapshot? key) ∧
      ∀ verdict ∈ verdicts, ∃ row, s.context.databaseSnapshot? key = some row ∧ verdict = row.isNone := by
  have further {s after : State} {verdicts : List Bool} {told : List RowAnswer}
      (learned : Learned (s.context.databaseSnapshot? key) told (after.context.databaseSnapshot? key))
      (known : ∀ verdict ∈ verdicts, ∃ row, s.context.databaseSnapshot? key = some row ∧ verdict = row.isNone) :
      ∀ verdict ∈ verdicts, ∃ row, after.context.databaseSnapshot? key = some row ∧ verdict = row.isNone := by
    intro verdict member
    obtain ⟨row, held, same⟩ := known verdict member
    exact ⟨row, learned.remembers held, same⟩
  induction hearing with
  | start => exact ⟨.unasked _, List.forall_mem_nil _⟩
  | @moved _ _ s move _ reached allowed honest keeps ih =>
    obtain ⟨told, learned, -, kept⟩ := move.learned honest key reached.sound
    rw [← kept keeps] at learned
    exact ⟨ih.1.trans learned, further learned ih.2⟩
  | worked _ works ran ih =>
    have learned := ((works (Consults.permits key)).of_exec ran).since
    exact ⟨ih.1.trans learned, further learned ih.2⟩
  | deleted _ other wrote ih =>
    have learned := (Consults.of_executeDelete other wrote).since
    exact ⟨ih.1.trans learned, further learned ih.2⟩
  | judged _ judged ih =>
    have learned := judged.consults.since
    refine ⟨ih.1.trans learned, List.forall_mem_append.mpr ⟨further learned ih.2, ?_⟩⟩
    exact List.forall_mem_singleton.mpr judged.knows

end Hearing

/-- A classification that is repeated comes out the same, and only reads of the cache are counted. As long as a key is
not let go of, the database gives one answer about it at most, and all who judge by the row judge by this one. -/
theorem classification_is_stable_and_asks_once :
    (∀ (s : State) (value : AttributeValue) (assumed : Option Bool) (state : EntityState) (after : State), s.Steady →
      (classify value assumed).exec s = (.ok state, after) →
        ∃ later, (classify value assumed).exec after = (.ok state, later) ∧ after.Unprobed later) ∧
    ∀ (key : EntityKey) (start : State) (verdicts : List Bool) (heard : List RowAnswer) (s : State),
      Hearing key start verdicts heard s →
        (∀ verdict ∈ verdicts, ∀ other ∈ verdicts, verdict = other) ∧
        (∀ row, .ok row ∈ heard → ∀ verdict ∈ verdicts, verdict = row.isNone) ∧
        (heard.filter Except.isOk).length ≤ 1 ∧
        ∀ move : Move, s.Reached → move.Honest → ((heard ++ move.answers key s).filter Except.isOk).length ≤ 1 := by
  refine ⟨fun s value assumed state after steady ran => classify_again steady ran, ?_⟩
  intro key start verdicts heard s hearing
  obtain ⟨learned, known⟩ := hearing.learned
  refine ⟨?_, ?_, learned.once, ?_⟩
  · intro verdict member other member'
    obtain ⟨row, held, rfl⟩ := known verdict member
    obtain ⟨row', held', rfl⟩ := known other member'
    cases held.symm.trans held'
    rfl
  · intro row member verdict member'
    obtain ⟨row', held, rfl⟩ := known verdict member'
    cases held.symm.trans (learned.of_told member)
    rfl
  · intro move reached honest
    obtain ⟨told, later, -⟩ := move.learned honest key reached.sound
    exact (learned.trans later).once

namespace Sample

def member : Descriptor where
  name := "Member"
  identifier := { name := "number", generator := .assigned }

def patron : Descriptor := { member with name := "Patron", rootName := "Member" }

/-- It fails at first, then does not find the row, and later it would. -/
def wavering : SnapshotSource where
  select journal _ _ := match (journal.filter Call.isProbe).length with
    | 0 => .error (.database "timeout")
    | 1 => .ok none
    | _ => .ok (some [])

def second : Identifier := .ofValue (.bool true)

def seat : EntityKey := member.keyFor second

/-- A member and a patron of one number. -/
def club : State where
  heap := ⟨#[{ entity := "Member", values := [], id := some second },
    { entity := "Patron", values := [], id := some second }]⟩
  shared := {}
  session := { factory := { metamodel := ⟨[member, patron]⟩ }, snapshotSource := some wavering }

def whetherPatron : Move := .ask (.classify (.reference (.loaded ⟨1⟩)) none)

def foreign : Nullifier := { owner := none, isDelete := false, early := false }

def whetherMember : Move := .ask (.isNullifiable foreign (.reference (.loaded ⟨0⟩)))

def refusedClub : State := whetherPatron.perform club

def askedClub : State := whetherPatron.perform refusedClub

def doubtingClub : State := whetherMember.perform askedClub

theorem doubtingClub_reached : doubtingClub.Reached := by
  have asked : Run club [whetherPatron, whetherPatron] askedClub :=
    ((Run.start : Run club [] _).extend whetherPatron trivial).extend whetherPatron trivial
  exact ⟨club, _, ⟨rfl, rfl, rfl⟩, asked.extend whetherMember trivial⟩

theorem doubtingClub_hearing : ∃ heard, Hearing seat club [true, true] heard doubtingClub ∧
    .ok none ∈ heard := by
  have began := (Hearing.start : Hearing seat club [] [] club)
  have refused : Hearing seat club [] ([] ++ whetherPatron.answers seat club) refusedClub :=
    began.moved ⟨club, [], ⟨rfl, rfl, rfl⟩, .start⟩ trivial trivial id
  have asked : (classify (.reference (.loaded ⟨1⟩)) none).exec refusedClub = (.ok .transient, askedClub) := rfl
  have doubted : (foreign.isNullifiable (.reference (.loaded ⟨0⟩))).exec askedClub = (.ok true, doubtingClub) := rfl
  have first := refused.judged (.classified ⟨patron, second, rfl, by decide +kernel⟩ asked)
  refine ⟨_, first.judged (.nullifiable ⟨member, second, rfl, by decide +kernel⟩ (Option.some_ne_none _).symm rfl doubted), ?_⟩
  have answer : refusedClub.heard seat askedClub = [.ok none] := rfl
  rw [answer]
  exact List.mem_append_left _ (List.mem_append_right _ (List.mem_singleton_self _))

end Sample

open Sample in
/-- The patron is taken for one without a row, and so is the member. -/
theorem classification_is_stable_and_asks_once_patron : refusedClub.Steady ∧
    (classify (.reference (.loaded ⟨1⟩)) none).exec refusedClub = (.ok .transient, askedClub) ∧
    (∃ later, (classify (.reference (.loaded ⟨1⟩)) none).exec askedClub = (.ok .transient, later) ∧
      askedClub.Unprobed later) ∧
    ∃ heard, Hearing seat club [true, true] heard doubtingClub ∧ .ok none ∈ heard ∧
      (heard.filter Except.isOk).length ≤ 1 ∧
      ((heard ++ whetherMember.answers seat doubtingClub).filter Except.isOk).length ≤ 1 := by
  obtain ⟨stable, once⟩ := classification_is_stable_and_asks_once
  obtain ⟨heard, hearing, told⟩ := doubtingClub_hearing
  obtain ⟨-, -, answered, later⟩ := once _ _ _ _ _ hearing
  have ran : (classify (.reference (.loaded ⟨1⟩)) none).exec refusedClub = (.ok .transient, askedClub) := rfl
  have steady : refusedClub.Steady := ⟨(fun _ held => nomatch held), ExternalRegions.steady_default⟩
  exact ⟨steady, ran, stable _ _ _ _ _ steady ran, heard, hearing, told, answered, later _ doubtingClub_reached trivial⟩

end UnitOfWork
