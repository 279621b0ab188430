import UnitOfWork.Proofs.TenantRequests

/-! Two sessions on one cache. They take turns in any order. No instance belongs to both, so each numbers its own on a
heap of its own, and all that they share is the cache, with its statistics. With different tenants, neither of them can
tell whether the other one is there. -/

namespace UnitOfWork

inductive Request where
  | save (h : Handle) (early : Bool)
  | delete (h : Handle)
  | load (entity : String) (rows : List (Except Error Row)) (options : LoadOptions)
  | flush (writer : Writer)
  | classify (value : AttributeValue) (assumed : Option Bool)
  | edit (change : Heap → Heap)

inductive Reply where
  | done
  | loaded (results : List Handle)
  | flushed (result : FlushResult)
  | classified (state : EntityState)
deriving DecidableEq

def Request.action : Request → Action Reply
  | .save h early => do
    Action.save h early
    return .done
  | .delete h => do
    Action.delete h
    return .done
  | .load entity rows options => return .loaded (← Action.load entity rows options)
  | .flush writer => return .flushed (← Action.flush writer)
  | .classify value assumed => return .classified (← Action.classify value assumed)
  | .edit change => do
    modify fun s => s.mapHeap change
    return .done

theorem Request.action_blind (request : Request) : Action.Blind request.action := by
  cases request with
  | save h early => exact .bind (Action.save_blind h early) fun _ => .pure _
  | delete h => exact .bind (Action.delete_blind h) fun _ => .pure _
  | load entity rows options => exact .bind (Action.load_blind entity rows options) fun _ => .pure _
  | flush writer => exact .bind (Action.flush_blind writer) fun _ => .pure _
  | classify value assumed => exact .bind (Action.classify_blind value assumed) fun _ => .pure _
  | edit change => exact .bind (.mapHeap change) fun _ => .pure _

inductive Side where
  | ours
  | theirs
deriving DecidableEq

def Side.oursAmong {α : Type} (all : List (Side × α)) : List (Side × α) := all.filter fun one => one.1 = .ours

/-- What a session has to itself: its instances, and what it knows of them. -/
structure Client where
  heap : Heap
  session : Session

namespace Client

def tenant (client : Client) : Option String := client.session.config.tenant

def state (client : Client) (shared : Shared) : State := ⟨client.heap, shared, client.session⟩

end Client

structure Tenancy where
  ours : Client
  theirs : Client
  shared : Shared

namespace Tenancy

def perform (tenancy : Tenancy) (side : Side) (request : Request) : Except Error Reply × Tenancy :=
  match side with
  | .ours =>
    let (answer, after) := request.action.exec (tenancy.ours.state tenancy.shared)
    (answer, { tenancy with ours := ⟨after.heap, after.session⟩, shared := after.shared })
  | .theirs =>
    let (answer, after) := request.action.exec (tenancy.theirs.state tenancy.shared)
    (answer, { tenancy with theirs := ⟨after.heap, after.session⟩, shared := after.shared })

/-- The answers to requests, in their order, and what is there after them. -/
def run (tenancy : Tenancy) : List (Side × Request) → List (Side × Except Error Reply) × Tenancy
  | [] => ([], tenancy)
  | (side, request) :: rest =>
    let (answer, after) := tenancy.perform side request
    let (answers, last) := after.run rest
    ((side, answer) :: answers, last)

/-- Our session alone, beside one that has had company of another tenant. -/
structure Matches (tenant : Option String) (alone together : Tenancy) : Prop where
  same : together.ours = alone.ours
  ours : alone.ours.tenant = tenant
  theirs : together.theirs.tenant ≠ tenant
  cache : Shared.Agree (fun key => key.tenant = tenant) alone.shared together.shared

namespace Matches
variable {tenant : Option String} {alone together : Tenancy} (held : Matches tenant alone together)
include held

theorem perform_ours (request : Request) :
    (together.perform .ours request).1 = (alone.perform .ours request).1 ∧
      Matches tenant (alone.perform .ours request).2 (together.perform .ours request).2 := by
  obtain ⟨same, rfl, theirs, cache⟩ := held
  have alike : (alone.ours.state alone.shared).Alike (together.ours.state together.shared) := by
    rw [same]
    exact ⟨rfl, rfl, cache⟩
  obtain ⟨answer, a, b, ran, ran', alike, confined⟩ := request.action_blind _ _ alike
  have kept : a.session.config.tenant = alone.ours.tenant := congrArg SessionConfig.tenant confined.config
  have left : (⟨b.heap, b.session⟩ : Client) = ⟨a.heap, a.session⟩ := by
    rw [alike.heap, alike.session]
  unfold perform
  rw [ran, ran']
  exact ⟨rfl, left, kept, theirs, fun name => (alike.shared name).of_imp fun key owned => owned.trans kept.symm⟩

/-- The company does nothing that our session could notice. -/
theorem perform_theirs (request : Request) : Matches tenant alone (together.perform .theirs request).2 := by
  obtain ⟨same, ours, theirs, cache⟩ := held
  obtain ⟨answer, a, b, ran, -, -, confined⟩ :=
    request.action_blind (together.theirs.state together.shared) _ (.refl _)
  have kept : a.session.config.tenant = together.theirs.tenant := congrArg SessionConfig.tenant confined.config
  unfold perform
  rw [ran]
  refine ⟨same, ours, fun equal => theirs (kept.symm.trans equal), fun name => (cache name).trans ?_⟩
  have foreign (key : CacheKey) (owned : key.tenant = tenant) : key.tenant ≠ together.theirs.tenant :=
    fun same => theirs (same.symm.trans owned)
  exact (confined.others name).of_imp foreign

/-- So our session answers as it would alone, whatever happens in between. -/
theorem run (requests : List (Side × Request)) :
    Side.oursAmong (together.run requests).1 = (alone.run (Side.oursAmong requests)).1 ∧
      Matches tenant (alone.run (Side.oursAmong requests)).2 (together.run requests).2 := by
  induction requests generalizing alone together with
  | nil => exact ⟨rfl, held⟩
  | cons request rest ih =>
    obtain ⟨side, request⟩ := request
    cases side with
    | ours =>
      obtain ⟨answer, after⟩ := held.perform_ours request
      obtain ⟨answers, last⟩ := ih after
      exact ⟨congrArg₂ List.cons (congrArg (Prod.mk Side.ours) answer) answers, last⟩
    | theirs => exact ih (held.perform_theirs request)

end Matches
end Tenancy

/-- Whatever two sessions of different tenants are asked, and in whichever order, ours gives the answers that it would
give, and is left as it would be, if the other were asked nothing; and the cache has the same items for our tenant. -/
theorem tenants_are_isolated (tenancy : Tenancy) (requests : List (Side × Request))
    (apart : tenancy.ours.tenant ≠ tenancy.theirs.tenant) :
    Side.oursAmong (tenancy.run requests).1 = (tenancy.run (Side.oursAmong requests)).1 ∧
      (tenancy.run requests).2.ours = (tenancy.run (Side.oursAmong requests)).2.ours ∧
      Shared.Agree (fun key => key.tenant = tenancy.ours.tenant) (tenancy.run (Side.oursAmong requests)).2.shared
        (tenancy.run requests).2.shared := by
  have held : Tenancy.Matches tenancy.ours.tenant tenancy tenancy := ⟨rfl, rfl, apart.symm, fun _ => .refl _ _⟩
  obtain ⟨answers, last⟩ := held.run requests
  exact ⟨answers, last.same, last.cache⟩

namespace Sample

def account : Descriptor where
  name := "Account"
  identifier := { name := "id", generator := .assigned }
  attributes := [.basic "open"]
  cacheRegion := some "accounts"

def holder (tenant : Option String) : Client where
  heap := ⟨#[{ entity := "Account", id := some (.ofColumns [.bool true]), values := [.basic (.bool false)] }]⟩
  session := { factory := { metamodel := ⟨[account]⟩ }, config := { tenant } }

def holders (tenant : Option String) : Tenancy where
  ours := holder none
  theirs := holder tenant
  shared := Factory.shared { metamodel := ⟨[account]⟩ }

/-- They load the account, and later delete it; we ask after it while they have it, load it, and ask again. -/
def turns : List (Side × Request) :=
  let row : Row := { values := [.bool true, .bool true] }
  let account : AttributeValue := .reference (.loaded ⟨0⟩)
  let keep : Writer := { insert := fun _ _ _ _ => .ok none, delete := fun _ _ _ => .ok () }
  [(.theirs, .load "Account" [.ok row] {}), (.ours, .classify account none), (.ours, .load "Account" [.ok row] {}),
    (.theirs, .delete ⟨1⟩), (.theirs, .flush keep), (.ours, .classify account none)]

end Sample

open Sample in
/-- Before we load the account we do not find it in the cache, and then we do. To a session of their tenant it would be
the other way about. -/
theorem tenants_are_isolated_over_an_account :
    (holders (some "north")).ours.tenant ≠ (holders (some "north")).theirs.tenant ∧
      (Side.oursAmong ((holders (some "north")).run turns).1).map (fun answer => answer.2.toOption) =
        [none, some (.loaded [⟨1⟩]), some (.classified .notTransient)] ∧
      (Side.oursAmong ((holders none).run turns).1).map (fun answer => answer.2.toOption) =
        [some (.classified .notTransient), some (.loaded [⟨1⟩]), none] := by
  have apart : (holders (some "north")).ours.tenant ≠ (holders (some "north")).theirs.tenant := by decide
  refine ⟨apart, ?_, by decide +kernel⟩
  rw [(tenants_are_isolated (holders (some "north")) turns apart).1]
  decide +kernel

end UnitOfWork
