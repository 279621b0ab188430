/-! How a session treats the second-level cache and the rows it loads. -/

namespace UnitOfWork

inductive CacheMode where
  | normal
  | get
  | put
  | refresh
  | ignore
deriving DecidableEq, Inhabited

namespace CacheMode

def name : CacheMode → String
  | .normal => "Normal"
  | .get => "Get"
  | .put => "Put"
  | .refresh => "Refresh"
  | .ignore => "Ignore"

def all : List CacheMode := [.normal, .get, .put, .refresh, .ignore]

def reads : CacheMode → Bool
  | .normal | .get => true
  | .put | .refresh | .ignore => false

def writes : CacheMode → Bool
  | .normal | .put | .refresh => true
  | .get | .ignore => false

end CacheMode

inductive LockMode where
  | none
  | read
  | optimistic
  | pessimisticRead
  | pessimisticWrite
deriving DecidableEq, Inhabited

namespace LockMode

def name : LockMode → String
  | .none => "None"
  | .read => "Read"
  | .optimistic => "Optimistic"
  | .pessimisticRead => "PessimisticRead"
  | .pessimisticWrite => "PessimisticWrite"

def all : List LockMode := [.none, .read, .optimistic, .pessimisticRead, .pessimisticWrite]

/-- Rows are given to a load, so it can take no lock in the database. -/
def supportedForLoad : LockMode → Bool
  | .none | .read => true
  | .optimistic | .pessimisticRead | .pessimisticWrite => false

end LockMode

end UnitOfWork
