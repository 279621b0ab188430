import UnitOfWork.Cache.Entry

/-! The record of what a session asked of its collaborators: the application's listeners, hooks and
interceptor, the database behind writer and snapshot source, regions kept elsewhere, and the log. A
collaborator may answer by everything it has been asked so far, so the journal is also what answers
depend on. -/

namespace UnitOfWork

inductive Warning where
  /-- A second row with a key of the same load; its instance is dropped. -/
  | duplicateHydration (key : EntityKey) (dropped : String)
  /-- A reference cached as null. -/
  | unidentifiedReference (entity : String)

inductive RegionRequest where
  | get (key : CacheKey)
  | put (key : CacheKey) (value : CacheValue) (version : Option Value) (minimal : Bool)
  | update (key : CacheKey) (value : CacheValue) (current previous : Option Value)
  | evict (key : CacheKey)

inductive Call where
  | warn (warning : Warning)
  | intercept (h : Handle)
  | probe (entity : String) (id : Identifier)
  | insert (h : Handle) (entity : String) (id : Option Identifier) (state : List AttributeValue)
  | delete (h : Handle) (entity : String) (id : Identifier)
  /-- A listener of that position, with the state as earlier listeners left it and what the instance
  holds. -/
  | preLoad (listener : Nat) (h : Handle) (id : Identifier) (entity : String)
      (state values : List AttributeValue)
  | postLoad (listener : Nat) (h : Handle) (id : Identifier) (entity : String)
      (values : List AttributeValue)
  | initialized (h : Handle) (values : List AttributeValue)
  | region (name : String) (request : RegionRequest)

namespace Call

def isProbe : Call → Bool
  | .probe .. => true
  | _ => false

def isDelete : Call → Bool
  | .delete .. => true
  | _ => false

def preLoadedBy? (position : Nat) : Call → Option Identifier
  | .preLoad listener _ id _ _ _ => if listener = position then some id else none
  | _ => none

def postLoadedBy? (position : Nat) : Call → Option Identifier
  | .postLoad listener _ id _ _ => if listener = position then some id else none
  | _ => none

end Call

/-- Oldest call first. -/
abbrev Journal := List Call

end UnitOfWork
