import UnitOfWork.Identifier
import UnitOfWork.Modes

/-! What can go wrong, by cause. The wording is in `Error.message` alone. -/

namespace UnitOfWork

inductive HydrationFault where
  | nullIdentifier
  | shortRow (columns expected : Nat)
  | embeddedTooWide
  | missingDiscriminator
  | discriminatorType (typeName : String)
  /-- A foreign key in an attribute that is no association. -/
  | misplacedKey (classification : String)
  | other (message : String)
deriving DecidableEq

def HydrationFault.message : HydrationFault → String
  | .nullIdentifier => "null identifier"
  | .shortRow columns expected => s!"row has {columns} columns, {expected} expected"
  | .embeddedTooWide => "embedded column span exceeds attribute span"
  | .missingDiscriminator => "missing discriminator column"
  | .discriminatorType typeName => s!"discriminator must be text, got {typeName}"
  | .misplacedKey classification => s!"foreign key on {classification} attribute"
  | .other message => message

inductive Error where
  /-- A reference that cannot be nulled points at an instance without a row. -/
  | transientProperty (entity property target : String)
  | transientObject (entity : String)
  | nonUniqueObject (key : EntityKey)
  | unknownEntity (name : String)
  | hydration (entity property : String) (fault : HydrationFault)
  | listener (message : String)
  | database (message : String)
  /-- The insert of this instance gave no identifier and it had none. -/
  | noGeneratedIdentifier (description : String)
  | unsupported (what : String)
  | unsupportedLock (mode : LockMode)
  | noSnapshotSource (key : EntityKey)
  | serialization (message : String)
  | keyChange (held requested : EntityKey)
  | unassignedIdentifier (entity : String)
  | notClassifiable (description : String)
  | notReference (description : String)
  | nothingUnresolved (entity : String)
  | custom (message : String)

namespace Error

def message : Error → String
  | .transientProperty entity property target =>
    s!"object references an unsaved transient instance: {entity}.{property} -> {target} " ++
      "(save the transient instance before flushing)"
  | .transientObject entity => s!"object references an unsaved transient instance of {entity}"
  | .nonUniqueObject key =>
    "a different object with the same identifier is already associated with the session: " ++ key.describe
  | .unknownEntity name => s!"unknown entity: {name}"
  | .hydration entity property fault => s!"could not hydrate {entity}.{property}: " ++ fault.message
  | .listener message => s!"listener error: {message}"
  | .database message => s!"database error: {message}"
  | .noGeneratedIdentifier description => s!"database error: no identifier generated for {description}"
  | .unsupported what => s!"unsupported: {what}"
  | .unsupportedLock mode => "unsupported: lock mode " ++ mode.name ++ " on load"
  | .noSnapshotSource key => "unsupported: no snapshot source configured to probe " ++ key.describe
  | .serialization message => s!"serialization error: {message}"
  | .keyChange held requested =>
    "identity key of " ++ held.describe ++ " cannot change to " ++ requested.describe
  | .unassignedIdentifier entity => s!"identifier of {entity} must be assigned before save"
  | .notClassifiable description => s!"cannot classify non-entity value {description}"
  | .notReference description => s!"{description} is not an entity reference"
  | .nothingUnresolved entity => s!"{entity} has no unresolved dependencies"
  | .custom message => message

def isTransientReference : Error → Bool
  | .transientProperty .. | .transientObject _ => true
  | _ => false

def isUnsupported : Error → Bool
  | .unsupported _ | .unsupportedLock _ | .noSnapshotSource _ => true
  | _ => false

def propertyPath? : Error → Option String
  | .transientProperty _ property _ => some property
  | _ => none

end Error

end UnitOfWork
