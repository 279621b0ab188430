import UnitOfWork.Fixture.Cache
import UnitOfWork.Journal

/-! The calls of a journal as fixtures. -/

namespace UnitOfWork

def Warning.toFixture : Warning → Json
  | .duplicateHydration key dropped =>
    .ofMembers [("message", .text "Duplicate hydration for key; keeping the first instance"),
      ("key", .text key.describe), ("dropped", .text dropped)]
  | .unidentifiedReference entity =>
    .ofMembers [("message", .text "Reference without identifier cached as null"), ("entity", .text entity)]

def RegionRequest.parts : RegionRequest → List Json
  | .get key => [.text "get", key.toFixture, .null]
  | .put key value version minimal =>
    [.text "put", key.toFixture, .array [value.toFixture, Value.optionToFixture version, .bool minimal]]
  | .update key value current previous =>
    [.text "update", key.toFixture,
      .array [value.toFixture, Value.optionToFixture current, Value.optionToFixture previous]]
  | .evict key => [.text "evict", key.toFixture, .null]

def Call.toFixture : Call → Json
  | .warn warning => .tagged "warn" warning.toFixture
  | .intercept h => .tagged "intercept" h.toFixture
  | .probe entity id => .tagged "probe" (.array [.text entity, id.toFixture])
  | .insert _ entity id state =>
    .tagged "insert" (.array [.text entity, .ofOption Identifier.toFixture id,
      AttributeValue.stateToFixture state])
  | .delete _ entity id => .tagged "delete" (.array [.text entity, id.toFixture])
  | .preLoad _ h id entity state values =>
    .tagged "pre" (.array [h.toFixture, id.toFixture, .text entity, AttributeValue.stateToFixture state,
      AttributeValue.stateToFixture values])
  | .postLoad _ h id entity values =>
    .tagged "post" (.array [h.toFixture, id.toFixture, .text entity, AttributeValue.stateToFixture values])
  | .initialized h values =>
    .ofMembers [("hook", h.toFixture), ("values", AttributeValue.stateToFixture values)]
  | .region name request => .tagged "region" (.array (.text name :: request.parts))

end UnitOfWork
