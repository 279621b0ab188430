import Mathlib.Data.List.Basic
import UnitOfWork.Proofs.FlushConservation
import UnitOfWork.Proofs.ForeignKeys

/-! What nulling does to a state, place by place. The state before and the state after are walked together
along the values, and the attributes only say which of them maps a place. A place is changed exactly where an
unwritable reference is written as a foreign key, and the places that lose a required reference are the
dependencies that were collected. -/

namespace UnitOfWork
open UnitOfWork.Action

/-- The reference of a foreign key, with its path and attribute. -/
def Leaf.written? (leaf : Leaf) : Option (String × Attribute × Reference) :=
  match leaf.value with
  | .reference r => some (leaf.path, leaf.mapping, r)
  | _ => none

/-- What has to be waited for on account of a reference: it may not be null, and is judged not to be writable. -/
def Dependency.needed? (judge : Reference → Bool) : String × Attribute × Reference → Option Dependency
  | (path, a, r) => if !a.nullable && judge r then some ⟨path, r⟩ else none

theorem waits_eq (judge : Reference → Bool) (leaves : List Leaf) :
    waits judge leaves = (leaves.filterMap Leaf.written?).filterMap (Dependency.needed? judge) := by
  unfold waits
  rw [List.filterMap_filterMap]
  refine List.filterMap_congr fun leaf _ => ?_
  unfold Leaf.dependency? Leaf.written?
  cases leaf.value <;> rfl

/-- A place in a state at any depth of embedding, with what it holds in two versions of the state. -/
structure Place where
  /-- The attribute with its path from the entity down. Missing beyond the attributes. -/
  mapped : Option (String × Attribute)
  before : AttributeValue
  after : AttributeValue

namespace Place

mutual

def below (mapped : Option (String × Attribute)) : AttributeValue → AttributeValue → List Place
  | .embedded befores, .embedded afters =>
    match mapped with
    | some (path, a) => among (path ++ ".") a.kind.children befores afters
    | none => among "" [] befores afters
  | before, after => [⟨mapped, before, after⟩]

/-- The places of two versions of a list of attributes, in their order. Names are appended to `stem` to give
the paths. -/
def among (stem : String) : List Attribute → List AttributeValue → List AttributeValue → List Place
  | a :: attributes, before :: befores, after :: afters =>
    below (some (stem ++ a.name, a)) before after ++ among stem attributes befores afters
  | [], before :: befores, after :: afters => below none before after ++ among stem [] befores afters
  | _, _, _ => []

end

/-- The reference that was written here as a foreign key, with its path and attribute. -/
def written? (place : Place) : Option (String × Attribute × Reference) :=
  match place.mapped, place.before with
  | some (path, a), .reference r =>
    match a.kind with
    | .manyToOne _ | .any => some (path, a, r)
    | _ => none
  | _, _ => none

/-- The written reference, except to a row that no instance stands for yet. -/
def target? (place : Place) : Option Reference :=
  match place.written? with
  | some (_, _, .notLoaded _) | none => none
  | some (_, _, r) => some r

/-- What was turned into null where null is not allowed, with its path. -/
def lost? (place : Place) : Option (String × AttributeValue) :=
  match place.mapped with
  | some (path, a) =>
    if !a.nullable && place.after.isNull && !place.before.isNull then some (path, place.before) else none
  | none => none

def nulled (judge : Reference → Bool) (place : Place) : Place :=
  match place.written? with
  | some (_, _, r) => if judge r then { place with after := .null } else place
  | none => place

theorem written?_unmapped {place : Place} (unmapped : place.mapped = none) : place.written? = none := by
  unfold written?
  rw [unmapped]

theorem nulled_unwritten (judge : Reference → Bool) {place : Place} (unwritten : place.written? = none) :
    place.nulled judge = place := by
  unfold nulled
  rw [unwritten]

theorem nulled_written (judge : Reference → Bool) {place : Place} {path : String} {a : Attribute} {r : Reference}
    (written : place.written? = some (path, a, r)) :
    place.nulled judge = if judge r then { place with after := .null } else place := by
  unfold nulled
  rw [written]

theorem before_of_written? {place : Place} {path : String} {a : Attribute} {r : Reference}
    (written : place.written? = some (path, a, r)) :
    place.mapped = some (path, a) ∧ place.before = .reference r := by
  unfold written? at written
  split at written
  next mapped before =>
    split at written <;> cases written <;> exact ⟨mapped, before⟩
  next => cases written

theorem written_of_target? {place : Place} {r : Reference} (target : place.target? = some r) :
    ∃ path a, place.written? = some (path, a, r) := by
  unfold target? at target
  split at target
  next => cases target
  next => cases target
  next path a other _ written =>
    cases target
    exact ⟨path, a, written⟩

mutual

theorem below_unmapped : ∀ before after : AttributeValue, ∀ place ∈ below none before after, place.mapped = none
  | .embedded befores, .embedded afters => among_unmapped "" befores afters
  | .embedded _, .null | .embedded _, .basic _ | .embedded _, .reference _ | .embedded _, .foreignKey _
  | .embedded _, .anyKey _ _ | .embedded _, .unfetched | .null, _ | .basic _, _ | .reference _, _ | .foreignKey _, _
  | .anyKey _ _, _ | .unfetched, _ => by simp [below]

theorem among_unmapped (stem : String) : ∀ befores afters : List AttributeValue,
    ∀ place ∈ among stem [] befores afters, place.mapped = none
  | before :: befores, after :: afters, place, member => by
    rw [among, List.mem_append] at member
    rcases member with here | later
    · exact below_unmapped before after place here
    · exact among_unmapped stem befores afters place later
  | [], _, _, member | _ :: _, [], _, member => by simp [among] at member

end

mutual

theorem below_same (mapped : Option (String × Attribute)) : ∀ value : AttributeValue,
    ∀ place ∈ below mapped value value, place.after = place.before
  | .embedded children, place, member => by
    cases mapped with
    | none => exact among_same "" [] children place member
    | some found => exact among_same (found.1 ++ ".") found.2.kind.children children place member
  | .null, place, member | .basic _, place, member | .reference _, place, member | .foreignKey _, place, member
  | .anyKey _ _, place, member | .unfetched, place, member => by
    simp only [below, List.mem_singleton] at member
    rw [member]

theorem among_same (stem : String) : ∀ (attributes : List Attribute) (values : List AttributeValue),
    ∀ place ∈ among stem attributes values values, place.after = place.before
  | a :: attributes, value :: values, place, member => by
    rw [among, List.mem_append] at member
    rcases member with here | later
    · exact below_same _ value place here
    · exact among_same stem attributes values place later
  | [], value :: values, place, member => by
    rw [among, List.mem_append] at member
    rcases member with here | later
    · exact below_same none value place here
    · exact among_same stem [] values place later
  | [], [], _, member | _ :: _, [], _, member => by simp [among] at member

end

private theorem below_judged (judge : Reference → Bool) (path : String) (a : Attribute) (r : Reference)
    (foreign : (⟨some (path, a), .reference r, .reference r⟩ : Place).written? = some (path, a, r)) :
    below (some (path, a)) (.reference r) (if judge r then .null else .reference r) =
      (below (some (path, a)) (.reference r) (.reference r)).map (nulled judge) := by
  cases judged : judge r <;> simp [below, nulled, foreign, judged]

private theorem among_kept (judge : Reference → Bool) (stem : String) (values : List AttributeValue) :
    among stem [] values values = (among stem [] values values).map (nulled judge) := by
  have kept : ∀ place ∈ among stem [] values values, place.nulled judge = place :=
    fun place member => nulled_unwritten judge (written?_unmapped (among_unmapped stem values values place member))
  rw [List.map_congr_left kept, List.map_id']

mutual

theorem below_nulled (judge : Reference → Bool) (path : String) (a : Attribute) : ∀ value : AttributeValue,
    below (some (path, a)) value (UnitOfWork.nulled judge a value) =
      (below (some (path, a)) value value).map (nulled judge)
  | .embedded children => by
    cases kind : a.kind with
    | embedded name attributes =>
      have within : UnitOfWork.nulled judge a (.embedded children) =
          .embedded (nulledAll judge attributes children) := by
        simp only [UnitOfWork.nulled, kind]
      rw [within]
      simp only [below, kind, AttributeKind.children]
      exact among_nulledAll judge (path ++ ".") attributes children
    | basic | manyToOne _ | oneToOne _ | any =>
      -- the values below are still walked, but no attribute maps them
      have kept : UnitOfWork.nulled judge a (.embedded children) = .embedded children := by
        simp only [UnitOfWork.nulled, kind]
      rw [kept]
      simp only [below, kind, AttributeKind.children]
      exact among_kept judge (path ++ ".") children
  | .reference r => by
    cases kind : a.kind with
    | manyToOne _ | any =>
      simp only [UnitOfWork.nulled, kind]
      exact below_judged judge path a r (by simp [written?, kind])
    | basic | oneToOne _ | embedded _ _ => simp [UnitOfWork.nulled, below, nulled, written?, kind]
  | .null | .basic _ | .foreignKey _ | .anyKey _ _ | .unfetched => rfl

theorem among_nulledAll (judge : Reference → Bool) (stem : String) : ∀ (attributes : List Attribute)
    (values : List AttributeValue),
    among stem attributes values (nulledAll judge attributes values) =
      (among stem attributes values values).map (nulled judge)
  | a :: attributes, value :: values => by
    simp only [nulledAll, among, List.map_append]
    rw [below_nulled judge, among_nulledAll judge]
  | [], [] => rfl
  | [], value :: values => among_kept judge stem (value :: values)
  | _ :: _, [] => rfl

end

theorem unwritten_unmapped (stem : String) (values : List AttributeValue) :
    (among stem [] values values).filterMap written? = [] :=
  List.filterMap_eq_nil_iff.mpr fun place member => written?_unmapped (among_unmapped stem values values place member)

mutual

theorem below_written (path : String) (a : Attribute) : ∀ value : AttributeValue,
    (below (some (path, a)) value value).filterMap written? = (Leaf.below path a value).filterMap Leaf.written?
  | .embedded children => by
    cases kind : a.kind with
    | embedded name attributes =>
      simp only [below, Leaf.below, kind, AttributeKind.children]
      exact among_written (path ++ ".") attributes children
    | basic | manyToOne _ | oneToOne _ | any =>
      simp only [below, Leaf.below, Leaf.ofKind, kind, AttributeKind.children]
      exact unwritten_unmapped (path ++ ".") children
  | .reference r => by
    cases kind : a.kind with
    | manyToOne _ | any | basic | oneToOne _ | embedded _ _ =>
      simp [below, Leaf.below, Leaf.ofKind, Leaf.written?, written?, kind]
  | .null | .basic _ | .foreignKey _ | .anyKey _ _ | .unfetched => by
    simp only [below, Leaf.below, Leaf.ofKind]
    split <;> rfl

theorem among_written (stem : String) : ∀ (attributes : List Attribute) (values : List AttributeValue),
    (among stem attributes values values).filterMap written? =
      (Leaf.among stem attributes values).filterMap Leaf.written?
  | a :: attributes, value :: values => by
    simp only [among, Leaf.among, List.filterMap_append]
    rw [below_written, among_written]
  | [], values => by
    rw [unwritten_unmapped, Leaf.among]
    · rfl
    · exact nofun
  | _ :: _, [] => rfl

end

theorem written?_nulled (judge : Reference → Bool) (place : Place) :
    (place.nulled judge).written? = place.written? := by
  unfold nulled
  split
  · split <;> rfl
  · rfl

theorem lost?_nulled (judge : Reference → Bool) {place : Place} (same : place.after = place.before) :
    (place.nulled judge).lost? = (place.written?.bind (Dependency.needed? judge)).map fun dependency =>
      (dependency.path, .reference dependency.reference) := by
  cases written : place.written? with
  | none =>
    rw [nulled_unwritten judge written]
    unfold lost?
    rw [same]
    cases place.mapped with
    | none => rfl
    | some found => simp
  | some found =>
    obtain ⟨path, a, r⟩ := found
    obtain ⟨mapped, before⟩ := before_of_written? written
    rw [nulled_written judge written]
    cases judged : judge r <;> cases strict : a.nullable <;>
      simp [lost?, Dependency.needed?, mapped, same, before, judged, strict, AttributeValue.isNull]

end Place

/-- The places that lose a required reference to nulling are what would be waited for. -/
theorem lost_nulledAll (judge : Reference → Bool) (attributes : List Attribute) (values : List AttributeValue) :
    (Place.among "" attributes values (nulledAll judge attributes values)).filterMap Place.lost? =
      (waits judge (Leaf.among "" attributes values)).map fun dependency =>
        (dependency.path, .reference dependency.reference) := by
  rw [Place.among_nulledAll, List.filterMap_map, waits_eq, ← Place.among_written, List.filterMap_filterMap,
    List.map_filterMap]
  exact List.filterMap_congr fun place member =>
    Place.lost?_nulled judge (Place.among_same "" attributes values place member)

theorem after_nulledAll {judge : Reference → Bool} (proxies : ∀ key, judge (.notLoaded key) = false)
    {attributes : List Attribute} {values : List AttributeValue} {place : Place}
    (member : place ∈ Place.among "" attributes values (nulledAll judge attributes values)) :
    place.after = match place.target? with
      | some r => if judge r then .null else place.before
      | none => place.before := by
  rw [Place.among_nulledAll] at member
  obtain ⟨place, here, rfl⟩ := List.mem_map.mp member
  have same := Place.among_same "" attributes values place here
  unfold Place.target?
  rw [Place.written?_nulled]
  cases written : place.written? with
  | none =>
    rw [Place.nulled_unwritten judge written]
    exact same
  | some found =>
    obtain ⟨path, a, r⟩ := found
    rw [Place.nulled_written judge written]
    cases r with
    | notLoaded key => simp [proxies, same]
    | loaded h => cases judged : judge (.loaded h) <;> simp [judged, same]
    | removed key => cases judged : judge (.removed key) <;> simp [judged, same]

namespace Nullifier
variable {nullifier : Nullifier} {attributes : List Attribute} {values : List AttributeValue}

theorem collectAll_later {found : List Dependency} {s asked after : State} (steady : s.Steady)
    (collected : (nullifier.collectAll "" attributes values).exec s = (.ok found, asked)) (asks : Asks asked after) :
    found = waits (nullifier.verdict after) (Leaf.among "" attributes values) := by
  rw [collectAll_answer steady collected]
  refine List.filterMap_congr fun leaf member => ?_
  unfold Leaf.dependency?
  split
  next r held =>
    cases strict : leaf.mapping.nullable with
    | true => rfl
    | false =>
      have needed : leaf ∈ required (Leaf.among "" attributes values) :=
        List.mem_filter.mpr ⟨member, by rw [strict]; rfl⟩
      have judged := collectAll_judges "" attributes values s asked found steady collected leaf needed r held
      rw [verdict_eq (judged.mono asks)]
  next => rfl

theorem nullifyAll_after {state : List AttributeValue} {s after : State} (steady : s.Steady)
    (ran : (nullifier.nullifyAll attributes values).exec s = (.ok state, after)) {place : Place}
    (member : place ∈ Place.among "" attributes values state) : place.after = match place.target? with
      | some r => if nullifier.verdict after r then .null else place.before
      | none => place.before := by
  rw [nullifyAll_answer steady ran] at member
  exact after_nulledAll (fun _ => rfl) member

end Nullifier

/-- What an insert waits for is what nulling would take from it at places where null is not allowed, in the order
of the attributes. If it waits for nothing, nulling only takes references that may be null. -/
theorem dependencies_eq_lost {entity : String} {h : Handle} {early : Bool} {d : Descriptor}
    {values state : List AttributeValue} {found : List Dependency} {s asked after : State} (steady : s.Steady)
    (mapped : s.session.descriptor entity = .ok d)
    (collected : (dependencies entity h values early).exec s = (.ok found, asked))
    (ran : (Nullifier.nullifyAll ⟨some h, false, early⟩ d.attributes values).exec asked = (.ok state, after)) :
    (Place.among "" d.attributes values state).filterMap Place.lost? =
        found.map (fun dependency => (dependency.path, .reference dependency.reference)) ∧
      (found = [] → ∀ place ∈ Place.among "" d.attributes values state, place.before.isNull = false →
        place.after.isNull = true → ∃ path a, place.mapped = some (path, a) ∧ a.nullable = true) := by
  have asks := (dependencies_asks entity h values early s).of_exec collected
  obtain ⟨given, middle, described, collecting⟩ := bind_ok collected
  rw [exec_descriptor, mapped] at described
  cases described
  have later := Nullifier.collectAll_later steady collecting
    ((Nullifier.nullifyAll_asks _ d.attributes values asked).of_exec ran)
  have lost : (Place.among "" d.attributes values state).filterMap Place.lost? =
      found.map fun dependency => (dependency.path, .reference dependency.reference) := by
    rw [later, Nullifier.nullifyAll_answer (asks.steady steady) ran, lost_nulledAll]
  refine ⟨lost, ?_⟩
  rintro rfl place member held taken
  have kept : place.lost? = none := List.filterMap_eq_nil_iff.mp lost place member
  have changed := Nullifier.nullifyAll_after (asks.steady steady) ran member
  cases target : place.target? with
  | none =>
    rw [target] at changed
    rw [changed, held] at taken
    cases taken
  | some r =>
    obtain ⟨path, a, written⟩ := Place.written_of_target? target
    have mapped := (Place.before_of_written? written).1
    refine ⟨path, a, mapped, ?_⟩
    unfold Place.lost? at kept
    rw [mapped, held, taken] at kept
    simpa using kept

namespace Sample

def parcel : Descriptor where
  name := "Parcel"
  identifier := { name := "id" }
  attributes := [.basic "insured", .embedded "route" "Route"
    [(Attribute.manyToOne "sender" "Customer").withStorage fun storage => { storage with nullable := false },
      .manyToOne "agent" "Customer"]]

def depot : State where
  heap := ⟨#[{ entity := "Parcel", values := [] }, newCustomer, newCustomer]⟩
  shared := {}
  session := { factory := { metamodel := ⟨[customer, parcel]⟩ } }

theorem depot_steady : depot.Steady := ⟨(fun _ held => nomatch held), ExternalRegions.steady_default⟩

/-- There is one more value than attributes. -/
def sentParcel : List AttributeValue :=
  [.basic (.bool true), .embedded [.reference (.loaded ⟨1⟩), .reference (.loaded ⟨2⟩)], .reference (.loaded ⟨1⟩)]

def nulledParcel : List AttributeValue := [.basic (.bool true), .embedded [.null, .null], .reference (.loaded ⟨1⟩)]

end Sample

open Sample in
/-- The sender is waited for, and the agent is not. -/
theorem dependencies_eq_lost_parcel : ∃ asked after,
    (dependencies "Parcel" ⟨0⟩ sentParcel false).exec depot = (.ok [⟨"route.sender", .loaded ⟨1⟩⟩], asked) ∧
      (Nullifier.nullifyAll ⟨some ⟨0⟩, false, false⟩ parcel.attributes sentParcel).exec asked =
        (.ok nulledParcel, after) ∧
      (Place.among "" parcel.attributes sentParcel nulledParcel).filterMap Place.lost? =
        [("route.sender", .reference (.loaded ⟨1⟩))] := by
  have collected : (dependencies "Parcel" ⟨0⟩ sentParcel false).exec depot =
      (.ok [⟨"route.sender", .loaded ⟨1⟩⟩], depot) := rfl
  have ran : (Nullifier.nullifyAll ⟨some ⟨0⟩, false, false⟩ parcel.attributes sentParcel).exec depot =
      (.ok nulledParcel, depot) := rfl
  exact ⟨depot, depot, collected, ran, (dependencies_eq_lost depot_steady rfl collected ran).1⟩

mutual

/-- How a value is embedded, with nothing of what it holds. -/
def AttributeValue.outline : AttributeValue → AttributeValue
  | .embedded children => .embedded (outlineAll children)
  | _ => .null

def AttributeValue.outlineAll : List AttributeValue → List AttributeValue
  | [] => []
  | value :: values => value.outline :: outlineAll values

end

namespace AttributeValue

mutual

theorem outline_nulled (judge : Reference → Bool) (a : Attribute) : ∀ value : AttributeValue,
    (nulled judge a value).outline = value.outline
  | .embedded children => by
    unfold nulled
    split
    · rw [outline, outline, outlineAll_nulledAll judge _ children]
    · rfl
  | .reference r => by
    unfold nulled
    split
    · split <;> rfl
    · split <;> rfl
    · rfl
  | .null | .basic _ | .foreignKey _ | .anyKey _ _ | .unfetched => rfl

theorem outlineAll_nulledAll (judge : Reference → Bool) : ∀ (attributes : List Attribute)
    (values : List AttributeValue), outlineAll (nulledAll judge attributes values) = outlineAll values
  | a :: attributes, value :: values => by
    rw [nulledAll, outlineAll, outlineAll, outline_nulled judge a value, outlineAll_nulledAll judge attributes values]
  | [], [] | [], _ :: _ | _ :: _, [] => by rw [nulledAll]

end

theorem length_outlineAll : ∀ values : List AttributeValue, (outlineAll values).length = values.length
  | [] => rfl
  | value :: values => by rw [outlineAll, List.length_cons, length_outlineAll values, List.length_cons]

end AttributeValue

mutual

theorem nulled_nulled (judge : Reference → Bool) (a : Attribute) : ∀ value : AttributeValue,
    nulled judge a (nulled judge a value) = nulled judge a value
  | .embedded children => by
    cases kind : a.kind with
    | embedded name attributes => simp only [nulled, kind, nulledAll_nulledAll judge attributes children]
    | basic | manyToOne _ | oneToOne _ | any => simp only [nulled, kind]
  | .reference r => by
    cases kind : a.kind with
    | manyToOne _ | any => cases judged : judge r <;> simp [nulled, kind, judged]
    | basic | oneToOne _ | embedded _ _ => simp only [nulled, kind]
  | .null | .basic _ | .foreignKey _ | .anyKey _ _ | .unfetched => rfl

theorem nulledAll_nulledAll (judge : Reference → Bool) : ∀ (attributes : List Attribute)
    (values : List AttributeValue),
    nulledAll judge attributes (nulledAll judge attributes values) = nulledAll judge attributes values
  | a :: attributes, value :: values => by
    simp only [nulledAll, nulled_nulled judge a value, nulledAll_nulledAll judge attributes values]
  | [], [] | [], _ :: _ | _ :: _, [] => by simp only [nulledAll]

end

theorem Leaf.held_of_nulled {judge : Reference → Bool} {leaf : Leaf} {r : Reference}
    (held : (leaf.nulled judge).value = .reference r) : leaf.value = .reference r := by
  unfold nulled at held
  split at held
  next other value =>
    split at held
    · cases held
    · exact held
  next => exact held

namespace Nullifier
variable {nullifier : Nullifier} {attributes : List Attribute} {values state : List AttributeValue} {s after : State}

theorem nullifyAll_decided (steady : s.Steady)
    (ran : (nullifier.nullifyAll attributes values).exec s = (.ok state, after)) {place : Place}
    (member : place ∈ Place.among "" attributes values state) {r : Reference} (target : place.target? = some r) :
    Settled (nullifier.isNullifiable (.reference r)) after (nullifier.verdict after r) := by
  obtain ⟨path, a, written⟩ := Place.written_of_target? target
  rw [nullifyAll_answer steady ran, Place.among_nulledAll] at member
  obtain ⟨origin, here, rfl⟩ := List.mem_map.mp member
  rw [Place.written?_nulled] at written
  have found := List.mem_filterMap.mpr ⟨origin, here, written⟩
  rw [Place.among_written] at found
  obtain ⟨leaf, member, held⟩ := List.mem_filterMap.mp found
  have value : leaf.value = .reference r := by
    unfold Leaf.written? at held
    split at held
    next value =>
      cases held
      exact value
    next => cases held
  exact nullifyAll_judges "" attributes values s after state steady ran leaf member r value

theorem nullifyAll_again (steady : s.Steady)
    (ran : (nullifier.nullifyAll attributes values).exec s = (.ok state, after)) :
    Settled (nullifier.nullifyAll attributes state) after state := by
  have judges := nullifyAll_judges "" attributes values s after state steady ran
  have nulled := nullifyAll_answer steady ran
  have again : nullifier.JudgesBy (nullifier.verdict after) (Leaf.among "" attributes state) after := by
    rw [nulled, among_nulledAll]
    intro leaf member r held
    obtain ⟨origin, here, rfl⟩ := List.mem_map.mp member
    exact judges origin here r (Leaf.held_of_nulled held)
  have settled := nullifyAll_settled "" attributes state after again
  have same : nulledAll (nullifier.verdict after) attributes state = state := by
    rw [nulled, nulledAll_nulledAll]
  rwa [same] at settled

end Nullifier

/-- Nulling replaces the references that must not be written, wherever they are written as foreign keys, and
nothing else. Once is enough, and the session has only asked. -/
theorem nullifyAll_minimal {nullifier : Nullifier} {attributes : List Attribute} {values state : List AttributeValue}
    {s after : State} (steady : s.Steady)
    (ran : (nullifier.nullifyAll attributes values).exec s = (.ok state, after)) :
    state.length = values.length ∧ AttributeValue.outlineAll state = AttributeValue.outlineAll values ∧
      (∀ place ∈ Place.among "" attributes values state, match place.target? with
        | some r => ∃ answer, Settled (nullifier.isNullifiable (.reference r)) after answer ∧
            place.after = if answer then .null else place.before
        | none => place.after = place.before) ∧
      Settled (nullifier.nullifyAll attributes state) after state ∧
      ∃ calls rows statistics, after = s.asking calls rows statistics ∧ (∀ call ∈ calls, call.isWrite = false) ∧
        s.shared.statistics.CountsReads statistics := by
  have outline : AttributeValue.outlineAll state = AttributeValue.outlineAll values := by
    rw [Nullifier.nullifyAll_answer steady ran, AttributeValue.outlineAll_nulledAll]
  have length := congrArg List.length outline
  rw [AttributeValue.length_outlineAll, AttributeValue.length_outlineAll] at length
  refine ⟨length, outline, fun place member => ?_, Nullifier.nullifyAll_again steady ran, ?_⟩
  · have left := Nullifier.nullifyAll_after steady ran member
    split
    next r target =>
      rw [target] at left
      exact ⟨_, Nullifier.nullifyAll_decided steady ran member target, left⟩
    next untargeted =>
      rw [untargeted] at left
      exact left
  · have counts := (Nullifier.nullifyAll_keeps Statistics.CountsReads.admits nullifier attributes values s).of_exec ran
    obtain ⟨calls, rows, statistics, reads, -, -⟩ := (Nullifier.nullifyAll_asks nullifier attributes values s).of_exec ran
    exact ⟨calls, rows, statistics, rfl, fun call member => Call.isWrite_of_isQuestion (reads call member), counts⟩

open Sample in
/-- Both references below the route are replaced, and the one beyond the attributes is not. -/
theorem nullifyAll_minimal_parcel : ∃ after,
    (Nullifier.nullifyAll ⟨some ⟨0⟩, false, false⟩ parcel.attributes sentParcel).exec depot = (.ok nulledParcel, after) ∧
      Settled (Nullifier.nullifyAll ⟨some ⟨0⟩, false, false⟩ parcel.attributes nulledParcel) after nulledParcel ∧
      ∃ answer, Settled (Nullifier.isNullifiable ⟨some ⟨0⟩, false, false⟩ (.reference (.loaded ⟨2⟩))) after answer ∧
        AttributeValue.null = if answer then .null else .reference (.loaded ⟨2⟩) := by
  have ran : (Nullifier.nullifyAll ⟨some ⟨0⟩, false, false⟩ parcel.attributes sentParcel).exec depot =
      (.ok nulledParcel, depot) := rfl
  obtain ⟨-, -, places, again, -⟩ := nullifyAll_minimal depot_steady ran
  have member : ⟨some ("route.agent", .manyToOne "agent" "Customer"), .reference (.loaded ⟨2⟩), .null⟩ ∈
      Place.among "" parcel.attributes sentParcel nulledParcel := .tail _ (.tail _ (.head _))
  exact ⟨depot, ran, again, places _ member⟩

end UnitOfWork
