import UnitOfWork.Proofs.SettledAnswers

/-! The foreign keys of a state, at any depth of embedding. Nulling is described as a map over them and
collecting as a selection from them, both by one judgement of references, so that what is nulled and what
is waited for can be compared. -/

namespace UnitOfWork

/-- A place that is written as a foreign key of the row. -/
structure Leaf where
  /-- Attribute names from the entity down, joined by points. -/
  path : String
  mapping : Attribute
  value : AttributeValue

namespace Leaf

def ofKind (path : String) (a : Attribute) (value : AttributeValue) : List Leaf :=
  match a.kind with
  | .manyToOne _ | .any => [⟨path, a, value⟩]
  | _ => []

theorem value_of_mem_ofKind {path : String} {a : Attribute} {value : AttributeValue} {leaf : Leaf}
    (member : leaf ∈ ofKind path a value) : leaf.value = value := by
  unfold ofKind at member
  split at member
  · rw [List.mem_singleton.mp member]
  · rw [List.mem_singleton.mp member]
  · cases member

mutual

def below (path : String) (a : Attribute) : AttributeValue → List Leaf
  | .embedded children =>
    match a.kind with
    | .embedded _ attributes => among (path ++ ".") attributes children
    | _ => ofKind path a (.embedded children)
  | value => ofKind path a value

/-- The foreign keys of a list of attributes, in their order. Names are appended to `stem` to give the
paths. -/
def among (stem : String) : List Attribute → List AttributeValue → List Leaf
  | a :: attributes, value :: values => below (stem ++ a.name) a value ++ among stem attributes values
  | _, _ => []

end

/-- A reference that is judged not to be writable is replaced by null. -/
def nulled (judge : Reference → Bool) (leaf : Leaf) : Leaf :=
  match leaf.value with
  | .reference r => if judge r then { leaf with value := .null } else leaf
  | _ => leaf

/-- A reference that is judged not to be writable where null is not allowed. -/
def dependency? (judge : Reference → Bool) (leaf : Leaf) : Option Dependency :=
  match leaf.value with
  | .reference r => if !leaf.mapping.nullable && judge r then some ⟨leaf.path, r⟩ else none
  | _ => none

@[simp] theorem nulled_mapping (judge : Reference → Bool) (leaf : Leaf) :
    (leaf.nulled judge).mapping = leaf.mapping := by
  unfold nulled
  split
  · split <;> rfl
  · rfl

end Leaf

/-- What is waited for, with these foreign keys and this judgement. -/
def waits (judge : Reference → Bool) (leaves : List Leaf) : List Dependency :=
  leaves.filterMap (Leaf.dependency? judge)

mutual

def nulled (judge : Reference → Bool) (a : Attribute) : AttributeValue → AttributeValue
  | .embedded children =>
    match a.kind with
    | .embedded _ attributes => .embedded (nulledAll judge attributes children)
    | _ => .embedded children
  | .reference r =>
    match a.kind with
    | .manyToOne _ | .any => if judge r then .null else .reference r
    | _ => .reference r
  | value => value

def nulledAll (judge : Reference → Bool) : List Attribute → List AttributeValue → List AttributeValue
  | _, [] => []
  | [], value :: values => value :: values
  | a :: attributes, value :: values => nulled judge a value :: nulledAll judge attributes values

end

private theorem below_judged (judge : Reference → Bool) (path : String) (a : Attribute) (r : Reference)
    (written : Leaf.ofKind path a (.reference r) = [⟨path, a, .reference r⟩])
    (nullable : Leaf.ofKind path a .null = [⟨path, a, .null⟩]) :
    Leaf.below path a (if judge r then .null else .reference r) =
      (Leaf.below path a (.reference r)).map (Leaf.nulled judge) := by
  cases judged : judge r with
  | true => simp [Leaf.below, written, nullable, Leaf.nulled, judged]
  | false => simp [Leaf.below, written, Leaf.nulled, judged]

mutual

theorem below_nulled (judge : Reference → Bool) (path : String) (a : Attribute) : ∀ value : AttributeValue,
    Leaf.below path a (nulled judge a value) = (Leaf.below path a value).map (Leaf.nulled judge)
  | .embedded children => by
    cases kind : a.kind with
    | embedded name attributes =>
      simp only [nulled, Leaf.below, kind]
      exact among_nulledAll judge (path ++ ".") attributes children
    | basic | manyToOne _ | oneToOne _ | any => simp [nulled, Leaf.below, Leaf.ofKind, kind, Leaf.nulled]
  | .reference r => by
    cases kind : a.kind with
    | manyToOne _ | any =>
      simp only [nulled, kind]
      exact below_judged judge path a r (by simp [Leaf.ofKind, kind]) (by simp [Leaf.ofKind, kind])
    | basic | oneToOne _ | embedded _ _ => simp [nulled, Leaf.below, Leaf.ofKind, kind]
  | .null | .basic _ | .foreignKey _ | .anyKey _ _ | .unfetched => by
    simp only [nulled, Leaf.below, Leaf.ofKind]
    split <;> rfl

theorem among_nulledAll (judge : Reference → Bool) (stem : String) : ∀ (attributes : List Attribute)
    (values : List AttributeValue),
    Leaf.among stem attributes (nulledAll judge attributes values) =
      (Leaf.among stem attributes values).map (Leaf.nulled judge)
  | a :: attributes, value :: values => by
    simp only [nulledAll, Leaf.among, List.map_append]
    rw [below_nulled judge, among_nulledAll judge]
  | [], values => by
    cases values <;> rfl
  | _ :: _, [] => rfl

end

namespace Nullifier
open UnitOfWork.Action
variable (nullifier : Nullifier)

/-- The references of some foreign keys are judged so now and from now on. -/
def JudgesBy (judge : Reference → Bool) (leaves : List Leaf) (s : State) : Prop :=
  ∀ leaf ∈ leaves, ∀ r, leaf.value = .reference r → Settled (nullifier.isNullifiable (.reference r)) s (judge r)

variable {nullifier} {judge : Reference → Bool}

theorem JudgesBy.mono {leaves : List Leaf} {s after : State} (judges : nullifier.JudgesBy judge leaves s)
    (asks : Asks s after) : nullifier.JudgesBy judge leaves after :=
  fun leaf member r held => (judges leaf member r held).mono asks

theorem JudgesBy.append {first second : List Leaf} {s : State}
    (judges : nullifier.JudgesBy judge (first ++ second) s) :
    nullifier.JudgesBy judge first s ∧ nullifier.JudgesBy judge second s :=
  ⟨fun leaf member => judges leaf (List.mem_append_left _ member),
    fun leaf member => judges leaf (List.mem_append_right _ member)⟩

mutual

theorem nullify_settled (path : String) (a : Attribute) : ∀ (value : AttributeValue) (s : State),
    nullifier.JudgesBy judge (Leaf.below path a value) s →
      Settled (nullifier.nullify a value) s (nulled judge a value)
  | .embedded children, s, judges => by
    cases kind : a.kind with
    | embedded name attributes =>
      simp only [nullify, nulled, kind]
      simp only [Leaf.below, kind] at judges
      exact .bind (nullifyAll_asks nullifier attributes children)
        (nullifyAll_settled (path ++ ".") attributes children s judges) fun _ _ => rfl
    | basic | manyToOne _ | oneToOne _ | any =>
      simp only [nullify, nulled, kind]
      exact fun _ _ => rfl
  | .reference r, s, judges => by
    have judged (found : (⟨path, a, .reference r⟩ : Leaf) ∈ Leaf.below path a (.reference r)) : Settled (do
        if ← nullifier.isNullifiable (.reference r) then return AttributeValue.null else return .reference r) s
        (if judge r then .null else .reference r) := by
      refine .bind (isNullifiable_asks nullifier _) (judges _ found r rfl) ?_
      cases judge r <;> exact fun _ _ => rfl
    cases kind : a.kind with
    | manyToOne _ | any =>
      simp only [nullify, nulled, kind]
      exact judged (by simp [Leaf.below, Leaf.ofKind, kind])
    | basic | oneToOne _ | embedded _ _ =>
      simp only [nullify, nulled, kind]
      exact fun _ _ => rfl
  | .null, s, _ | .basic _, s, _ | .foreignKey _, s, _ | .anyKey _ _, s, _ | .unfetched, s, _ => fun _ _ => rfl

/-- Nulling follows the judgement of the references it meets. -/
theorem nullifyAll_settled (stem : String) : ∀ (attributes : List Attribute) (values : List AttributeValue)
    (s : State), nullifier.JudgesBy judge (Leaf.among stem attributes values) s →
      Settled (nullifier.nullifyAll attributes values) s (nulledAll judge attributes values)
  | a :: attributes, value :: values, s, judges => by
    simp only [Leaf.among] at judges
    unfold nullifyAll nulledAll
    refine .bind (nullify_asks nullifier a value) (nullify_settled (stem ++ a.name) a value s judges.append.1) ?_
    exact .bind (nullifyAll_asks nullifier attributes values)
      (nullifyAll_settled stem attributes values s judges.append.2) fun _ _ => rfl
  | [], value :: values, s, _ => fun _ _ => rfl
  | attributes, [], s, _ => by
    unfold nullifyAll nulledAll
    exact fun _ _ => rfl

end

def required (leaves : List Leaf) : List Leaf := leaves.filter fun leaf => !leaf.mapping.nullable

theorem required_nulled {leaves : List Leaf}
    (writable : ∀ leaf ∈ required leaves, ∀ r, leaf.value = .reference r → judge r = false) :
    required (leaves.map (Leaf.nulled judge)) = required leaves := by
  have mapped : required (leaves.map (Leaf.nulled judge)) = (required leaves).map (Leaf.nulled judge) := by
    simp only [required, List.filter_map, Function.comp_def, Leaf.nulled_mapping]
  have same : ∀ leaf ∈ required leaves, leaf.nulled judge = leaf := by
    intro leaf member
    unfold Leaf.nulled
    split
    next r value => rw [writable leaf member r value, if_neg Bool.false_ne_true]
    next => rfl
  rw [mapped, List.map_congr_left same, List.map_id']

mutual

theorem collect_settled (path : String) (a : Attribute) : ∀ (value : AttributeValue) (s : State),
    nullifier.JudgesBy judge (required (Leaf.below path a value)) s →
      Settled (nullifier.collect path a value) s (waits judge (Leaf.below path a value))
  | .embedded children, s, judges => by
    cases kind : a.kind with
    | embedded name attributes =>
      simp only [Leaf.below, kind] at judges
      simp only [collect, Leaf.below, kind]
      exact collectAll_settled (path ++ ".") attributes children s judges
    | basic | manyToOne _ | oneToOne _ | any =>
      simp only [collect, Leaf.below, Leaf.ofKind, kind]
      exact fun _ _ => rfl
  | .reference r, s, judges => by
    have judged (strict : a.nullable = false)
        (found : (⟨path, a, .reference r⟩ : Leaf) ∈ Leaf.below path a (.reference r)) : Settled (do
        if ← nullifier.isNullifiable (.reference r) then return [Dependency.mk path r] else return []) s
        (waits judge [⟨path, a, .reference r⟩]) := by
      have needed : (⟨path, a, .reference r⟩ : Leaf) ∈ required (Leaf.below path a (.reference r)) :=
        List.mem_filter.mpr ⟨found, by simp [strict]⟩
      refine .bind (isNullifiable_asks nullifier _) (judges _ needed r rfl) ?_
      cases verdict : judge r <;> exact fun _ _ => by simp [waits, Leaf.dependency?, strict, verdict, exec_pure]
    cases kind : a.kind with
    | manyToOne _ | any =>
      simp only [collect, kind]
      cases strict : a.nullable with
      | true => exact fun _ _ => by simp [waits, Leaf.below, Leaf.ofKind, kind, Leaf.dependency?, strict]
      | false =>
        have leaves : Leaf.below path a (.reference r) = [⟨path, a, .reference r⟩] := by
          simp [Leaf.below, Leaf.ofKind, kind]
        rw [leaves]
        exact judged strict (by simp [leaves])
    | basic | oneToOne _ | embedded _ _ =>
      simp only [collect, Leaf.below, Leaf.ofKind, kind]
      exact fun _ _ => rfl
  | .null, s, _ | .basic _, s, _ | .foreignKey _, s, _ | .anyKey _ _, s, _ | .unfetched, s, _ => fun _ _ => by
    simp only [collect, Leaf.below, Leaf.ofKind]
    split <;> rfl

/-- Collecting follows the judgement of the references that may not be null. -/
theorem collectAll_settled (stem : String) : ∀ (attributes : List Attribute) (values : List AttributeValue)
    (s : State), nullifier.JudgesBy judge (required (Leaf.among stem attributes values)) s →
      Settled (nullifier.collectAll stem attributes values) s (waits judge (Leaf.among stem attributes values))
  | a :: attributes, value :: values, s, judges => by
    simp only [Leaf.among, required, List.filter_append] at judges
    simp only [collectAll, Leaf.among, waits, List.filterMap_append]
    refine .bind (collect_asks nullifier _ a value) (collect_settled (stem ++ a.name) a value s judges.append.1) ?_
    exact .bind (collectAll_asks nullifier stem attributes values)
      (collectAll_settled stem attributes values s judges.append.2) fun _ _ => rfl
  | [], values, s, _ => by
    unfold collectAll Leaf.among
    exact fun _ _ => rfl
  | _ :: _, [], s, _ => fun _ _ => rfl

end

/-- The judgement of references in a state, false where it fails. -/
def verdict (nullifier : Nullifier) (s : State) (r : Reference) : Bool :=
  match ((nullifier.isNullifiable (.reference r)).exec s).1 with
  | .ok answer => answer
  | .error _ => false

theorem verdict_eq {s : State} {r : Reference} {answer : Bool}
    (settled : Settled (nullifier.isNullifiable (.reference r)) s answer) : nullifier.verdict s r = answer := by
  unfold verdict
  rw [settled s (AsksBy.refl s)]

theorem isNullifiable_judges {s after : State} {r : Reference} {answer : Bool} (steady : s.Steady)
    (asked : (nullifier.isNullifiable (.reference r)).exec s = (.ok answer, after)) :
    Settled (nullifier.isNullifiable (.reference r)) after (nullifier.verdict after r) := by
  have settled := isNullifiable_settles nullifier (.reference r) steady answer after asked
  rwa [verdict_eq settled]

theorem JudgesBy.later {leaves : List Leaf} {s after : State}
    (judges : nullifier.JudgesBy (nullifier.verdict s) leaves s) (asks : Asks s after) :
    nullifier.JudgesBy (nullifier.verdict after) leaves after := by
  intro leaf member r held
  have settled := (judges leaf member r held).mono asks
  rwa [verdict_eq settled]

theorem JudgesBy.join {first second : List Leaf} {s after : State}
    (judges : nullifier.JudgesBy (nullifier.verdict s) first s) (asks : Asks s after)
    (others : nullifier.JudgesBy (nullifier.verdict after) second after) :
    nullifier.JudgesBy (nullifier.verdict after) (first ++ second) after := by
  intro leaf member r held
  rcases List.mem_append.mp member with early | late
  · exact judges.later asks leaf early r held
  · exact others leaf late r held

mutual

theorem nullify_judges (path : String) (a : Attribute) : ∀ (value : AttributeValue) (s after : State)
    (result : AttributeValue), s.Steady → (nullifier.nullify a value).exec s = (.ok result, after) →
      nullifier.JudgesBy (nullifier.verdict after) (Leaf.below path a value) after
  | .embedded children, s, after, result, steady, ran => by
    cases kind : a.kind with
    | embedded name attributes =>
      simp only [nullify, kind] at ran
      simp only [Leaf.below, kind]
      obtain ⟨_, middle, began, ended⟩ := bind_ok ran
      cases ended
      exact nullifyAll_judges (path ++ ".") attributes children s _ _ steady began
    | basic | manyToOne _ | oneToOne _ | any =>
      intro leaf member r held
      simp only [Leaf.below, kind] at member
      rw [Leaf.value_of_mem_ofKind member] at held
      cases held
  | .reference r, s, after, result, steady, ran => by
    intro leaf member other held
    simp only [Leaf.below] at member
    obtain rfl : r = other := by
      rw [Leaf.value_of_mem_ofKind member] at held
      exact AttributeValue.reference.inj held
    cases kind : a.kind with
    | manyToOne _ | any =>
      simp only [nullify, kind] at ran
      obtain ⟨answer, middle, began, ended⟩ := bind_ok ran
      cases answer <;> cases ended <;> exact isNullifiable_judges steady began
    | basic | oneToOne _ | embedded _ _ =>
      simp only [Leaf.ofKind, kind] at member
      cases member
  | .null, _, _, _, _, _ | .basic _, _, _, _, _, _ | .foreignKey _, _, _, _, _, _ | .anyKey _ _, _, _, _, _, _
  | .unfetched, _, _, _, _, _ => by
    intro leaf member r held
    simp only [Leaf.below] at member
    rw [Leaf.value_of_mem_ofKind member] at held
    cases held

theorem nullifyAll_judges (stem : String) : ∀ (attributes : List Attribute) (values : List AttributeValue)
    (s after : State) (result : List AttributeValue), s.Steady →
      (nullifier.nullifyAll attributes values).exec s = (.ok result, after) →
      nullifier.JudgesBy (nullifier.verdict after) (Leaf.among stem attributes values) after
  | a :: attributes, value :: values, s, after, result, steady, ran => by
    unfold nullifyAll at ran
    obtain ⟨_, middle, began, ended⟩ := bind_ok ran
    obtain ⟨_, last, went, done⟩ := bind_ok ended
    cases done
    have early : Asks s middle := (nullify_asks nullifier a value s).of_exec began
    have late : Asks middle after := (nullifyAll_asks nullifier attributes values middle).of_exec went
    exact (nullify_judges (stem ++ a.name) a value s middle _ steady began).join late
      (nullifyAll_judges stem attributes values middle after _ (early.steady steady) went)
  | [], _, s, after, result, steady, ran => by
    unfold Leaf.among
    exact fun _ none => nomatch none
  | _ :: _, [], s, after, result, steady, ran => fun _ none => nomatch none

end

mutual

theorem nullify_left (path : String) (a : Attribute) : ∀ (value : AttributeValue) (s after : State)
    (result : AttributeValue), (nullifier.nullify a value).exec s = (.ok result, after) →
      ∀ leaf ∈ Leaf.below path a result, ∀ r, leaf.value = .reference r →
        ∃ asked later, Asks s asked ∧ (nullifier.isNullifiable (.reference r)).exec asked = (.ok false, later)
  | .embedded children, s, after, result, ran => by
    cases kind : a.kind with
    | embedded name attributes =>
      simp only [nullify, kind] at ran
      obtain ⟨_, middle, began, ended⟩ := bind_ok ran
      cases ended
      simp only [Leaf.below, kind]
      exact nullifyAll_left (path ++ ".") attributes children s _ _ began
    | basic | manyToOne _ | oneToOne _ | any =>
      simp only [nullify, kind] at ran
      cases ran
      intro leaf member r held
      simp only [Leaf.below, kind] at member
      rw [Leaf.value_of_mem_ofKind member] at held
      cases held
  | .reference r, s, after, result, ran => by
    intro leaf member other held
    cases kind : a.kind with
    | manyToOne _ | any =>
      simp only [nullify, kind] at ran
      obtain ⟨answer, middle, began, ended⟩ := bind_ok ran
      cases answer <;> cases ended <;> simp only [Leaf.below] at member <;>
        rw [Leaf.value_of_mem_ofKind member] at held <;> cases held
      exact ⟨s, _, AsksBy.refl s, began⟩
    | basic | oneToOne _ | embedded _ _ =>
      simp only [nullify, kind] at ran
      cases ran
      simp only [Leaf.below, Leaf.ofKind, kind] at member
      cases member
  | .null, _, _, _, ran | .basic _, _, _, _, ran | .foreignKey _, _, _, _, ran | .anyKey _ _, _, _, _, ran
  | .unfetched, _, _, _, ran => by
    cases ran
    intro leaf member r held
    simp only [Leaf.below] at member
    rw [Leaf.value_of_mem_ofKind member] at held
    cases held

/-- A reference that nulling leaves has been judged. -/
theorem nullifyAll_left (stem : String) : ∀ (attributes : List Attribute) (values : List AttributeValue)
    (s after : State) (result : List AttributeValue),
      (nullifier.nullifyAll attributes values).exec s = (.ok result, after) →
      ∀ leaf ∈ Leaf.among stem attributes result, ∀ r, leaf.value = .reference r →
        ∃ asked later, Asks s asked ∧ (nullifier.isNullifiable (.reference r)).exec asked = (.ok false, later)
  | a :: attributes, value :: values, s, after, result, ran => by
    unfold nullifyAll at ran
    obtain ⟨_, middle, began, ended⟩ := bind_ok ran
    obtain ⟨_, last, went, done⟩ := bind_ok ended
    cases done
    intro leaf member r held
    rw [Leaf.among] at member
    rcases List.mem_append.mp member with here | below
    · exact nullify_left (stem ++ a.name) a value s middle _ began leaf here r held
    · obtain ⟨asked, later, asks, judged⟩ := nullifyAll_left stem attributes values middle _ _ went leaf below r held
      exact ⟨asked, later, ((nullify_asks nullifier a value s).of_exec began).trans asks, judged⟩
  | [], _, s, after, result, ran => by
    unfold Leaf.among
    exact fun _ none => nomatch none
  | _ :: _, [], s, after, result, ran => by
    cases ran
    exact fun _ none => nomatch none

end

mutual

theorem nullify_settles (a : Attribute) : ∀ (value : AttributeValue) (s : State), s.Steady →
    Settles (nullifier.nullify a value) s
  | .embedded children, s, steady => by
    unfold nullify
    split
    · exact .bind (nullifyAll_asks nullifier _ children) (fun _ s => .pure Asks.frame _ s)
        (nullifyAll_settles _ children s steady) fun _ middle _ => .pure _ middle
    · exact .pure _ s
  | .reference r, s, steady => by
    have judged : Settles (do
        if ← nullifier.isNullifiable (.reference r) then return AttributeValue.null else return .reference r) s := by
      refine .bind (isNullifiable_asks nullifier _) (fun answer s => ?_) (isNullifiable_settles nullifier _ steady)
        fun answer middle _ => ?_
      · cases answer <;> exact .pure Asks.frame _ s
      · cases answer <;> exact .pure _ middle
    unfold nullify
    split
    · exact judged
    · exact judged
    · exact .pure _ s
  | .null, s, _ | .basic _, s, _ | .foreignKey _, s, _ | .anyKey _ _, s, _ | .unfetched, s, _ => .pure _ s

theorem nullifyAll_settles : ∀ (attributes : List Attribute) (values : List AttributeValue) (s : State), s.Steady →
    Settles (nullifier.nullifyAll attributes values) s
  | a :: attributes, value :: values, s, steady => by
    unfold nullifyAll
    refine .bind (nullify_asks nullifier a value) (fun first s => ?_) (nullify_settles a value s steady)
      fun first middle began => ?_
    · exact .bind Asks.frame (nullifyAll_asks nullifier attributes values s) fun _ s _ => .pure Asks.frame _ s
    · have asks : Asks s middle := (nullify_asks nullifier a value s).of_exec began
      exact .bind (nullifyAll_asks nullifier attributes values) (fun _ s => .pure Asks.frame _ s)
        (nullifyAll_settles attributes values middle (asks.steady steady)) fun _ last _ => .pure _ last
  | [], _ :: _, s, _ => .pure _ s
  | attributes, [], s, _ => by
    unfold nullifyAll
    exact .pure _ s

end

/-- What nulling answered is what the judgement of the references, as it is then, says. -/
theorem nullifyAll_answer {attributes : List Attribute} {values state : List AttributeValue} {s after : State}
    (steady : s.Steady) (ran : (nullifier.nullifyAll attributes values).exec s = (.ok state, after)) :
    state = nulledAll (nullifier.verdict after) attributes values := by
  have given := nullifyAll_settles attributes values s steady state after ran
  exact given.eq (nullifyAll_settled "" attributes values after
    (nullifyAll_judges "" attributes values s after state steady ran))

mutual

theorem collect_judges (path : String) (a : Attribute) : ∀ (value : AttributeValue) (s after : State)
    (found : List Dependency), s.Steady → (nullifier.collect path a value).exec s = (.ok found, after) →
      nullifier.JudgesBy (nullifier.verdict after) (required (Leaf.below path a value)) after
  | .embedded children, s, after, found, steady, ran => by
    cases kind : a.kind with
    | embedded name attributes =>
      simp only [collect, kind] at ran
      simp only [Leaf.below, kind]
      exact collectAll_judges (path ++ ".") attributes children s after found steady ran
    | basic | manyToOne _ | oneToOne _ | any =>
      intro leaf member r held
      simp only [Leaf.below, kind] at member
      rw [Leaf.value_of_mem_ofKind (List.mem_filter.mp member).1] at held
      cases held
  | .reference r, s, after, found, steady, ran => by
    intro leaf member other held
    obtain ⟨present, strict⟩ := List.mem_filter.mp member
    simp only [Leaf.below] at present
    have value := Leaf.value_of_mem_ofKind present
    obtain rfl : r = other := by
      rw [value] at held
      exact AttributeValue.reference.inj held
    cases kind : a.kind with
    | manyToOne _ | any =>
      simp only [Leaf.ofKind, kind, List.mem_singleton] at present
      subst leaf
      have strict : a.nullable = false := by simpa using strict
      simp only [collect, kind, strict, Bool.false_eq_true, if_false] at ran
      obtain ⟨answer, middle, began, ended⟩ := bind_ok ran
      cases answer <;> cases ended <;> exact isNullifiable_judges steady began
    | basic | oneToOne _ | embedded _ _ =>
      simp only [Leaf.ofKind, kind] at present
      cases present
  | .null, _, _, _, _, _ | .basic _, _, _, _, _, _ | .foreignKey _, _, _, _, _, _ | .anyKey _ _, _, _, _, _, _
  | .unfetched, _, _, _, _, _ => by
    intro leaf member r held
    simp only [Leaf.below] at member
    rw [Leaf.value_of_mem_ofKind (List.mem_filter.mp member).1] at held
    cases held

theorem collectAll_judges (stem : String) : ∀ (attributes : List Attribute) (values : List AttributeValue)
    (s after : State) (found : List Dependency), s.Steady →
      (nullifier.collectAll stem attributes values).exec s = (.ok found, after) →
      nullifier.JudgesBy (nullifier.verdict after) (required (Leaf.among stem attributes values)) after
  | a :: attributes, value :: values, s, after, found, steady, ran => by
    unfold collectAll at ran
    obtain ⟨_, middle, began, ended⟩ := bind_ok ran
    obtain ⟨_, last, went, done⟩ := bind_ok ended
    cases done
    have early : Asks s middle := (collect_asks nullifier _ a value s).of_exec began
    have late : Asks middle after := (collectAll_asks nullifier stem attributes values middle).of_exec went
    rw [Leaf.among, required, List.filter_append]
    exact (collect_judges (stem ++ a.name) a value s middle _ steady began).join late
      (collectAll_judges stem attributes values middle after _ (early.steady steady) went)
  | [], _, s, after, found, steady, ran => by
    unfold Leaf.among
    exact fun _ none => nomatch none
  | _ :: _, [], s, after, found, steady, ran => fun _ none => nomatch none

end

mutual

theorem collect_settles (path : String) (a : Attribute) : ∀ (value : AttributeValue) (s : State), s.Steady →
    Settles (nullifier.collect path a value) s
  | .embedded children, s, steady => by
    unfold collect
    split
    · exact collectAll_settles _ _ children s steady
    · exact .pure _ s
  | .reference r, s, steady => by
    have judged : Settles (do
        if ← nullifier.isNullifiable (.reference r) then return [Dependency.mk path r] else return []) s := by
      refine .bind (isNullifiable_asks nullifier _) (fun answer s => ?_) (isNullifiable_settles nullifier _ steady)
        fun answer middle _ => ?_
      · cases answer <;> exact .pure Asks.frame _ s
      · cases answer <;> exact .pure _ middle
    unfold collect
    split
    · split
      · exact .pure _ s
      · exact judged
    · split
      · exact .pure _ s
      · exact judged
    · exact .pure _ s
  | .null, s, _ | .basic _, s, _ | .foreignKey _, s, _ | .anyKey _ _, s, _ | .unfetched, s, _ => .pure _ s

theorem collectAll_settles (stem : String) : ∀ (attributes : List Attribute) (values : List AttributeValue)
    (s : State), s.Steady → Settles (nullifier.collectAll stem attributes values) s
  | a :: attributes, value :: values, s, steady => by
    unfold collectAll
    refine .bind (collect_asks nullifier _ a value) (fun first s => ?_) (collect_settles _ a value s steady)
      fun first middle began => ?_
    · exact .bind Asks.frame (collectAll_asks nullifier stem attributes values s) fun _ s _ => .pure Asks.frame _ s
    · have asks : Asks s middle := (collect_asks nullifier _ a value s).of_exec began
      exact .bind (collectAll_asks nullifier stem attributes values) (fun _ s => .pure Asks.frame _ s)
        (collectAll_settles stem attributes values middle (asks.steady steady)) fun _ last _ => .pure _ last
  | [], _, s, _ => by
    unfold collectAll
    exact .pure _ s
  | _ :: _, [], s, _ => .pure _ s

end

theorem collectAll_answer {attributes : List Attribute} {values : List AttributeValue} {found : List Dependency}
    {s after : State} (steady : s.Steady)
    (ran : (nullifier.collectAll "" attributes values).exec s = (.ok found, after)) :
    found = waits (nullifier.verdict after) (Leaf.among "" attributes values) := by
  have given := collectAll_settles "" attributes values s steady found after ran
  exact given.eq (collectAll_settled "" attributes values after
    (collectAll_judges "" attributes values s after found steady ran))

theorem mem_waits {judge : Reference → Bool} {leaves : List Leaf} {dependency : Dependency} :
    dependency ∈ waits judge leaves ↔ ∃ leaf ∈ required leaves, ∃ r, leaf.value = .reference r ∧ judge r = true ∧
      dependency = ⟨leaf.path, r⟩ := by
  unfold waits required
  simp only [List.mem_filterMap, List.mem_filter]
  constructor
  · rintro ⟨leaf, member, found⟩
    unfold Leaf.dependency? at found
    split at found
    next r held =>
      split at found
      next needed =>
        rw [Bool.and_eq_true] at needed
        cases found
        exact ⟨leaf, ⟨member, needed.1⟩, r, held, needed.2, rfl⟩
      next => cases found
    next => cases found
  · rintro ⟨leaf, ⟨member, strict⟩, r, held, judged, rfl⟩
    refine ⟨leaf, member, ?_⟩
    rw [Leaf.dependency?, held]
    simp [strict, judged]

theorem collectAll_empty {attributes : List Attribute} {values : List AttributeValue} {s after : State}
    (steady : s.Steady) (ran : (nullifier.collectAll "" attributes values).exec s = (.ok [], after)) :
    nullifier.JudgesBy (fun _ => false) (required (Leaf.among "" attributes values)) after := by
  have judges := collectAll_judges "" attributes values s after [] steady ran
  intro leaf member r held
  have judged := judges leaf member r held
  have unneeded : nullifier.verdict after r = false := by
    apply Bool.eq_false_iff.mpr
    intro needed
    have waiting := mem_waits.mpr ⟨leaf, member, r, held, needed, rfl⟩
    rw [← collectAll_answer steady ran] at waiting
    cases waiting
  rwa [unneeded] at judged

end Nullifier

end UnitOfWork
