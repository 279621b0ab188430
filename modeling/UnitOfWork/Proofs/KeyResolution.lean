import UnitOfWork.Proofs.LoadInvariant

/-! What becomes of the keys of a row. A key leads to a row by the hierarchy of its target entity, and in a
session it is resolved to the instance that stands for that row, to the removed row, or to a proxy. Resolving
only adds proxies, so that the keys of one row and of the next are resolved alike. -/

namespace UnitOfWork

namespace Metamodel
variable (model : Metamodel)

def keyOf? (entity : String) (id : Identifier) : Option EntityKey :=
  (model.find? entity).map fun d => d.keyFor id

/-- The row that a hydrated key leads to. -/
def targetKey? (a : Attribute) : AttributeValue → Option EntityKey
  | .foreignKey id => a.kind.target?.bind fun target => model.keyOf? target id
  | .anyKey target id => model.keyOf? target id
  | _ => none

mutual

/-- The rows that the keys of a value lead to, at any depth of embedding. -/
def keysBelow (a : Attribute) : AttributeValue → List EntityKey
  | .embedded children =>
    match a.kind with
    | .embedded _ attributes => keysAmong attributes children
    | _ => []
  | value => (model.targetKey? a value).toList

def keysAmong : List Attribute → List AttributeValue → List EntityKey
  | a :: attributes, value :: values => keysBelow a value ++ keysAmong attributes values
  | _, _ => []

end

mutual

def leads (a : Attribute) : AttributeValue → Bool
  | .embedded children =>
    match a.kind with
    | .embedded _ attributes => leadAll attributes children
    | _ => true
  | .foreignKey id => (model.targetKey? a (.foreignKey id)).isSome
  | .anyKey target id => (model.targetKey? a (.anyKey target id)).isSome
  | _ => true

def leadAll : List Attribute → List AttributeValue → Bool
  | a :: attributes, value :: values => leads a value && leadAll attributes values
  | _, _ => true

end

mutual

/-- A value with its keys replaced by what is found for the rows they lead to. -/
def resolved (look : EntityKey → Reference) (a : Attribute) : AttributeValue → AttributeValue
  | .embedded children =>
    match a.kind with
    | .embedded _ attributes => .embedded (resolvedAll look attributes children)
    | _ => .embedded children
  | value =>
    match model.targetKey? a value with
    | some key => .reference (look key)
    | none => value

def resolvedAll (look : EntityKey → Reference) : List Attribute → List AttributeValue → List AttributeValue
  | a :: attributes, value :: values => resolved look a value :: resolvedAll look attributes values
  | _, _ => []

end

end Metamodel

namespace Context

/-- What a session has for a row. -/
def referenceTo (context : Context) (key : EntityKey) : Reference :=
  match context.entity? key with
  | some h =>
    if (context.entry? h).any fun entry => entry.status.isDeletedOrGone then .removed key else .loaded h
  | none => .notLoaded key

def withProxies (context : Context) (readOnly : Bool) (keys : List EntityKey) : Context :=
  keys.foldl (fun context key => if context.containsKey key then context else context.addProxy key readOnly) context

variable (context : Context) (readOnly : Bool)

theorem containsKey_eq (key : EntityKey) : context.containsKey key = (context.entity? key).isSome :=
  Registry.contains_eq_isSome _ _

theorem entity?_congr {key other : EntityKey} (same : (key == other) = true) :
    context.entity? key = context.entity? other := Registry.find?_congr _ same

theorem withProxies_singleton (key : EntityKey) : context.withProxies readOnly [key] =
    if context.containsKey key then context else context.addProxy key readOnly := rfl

theorem withProxies_append (first second : List EntityKey) : context.withProxies readOnly (first ++ second) =
    (context.withProxies readOnly first).withProxies readOnly second := by
  unfold withProxies
  exact List.foldl_append

theorem withProxies_eq (keys : List EntityKey) :
    ∃ proxies, context.withProxies readOnly keys = { context with proxies } := by
  induction keys generalizing context with
  | nil => exact ⟨context.proxies, rfl⟩
  | cons key rest ih =>
    have added : ∃ proxies, context.withProxies readOnly [key] = { context with proxies } := by
      rw [withProxies_singleton]
      split
      · exact ⟨_, rfl⟩
      · exact ⟨_, rfl⟩
    obtain ⟨proxies, first⟩ := added
    obtain ⟨others, last⟩ := ih { context with proxies }
    rw [← List.singleton_append, withProxies_append, first, last]
    exact ⟨others, rfl⟩

@[simp] theorem entity?_withProxies (keys : List EntityKey) (key : EntityKey) :
    (context.withProxies readOnly keys).entity? key = context.entity? key := by
  obtain ⟨proxies, same⟩ := context.withProxies_eq readOnly keys
  rw [same]
  rfl

@[simp] theorem entry?_withProxies (keys : List EntityKey) (h : Handle) :
    Context.entry? (context.withProxies readOnly keys) h = context.entry? h := by
  obtain ⟨proxies, same⟩ := context.withProxies_eq readOnly keys
  rw [same]
  rfl

theorem proxy?_addProxy (key other : EntityKey) : (context.addProxy key readOnly).proxy? other =
    if (key == other) = true ∧ context.proxy? key = none then some readOnly else context.proxy? other :=
  Registry.find?_insertIfNew _ _ _ _

/-- A row without an instance and without a proxy gets one if some key leads to it. -/
theorem proxy?_withProxies (keys : List EntityKey) (other : EntityKey) :
    (context.withProxies readOnly keys).proxy? other =
      if context.proxy? other = none ∧ context.entity? other = none ∧ keys.any (· == other) = true
        then some readOnly else context.proxy? other := by
  induction keys generalizing context with
  | nil => simp [withProxies]
  | cons key rest ih =>
    rw [← List.singleton_append, withProxies_append, ih, entity?_withProxies, withProxies_singleton,
      List.any_append, List.any_cons, List.any_nil, Bool.or_false]
    by_cases same : (key == other) = true
    · have held : context.entity? key = context.entity? other := context.entity?_congr same
      have noted : context.proxy? key = context.proxy? other := Registry.find?_congr _ same
      rw [containsKey_eq, held]
      cases context.entity? other with
      | some h => simp
      | none => cases here : context.proxy? other <;> simp [proxy?_addProxy, same, noted, here]
    · have kept : (if context.containsKey key = true then context else context.addProxy key readOnly).proxy? other =
          context.proxy? other := by
        split
        · rfl
        · rw [proxy?_addProxy, if_neg fun both => same both.1]
      simp [kept, same]

@[simp] theorem referenceTo_withProxies (keys : List EntityKey) :
    (context.withProxies readOnly keys).referenceTo = context.referenceTo := by
  funext key
  simp only [referenceTo, entity?_withProxies, entry?_withProxies]

end Context

namespace State

def proxying (s : State) (keys : List EntityKey) : State :=
  s.mapContext fun _ => s.context.withProxies s.session.config.readOnly keys

variable (s : State)

theorem proxying_append (first second : List EntityKey) :
    s.proxying (first ++ second) = (s.proxying first).proxying second := by
  unfold proxying
  rw [Context.withProxies_append]
  rfl

theorem entity?_proxying (keys : List EntityKey) (key : EntityKey) :
    (s.proxying keys).context.entity? key = s.context.entity? key := Context.entity?_withProxies _ _ _ _

theorem referenceTo_proxying (keys : List EntityKey) :
    (s.proxying keys).context.referenceTo = s.context.referenceTo := Context.referenceTo_withProxies _ _ _

end State

def Batch.Known (batch : Batch) (context : Context) : Prop :=
  ∀ key, context.entity? key = none → batch.handle? key = none

theorem Batch.Known.proxying {batch : Batch} {s : State} (known : batch.Known s.context) (keys : List EntityKey) :
    batch.Known (s.proxying keys).context := by
  intro key missing
  rw [State.entity?_proxying] at missing
  exact known key missing

namespace Action
variable {batch : Batch} {s : State}

theorem descriptor_known {entity : String} {d : Descriptor} (found : s.session.factory.metamodel.find? entity = some d) :
    s.session.descriptor entity = .ok d := by
  unfold Session.descriptor Metamodel.descriptor
  rw [found]

theorem descriptor_unknown {entity : String} (missing : s.session.factory.metamodel.find? entity = none) :
    s.session.descriptor entity = .error (.unknownEntity entity) := by
  unfold Session.descriptor Metamodel.descriptor
  rw [missing]

theorem resolveReference_exec (known : batch.Known s.context) {entity : String} {id : Identifier} {key : EntityKey}
    (target : s.session.factory.metamodel.keyOf? entity id = some key) :
    (resolveReference batch entity id).exec s =
      (.ok (.reference (s.context.referenceTo key)), s.proxying [key]) := by
  obtain ⟨d, found, rfl⟩ := Option.map_eq_some_iff.mp target
  unfold resolveReference
  rw [exec_bind, exec_descriptor, descriptor_known found]
  dsimp only
  rw [exec_get_bind]
  cases standing : s.context.entity? (d.keyFor id) with
  | some h =>
    have unchanged : s.proxying [d.keyFor id] = s := by
      unfold State.proxying
      rw [Context.withProxies_singleton, if_pos]
      · rfl
      · rw [Context.containsKey_eq, standing]
        rfl
    rw [unchanged]
    simp only [Context.referenceTo, standing]
    split <;> rfl
  | none =>
    have added : s.proxying [d.keyFor id] =
        s.mapContext fun context => context.addProxy (d.keyFor id) s.session.config.readOnly := by
      unfold State.proxying
      rw [Context.withProxies_singleton, if_neg]
      · rfl
      · rw [Context.containsKey_eq, standing]
        exact Bool.false_ne_true
    rw [added]
    simp only [Context.referenceTo, standing, known _ standing]
    rfl

theorem resolveReference_unknown {entity : String} {id : Identifier}
    (unknown : s.session.factory.metamodel.keyOf? entity id = none) :
    (resolveReference batch entity id).exec s = (.error (.unknownEntity entity), s) := by
  unfold resolveReference
  rw [exec_bind, exec_descriptor, descriptor_unknown (Option.map_eq_none_iff.mp unknown)]

/-- How resolving ends: with what a session has for the rows that the keys lead to, or at a key that leads
nowhere. -/
inductive Resolution {α : Type} (action : Action α) (leads : Bool) (value : α) (keys : List EntityKey) (s : State) : Prop
  | done (sound : leads = true) (ran : action.exec s = (.ok value, s.proxying keys))
  | lost (e : Error) (some_ : List EntityKey) (among : some_ ⊆ keys) (unsound : leads = false)
      (ran : action.exec s = (.error e, s.proxying some_))

theorem Resolution.pure {α : Type} (value : α) (s : State) : Resolution (pure value : Action α) true value [] s :=
  .done rfl rfl

private theorem resolve_key (known : batch.Known s.context) {a : Attribute} {value : AttributeValue} {entity : String}
    {id : Identifier} (target : s.session.factory.metamodel.targetKey? a value =
      s.session.factory.metamodel.keyOf? entity id) :
    Resolution (resolveReference batch entity id) (s.session.factory.metamodel.targetKey? a value).isSome
      (match s.session.factory.metamodel.targetKey? a value with
        | some key => .reference (s.context.referenceTo key)
        | none => value)
      (s.session.factory.metamodel.targetKey? a value).toList s := by
  rw [target]
  cases found : s.session.factory.metamodel.keyOf? entity id with
  | some key => exact .done rfl (resolveReference_exec known found)
  | none => exact .lost _ [] (List.Subset.refl _) rfl (resolveReference_unknown found)

mutual

theorem resolve_resolution (batch : Batch) (entity : String) (a : Attribute) : ∀ (value : AttributeValue) (s : State),
    batch.Known s.context → Resolution (resolve batch entity a value) (s.session.factory.metamodel.leads a value)
      (s.session.factory.metamodel.resolved s.context.referenceTo a value)
      (s.session.factory.metamodel.keysBelow a value) s
  | .foreignKey id, s, known => by
    unfold resolve Metamodel.leads Metamodel.resolved Metamodel.keysBelow
    cases mapped : a.kind.target? with
    | some target => exact resolve_key known (by simp only [Metamodel.targetKey?, mapped, Option.bind_some])
    | none =>
      have nowhere : s.session.factory.metamodel.targetKey? a (.foreignKey id) = none := by
        simp only [Metamodel.targetKey?, mapped, Option.bind_none]
      rw [nowhere]
      exact .lost _ [] (List.Subset.refl _) rfl rfl
  | .anyKey target id, s, known => by
    unfold resolve Metamodel.leads Metamodel.resolved Metamodel.keysBelow
    exact resolve_key known rfl
  | .embedded children, s, known => by
    unfold resolve Metamodel.leads Metamodel.resolved Metamodel.keysBelow
    cases a.kind with
    | embedded name attributes =>
      cases resolveAll_resolution batch entity attributes children s known with
      | done sound ran => exact .done sound (exec_bind_ok _ ran)
      | lost e some_ among unsound ran => exact .lost e some_ among unsound (exec_bind_error _ ran)
    | basic | manyToOne _ | oneToOne _ | any => exact .pure _ s
  | .null, s, _ | .basic _, s, _ | .reference _, s, _ | .unfetched, s, _ => .pure _ s

theorem resolveAll_resolution (batch : Batch) (entity : String) : ∀ (attributes : List Attribute)
    (values : List AttributeValue) (s : State), batch.Known s.context →
      Resolution (resolveAll batch entity attributes values) (s.session.factory.metamodel.leadAll attributes values)
        (s.session.factory.metamodel.resolvedAll s.context.referenceTo attributes values)
        (s.session.factory.metamodel.keysAmong attributes values) s
  | a :: attributes, value :: values, s, known => by
    unfold resolveAll Metamodel.leadAll Metamodel.resolvedAll Metamodel.keysAmong
    cases resolve_resolution batch entity a value s known with
    | lost e some_ among unsound ran =>
      refine .lost e some_ (List.Subset.trans among (List.subset_append_left _ _)) ?_ (exec_bind_error _ ran)
      rw [unsound, Bool.false_and]
    | done sound ran =>
      have rest := resolveAll_resolution batch entity attributes values _ (known.proxying
        (s.session.factory.metamodel.keysBelow a value))
      rw [State.referenceTo_proxying] at rest
      cases rest with
      | lost e some_ among unsound ran' =>
        refine .lost e (s.session.factory.metamodel.keysBelow a value ++ some_)
          (List.append_subset.mpr ⟨List.subset_append_left _ _, List.Subset.trans among (List.subset_append_right _ _)⟩) ?_ ?_
        · rw [sound, Bool.true_and]
          exact unsound
        · rw [exec_bind_ok _ ran, exec_bind_error _ ran', ← State.proxying_append]
      | done sound' ran' =>
        refine .done ?_ ?_
        · rw [sound, Bool.true_and]
          exact sound'
        · rw [exec_bind_ok _ ran, exec_bind_ok _ ran', State.proxying_append]
          rfl
  | [], values, s, _ => by
    unfold resolveAll Metamodel.leadAll Metamodel.resolvedAll Metamodel.keysAmong
    exact .pure _ s
  | _ :: _, [], s, _ => .pure _ s

end

end Action

end UnitOfWork
