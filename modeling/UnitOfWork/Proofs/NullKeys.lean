import UnitOfWork.Proofs.CleanLoads

/-! Which keys read from a row are null. No row can be loaded if one column of its identifier is null, but a reference is
only taken for null if all columns of its key are. So a key is null just when some of its columns are null and others
are not, which takes more than one column, and only for such a key a load adds a proxy that no row can replace. -/

namespace UnitOfWork
open UnitOfWork.Action

namespace AttributeValue

mutual

/-- The identifiers in the keys of a value, at any depth of embedding. -/
def identifiers : AttributeValue → List Identifier
  | .foreignKey id | .anyKey _ id => [id]
  | .embedded children => identifiersAmong children
  | _ => []

def identifiersAmong : List AttributeValue → List Identifier
  | [] => []
  | value :: rest => value.identifiers ++ identifiersAmong rest

end

end AttributeValue

namespace Share

def keyColumns : Share → List Value
  | ⟨.mk _ kind storage, columns⟩ =>
    if storage.lazy then []
    else match kind with
      | .manyToOne _ | .oneToOne _ => columns
      | .any => columns.tail
      | .basic | .embedded _ _ => []

/-- Some columns of the key are null, but others are not. -/
def isHalfNull (share : Share) : Bool :=
  share.keyColumns.any Value.isNull && !share.keyColumns.all Value.isNull

def key (share : Share) : Identifier := .ofColumns share.keyColumns

theorem not_halfNull_of_nulls {share : Share} (nulls : share.keyColumns.all Value.isNull = true) :
    ¬share.isHalfNull = true := by
  simp [isHalfNull, nulls]

theorem not_halfNull_of_keyless {share : Share} (keyless : share.keyColumns = []) : ¬share.isHalfNull = true := by
  simp [isHalfNull, keyless]

theorem filter_halfNull_embedded {name typeName : String} {children : List Attribute} {storage : Storage}
    {columns : List Value} {below : List Share} (fetched : ¬storage.lazy = true) :
    (⟨.mk name (.embedded typeName children) storage, columns⟩ :: below).filter isHalfNull = below.filter isHalfNull :=
  List.filter_cons_of_neg (not_halfNull_of_keyless (if_neg fetched))

theorem isNull_key {share : Share} (named : ¬share.keyColumns.all Value.isNull = true) :
    share.key.isNull = share.isHalfNull := by
  have some_ : share.keyColumns ≠ [] := fun none_ => named (none_ ▸ rfl)
  simp [key, isHalfNull, Identifier.isNull, Identifier.ofColumns, Function.comp_def, Value.isNull_widen, some_,
    Bool.eq_false_iff.mpr named]

end Share

namespace Value

theorem isNull_of_sameAs {a b : Value} (same : a.sameAs b = true) : a.isNull = b.isNull := by
  cases a with
  | null =>
    cases b with
    | null => rfl
    | _ => cases same
  | _ =>
    cases b with
    | null => cases same
    | _ => rfl

theorem any_isNull_of_sameItems {items others : List Value} (same : sameItems items others = true) :
    items.any isNull = others.any isNull := by
  induction items generalizing others with
  | nil =>
    obtain rfl : others = [] := List.eq_nil_of_length_eq_zero (length_of_sameItems same).symm
    rfl
  | cons item items ih =>
    cases others with
    | nil => cases length_of_sameItems same
    | cons other others =>
      rw [sameItems, Bool.and_eq_true] at same
      rw [List.any_cons, List.any_cons, isNull_of_sameAs same.1, ih same.2]

end Value

theorem Identifier.isNull_of_beq {a b : Identifier} (same : (a == b) = true) : a.isNull = b.isNull := by
  have empty : a.columns.isEmpty = b.columns.isEmpty := by
    rw [Bool.eq_iff_iff, List.isEmpty_iff_length_eq_zero, List.isEmpty_iff_length_eq_zero, Value.length_of_sameItems same]
  unfold isNull
  rw [empty, Value.any_isNull_of_sameItems same]

namespace AttributeValue

theorem identifiers_ofColumns (columns : List Value) : (ofColumns columns).identifiers = [] := by
  unfold ofColumns
  split
  · rfl
  · unfold ofValue
    split <;> rfl
  · rfl

theorem identifiersAmong_of_nulls {values : List AttributeValue} (nulls : values.all isNull = true) :
    identifiersAmong values = [] := by
  induction values with
  | nil => rfl
  | cons value values ih =>
    rw [List.all_cons, Bool.and_eq_true] at nulls
    cases value with
    | null => exact ih nulls.2
    | _ => cases nulls.1

end AttributeValue

namespace Share
variable {share : Share} {columns : List Value} {value : AttributeValue}

theorem nullKeys_of_key (absent : share.keyColumns.all Value.isNull = true → value.identifiers = [])
    (present : ¬share.keyColumns.all Value.isNull = true → value.identifiers = [share.key]) :
    value.identifiers.filter Identifier.isNull = ([share].filter isHalfNull).map key := by
  by_cases nulls : share.keyColumns.all Value.isNull = true
  · rw [absent nulls, List.filter_cons_of_neg (not_halfNull_of_nulls nulls)]
    rfl
  · rw [present nulls, List.filter_singleton, List.filter_singleton, isNull_key nulls]
    cases share.isHalfNull <;> rfl

theorem nullKeys_of_keyless (keyless : share.keyColumns = []) (none_ : value.identifiers = []) :
    value.identifiers.filter Identifier.isNull = ([share].filter isHalfNull).map key :=
  nullKeys_of_key (fun _ => none_) fun named => absurd (keyless ▸ rfl) named

theorem nullKeys_ofKeyColumns (keyed : share.keyColumns = columns) :
    (AttributeValue.ofKeyColumns columns).identifiers.filter Identifier.isNull =
      ([share].filter isHalfNull).map key := by
  subst keyed
  refine nullKeys_of_key (fun nulls => ?_) fun named => ?_
  · rw [AttributeValue.ofKeyColumns, if_pos nulls]
    rfl
  · rw [AttributeValue.ofKeyColumns, if_neg named]
    rfl

theorem nullKeys_ofDiscriminated (keyed : share.keyColumns = columns.tail)
    (read : AttributeValue.ofDiscriminated columns = .ok value) :
    value.identifiers.filter Identifier.isNull = ([share].filter isHalfNull).map key := by
  unfold AttributeValue.ofDiscriminated at read
  split at read
  · cases read
  next discriminator id =>
    obtain rfl : share.keyColumns = id := keyed
    refine nullKeys_of_key (fun nulls => ?_) fun named => ?_
    · rw [if_pos nulls] at read
      cases read
      rfl
    · rw [if_neg named] at read
      split at read <;> cases read
      rfl

end Share

namespace Descriptor
variable {d : Descriptor} {id : Identifier}

mutual

/-- The null keys in the value of an attribute are those of its shares that are null in part. -/
theorem hydrateAttribute_nullKeys (known : id.isNull = false) : ∀ (a : Attribute) (columns : List Value)
    (value : AttributeValue), d.hydrateAttribute id a columns = .ok value →
      value.identifiers.filter Identifier.isNull = ((a.shares columns).filter Share.isHalfNull).map Share.key
  | .mk name kind storage, columns, value, read => by
    unfold Attribute.shares
    rcases hydrateAttribute_cases read with ⟨lazy, rfl⟩ | ⟨fetched, reads⟩
    · rw [if_pos lazy]
      exact Share.nullKeys_of_keyless (if_pos lazy) rfl
    · rw [if_neg fetched]
      cases reads with
      | basic => exact Share.nullKeys_of_keyless (if_neg fetched) (AttributeValue.identifiers_ofColumns columns)
      | manyToOne | oneToOne => exact Share.nullKeys_ofKeyColumns (if_neg fetched)
      | any found => exact Share.nullKeys_ofDiscriminated (if_neg fetched) found
      | @shared target none_ =>
        -- The identifier of the owner is known, so that it is no null key.
        have keyless : (Share.mk (.mk name (.oneToOne target) storage) columns).keyColumns = [] := (if_neg fetched).trans none_
        rw [List.filter_cons_of_neg (Share.not_halfNull_of_keyless keyless), AttributeValue.identifiers,
          List.filter_cons_of_neg (Bool.eq_false_iff.mp known)]
        rfl
      | nulls below nulls =>
        rw [Share.filter_halfNull_embedded fetched, ← hydrateChildren_nullKeys known name _ columns _ below,
          AttributeValue.identifiersAmong_of_nulls nulls]
        rfl
      | embedded below =>
        rw [Share.filter_halfNull_embedded fetched]
        exact hydrateChildren_nullKeys known name _ columns _ below

theorem hydrateChildren_nullKeys (known : id.isNull = false) (owner : String) : ∀ (attributes : List Attribute)
    (columns : List Value) (values : List AttributeValue), d.hydrateChildren id owner attributes columns = .ok values →
      (AttributeValue.identifiersAmong values).filter Identifier.isNull =
        ((sharesAmong attributes columns).filter Share.isHalfNull).map Share.key
  | [], columns, values, read => by
    unfold hydrateChildren at read
    cases read
    rfl
  | a :: attributes, columns, values, read => by
    obtain ⟨-, value, others, first, rest, rfl⟩ := hydrateChildren_cons_ok_iff.mp read
    rw [AttributeValue.identifiersAmong, sharesAmong, List.filter_append, List.filter_append, List.map_append,
      hydrateAttribute_nullKeys known a _ value first, hydrateChildren_nullKeys known owner attributes _ others rest]

end

/-- The null keys that are read from a row are the keys that are null in part. -/
theorem hydrateRow_nullKeys {row : Row} {key : EntityKey} {state : List AttributeValue}
    (read : d.hydrateRow row = .ok (key, state)) : (AttributeValue.identifiersAmong state).filter Identifier.isNull =
      ((d.shares row).filter Share.isHalfNull).map Share.key := by
  obtain ⟨-, known, rfl, children⟩ := hydrateRow_ok_iff.mp read
  rw [hydrateState_ok_iff row ""] at children
  exact hydrateChildren_nullKeys known "" _ _ state children

end Descriptor

namespace Metamodel
variable (model : Metamodel)

theorem id_of_keyOf? {entity : String} {id : Identifier} {key : EntityKey} (found : model.keyOf? entity id = some key) :
    key.id = id := by
  obtain ⟨d, -, rfl⟩ := Option.map_eq_some_iff.mp found
  rfl

mutual

theorem id_mem_identifiers {a : Attribute} {key : EntityKey} : ∀ value : AttributeValue,
    key ∈ model.keysBelow a value → key.id ∈ value.identifiers
  | .embedded children, member => by
    unfold keysBelow at member
    cases kind : a.kind with
    | embedded typeName attributes =>
      rw [kind] at member
      exact id_mem_identifiersAmong children member
    | basic | manyToOne _ | oneToOne _ | any =>
      rw [kind] at member
      cases member
  | .foreignKey id, member => by
    obtain ⟨target, -, found⟩ := Option.bind_eq_some_iff.mp (Option.mem_toList.mp member)
    exact List.mem_singleton.mpr (model.id_of_keyOf? found)
  | .anyKey entity id, member => List.mem_singleton.mpr (model.id_of_keyOf? (Option.mem_toList.mp member))
  | .null, member | .basic _, member | .reference _, member | .unfetched, member => by cases member

theorem id_mem_identifiersAmong {attributes : List Attribute} {key : EntityKey} : ∀ values : List AttributeValue,
    key ∈ model.keysAmong attributes values → key.id ∈ AttributeValue.identifiersAmong values
  | [], member => by
    cases attributes <;> cases member
  | value :: values, member => by
    cases attributes with
    | nil => cases member
    | cons a attributes =>
      rw [AttributeValue.identifiersAmong, List.mem_append]
      rcases List.mem_append.mp member with first | rest
      · exact .inl (id_mem_identifiers value first)
      · exact .inr (id_mem_identifiersAmong values rest)

end

end Metamodel

/-- The keys that are read from a row are null just where some, but not all of their columns are; that of a shared
primary key never is. A load only adds proxies for null keys if there is such a key in one of its rows. -/
theorem hydrated_keys_are_null_iff_half_null (d : Descriptor) :
    (∀ row key state, d.hydrateRow row = .ok (key, state) →
      (AttributeValue.identifiersAmong state).filter Identifier.isNull =
        ((d.shares row).filter Share.isHalfNull).map Share.key) ∧
    ∀ (s after : State) entity rows options results key, s.session.descriptor entity = .ok d →
      (load entity rows options).exec s = (.ok results, after) → key.id.isNull = true →
        after.context.proxy? key ≠ s.context.proxy? key →
          ∃ row, .ok row ∈ rows ∧ ∃ share ∈ d.shares row, share.isHalfNull = true ∧ (share.key == key.id) = true := by
  refine ⟨fun row key state => Descriptor.hydrateRow_nullKeys,
    fun s after entity rows options results key mapped loaded null added => ?_⟩
  obtain ⟨_, found, progress, middle, same, hydrates, admitted, initialized, -⟩ := load_ok loaded
  obtain rfl := Except.ok.inj (mapped.symm.trans same)
  cases marked : after.context.proxy? key with
  | none =>
    obtain ⟨readOnly, unmarked⟩ := Option.ne_none_iff_exists'.mp fun before => added (marked.trans before.symm)
    rw [(admitted.proxies initialized key readOnly).mpr (.inl unmarked)] at marked
    cases marked
  | some readOnly =>
    rcases (admitted.proxies initialized key readOnly).mp marked with before | ⟨-, -, -, row, introduced, led⟩
    · exact absurd (marked.trans before.symm) added
    · obtain ⟨target, member, leads⟩ := List.any_eq_true.mp led
      have leads : (target.id == key.id) = true := (EntityKey.beq_iff.mp leads).2
      obtain ⟨r, given, read⟩ := hydrates.source row introduced.2.mem
      have nullKey : target.id ∈ (AttributeValue.identifiersAmong row.values).filter Identifier.isNull :=
        List.mem_filter.mpr ⟨Metamodel.id_mem_identifiersAmong _ _ member, (Identifier.isNull_of_beq leads).trans null⟩
      rw [Descriptor.hydrateRow_nullKeys read] at nullKey
      obtain ⟨share, inside, same⟩ := List.mem_map.mp nullKey
      obtain ⟨inside, half⟩ := List.mem_filter.mp inside
      exact ⟨r, given, share, inside, half, same ▸ leads⟩

namespace Sample

def copy : Descriptor where
  name := "Copy"
  identifier := { name := "number", columns := 2 }

/-- A loan is of a copy. It is returned to someone, and its fee has the number of the loan. -/
def loan : Descriptor where
  name := "Loan"
  identifier := { name := "number" }
  attributes := [
    (Attribute.manyToOne "copy" "Copy").withStorage fun storage => { storage with columns := 2 },
    .embedded "return" "Return" [.any "to"],
    .oneToOne "fee" "Fee"]

def loanRow (branch : Value) : Row where
  values := [.int 1, branch, .int 7, .null, .null]

def branches : State where
  heap := ⟨#[]⟩
  shared := {}
  session := { factory := { metamodel := ⟨[copy, loan, { name := "Fee", identifier := { name := "number" } }]⟩ } }

def lostCopy : EntityKey := ⟨"Copy", .ofColumns [.null, .int 7]⟩

end Sample

open Sample in
/-- The only null key is that of the copy, and that is why there is a proxy for it. -/
theorem hydrated_keys_are_null_iff_half_null_loan :
    (∃ key state, loan.hydrateRow (loanRow .null) = .ok (key, state) ∧
      (AttributeValue.identifiersAmong state).length = 2 ∧
      (AttributeValue.identifiersAmong state).filter Identifier.isNull = [lostCopy.id]) ∧
    ∃ after, (load "Loan" [.ok (loanRow .null)] {}).exec branches = (.ok [⟨0⟩], after) ∧
      lostCopy.id.isNull = true ∧ after.context.proxy? lostCopy ≠ branches.context.proxy? lostCopy ∧
      ∃ share ∈ loan.shares (loanRow .null), share.isHalfNull = true ∧ (share.key == lostCopy.id) = true := by
  obtain ⟨reads, adds⟩ := hydrated_keys_are_null_iff_half_null loan
  obtain ⟨key, state, read, two⟩ : ∃ key state, loan.hydrateRow (loanRow .null) = .ok (key, state) ∧
      (AttributeValue.identifiersAmong state).length = 2 := ⟨_, _, rfl, rfl⟩
  have answered : ((load "Loan" [.ok (loanRow .null)] {}).exec branches).1.toOption = some [⟨0⟩] := by decide +kernel
  have marked : ((load "Loan" [.ok (loanRow .null)] {}).exec branches).2.context.proxy? lostCopy ≠
      branches.context.proxy? lostCopy := by decide +kernel
  have loaded := exec_of_toOption answered
  obtain ⟨row, given, half⟩ := adds branches _ "Loan" _ {} _ lostCopy rfl loaded rfl marked
  cases List.mem_singleton.mp given
  exact ⟨⟨key, state, read, two, reads _ key state read⟩, _, loaded, rfl, marked, half⟩

open Sample in
/-- A null key is read from a row, and a load adds a proxy for it, though no row of the entity can have that key. -/
theorem half_null_copy_is_read :
    (∃ key state, loan.hydrateRow (loanRow .null) = .ok (key, state) ∧
      ∃ id ∈ AttributeValue.identifiersAmong state, id.isNull = true) ∧
    ((load "Loan" [.ok (loanRow .null)] {}).exec branches).2.context.proxy? lostCopy = some false ∧
    ¬∃ row state, copy.hydrateRow row = .ok (lostCopy, state) := by
  refine ⟨⟨_, _, rfl, _, List.mem_cons_self, rfl⟩, by decide +kernel, fun ⟨row, state, read⟩ => ?_⟩
  obtain ⟨-, known, same, -⟩ := Descriptor.hydrateRow_ok_iff.mp read
  have missing : lostCopy.id = copy.identifierOf row := congrArg EntityKey.id same
  rw [← missing] at known
  cases known

end UnitOfWork
