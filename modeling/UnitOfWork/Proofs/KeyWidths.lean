import UnitOfWork.Proofs.NullKeys

/-! How wide the columns of a key are makes no difference. A row whose identifier or whose references are kept in
narrower or wider columns is turned into the same keys, wherever these stand, so that a load of such rows runs exactly
as if the columns had one width. -/

namespace UnitOfWork
open UnitOfWork.Action

namespace Value

def number? : Value → Option Int
  | .tinyInt n => some n.toInt
  | .smallInt n => some n.toInt
  | .int n => some n.toInt
  | .bigInt n => some n.toInt
  | _ => none

/-- The same value, but for the width of a whole number. -/
def SameButWidth (a b : Value) : Prop :=
  a = b ∨ ∃ n, a.number? = some n ∧ b.number? = some n

theorem widen_eq_of_number? {value : Value} {n : Int} (number : value.number? = some n) :
    value.widen = .bigInt (.ofInt n) := by
  cases value with
  | tinyInt k | smallInt k | int k | bigInt k =>
    obtain rfl := Option.some.inj number
    simp [widen]
  | _ => cases number

theorem SameButWidth.widen_eq {a b : Value} (same : a.SameButWidth b) : a.widen = b.widen := by
  obtain rfl | ⟨n, first, second⟩ := same
  · rfl
  · rw [widen_eq_of_number? first, widen_eq_of_number? second]

theorem SameButWidth.isNull_eq {a b : Value} (same : a.SameButWidth b) : a.isNull = b.isNull := by
  rw [← a.isNull_widen, ← b.isNull_widen, same.widen_eq]

end Value

/-- The columns of a share that are no part of a key, so that they are kept as they are. -/
def Share.keptColumns : Share → List Value
  | ⟨.mk _ kind storage, columns⟩ =>
    if storage.lazy then []
    else match kind with
      | .basic => columns
      | .any => columns.take 1
      | .manyToOne _ | .oneToOne _ | .embedded _ _ => []

/-- Two shares of an attribute differ at most in the widths of whole numbers in its key. -/
structure Share.SameButWidths (a b : Share) : Prop where
  size : a.columns.length = b.columns.length
  keys : List.Forall₂ Value.SameButWidth a.keyColumns b.keyColumns
  kept : a.keptColumns = b.keptColumns

/-- Two rows of an entity differ at most in the widths of whole numbers in keys: in the identifier, and in the references
of its attributes at any depth. -/
structure Row.SameButWidths (d : Descriptor) (row other : Row) : Prop where
  size : row.size = other.size
  identifier : List.Forall₂ Value.SameButWidth (row.values.take d.identifier.columns)
    (other.values.take d.identifier.columns)
  shares : List.Forall₂ Share.SameButWidths (d.shares row) (d.shares other)

theorem Row.SameButWidths.refl (d : Descriptor) (row : Row) : row.SameButWidths d row where
  size := rfl
  identifier := List.forall₂_same.mpr fun _ _ => .inl rfl
  shares := List.forall₂_same.mpr fun _ _ => ⟨rfl, List.forall₂_same.mpr fun _ _ => .inl rfl, rfl⟩

/-- What a row source gives instead of a row is an error in both cases, and the same. -/
def Row.SameGivenButWidths (d : Descriptor) : Except Error Row → Except Error Row → Prop
  | .ok row, .ok other => row.SameButWidths d other
  | .error e, .error e' => e = e'
  | _, _ => False

section Columns
variable {columns others : List Value}

theorem Identifier.ofColumns_congr (same : List.Forall₂ Value.SameButWidth columns others) :
    Identifier.ofColumns columns = .ofColumns others := by
  refine Identifier.ext ?_
  change columns.map Value.widen = others.map Value.widen
  induction same with
  | nil => rfl
  | cons first _ ih => rw [List.map_cons, List.map_cons, first.widen_eq, ih]

theorem all_isNull_congr (same : List.Forall₂ Value.SameButWidth columns others) :
    columns.all Value.isNull = others.all Value.isNull := by
  induction same with
  | nil => rfl
  | cons first _ ih => rw [List.all_cons, List.all_cons, first.isNull_eq, ih]

theorem AttributeValue.ofKeyColumns_congr (same : List.Forall₂ Value.SameButWidth columns others) :
    ofKeyColumns columns = ofKeyColumns others := by
  unfold ofKeyColumns
  rw [all_isNull_congr same, Identifier.ofColumns_congr same]

theorem AttributeValue.ofDiscriminated_congr (discriminator : columns.take 1 = others.take 1)
    (id : List.Forall₂ Value.SameButWidth columns.tail others.tail) : ofDiscriminated columns = ofDiscriminated others := by
  match columns, others with
  | [], [] => rfl
  | [], _ :: _ | _ :: _, [] => cases discriminator
  | column :: columns, other :: others =>
    obtain rfl : column = other := (List.cons.inj discriminator).1
    have id : List.Forall₂ Value.SameButWidth columns others := id
    unfold ofDiscriminated
    dsimp only
    rw [all_isNull_congr id, Identifier.ofColumns_congr id]

mutual

theorem Attribute.length_shares : ∀ (a : Attribute) (columns others : List Value),
    (a.shares columns).length = (a.shares others).length
  | .mk _ kind storage, columns, others => by
    unfold Attribute.shares
    split
    · rfl
    · cases kind with
      | basic | manyToOne _ | oneToOne _ | any => rfl
      | embedded _ children => exact congrArg (· + 1) (length_sharesAmong children columns others)

theorem length_sharesAmong : ∀ (attributes : List Attribute) (columns others : List Value),
    (sharesAmong attributes columns).length = (sharesAmong attributes others).length
  | [], _, _ => rfl
  | a :: rest, columns, others => by
    rw [sharesAmong, sharesAmong, List.length_append, List.length_append, a.length_shares _ (others.take a.columns),
      length_sharesAmong rest _ (others.drop a.columns)]

end

end Columns

theorem sharesAmong_cons_same {a : Attribute} {attributes : List Attribute} {columns others : List Value}
    (same : List.Forall₂ Share.SameButWidths (sharesAmong (a :: attributes) columns)
      (sharesAmong (a :: attributes) others)) :
    List.Forall₂ Share.SameButWidths (a.shares (columns.take a.columns)) (a.shares (others.take a.columns)) ∧
      List.Forall₂ Share.SameButWidths (sharesAmong attributes (columns.drop a.columns))
        (sharesAmong attributes (others.drop a.columns)) := by
  have lengths := a.length_shares (columns.take a.columns) (others.take a.columns)
  rw [sharesAmong, sharesAmong] at same
  constructor
  · have first := List.forall₂_take (a.shares (columns.take a.columns)).length same
    rwa [List.take_left, lengths, List.take_left] at first
  · have rest := List.forall₂_drop (a.shares (columns.take a.columns)).length same
    rwa [List.drop_left, lengths, List.drop_left] at rest

namespace Descriptor
variable (d : Descriptor) {id : Identifier}

mutual

theorem hydrateAttribute_congr : ∀ (a : Attribute) (columns others : List Value),
    List.Forall₂ Share.SameButWidths (a.shares columns) (a.shares others) →
      d.hydrateAttribute id a columns = d.hydrateAttribute id a others
  | .mk name kind storage, columns, others, same => by
    unfold hydrateAttribute
    unfold Attribute.shares at same
    by_cases lazy : storage.lazy = true
    · rw [if_pos lazy, if_pos lazy]
    · rw [if_neg lazy, if_neg lazy]
      rw [if_neg lazy, if_neg lazy] at same
      obtain ⟨own, below⟩ := List.forall₂_cons.mp same
      cases kind with
      | basic =>
        obtain rfl : columns = others := by simpa only [Share.keptColumns, if_neg lazy] using own.kept
        rfl
      | manyToOne target =>
        have keys : List.Forall₂ Value.SameButWidth columns others := by
          simpa only [Share.keyColumns, if_neg lazy] using own.keys
        exact congrArg _ (AttributeValue.ofKeyColumns_congr keys)
      | oneToOne target =>
        have keys : List.Forall₂ Value.SameButWidth columns others := by
          simpa only [Share.keyColumns, if_neg lazy] using own.keys
        have shared : columns.isEmpty = others.isEmpty := by cases keys <;> rfl
        dsimp only
        rw [shared, AttributeValue.ofKeyColumns_congr keys]
      | any =>
        have keys : List.Forall₂ Value.SameButWidth columns.tail others.tail := by
          simpa only [Share.keyColumns, if_neg lazy] using own.keys
        have kept : columns.take 1 = others.take 1 := by
          simpa only [Share.keptColumns, if_neg lazy] using own.kept
        dsimp only
        rw [AttributeValue.ofDiscriminated_congr kept keys]
      | embedded typeName children =>
        dsimp only
        rw [hydrateChildren_congr name children columns others own.size below]

theorem hydrateChildren_congr (owner : String) : ∀ (attributes : List Attribute) (columns others : List Value),
    columns.length = others.length →
    List.Forall₂ Share.SameButWidths (sharesAmong attributes columns) (sharesAmong attributes others) →
      d.hydrateChildren id owner attributes columns = d.hydrateChildren id owner attributes others
  | [], columns, others, _, _ => by
    unfold hydrateChildren
    rfl
  | a :: attributes, columns, others, size, same => by
    obtain ⟨first, rest⟩ := sharesAmong_cons_same same
    have remaining : (columns.drop a.columns).length = (others.drop a.columns).length := by
      rw [List.length_drop, List.length_drop, size]
    unfold hydrateChildren
    rw [size, hydrateAttribute_congr a _ _ first, hydrateChildren_congr owner attributes _ _ remaining rest]

end

variable {row other : Row}

theorem hydrateState_congr (size : row.size = other.size) : ∀ (attributes : List Attribute) (columns others : List Value),
    columns.length = others.length →
    List.Forall₂ Share.SameButWidths (sharesAmong attributes columns) (sharesAmong attributes others) →
      d.hydrateState row id attributes columns = d.hydrateState other id attributes others
  | [], _, _, _, _ => rfl
  | a :: attributes, columns, others, lengths, same => by
    obtain ⟨first, rest⟩ := sharesAmong_cons_same same
    have remaining : (columns.drop a.columns).length = (others.drop a.columns).length := by
      rw [List.length_drop, List.length_drop, lengths]
    unfold hydrateState shortRow
    rw [lengths, size, d.hydrateAttribute_congr a _ _ first, hydrateState_congr size attributes _ _ remaining rest]

/-- Rows with the same numbers in their keys have the same key and the same state, or are refused alike. -/
theorem hydrateRow_congr (same : row.SameButWidths d other) : d.hydrateRow row = d.hydrateRow other := by
  have begins : Identifier.ofColumns (row.values.take d.identifier.columns) =
      .ofColumns (other.values.take d.identifier.columns) := Identifier.ofColumns_congr same.identifier
  have remaining : (row.values.drop d.identifier.columns).length = (other.values.drop d.identifier.columns).length := by
    rw [List.length_drop, List.length_drop]
    exact congrArg (· - d.identifier.columns) same.size
  unfold hydrateRow Row.slice? shortRow
  rw [same.size, List.drop_zero, List.drop_zero]
  by_cases enough : 0 + d.identifier.columns ≤ other.size
  · rw [if_pos enough, if_pos enough]
    dsimp only
    rw [begins, d.hydrateState_congr same.size _ _ _ remaining same.shares]
  · rw [if_neg enough, if_neg enough]

end Descriptor

namespace Action
variable {d : Descriptor} {rows others : List (Except Error Row)} {options : LoadOptions}

theorem hydrateRows_congr (same : List.Forall₂ (Row.SameGivenButWidths d) rows others) :
    hydrateRows d options rows = hydrateRows d options others := by
  induction same with
  | nil => rfl
  | @cons given other _ _ first _ ih =>
    match given, other with
    | .error e, .error e' =>
      obtain rfl : e = e' := first
      rfl
    | .ok row, .ok other =>
      have first : row.SameButWidths d other := first
      funext progress
      unfold hydrateRows
      rw [d.hydrateRow_congr first, ih]

end Action

/-- A load does not depend on how wide the columns of keys are. It answers alike, and leaves the session alike. -/
theorem key_widths_make_no_difference {s : State} {entity : String} {d : Descriptor} {rows others : List (Except Error Row)}
    {options : LoadOptions} (mapped : s.session.descriptor entity = .ok d)
    (same : List.Forall₂ (Row.SameGivenButWidths d) rows others) :
    (load entity rows options).exec s = (load entity others options).exec s := by
  unfold load
  split
  · rw [exec_bind, exec_bind, exec_descriptor, mapped]
    dsimp only
    rw [hydrateRows_congr same]
  · rfl

namespace Sample

/-- Loan 1 is of copy 7 of branch 3, which was returned to branch 1. -/
def returnedLoan (number branch copy receiver : Value) : Row where
  values := [number, branch, copy, .text "Copy", receiver]

def wideLoan : Row := returnedLoan (.bigInt 1) (.bigInt 3) (.bigInt 7) (.bigInt 1)

def narrowLoan : Row := returnedLoan (.tinyInt 1) (.smallInt 3) (.int 7) (.tinyInt 1)

end Sample

open Sample in
/-- The narrow row is the row of the instance that the wide one was loaded into, and its references are the same. -/
theorem key_widths_make_no_difference_loan : ∃ after,
    (load "Loan" [.ok wideLoan, .ok narrowLoan] {}).exec branches = (.ok [⟨0⟩, ⟨0⟩], after) ∧
    (load "Loan" [.ok wideLoan, .ok wideLoan] {}).exec branches = (.ok [⟨0⟩, ⟨0⟩], after) := by
  have narrowed {n : Int} {wide narrow : Value} (before : wide.number? = some n) (after : narrow.number? = some n) :
      wide.SameButWidth narrow := .inr ⟨n, before, after⟩
  have same : wideLoan.SameButWidths loan narrowLoan := by
    refine ⟨rfl, .cons (narrowed rfl rfl) .nil, ?_⟩
    exact .cons ⟨rfl, .cons (narrowed rfl rfl) (.cons (narrowed rfl rfl) .nil), rfl⟩ <| .cons ⟨rfl, .nil, rfl⟩ <|
      .cons ⟨rfl, .cons (narrowed rfl rfl) .nil, rfl⟩ <| .cons ⟨rfl, .nil, rfl⟩ .nil
  have answered : ((load "Loan" [.ok wideLoan, .ok wideLoan] {}).exec branches).1.toOption = some [⟨0⟩, ⟨0⟩] := by
    decide +kernel
  have loaded := exec_of_toOption answered
  have given : List.Forall₂ (Row.SameGivenButWidths loan) [.ok wideLoan, .ok wideLoan] [.ok wideLoan, .ok narrowLoan] :=
    .cons (Row.SameButWidths.refl loan wideLoan) (.cons same .nil)
  exact ⟨_, (key_widths_make_no_difference rfl given).symm.trans loaded, loaded⟩

end UnitOfWork
