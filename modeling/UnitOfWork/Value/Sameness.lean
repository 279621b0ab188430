import UnitOfWork.Value.Basic

/-! Equality of documents and sameness of values are equivalences, so keys made of values can be looked
up. Numeric equality of values is none, since a NaN differs from itself. -/

namespace UnitOfWork

namespace Double

theorem equal_comm (x y : Double) : x.equal y = y.equal x := by
  simp only [equal, Bool.beq_comm (a := x.bits), Bool.and_comm (x.magnitude == 0), Bool.and_comm !x.isNaN]

theorem isNaN_of_isFinite {x : Double} (finite : x.isFinite = true) : x.isNaN = false := by
  simp only [isFinite, isNaN, decide_eq_true_eq, decide_eq_false_iff_not] at *
  omega

theorem equal_self {x : Double} (finite : x.isFinite = true) : x.equal x = true := by
  simp [equal, isNaN_of_isFinite finite]

theorem equal_trans {x y z : Double} (first : x.equal y = true) (second : y.equal z = true) :
    x.equal z = true := by
  simp only [equal, Bool.and_eq_true, Bool.or_eq_true, beq_iff_eq, Bool.not_eq_true'] at *
  obtain ⟨⟨number, _⟩, same⟩ := first
  obtain ⟨⟨_, number'⟩, same'⟩ := second
  refine ⟨⟨number, number'⟩, ?_⟩
  rcases same with bits | ⟨zero, zero'⟩ <;> rcases same' with bits' | ⟨zero'', zero'''⟩
  · exact .inl (bits.trans bits')
  · refine .inr ⟨?_, zero'''⟩
    rw [magnitude, bits]
    exact zero''
  · refine .inr ⟨zero, ?_⟩
    rw [magnitude, ← bits']
    exact zero'
  · exact .inr ⟨zero, zero'''⟩

end Double

namespace Json

mutual

theorem equal_self : ∀ document : Json, document.equal document = true
  | .null => rfl
  | .bool _ | .integer _ | .text _ => by simp [equal]
  | .real x => Double.equal_self x.finite
  | .array items => equalItems_self items
  | .object members => equalMembers_self members

theorem equalItems_self : ∀ items : List Json, equalItems items items = true
  | [] => rfl
  | item :: rest => by simp [equalItems, equal_self item, equalItems_self rest]

theorem equalMembers_self : ∀ members : List (String × Json), equalMembers members members = true
  | [] => rfl
  | (name, value) :: rest => by simp [equalMembers, equal_self value, equalMembers_self rest]

end

mutual

theorem equal_symm : ∀ {a b : Json}, a.equal b = true → b.equal a = true
  | .null, b, same => by cases b <;> simp_all [equal]
  | .bool _, b, same => by cases b <;> simp_all [equal]
  | .integer _, b, same => by cases b <;> simp_all [equal]
  | .text _, b, same => by cases b <;> simp_all [equal]
  | .real x, b, same => by
    cases b with
    | real y => exact (Double.equal_comm ..).trans same
    | _ => simp [equal] at same
  | .array items, b, same => by
    cases b with
    | array others => exact equalItems_symm same
    | _ => simp [equal] at same
  | .object members, b, same => by
    cases b with
    | object others => exact equalMembers_symm same
    | _ => simp [equal] at same

theorem equalItems_symm : ∀ {items others : List Json}, equalItems items others = true →
    equalItems others items = true
  | [], [], _ => rfl
  | [], _ :: _, same | _ :: _, [], same => by simp [equalItems] at same
  | item :: items, other :: others, same => by
    simp only [equalItems, Bool.and_eq_true] at same ⊢
    exact ⟨equal_symm same.1, equalItems_symm same.2⟩

theorem equalMembers_symm : ∀ {members others : List (String × Json)}, equalMembers members others = true →
    equalMembers others members = true
  | [], [], _ => rfl
  | [], _ :: _, same | _ :: _, [], same => by simp [equalMembers] at same
  | (name, value) :: members, (other, held) :: others, same => by
    simp only [equalMembers, Bool.and_eq_true, beq_iff_eq] at same ⊢
    exact ⟨⟨same.1.1.symm, equal_symm same.1.2⟩, equalMembers_symm same.2⟩

end

mutual

theorem equal_trans : ∀ {a b c : Json}, a.equal b = true → b.equal c = true → a.equal c = true
  | .null, b, c, first, second => by cases b <;> cases c <;> simp_all [equal]
  | .bool _, b, c, first, second => by cases b <;> cases c <;> simp_all [equal]
  | .integer _, b, c, first, second => by cases b <;> cases c <;> simp_all [equal]
  | .text _, b, c, first, second => by cases b <;> cases c <;> simp_all [equal]
  | .real x, b, c, first, second => by
    cases b <;> simp only [equal, Bool.false_eq_true] at first
    cases c <;> simp only [equal, Bool.false_eq_true] at second
    exact Double.equal_trans first second
  | .array items, b, c, first, second => by
    cases b <;> simp only [equal, Bool.false_eq_true] at first
    cases c <;> simp only [equal, Bool.false_eq_true] at second
    exact equalItems_trans first second
  | .object members, b, c, first, second => by
    cases b <;> simp only [equal, Bool.false_eq_true] at first
    cases c <;> simp only [equal, Bool.false_eq_true] at second
    exact equalMembers_trans first second

theorem equalItems_trans : ∀ {a b c : List Json}, equalItems a b = true → equalItems b c = true →
    equalItems a c = true
  | [], [], _, _, second => second
  | [], _ :: _, _, first, _ | _ :: _, [], _, first, _ => by simp [equalItems] at first
  | _ :: _, _ :: _, [], _, second => by simp [equalItems] at second
  | a :: as, b :: bs, c :: cs, first, second => by
    simp only [equalItems, Bool.and_eq_true] at first second ⊢
    exact ⟨equal_trans first.1 second.1, equalItems_trans first.2 second.2⟩

theorem equalMembers_trans : ∀ {a b c : List (String × Json)}, equalMembers a b = true →
    equalMembers b c = true → equalMembers a c = true
  | [], [], _, _, second => second
  | [], _ :: _, _, first, _ | _ :: _, [], _, first, _ => by simp [equalMembers] at first
  | _ :: _, _ :: _, [], _, second => by simp [equalMembers] at second
  | (_, a) :: as, (_, b) :: bs, (_, c) :: cs, first, second => by
    simp only [equalMembers, Bool.and_eq_true, beq_iff_eq] at first second ⊢
    exact ⟨⟨first.1.1.trans second.1.1, equal_trans first.1.2 second.1.2⟩,
      equalMembers_trans first.2 second.2⟩

end

end Json

namespace Value

mutual

theorem sameAs_self : ∀ value : Value, value.sameAs value = true
  | .null => rfl
  | .bool _ | .tinyInt _ | .smallInt _ | .int _ | .bigInt _ | .float _ | .double _ | .decimal _ | .text _
  | .bytes _ | .date _ | .time _ | .timestamp _ | .timestampTz _ | .uuid _ => by simp [sameAs, equal]
  | .json document => by simp [sameAs, equal, document.equal_self]
  | .array items => by simp [sameAs, sameItems_self items]

theorem sameItems_self : ∀ items : List Value, sameItems items items = true
  | [] => rfl
  | item :: rest => by simp [sameItems, sameAs_self item, sameItems_self rest]

end

mutual

theorem sameAs_symm : ∀ {a b : Value}, a.sameAs b = true → b.sameAs a = true
  | .array items, b, same => by
    cases b with
    | array others =>
      simp only [sameAs] at same ⊢
      exact sameItems_symm same
    | _ => simp [sameAs, equal] at same
  | .json document, b, same => by
    cases b with
    | json other =>
      simp only [sameAs, equal] at same ⊢
      exact Json.equal_symm same
    | _ => simp [sameAs, equal] at same
  | .null, b, same | .bool _, b, same | .tinyInt _, b, same | .smallInt _, b, same | .int _, b, same
  | .bigInt _, b, same | .float _, b, same | .double _, b, same | .decimal _, b, same | .text _, b, same
  | .bytes _, b, same | .date _, b, same | .time _, b, same | .timestamp _, b, same
  | .timestampTz _, b, same | .uuid _, b, same => by cases b <;> simp_all [sameAs, equal]

theorem sameItems_symm : ∀ {items others : List Value}, sameItems items others = true →
    sameItems others items = true
  | [], [], _ => rfl
  | [], _ :: _, same | _ :: _, [], same => by simp [sameItems] at same
  | item :: items, other :: others, same => by
    simp only [sameItems, Bool.and_eq_true] at same ⊢
    exact ⟨sameAs_symm same.1, sameItems_symm same.2⟩

end

mutual

theorem sameAs_trans : ∀ {a b c : Value}, a.sameAs b = true → b.sameAs c = true → a.sameAs c = true
  | .array items, b, c, first, second => by
    cases b <;> simp only [sameAs, equal, Bool.false_eq_true] at first
    cases c <;> simp only [sameAs, equal, Bool.false_eq_true] at second
    simp only [sameAs]
    exact sameItems_trans first second
  | .json document, b, c, first, second => by
    cases b <;> simp only [sameAs, equal, Bool.false_eq_true] at first
    cases c <;> simp only [sameAs, equal, Bool.false_eq_true] at second
    simp only [sameAs, equal]
    exact Json.equal_trans first second
  | .null, b, c, first, second | .bool _, b, c, first, second | .tinyInt _, b, c, first, second
  | .smallInt _, b, c, first, second | .int _, b, c, first, second | .bigInt _, b, c, first, second
  | .float _, b, c, first, second | .double _, b, c, first, second | .decimal _, b, c, first, second
  | .text _, b, c, first, second | .bytes _, b, c, first, second | .date _, b, c, first, second
  | .time _, b, c, first, second | .timestamp _, b, c, first, second
  | .timestampTz _, b, c, first, second | .uuid _, b, c, first, second => by
    cases b <;> simp only [sameAs, equal, Bool.false_eq_true, beq_iff_eq] at first
    all_goals
      subst_vars
      exact second

theorem sameItems_trans : ∀ {a b c : List Value}, sameItems a b = true → sameItems b c = true →
    sameItems a c = true
  | [], [], _, _, second => second
  | [], _ :: _, _, first, _ | _ :: _, [], _, first, _ => by simp [sameItems] at first
  | _ :: _, _ :: _, [], _, second => by simp [sameItems] at second
  | a :: as, b :: bs, c :: cs, first, second => by
    simp only [sameItems, Bool.and_eq_true] at first second ⊢
    exact ⟨sameAs_trans first.1 second.1, sameItems_trans first.2 second.2⟩

end

/-- Lists of different length are never the same. -/
theorem length_of_sameItems : ∀ {items others : List Value}, sameItems items others = true →
    items.length = others.length
  | [], [], _ => rfl
  | [], _ :: _, same | _ :: _, [], same => by simp [sameItems] at same
  | item :: items, other :: others, same => by
    rw [sameItems, Bool.and_eq_true] at same
    rw [List.length_cons, List.length_cons, length_of_sameItems same.2]

end Value

end UnitOfWork
