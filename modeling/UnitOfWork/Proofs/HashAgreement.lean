import Mathlib.Data.List.Find
import Mathlib.Data.List.Pairwise
import UnitOfWork.Cache.Entry
import UnitOfWork.Registry

/-! When equal keys hash alike. Sameness of values tells numbers apart by their bits, except inside documents, where
the two zeros are equal; but the hash of a document is that of its text, which writes the sign. So values that are the
same feed a hash the same bytes just when they are identical, and a hash map finds an entry under just the key it was
stored under. -/

namespace UnitOfWork

/-! Documents without signs on their zeros. -/

def FiniteDouble.unsigned (x : FiniteDouble) : FiniteDouble :=
  if x.number.magnitude = 0 then ⟨⟨0⟩, by decide⟩ else x

namespace Json

mutual

def unsigned : Json → Json
  | .real x => .real x.unsigned
  | .array items => .array (unsignedItems items)
  | .object members => .object (unsignedMembers members)
  | document => document

def unsignedItems : List Json → List Json
  | [] => []
  | item :: rest => item.unsigned :: unsignedItems rest

def unsignedMembers : List (String × Json) → List (String × Json)
  | [] => []
  | (name, value) :: rest => (name, value.unsigned) :: unsignedMembers rest

end

end Json

namespace Value

mutual

/-- The value with no negative zero in any of its documents; numbers outside documents keep their bits. -/
def unsigned : Value → Value
  | .json document => .json document.unsigned
  | .array items => .array (unsignedItems items)
  | value => value

def unsignedItems : List Value → List Value
  | [] => []
  | item :: rest => item.unsigned :: unsignedItems rest

end

end Value

namespace FiniteDouble

theorem eq_of_bits {x y : FiniteDouble} (same : x.number.bits = y.number.bits) : x = y := by
  obtain ⟨⟨bits⟩, finite⟩ := x
  obtain ⟨⟨other⟩, finite'⟩ := y
  cases same
  rfl

theorem equal_unsigned (x : FiniteDouble) : x.number.equal x.unsigned.number = true := by
  unfold unsigned
  split
  next zero =>
    have real := Double.isNaN_of_isFinite x.finite
    have other : (⟨0⟩ : Double).isNaN = false ∧ (⟨0⟩ : Double).magnitude = 0 := by decide
    simp only [Double.equal, real, zero, other, BEq.rfl, Bool.not_false, Bool.and_true, Bool.or_true]
  next => exact Double.equal_self x.finite

theorem unsigned_eq_of_equal {x y : FiniteDouble} (same : x.number.equal y.number = true) : x.unsigned = y.unsigned := by
  simp only [Double.equal, Bool.and_eq_true, Bool.or_eq_true, beq_iff_eq] at same
  rcases same.2 with bits | ⟨zero, zero'⟩
  · rw [eq_of_bits bits]
  · rw [unsigned, unsigned, if_pos zero, if_pos zero']

theorem eq_of_equal {x y : FiniteDouble} (same : x.number.equal y.number = true)
    (sign : x.number.isNegative = y.number.isNegative) : x = y := by
  simp only [Double.equal, Bool.and_eq_true, Bool.or_eq_true, beq_iff_eq] at same
  rcases same.2 with bits | ⟨zero, zero'⟩
  · exact eq_of_bits bits
  · refine eq_of_bits (UInt64.toNat_inj.mp ?_)
    have bound := x.number.bits.toNat_lt
    have bound' := y.number.bits.toNat_lt
    have power : Nat.pow 2 63 = 9223372036854775808 := rfl
    simp only [Double.magnitude, Double.isNegative, decide_eq_decide, power] at zero zero' sign
    omega

end FiniteDouble

namespace Json

mutual

theorem equal_unsigned : ∀ document : Json, document.equal document.unsigned = true
  | .real x => x.equal_unsigned
  | .array items => equalItems_unsigned items
  | .object members => equalMembers_unsigned members
  | .null => rfl
  | .bool _ | .integer _ | .text _ => equal_self _

theorem equalItems_unsigned : ∀ items : List Json, equalItems items (unsignedItems items) = true
  | [] => rfl
  | item :: rest => by simp [equalItems, unsignedItems, equal_unsigned item, equalItems_unsigned rest]

theorem equalMembers_unsigned : ∀ members : List (String × Json), equalMembers members (unsignedMembers members) = true
  | [] => rfl
  | (name, value) :: rest => by
    simp [equalMembers, unsignedMembers, equal_unsigned value, equalMembers_unsigned rest]

end

mutual

theorem unsigned_eq_of_equal : ∀ {a b : Json}, a.equal b = true → a.unsigned = b.unsigned
  | .real x, b, same => by
    cases b <;> simp only [equal, Bool.false_eq_true] at same
    exact congrArg real (FiniteDouble.unsigned_eq_of_equal same)
  | .array items, b, same => by
    cases b <;> simp only [equal, Bool.false_eq_true] at same
    exact congrArg array (unsignedItems_eq_of_equal same)
  | .object members, b, same => by
    cases b <;> simp only [equal, Bool.false_eq_true] at same
    exact congrArg object (unsignedMembers_eq_of_equal same)
  | .null, b, same | .bool _, b, same | .integer _, b, same | .text _, b, same => by
    cases b <;> simp only [equal, Bool.false_eq_true, beq_iff_eq] at same
    all_goals
      subst_vars
      rfl

theorem unsignedItems_eq_of_equal : ∀ {a b : List Json}, equalItems a b = true → unsignedItems a = unsignedItems b
  | [], [], _ => rfl
  | [], _ :: _, same | _ :: _, [], same => by simp [equalItems] at same
  | a :: as, b :: bs, same => by
    simp only [equalItems, Bool.and_eq_true] at same
    rw [unsignedItems, unsignedItems, unsigned_eq_of_equal same.1, unsignedItems_eq_of_equal same.2]

theorem unsignedMembers_eq_of_equal : ∀ {a b : List (String × Json)}, equalMembers a b = true →
    unsignedMembers a = unsignedMembers b
  | [], [], _ => rfl
  | [], _ :: _, same | _ :: _, [], same => by simp [equalMembers] at same
  | (name, a) :: as, (other, b) :: bs, same => by
    simp only [equalMembers, Bool.and_eq_true, beq_iff_eq] at same
    rw [unsignedMembers, unsignedMembers, same.1.1, unsigned_eq_of_equal same.1.2, unsignedMembers_eq_of_equal same.2]

end

end Json

namespace Value

mutual

theorem sameAs_unsigned : ∀ value : Value, value.sameAs value.unsigned = true
  | .json document => document.equal_unsigned
  | .array items => sameItems_unsigned items
  | .null => rfl
  | .bool _ | .tinyInt _ | .smallInt _ | .int _ | .bigInt _ | .float _ | .double _ | .decimal _ | .text _
  | .bytes _ | .date _ | .time _ | .timestamp _ | .timestampTz _ | .uuid _ => sameAs_self _

theorem sameItems_unsigned : ∀ items : List Value, sameItems items (unsignedItems items) = true
  | [] => rfl
  | item :: rest => by simp [sameItems, unsignedItems, sameAs_unsigned item, sameItems_unsigned rest]

end

mutual

theorem unsigned_eq_of_sameAs : ∀ {a b : Value}, a.sameAs b = true → a.unsigned = b.unsigned
  | .json document, b, same => by
    cases b <;> simp only [sameAs, equal, Bool.false_eq_true] at same
    exact congrArg json (Json.unsigned_eq_of_equal same)
  | .array items, b, same => by
    cases b <;> simp only [sameAs, equal, Bool.false_eq_true] at same
    exact congrArg array (unsignedItems_eq_of_sameItems same)
  | .null, b, same | .bool _, b, same | .tinyInt _, b, same | .smallInt _, b, same | .int _, b, same
  | .bigInt _, b, same | .float _, b, same | .double _, b, same | .decimal _, b, same | .text _, b, same
  | .bytes _, b, same | .date _, b, same | .time _, b, same | .timestamp _, b, same
  | .timestampTz _, b, same | .uuid _, b, same => by
    cases b <;> simp only [sameAs, equal, Bool.false_eq_true, beq_iff_eq] at same
    all_goals
      subst_vars
      rfl

theorem unsignedItems_eq_of_sameItems : ∀ {a b : List Value}, sameItems a b = true → unsignedItems a = unsignedItems b
  | [], [], _ => rfl
  | [], _ :: _, same | _ :: _, [], same => by simp [sameItems] at same
  | a :: as, b :: bs, same => by
    simp only [sameItems, Bool.and_eq_true] at same
    rw [unsignedItems, unsignedItems, unsigned_eq_of_sameAs same.1, unsignedItems_eq_of_sameItems same.2]

end

theorem sameAs_iff (a b : Value) : a.sameAs b = true ↔ a.unsigned = b.unsigned := by
  refine ⟨unsigned_eq_of_sameAs, fun equal => ?_⟩
  have other := sameAs_symm (sameAs_unsigned b)
  rw [← equal] at other
  exact sameAs_trans (sameAs_unsigned a) other

end Value

/-! What is fed to a hash can be cut back into its parts, as long as the shape of the parts is known. -/

def utf8 (s : String) : List UInt8 := s.toUTF8.toList

theorem bytes_toList (data : ByteArray) : data.toList = data.data.toList := by
  have read (rest i : Nat) (before : List UInt8) (size : data.size = i + rest) :
      ByteArray.toList.loop data i before = before.reverse ++ data.data.toList.drop i := by
    induction rest generalizing i before with
    | zero =>
      unfold ByteArray.toList.loop
      have all : data.data.toList.drop i = [] := List.drop_eq_nil_of_le (Nat.le_of_eq size)
      rw [if_neg (by omega), all, List.append_nil]
    | succ rest ih =>
      have inside : i < data.size := by omega
      have inside' : i < data.data.toList.length := inside
      unfold ByteArray.toList.loop
      rw [if_pos inside, ih (i + 1) _ (by omega), List.reverse_cons, List.append_assoc,
        List.drop_eq_getElem_cons inside', List.singleton_append]
      congr 2
      exact getElem!_pos data.data i inside
  exact (read data.size 0 [] (Nat.zero_add _).symm).trans (List.drop_zero ..)

theorem utf8_append (s t : String) : utf8 (s ++ t) = utf8 s ++ utf8 t := by
  unfold utf8
  rw [bytes_toList, bytes_toList, bytes_toList]
  change ((s ++ t).toByteArray).data.toList = _
  rw [String.toByteArray_append, ByteArray.data_append, Array.toList_append]
  rfl

namespace Json

/-- The sign of a number is the first thing that is written of it. -/
theorem real_cancel {x y : FiniteDouble} {s t : List UInt8} (same : x.number.equal y.number = true)
    (fed : utf8 x.number.documentText ++ s = utf8 y.number.documentText ++ t) : x = y ∧ s = t := by
  by_cases sign : x.number.isNegative = y.number.isNegative
  · obtain rfl := FiniteDouble.eq_of_equal same sign
    exact ⟨rfl, List.append_cancel_left fed⟩
  · have apart : x.number.bits ≠ y.number.bits := by
      intro bits
      exact sign (congrArg Double.isNegative (congrArg Double.mk bits))
    simp only [Double.equal, Bool.and_eq_true, Bool.or_eq_true, beq_iff_eq, apart, false_or] at same
    obtain ⟨-, zero, zero'⟩ := same
    have positive : utf8 "0.0" = [48, 46, 48] := by decide +kernel
    have negative : utf8 "-0.0" = [45, 48, 46, 48] := by decide +kernel
    simp only [Double.documentText, zero, zero', if_true] at fed
    cases first : x.number.isNegative <;> cases second : y.number.isNegative
    case false.false | true.true => exact absurd (first.trans second.symm) sign
    all_goals
      rw [first, second] at fed
      simp [positive, negative] at fed

mutual

/-- Equal documents of which one text begins like the other are identical. -/
theorem print_cancel : ∀ {a b : Json} {s t : List UInt8}, a.equal b = true → utf8 a.print ++ s = utf8 b.print ++ t →
    a = b ∧ s = t
  | .real x, b, s, t, same, fed => by
    cases b <;> simp only [equal, Bool.false_eq_true] at same
    obtain ⟨rfl, rest⟩ := real_cancel same fed
    exact ⟨rfl, rest⟩
  | .array items, b, s, t, same, fed => by
    cases b <;> simp only [equal, Bool.false_eq_true] at same
    simp only [print, utf8_append, List.append_assoc] at fed
    obtain ⟨rfl, rest⟩ := printItems_cancel same (List.append_cancel_left fed)
    exact ⟨rfl, List.append_cancel_left rest⟩
  | .object members, b, s, t, same, fed => by
    cases b <;> simp only [equal, Bool.false_eq_true] at same
    simp only [print, utf8_append, List.append_assoc] at fed
    obtain ⟨rfl, rest⟩ := printMembers_cancel same (List.append_cancel_left fed)
    exact ⟨rfl, List.append_cancel_left rest⟩
  | .null, b, s, t, same, fed | .bool _, b, s, t, same, fed | .integer _, b, s, t, same, fed
  | .text _, b, s, t, same, fed => by
    cases b <;> simp only [equal, Bool.false_eq_true, beq_iff_eq] at same
    all_goals
      subst_vars
      exact ⟨rfl, List.append_cancel_left fed⟩

theorem printItems_cancel : ∀ {a b : List Json} {s t : List UInt8}, equalItems a b = true →
    utf8 (printItems a) ++ s = utf8 (printItems b) ++ t → a = b ∧ s = t
  | [], [], _, _, _, fed => ⟨rfl, List.append_cancel_left fed⟩
  | [], _ :: _, _, _, same, _ | _ :: _, [], _, _, same, _ => by simp [equalItems] at same
  | [a], [b], s, t, same, fed => by
    simp only [equalItems, Bool.and_true] at same
    obtain ⟨rfl, rest⟩ := print_cancel same fed
    exact ⟨rfl, rest⟩
  | [_], _ :: _ :: _, _, _, same, _ | _ :: _ :: _, [_], _, _, same, _ => by simp [equalItems] at same
  | a :: next :: as, b :: next' :: bs, s, t, same, fed => by
    rw [equalItems, Bool.and_eq_true] at same
    simp only [printItems, utf8_append, List.append_assoc] at fed
    obtain ⟨rfl, rest⟩ := print_cancel same.1 fed
    obtain ⟨others, rest⟩ := printItems_cancel same.2 (List.append_cancel_left rest)
    exact ⟨congrArg _ others, rest⟩

theorem printMembers_cancel : ∀ {a b : List (String × Json)} {s t : List UInt8}, equalMembers a b = true →
    utf8 (printMembers a) ++ s = utf8 (printMembers b) ++ t → a = b ∧ s = t
  | [], [], _, _, _, fed => ⟨rfl, List.append_cancel_left fed⟩
  | [], _ :: _, _, _, same, _ | _ :: _, [], _, _, same, _ => by simp [equalMembers] at same
  | [(name, a)], [(other, b)], s, t, same, fed => by
    simp only [equalMembers, Bool.and_true, Bool.and_eq_true, beq_iff_eq] at same
    obtain ⟨rfl, same⟩ := same
    simp only [printMembers, utf8_append, List.append_assoc] at fed
    obtain ⟨rfl, rest⟩ := print_cancel same (List.append_cancel_left (List.append_cancel_left fed))
    exact ⟨rfl, rest⟩
  | [(_, _)], (_, _) :: (_, _) :: _, _, _, same, _ | (_, _) :: (_, _) :: _, [(_, _)], _, _, same, _ => by
    simp [equalMembers] at same
  | (name, a) :: next :: as, (other, b) :: next' :: bs, s, t, same, fed => by
    rw [equalMembers, Bool.and_eq_true, Bool.and_eq_true, beq_iff_eq] at same
    obtain ⟨⟨rfl, same⟩, others⟩ := same
    simp only [printMembers, utf8_append, List.append_assoc] at fed
    obtain ⟨rfl, rest⟩ := print_cancel same (List.append_cancel_left (List.append_cancel_left fed))
    obtain ⟨others, rest⟩ := printMembers_cancel others (List.append_cancel_left rest)
    exact ⟨congrArg _ others, rest⟩

end

end Json

namespace Value

mutual

/-- Values that are the same and feed the same bytes are identical. -/
theorem hashFeed_cancel : ∀ {a b : Value} {s t : List UInt8}, a.sameAs b = true → a.hashFeed ++ s = b.hashFeed ++ t →
    a = b ∧ s = t
  | .json document, b, s, t, same, fed => by
    cases b <;> simp only [sameAs, equal, Bool.false_eq_true] at same
    simp only [hashFeed, textFeed, List.cons_append, List.cons.injEq, true_and, List.append_assoc] at fed
    obtain ⟨rfl, rest⟩ := Json.print_cancel same fed
    exact ⟨rfl, (List.cons.inj rest).2⟩
  | .array items, b, s, t, same, fed => by
    cases b <;> simp only [sameAs, equal, Bool.false_eq_true] at same
    simp only [hashFeed, length_of_sameItems same, List.cons_append, List.cons.injEq, true_and, List.append_assoc] at fed
    obtain ⟨rfl, rest⟩ := hashFeeds_cancel same (List.append_cancel_left fed)
    exact ⟨rfl, rest⟩
  | .null, b, s, t, same, fed | .bool _, b, s, t, same, fed | .tinyInt _, b, s, t, same, fed
  | .smallInt _, b, s, t, same, fed | .int _, b, s, t, same, fed | .bigInt _, b, s, t, same, fed
  | .float _, b, s, t, same, fed | .double _, b, s, t, same, fed | .decimal _, b, s, t, same, fed
  | .text _, b, s, t, same, fed | .bytes _, b, s, t, same, fed | .date _, b, s, t, same, fed
  | .time _, b, s, t, same, fed | .timestamp _, b, s, t, same, fed | .timestampTz _, b, s, t, same, fed
  | .uuid _, b, s, t, same, fed => by
    cases b <;> simp only [sameAs, equal, Bool.false_eq_true, beq_iff_eq] at same
    all_goals
      subst_vars
      exact ⟨rfl, List.append_cancel_left fed⟩

theorem hashFeeds_cancel : ∀ {a b : List Value} {s t : List UInt8}, sameItems a b = true →
    hashFeeds a ++ s = hashFeeds b ++ t → a = b ∧ s = t
  | [], [], _, _, _, fed => ⟨rfl, fed⟩
  | [], _ :: _, _, _, same, _ | _ :: _, [], _, _, same, _ => by simp [sameItems] at same
  | a :: as, b :: bs, s, t, same, fed => by
    simp only [sameItems, Bool.and_eq_true] at same
    simp only [hashFeeds, List.append_assoc] at fed
    obtain ⟨rfl, rest⟩ := hashFeed_cancel same.1 fed
    obtain ⟨rfl, last⟩ := hashFeeds_cancel same.2 rest
    exact ⟨rfl, last⟩

end

theorem columnsFeed_cancel {a b : List Value} {s t : List UInt8} (same : sameItems a b = true)
    (fed : columnsFeed a ++ s = columnsFeed b ++ t) : a = b ∧ s = t := by
  unfold columnsFeed at fed
  rw [length_of_sameItems same, List.append_assoc, List.append_assoc] at fed
  exact hashFeeds_cancel same (List.append_cancel_left fed)

end Value

/-- After the identifier come the entity and whether there is a tenant. -/
def CacheKey.hashFeed (key : CacheKey) : List UInt8 :=
  key.id.hashFeed ++ (textFeed key.entity ++
    match key.tenant with
    | none => lengthFeed 0
    | some tenant => lengthFeed 1 ++ textFeed tenant)

/-- What a hash map finds under a key: hashes are compared before keys are. -/
def Registry.hashed? {κ α : Type} [BEq κ] (r : Registry κ α) (feed : κ → List UInt8) (digest : List UInt8 → UInt64)
    (key : κ) : Option α :=
  (r.entries.find? fun entry => digest (feed entry.1) == digest (feed key) && entry.1 == key).map (·.2)

/-- Of equal keys those that are identical feed the same bytes, and a hash map finds what there is under a key,
whatever its hash function, just when it was stored under this very key. -/
structure HashedByContents (κ : Type) [BEq κ] (feed : κ → List UInt8) : Prop where
  feeds : ∀ a b : κ, (a == b) = true → (feed a = feed b ↔ a = b)
  finds : ∀ {α : Type} (r : Registry κ α) (key : κ), (∀ digest, r.hashed? feed digest key = r.find? key) ↔
    ∀ entry ∈ r.entries, (entry.1 == key) = true → entry.1 = key

namespace Registry
variable {κ α : Type} [BEq κ] (r : Registry κ α) (feed : κ → List UInt8)

theorem hashed?_eq_find? {key : κ} (stored : ∀ entry ∈ r.entries, (entry.1 == key) = true → feed entry.1 = feed key)
    (digest : List UInt8 → UInt64) : r.hashed? feed digest key = r.find? key := by
  have test : ∀ entry ∈ r.entries,
      (digest (feed entry.1) == digest (feed key) && entry.1 == key) = (entry.1 == key) := by
    intro entry inside
    cases found : entry.1 == key with
    | false => exact Bool.and_false _
    | true => rw [stored entry inside found, BEq.rfl, Bool.true_and]
  exact congrArg (Option.map Prod.snd) (List.find?_congr test)

variable [EquivBEq κ]

theorem eq_of_found {key : κ} {entry other : κ × α} (inside : entry ∈ r.entries) (inside' : other ∈ r.entries)
    (found : (entry.1 == key) = true) (found' : (other.1 == key) = true) : entry = other := by
  by_contra different
  have symmetric : Std.Symm fun a b : κ × α => (a.1 == b.1) = false := ⟨fun a b apart => BEq.comm.trans apart⟩
  have apart := r.distinct.forall inside inside' different
  rw [BEq.trans found (BEq.symm found')] at apart
  cases apart

theorem feed_eq_of_hashed? {key : κ} (finds : ∀ digest, r.hashed? feed digest key = r.find? key) :
    ∀ entry ∈ r.entries, (entry.1 == key) = true → feed entry.1 = feed key := by
  intro entry inside found
  have known : (r.find? key).isSome = true := by
    rw [find?, Option.isSome_map, List.find?_isSome]
    exact ⟨entry, inside, found⟩
  rw [← finds fun bytes => if bytes = feed key then 1 else 0, hashed?, Option.isSome_map, List.find?_isSome] at known
  obtain ⟨other, inside', both⟩ := known
  simp only [if_true, Bool.and_eq_true, beq_iff_eq, ite_eq_left_iff, UInt64.zero_ne_one, imp_false, not_not] at both
  rw [r.eq_of_found inside inside' found both.2]
  exact both.1

end Registry

theorem HashedByContents.of_feeds {κ : Type} [BEq κ] [EquivBEq κ] {feed : κ → List UInt8}
    (feeds : ∀ a b : κ, (a == b) = true → feed a = feed b → a = b) : HashedByContents κ feed where
  feeds a b same := ⟨feeds a b same, congrArg feed⟩
  finds r key := by
    constructor
    · intro finds entry inside found
      exact feeds _ _ found (r.feed_eq_of_hashed? feed finds entry inside found)
    · intro stored digest
      exact r.hashed?_eq_find? feed (fun entry inside found => congrArg feed (stored entry inside found)) digest

theorem Identifier.hashFeed_cancel {a b : Identifier} {s t : List UInt8} (same : (a == b) = true)
    (fed : a.hashFeed ++ s = b.hashFeed ++ t) : a = b ∧ s = t := by
  obtain ⟨columns, rest⟩ := Value.columnsFeed_cancel same fed
  exact ⟨Identifier.ext columns, rest⟩

theorem Identifier.hashedByContents : HashedByContents Identifier Identifier.hashFeed :=
  .of_feeds fun _ _ same fed => (hashFeed_cancel same (congrArg (· ++ []) fed)).1

theorem NaturalId.hashedByContents : HashedByContents NaturalId NaturalId.hashFeed :=
  .of_feeds fun _ _ same fed => congrArg NaturalId.mk (Value.columnsFeed_cancel same (congrArg (· ++ []) fed)).1

theorem EntityKey.hashedByContents : HashedByContents EntityKey EntityKey.hashFeed := by
  refine .of_feeds fun ⟨entity, id⟩ ⟨other, id'⟩ same fed => ?_
  obtain ⟨named, same⟩ := EntityKey.beq_iff.mp same
  obtain rfl : entity = other := named
  obtain ⟨rfl, -⟩ := Identifier.hashFeed_cancel same (congrArg (· ++ []) (List.append_cancel_left fed))
  rfl

theorem CacheKey.hashedByContents : HashedByContents CacheKey CacheKey.hashFeed := by
  refine .of_feeds fun ⟨id, entity, tenant⟩ ⟨id', other, tenant'⟩ same fed => ?_
  obtain ⟨same, named, owned⟩ := CacheKey.beq_iff.mp same
  obtain rfl : entity = other := named
  obtain rfl : tenant = tenant' := owned
  obtain ⟨rfl, -⟩ := Identifier.hashFeed_cancel same fed
  rfl

/-- Sameness is an equivalence: it is identity but for the sign of zeros inside documents. Values that are the same
feed a hash the same bytes just when this sign agrees too, and so it is with the keys made of them: only an identical
key is sure to be found again in a hash map. -/
theorem same_values_hash_alike_iff (a b c : Value) :
    a.sameAs a = true ∧ (a.sameAs b = true → b.sameAs a = true) ∧
      (a.sameAs b = true → b.sameAs c = true → a.sameAs c = true) ∧ (a.sameAs b = true ↔ a.unsigned = b.unsigned) ∧
      (a.sameAs b = true → (a.hashFeed = b.hashFeed ↔ a = b)) ∧
      HashedByContents Identifier Identifier.hashFeed ∧ HashedByContents EntityKey EntityKey.hashFeed ∧
      HashedByContents CacheKey CacheKey.hashFeed ∧ HashedByContents NaturalId NaturalId.hashFeed := by
  refine ⟨a.sameAs_self, Value.sameAs_symm, Value.sameAs_trans, Value.sameAs_iff a b, ?_,
    Identifier.hashedByContents, EntityKey.hashedByContents, CacheKey.hashedByContents, NaturalId.hashedByContents⟩
  intro same
  refine ⟨fun fed => ?_, congrArg Value.hashFeed⟩
  exact (Value.hashFeed_cancel same (congrArg (· ++ []) fed)).1

namespace Sample

def zero : Json := .real ⟨⟨0⟩, by decide⟩

def negativeZero : Json := .real ⟨⟨0x8000000000000000⟩, by decide⟩

def known : Registry Identifier Bool := Registry.empty.insert (.ofColumns [.json zero]) true

end Sample

open Sample in
/-- Two lists of zeros whose texts have the same length. -/
theorem same_values_hash_alike_iff_crossed :
    (Value.json (.array [zero, negativeZero])).sameAs (.json (.array [negativeZero, zero])) = true ∧
      (Value.json (.array [zero, negativeZero])).hashFeed ≠ (Value.json (.array [negativeZero, zero])).hashFeed ∧
      ¬ ∀ digest, known.hashed? Identifier.hashFeed digest (.ofColumns [.json negativeZero]) =
        known.find? (.ofColumns [.json negativeZero]) := by
  obtain ⟨-, -, -, same, feeds, identifiers, -⟩ := same_values_hash_alike_iff
    (.json (.array [zero, negativeZero])) (.json (.array [negativeZero, zero])) .null
  have alike := same.mpr rfl
  refine ⟨alike, fun fed => ?_, fun finds => ?_⟩
  · have identical := (feeds alike).mp fed
    simp [zero, negativeZero] at identical
  · have identical := (identifiers.finds known _).mp finds _ List.mem_cons_self rfl
    have columns : [Value.json zero] = [.json negativeZero] := congrArg Identifier.columns identical
    simp [zero, negativeZero] at columns

open Sample in
theorem equal_zeros_hash_apart : ∃ a b : Value, a.sameAs b = true ∧ a.hashFeed ≠ b.hashFeed :=
  ⟨.json zero, .json negativeZero, by decide +kernel, by decide +kernel⟩

end UnitOfWork
