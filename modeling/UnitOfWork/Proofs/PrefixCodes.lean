import Mathlib.Algebra.Group.Nat.Defs
import UnitOfWork.Proofs.HashAgreement

/-! What is fed to a hash can be read back. Each value opens with its column type and ends by itself, so no other value can
have been fed there, whatever comes after it; that is how the items of a list and the columns of a key stay apart. Documents
are left out, of which only the text is fed. So are lists of more items than eight bytes can tell, since lengths are fed as
eight bytes: addresses have no more, and no list that long exists. -/

namespace UnitOfWork

/-- What is fed of an allowed value ends by itself: it tells the value, whatever follows. -/
def EndsItself {κ : Type} (feed : κ → List UInt8) (allowed : κ → Prop) : Prop :=
  ∀ ⦃x y : κ⦄ ⦃s t : List UInt8⦄, allowed x → allowed y → feed x ++ s = feed y ++ t → x = y ∧ s = t

/-- Of allowed values those that are the same are fed alike, and of others neither is fed as the beginning of the other. -/
structure PrefixCode {κ : Type} (same : κ → κ → Bool) (feed : κ → List UInt8) (allowed : κ → Prop) : Prop where
  alike : ∀ x y, allowed x → allowed y → (feed x = feed y ↔ same x y = true)
  apart : ∀ x y, allowed x → allowed y → same x y = false → ¬ feed x <+: feed y

namespace EndsItself
variable {κ ι : Type} {feed : κ → List UInt8} {allowed : κ → Prop}

theorem prefixCode {same : κ → κ → Bool} (ends : EndsItself feed allowed)
    (identity : ∀ x y, allowed x → allowed y → (same x y = true ↔ x = y)) : PrefixCode same feed allowed where
  alike x y told told' := by
    rw [identity x y told told']
    exact ⟨fun fed => (ends told told' (congrArg (· ++ []) fed)).1, congrArg feed⟩
  apart x y told told' different := by
    rintro ⟨rest, fed⟩
    obtain ⟨rfl, -⟩ := ends told told' (fed.trans (List.append_nil _).symm)
    rw [(identity x x told told').mpr rfl] at different
    cases different

theorem comp {part : ι → κ} (ends : EndsItself feed allowed) (injective : ∀ x y, part x = part y → x = y) :
    EndsItself (fun x => feed (part x)) fun x => allowed (part x) := by
  intro x y s t told told' fed
  obtain ⟨same, rest⟩ := ends told told' fed
  exact ⟨injective x y same, rest⟩

theorem typed {make : κ → Value} {tag : UInt8} {x y : κ} {s t : List UInt8} (ends : EndsItself feed allowed)
    (told : allowed x) (told' : allowed y) (fed : tag :: (feed x ++ s) = tag :: (feed y ++ t)) :
    make x = make y ∧ s = t := by
  obtain ⟨rfl, rest⟩ := ends told told' (List.cons.inj fed).2
  exact ⟨rfl, rest⟩

end EndsItself

/-! Numbers, texts and byte strings. -/

theorem littleEndian_cancel {width m n : Nat} {s t : List UInt8}
    (fed : littleEndian width m ++ s = littleEndian width n ++ t) :
    m % 256 ^ width = n % 256 ^ width ∧ s = t := by
  induction width generalizing m n with
  | zero => exact ⟨by rw [Nat.pow_zero, Nat.mod_one, Nat.mod_one], fed⟩
  | succ width ih =>
    simp only [littleEndian, List.cons_append, List.cons.injEq] at fed
    obtain ⟨low, high, rest⟩ := fed.imp_right ih
    have low : m % 256 = n % 256 := by simpa using congrArg UInt8.toNat low
    exact ⟨by rw [Nat.pow_succ', Nat.mod_mul, Nat.mod_mul, low, high], rest⟩

theorem littleEndian_endsItself (width : Nat) : EndsItself (littleEndian width) fun n => n < 256 ^ width := by
  intro m n s t told told' fed
  obtain ⟨same, rest⟩ := littleEndian_cancel fed
  rw [Nat.mod_eq_of_lt told, Nat.mod_eq_of_lt told'] at same
  exact ⟨same, rest⟩

theorem lengthFeed_endsItself : EndsItself lengthFeed fun n => n < 2 ^ 64 := littleEndian_endsItself 8

theorem word_endsItself {κ : Type} {width : Nat} {number : κ → Nat} (bounded : ∀ x, number x < 256 ^ width)
    (injective : ∀ x y, number x = number y → x = y) :
    EndsItself (fun x => littleEndian width (number x)) fun _ => True := fun x y _ _ _ _ =>
  (littleEndian_endsItself width).comp injective (bounded x) (bounded y)

theorem int8_endsItself : EndsItself (fun n : Int8 => littleEndian 1 n.toUInt8.toNat) fun _ => True :=
  word_endsItself (fun n => n.toUInt8.toNat_lt) fun _ _ same => congrArg UInt8.toInt8 (UInt8.toNat_inj.mp same)

theorem int16_endsItself : EndsItself (fun n : Int16 => littleEndian 2 n.toUInt16.toNat) fun _ => True :=
  word_endsItself (fun n => n.toUInt16.toNat_lt) fun _ _ same => congrArg UInt16.toInt16 (UInt16.toNat_inj.mp same)

theorem int32_endsItself : EndsItself (fun n : Int32 => littleEndian 4 n.toUInt32.toNat) fun _ => True :=
  word_endsItself (fun n => n.toUInt32.toNat_lt) fun _ _ same => congrArg UInt32.toInt32 (UInt32.toNat_inj.mp same)

theorem int64_endsItself : EndsItself (fun n : Int64 => littleEndian 8 n.toUInt64.toNat) fun _ => True :=
  word_endsItself (fun n => n.toUInt64.toNat_lt) fun _ _ same => congrArg UInt64.toInt64 (UInt64.toNat_inj.mp same)

theorem single_endsItself : EndsItself (fun x : Single => littleEndian 4 x.bits.toNat) fun _ => True :=
  word_endsItself (fun x => x.bits.toNat_lt) fun _ _ same => congrArg Single.mk (UInt32.toNat_inj.mp same)

theorem double_endsItself : EndsItself (fun x : Double => littleEndian 8 x.bits.toNat) fun _ => True :=
  word_endsItself (fun x => x.bits.toNat_lt) fun _ _ same => congrArg Double.mk (UInt64.toNat_inj.mp same)

theorem bool_endsItself : EndsItself (fun b : Bool => [if b then (1 : UInt8) else 0]) fun _ => True := by
  intro a b s t _ _ fed
  cases a <;> cases b
  case false.false | true.true => exact ⟨rfl, (List.cons.inj fed).2⟩
  all_goals cases fed

theorem mark_not_mem_utf8EncodeChar (c : Char) : 0xff ∉ String.utf8EncodeChar c := by
  have apart {n : Nat} (small : n < 255) : (0xff : UInt8) ≠ UInt8.ofNat n := by
    intro same
    have numbers := congrArg UInt8.toNat same
    rw [UInt8.toNat_ofNat_of_lt' (Nat.lt_succ_of_lt small)] at numbers
    exact absurd numbers (Nat.ne_of_gt small)
  unfold String.utf8EncodeChar
  generalize c.val.toNat = v
  dsimp only
  split_ifs <;> simp only [List.mem_cons, List.not_mem_nil, or_false, not_or]
  · exact apart (by omega)
  · exact ⟨apart (by omega), apart (by omega)⟩
  · exact ⟨apart (by omega), apart (by omega), apart (by omega)⟩
  · exact ⟨apart (by omega), apart (by omega), apart (by omega), apart (by omega)⟩

theorem mark_not_mem_utf8 (s : String) : 0xff ∉ utf8 s := by
  have bytes : utf8 s = s.toList.flatMap String.utf8EncodeChar := by
    unfold utf8
    rw [bytes_toList]
    change s.toByteArray.data.toList = _
    rw [← String.utf8Encode_toList, List.utf8Encode, List.toList_data_toByteArray]
  rw [bytes, List.mem_flatMap]
  rintro ⟨c, -, inside⟩
  exact mark_not_mem_utf8EncodeChar c inside

theorem utf8_injective {s t : String} (same : utf8 s = utf8 t) : s = t := by
  unfold utf8 at same
  rw [bytes_toList, bytes_toList] at same
  exact String.toByteArray_inj.mp (ByteArray.ext (Array.toList_inj.mp same))

theorem marked_cancel {α : Type} {mark : α} : ∀ {xs ys s t : List α}, mark ∉ xs → mark ∉ ys →
    xs ++ mark :: s = ys ++ mark :: t → xs = ys ∧ s = t
  | [], [], _, _, _, _, same => ⟨rfl, (List.cons.inj same).2⟩
  | [], _ :: _, _, _, _, absent, same | _ :: _, [], _, _, absent, _, same => by
    rw [List.nil_append, List.cons_append, List.cons.injEq] at same
    simp [same.1] at absent
  | x :: xs, y :: ys, s, t, absent, absent', same => by
    rw [List.cons_append, List.cons_append, List.cons.injEq] at same
    rw [List.mem_cons, not_or] at absent absent'
    obtain ⟨others, rest⟩ := marked_cancel absent.2 absent'.2 same.2
    exact ⟨by rw [same.1, others], rest⟩

theorem textFeed_endsItself : EndsItself textFeed fun _ => True := by
  intro x y s t _ _ fed
  simp only [textFeed, List.append_assoc, List.singleton_append] at fed
  obtain ⟨same, rest⟩ := marked_cancel (mark_not_mem_utf8 x) (mark_not_mem_utf8 y) fed
  exact ⟨utf8_injective same, rest⟩

theorem bytesFeed_endsItself : EndsItself bytesFeed fun data => data.length < 2 ^ 64 := by
  intro x y s t told told' fed
  simp only [bytesFeed, List.append_assoc] at fed
  obtain ⟨length, data⟩ := lengthFeed_endsItself told told' fed
  exact List.append_inj data length

theorem uuid_endsItself : EndsItself (fun data : Vector UInt8 16 => bytesFeed data.toList) fun _ => True := by
  intro x y s t _ _ fed
  refine bytesFeed_endsItself.comp (fun _ _ => Vector.toList_inj.mp) ?_ ?_ fed <;> simp

namespace Value

mutual

def isPlain : Value → Bool
  | .json _ => false
  | .array items => allPlain items
  | _ => true

def allPlain : List Value → Bool
  | [] => true
  | item :: rest => item.isPlain && allPlain rest

end

mutual

/-- Eight bytes can tell all lengths in the value, as they can whatever the memory holds. -/
def isSized : Value → Bool
  | .bytes data => data.length < 2 ^ 64
  | .array items => items.length < 2 ^ 64 && allSized items
  | _ => true

def allSized : List Value → Bool
  | [] => true
  | item :: rest => item.isSized && allSized rest

end

mutual

theorem readable : ∀ {a b : Value} {s t : List UInt8}, a.isPlain = true → b.isPlain = true → a.isSized = true →
    b.isSized = true → a.hashFeed ++ s = b.hashFeed ++ t → a = b ∧ s = t
  | .null, b, _, _, _, _, _, _, fed => by
    cases b with
    | null => exact ⟨rfl, (List.cons.inj fed).2⟩
    | _ => cases fed
  | .bool _, b, _, _, _, _, _, _, fed => by
    cases b with
    | bool _ => exact bool_endsItself.typed trivial trivial fed
    | _ => cases fed
  | .tinyInt _, b, _, _, _, _, _, _, fed => by
    cases b with
    | tinyInt _ => exact int8_endsItself.typed trivial trivial fed
    | _ => cases fed
  | .smallInt _, b, _, _, _, _, _, _, fed => by
    cases b with
    | smallInt _ => exact int16_endsItself.typed trivial trivial fed
    | _ => cases fed
  | .int _, b, _, _, _, _, _, _, fed => by
    cases b with
    | int _ => exact int32_endsItself.typed trivial trivial fed
    | _ => cases fed
  | .bigInt _, b, _, _, _, _, _, _, fed => by
    cases b with
    | bigInt _ => exact int64_endsItself.typed trivial trivial fed
    | _ => cases fed
  | .float _, b, _, _, _, _, _, _, fed => by
    cases b with
    | float _ => exact single_endsItself.typed trivial trivial fed
    | _ => cases fed
  | .double _, b, _, _, _, _, _, _, fed => by
    cases b with
    | double _ => exact double_endsItself.typed trivial trivial fed
    | _ => cases fed
  | .decimal _, b, _, _, _, _, _, _, fed => by
    cases b with
    | decimal _ => exact textFeed_endsItself.typed trivial trivial fed
    | _ => cases fed
  | .text _, b, _, _, _, _, _, _, fed => by
    cases b with
    | text _ => exact textFeed_endsItself.typed trivial trivial fed
    | _ => cases fed
  | .bytes _, b, _, _, _, _, told, told', fed => by
    cases b with
    | bytes _ => exact bytesFeed_endsItself.typed (of_decide_eq_true told) (of_decide_eq_true told') fed
    | _ => cases fed
  | .date _, b, _, _, _, _, _, _, fed => by
    cases b with
    | date _ => exact int32_endsItself.typed trivial trivial fed
    | _ => cases fed
  | .time _, b, _, _, _, _, _, _, fed => by
    cases b with
    | time _ => exact int64_endsItself.typed trivial trivial fed
    | _ => cases fed
  | .timestamp _, b, _, _, _, _, _, _, fed => by
    cases b with
    | timestamp _ => exact int64_endsItself.typed trivial trivial fed
    | _ => cases fed
  | .timestampTz _, b, _, _, _, _, _, _, fed => by
    cases b with
    | timestampTz _ => exact int64_endsItself.typed trivial trivial fed
    | _ => cases fed
  | .uuid x, b, _, _, _, _, _, _, fed => by
    cases b with
    | uuid y => exact uuid_endsItself.typed trivial trivial fed
    | _ => cases fed
  | .json _, _, _, _, plain, _, _, _, _ => by cases plain
  | .array items, b, s, t, plain, plain', told, told', fed => by
    cases b with
    | array others =>
      rw [isSized, Bool.and_eq_true, decide_eq_true_eq] at told told'
      simp only [hashFeed, List.cons_append, List.cons.injEq, true_and, List.append_assoc] at fed
      obtain ⟨length, items⟩ := lengthFeed_endsItself told.1 told'.1 fed
      obtain ⟨rfl, rest⟩ := readableItems plain plain' told.2 told'.2 length items
      exact ⟨rfl, rest⟩
    | _ => cases fed

theorem readableItems : ∀ {a b : List Value} {s t : List UInt8}, allPlain a = true → allPlain b = true →
    allSized a = true → allSized b = true → a.length = b.length → hashFeeds a ++ s = hashFeeds b ++ t →
    a = b ∧ s = t
  | [], [], _, _, _, _, _, _, _, fed => ⟨rfl, fed⟩
  | [], _ :: _, _, _, _, _, _, _, length, _ | _ :: _, [], _, _, _, _, _, _, length, _ => by cases length
  | a :: as, b :: bs, s, t, plain, plain', told, told', length, fed => by
    rw [allPlain, Bool.and_eq_true] at plain plain'
    rw [allSized, Bool.and_eq_true] at told told'
    simp only [hashFeeds, List.append_assoc] at fed
    obtain ⟨rfl, others⟩ := readable plain.1 plain'.1 told.1 told'.1 fed
    obtain ⟨rfl, rest⟩ := readableItems plain.2 plain'.2 told.2 told'.2 (Nat.succ.inj length) others
    exact ⟨rfl, rest⟩

end

mutual

theorem unsigned_of_isPlain : ∀ {value : Value}, value.isPlain = true → value.unsigned = value
  | .json _, plain => by cases plain
  | .array items, plain => congrArg array (unsignedItems_of_allPlain plain)
  | .null, _ | .bool _, _ | .tinyInt _, _ | .smallInt _, _ | .int _, _ | .bigInt _, _ | .float _, _ | .double _, _
  | .decimal _, _ | .text _, _ | .bytes _, _ | .date _, _ | .time _, _ | .timestamp _, _ | .timestampTz _, _
  | .uuid _, _ => rfl

theorem unsignedItems_of_allPlain : ∀ {items : List Value}, allPlain items = true → unsignedItems items = items
  | [], _ => rfl
  | item :: rest, plain => by
    rw [allPlain, Bool.and_eq_true] at plain
    rw [unsignedItems, unsigned_of_isPlain plain.1, unsignedItems_of_allPlain plain.2]

end

/-- All of the value is fed: no document is in it, and its lengths can be told. -/
def IsTold (value : Value) : Prop := value.isPlain = true ∧ value.isSized = true

theorem sameAs_iff_eq {a b : Value} (told : a.IsTold) (told' : b.IsTold) : a.sameAs b = true ↔ a = b := by
  rw [sameAs_iff, unsigned_of_isPlain told.1, unsigned_of_isPlain told'.1]

theorem sameItems_iff_eq {a b : List Value} (told : (array a).IsTold) (told' : (array b).IsTold) :
    sameItems a b = true ↔ a = b := by
  rw [← Value.array.injEq, ← sameAs_iff_eq told told', sameAs]

theorem hashFeed_endsItself : EndsItself hashFeed IsTold := fun _ _ _ _ told told' fed =>
  readable told.1 told'.1 told.2 told'.2 fed

theorem columnsFeed_endsItself : EndsItself columnsFeed fun columns => (array columns).IsTold := by
  intro a b s t told told' fed
  obtain ⟨same, rest⟩ := hashFeed_endsItself told told' (congrArg (17 :: ·) fed)
  exact ⟨Value.array.inj same, rest⟩

end Value

/-! Keys. -/

theorem Identifier.hashFeed_endsItself : EndsItself Identifier.hashFeed fun id => (Value.array id.columns).IsTold :=
  Value.columnsFeed_endsItself.comp fun _ _ => Identifier.ext

theorem NaturalId.hashFeed_endsItself :
    EndsItself NaturalId.hashFeed fun naturalId => (Value.array naturalId.values).IsTold :=
  Value.columnsFeed_endsItself.comp fun _ _ => congrArg NaturalId.mk

theorem EntityKey.hashFeed_endsItself : EndsItself EntityKey.hashFeed fun key => (Value.array key.id.columns).IsTold := by
  rintro ⟨entity, id⟩ ⟨other, id'⟩ s t told told' fed
  simp only [EntityKey.hashFeed, List.append_assoc] at fed
  obtain ⟨rfl, ids⟩ := textFeed_endsItself trivial trivial fed
  obtain ⟨rfl, rest⟩ := Identifier.hashFeed_endsItself told told' ids
  exact ⟨rfl, rest⟩

theorem Identifier.beq_iff_eq {a b : Identifier} (told : (Value.array a.columns).IsTold)
    (told' : (Value.array b.columns).IsTold) : (a == b) = true ↔ a = b :=
  (Value.sameItems_iff_eq told told').trans ⟨Identifier.ext, congrArg Identifier.columns⟩

/-- What values feed to a hash is a prefix code, as far as they hold no documents: the same bytes are fed of values that are
the same and of no others, and the bytes of one value never begin those of another. It is so with identifiers, natural ids
and keys made of such values. -/
theorem hash_feeds_are_prefix_codes :
    PrefixCode Value.sameAs Value.hashFeed Value.IsTold ∧
      PrefixCode BEq.beq Identifier.hashFeed (fun id => (Value.array id.columns).IsTold) ∧
      PrefixCode BEq.beq NaturalId.hashFeed (fun naturalId => (Value.array naturalId.values).IsTold) ∧
      PrefixCode BEq.beq EntityKey.hashFeed (fun key => (Value.array key.id.columns).IsTold) := by
  refine ⟨Value.hashFeed_endsItself.prefixCode fun _ _ => Value.sameAs_iff_eq,
    Identifier.hashFeed_endsItself.prefixCode fun _ _ => Identifier.beq_iff_eq,
    NaturalId.hashFeed_endsItself.prefixCode fun a b told told' => ?_,
    EntityKey.hashFeed_endsItself.prefixCode fun a b told told' => ?_⟩
  · exact (Value.sameItems_iff_eq told told').trans ⟨congrArg NaturalId.mk, congrArg NaturalId.values⟩
  · rw [EntityKey.beq_iff, Identifier.beq_iff_eq told told']
    exact ⟨fun same => congr (congrArg EntityKey.mk same.1) same.2, fun same => same ▸ ⟨rfl, rfl⟩⟩

/-- Lists with the same items in other groups, and an identifier read from columns of two widths. -/
theorem hash_feeds_are_prefix_codes_grouped :
    ¬ (Value.array [.text "a", .array []]).hashFeed <+: (Value.array [.text "a", .array [.null]]).hashFeed ∧
      (Value.array [.array [.null], .null]).hashFeed ≠ (Value.array [.array [.null, .null]]).hashFeed ∧
      (Identifier.ofColumns [.int 1, .bytes [0]]).hashFeed = (Identifier.ofColumns [.bigInt 1, .bytes [0]]).hashFeed := by
  obtain ⟨values, identifiers, -, -⟩ := hash_feeds_are_prefix_codes
  refine ⟨values.apart _ _ ⟨rfl, rfl⟩ ⟨rfl, rfl⟩ ?_, fun fed => ?_, ?_⟩
  · simp [Value.sameAs, Value.sameItems, Value.equal]
  · have same := (values.alike _ _ ⟨rfl, rfl⟩ ⟨rfl, rfl⟩).mp fed
    simp [Value.sameAs, Value.sameItems] at same
  · exact (identifiers.alike _ _ ⟨rfl, rfl⟩ ⟨rfl, rfl⟩).mpr (by decide +kernel)

end UnitOfWork
