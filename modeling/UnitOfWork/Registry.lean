/-! Finite maps under the key type's own equality. Identifiers compare column by column and not
structurally, so a key is found by any key equal to it. Every operation is described by what it does
to `find?`; the order of the entries is the order of first insertion.

A hash table behaves like this as long as equal keys have equal hashes. Keys with documents that differ only in the
sign of a zero are equal and do not; what a hash table does with those is outside what a registry stands for. -/

namespace UnitOfWork

/-- No two entries have equal keys, so an entry count is a key count. -/
structure Registry (κ α : Type) [BEq κ] where
  entries : List (κ × α)
  distinct : entries.Pairwise fun a b => (a.1 == b.1) = false

namespace Registry

variable {κ α : Type} [BEq κ]

def empty : Registry κ α := ⟨[], .nil⟩

instance : EmptyCollection (Registry κ α) := ⟨empty⟩

instance : Inhabited (Registry κ α) := ⟨empty⟩

def size (r : Registry κ α) : Nat := r.entries.length

def keys (r : Registry κ α) : List κ := r.entries.map (·.1)

def values (r : Registry κ α) : List α := r.entries.map (·.2)

def find? (r : Registry κ α) (key : κ) : Option α :=
  (r.entries.find? fun entry => entry.1 == key).map (·.2)

def contains (r : Registry κ α) (key : κ) : Bool := r.entries.any fun entry => entry.1 == key

def assign (key : κ) (value : α) (entry : κ × α) : κ × α :=
  if entry.1 == key then (entry.1, value) else entry

private theorem assign_fst (key : κ) (value : α) (entry : κ × α) : (assign key value entry).1 = entry.1 := by
  unfold assign
  split <;> rfl

/-- A key already present keeps its place and its spelling; only the value changes. -/
def insert (r : Registry κ α) (key : κ) (value : α) : Registry κ α :=
  if absent : r.contains key = false then
    { entries := r.entries ++ [(key, value)]
      distinct := by
        simp only [contains, List.any_eq_false] at absent
        simp only [List.pairwise_append, List.pairwise_singleton, List.mem_singleton, true_and]
        exact ⟨r.distinct, fun a member b same => by simpa [same] using absent a member⟩ }
  else
    { entries := r.entries.map (assign key value)
      distinct := by simpa [List.pairwise_map, assign_fst] using r.distinct }

def erase (r : Registry κ α) (key : κ) : Registry κ α :=
  { entries := r.entries.filter fun entry => !(entry.1 == key)
    distinct := r.distinct.filter _ }

def modify (r : Registry κ α) (key : κ) (change : α → α) : Registry κ α :=
  match r.find? key with
  | some value => r.insert key (change value)
  | none => r

def insertIfNew (r : Registry κ α) (key : κ) (value : α) : Registry κ α :=
  if r.contains key then r else r.insert key value

theorem contains_eq_isSome (r : Registry κ α) (key : κ) : r.contains key = (r.find? key).isSome := by
  rw [Bool.eq_iff_iff]
  simp [contains, find?]

section
variable [EquivBEq κ]

theorem find?_congr (r : Registry κ α) {a b : κ} (same : (a == b) = true) : r.find? a = r.find? b := by
  have test : (fun entry : κ × α => entry.1 == a) = fun entry => entry.1 == b := by
    funext entry
    exact BEq.congr_right same
  simp only [find?, test]

theorem contains_congr (r : Registry κ α) {a b : κ} (same : (a == b) = true) : r.contains a = r.contains b := by
  simp only [contains_eq_isSome, r.find?_congr same]

private theorem find?_map_assign (key other : κ) (value : α) (entries : List (κ × α)) :
    ((entries.map (assign key value)).find? fun entry => entry.1 == other).map (·.2) =
      if (key == other) = true ∧ entries.any (fun entry => entry.1 == key) = true then some value
      else (entries.find? fun entry => entry.1 == other).map (·.2) := by
  induction entries with
  | nil => simp
  | cons entry rest ih =>
    rw [List.map_cons, List.find?_cons, assign_fst, List.find?_cons, List.any_cons]
    cases here : entry.1 == other with
    | true =>
      by_cases same : (key == other) = true
      · have held : (entry.1 == key) = true := by rw [BEq.congr_right same]; exact here
        simp [same, held, assign]
      · have free : (entry.1 == key) = false :=
          Bool.eq_false_iff.mpr fun held => same (PartialEquivBEq.trans (PartialEquivBEq.symm held) here)
        simp [same, free, assign]
    | false =>
      by_cases same : (key == other) = true
      · have free : (entry.1 == key) = false := by rw [BEq.congr_right same]; exact here
        rw [free, Bool.false_or]
        exact ih
      · simpa [same] using ih

theorem find?_insert (r : Registry κ α) (key other : κ) (value : α) :
    (r.insert key value).find? other = if key == other then some value else r.find? other := by
  unfold insert
  split
  next absent =>
    simp only [contains, List.any_eq_false] at absent
    simp only [find?, List.find?_append]
    by_cases same : (key == other) = true
    · have missing : r.entries.find? (fun entry => entry.1 == other) = none := by
        rw [List.find?_eq_none]
        intro entry member held
        exact absent entry member (by rw [BEq.congr_right same]; exact held)
      simp [missing, same]
    · simp [same]
  next present =>
    have held : r.entries.any (fun entry => entry.1 == key) = true := by simpa [contains] using present
    simp only [find?, find?_map_assign, held, and_true]

theorem find?_erase (r : Registry κ α) (key other : κ) :
    (r.erase key).find? other = if key == other then none else r.find? other := by
  simp only [erase, find?]
  by_cases same : (key == other) = true
  · rw [if_pos same, Option.map_eq_none_iff, List.find?_eq_none]
    intro entry member held
    obtain ⟨_, kept⟩ := List.mem_filter.mp member
    rw [BEq.congr_right same] at kept
    simp [held] at kept
  · rw [if_neg same, List.find?_filter]
    have test : (fun entry : κ × α => decide ((!(entry.1 == key)) = true ∧ (entry.1 == other) = true)) =
        fun entry => entry.1 == other := by
      funext entry
      cases held : entry.1 == other with
      | true =>
        have free : (entry.1 == key) = false :=
          Bool.eq_false_iff.mpr fun both => same (PartialEquivBEq.trans (PartialEquivBEq.symm both) held)
        simp [free]
      | false => simp
    rw [test]

theorem find?_modify (r : Registry κ α) (key other : κ) (change : α → α) :
    (r.modify key change).find? other = if key == other then (r.find? other).map change else r.find? other := by
  unfold modify
  split
  next value found =>
    rw [find?_insert]
    split
    next same => rw [← r.find?_congr same, found]; rfl
    next => rfl
  next missing =>
    split
    next same => rw [← r.find?_congr same, missing]; rfl
    next => rfl

theorem find?_insertIfNew (r : Registry κ α) (key other : κ) (value : α) :
    (r.insertIfNew key value).find? other =
      if (key == other) = true ∧ r.find? key = none then some value else r.find? other := by
  unfold insertIfNew
  rw [contains_eq_isSome]
  cases found : r.find? key with
  | none => simp [find?_insert]
  | some held => simp

end

end Registry

end UnitOfWork
