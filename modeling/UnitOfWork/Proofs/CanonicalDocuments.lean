import UnitOfWork.Json.Basic

/-! Documents in canonical form: each object has its members in order of their names, and no name twice. What is in
canonical form stays as it is, and members of different names are only put in order, so none is lost. -/

namespace UnitOfWork.Json

/-- Members already in order, with others put in their places among them. -/
def insertAll (sorted members : List (String × Json)) : List (String × Json) :=
  members.foldl (fun sorted member => insertMember member.1 member.2 sorted) sorted

theorem ofMembers_eq (members : List (String × Json)) : ofMembers members = .object (insertAll [] members) := rfl

section
variable {name : String} {value : Json} {members : List (String × Json)}

theorem insertMember_perm (absent : name ∉ members.map (·.1)) :
    (insertMember name value members).Perm ((name, value) :: members) := by
  induction members with
  | nil => exact .refl _
  | cons member rest ih =>
    obtain ⟨other, held⟩ := member
    simp only [List.map_cons, List.mem_cons, not_or] at absent
    rw [insertMember]
    split
    · exact .refl _
    · rw [if_neg absent.1]
      exact ((ih absent.2).cons _).trans (.swap _ _ _)

theorem mem_insertMember {member : String × Json} (inserted : member ∈ insertMember name value members) :
    member = (name, value) ∨ member ∈ members := by
  induction members with
  | nil => exact .inl (List.mem_singleton.mp inserted)
  | cons first rest ih =>
    rw [insertMember] at inserted
    split at inserted
    · exact List.mem_cons.mp inserted
    · split at inserted
      · exact (List.mem_cons.mp inserted).imp_right (List.mem_cons_of_mem _)
      · rcases List.mem_cons.mp inserted with rfl | later
        · exact .inr List.mem_cons_self
        · exact (ih later).imp_right (List.mem_cons_of_mem _)

theorem insertMember_sorted (inOrder : members.Pairwise (·.1 < ·.1)) :
    (insertMember name value members).Pairwise (·.1 < ·.1) := by
  induction members with
  | nil => exact List.pairwise_singleton _ _
  | cons first rest ih =>
    obtain ⟨other, held⟩ := first
    obtain ⟨above, below⟩ := List.pairwise_cons.mp inOrder
    rw [insertMember]
    split
    next before =>
      refine inOrder.cons fun member later => ?_
      rcases List.mem_cons.mp later with rfl | later
      · exact before
      · exact String.lt_trans before (above member later)
    next least =>
      split
      next same => exact below.cons (same ▸ above)
      next different =>
        refine (ih below).cons fun member later => ?_
        rcases mem_insertMember later with rfl | later
        · exact String.not_le.mp fun most => different (String.le_antisymm most (String.not_lt.mp least))
        · exact above member later

end

theorem insertAll_perm (sorted members : List (String × Json)) (distinct : ((sorted ++ members).map (·.1)).Nodup) :
    (insertAll sorted members).Perm (sorted ++ members) := by
  induction members generalizing sorted with
  | nil => rw [List.append_nil]; exact .refl _
  | cons member rest ih =>
    have absent : member.1 ∉ sorted.map (·.1) := by
      rw [List.map_append, List.nodup_append] at distinct
      exact fun present => distinct.2.2 _ present _ (List.mem_map_of_mem List.mem_cons_self) rfl
    have inserted : (insertMember member.1 member.2 sorted ++ rest).Perm (sorted ++ member :: rest) :=
      ((insertMember_perm absent).append_right rest).trans List.perm_middle.symm
    exact (ih _ ((inserted.map _).nodup_iff.mpr distinct)).trans inserted

theorem mem_insertAll {sorted members : List (String × Json)} {member : String × Json}
    (present : member ∈ insertAll sorted members) : member ∈ sorted ∨ member ∈ members := by
  induction members generalizing sorted with
  | nil => exact .inl present
  | cons first rest ih =>
    rcases ih present with inserted | later
    · rcases mem_insertMember inserted with rfl | earlier
      · exact .inr List.mem_cons_self
      · exact .inl earlier
    · exact .inr (List.mem_cons_of_mem _ later)

theorem insertAll_sorted {sorted members : List (String × Json)} (inOrder : sorted.Pairwise (·.1 < ·.1)) :
    (insertAll sorted members).Pairwise (·.1 < ·.1) := by
  induction members generalizing sorted with
  | nil => exact inOrder
  | cons member rest ih => exact ih (insertMember_sorted inOrder)

theorem ofMembers_of_sorted {members : List (String × Json)} (inOrder : members.Pairwise (·.1 < ·.1)) :
    ofMembers members = .object members := by
  have distinct : (members.map (·.1)).Nodup := by
    refine List.pairwise_map.mpr (inOrder.imp ?_)
    intro member other below same
    exact String.lt_irrefl other.1 (same ▸ below)
  have same : insertAll [] members = members :=
    List.Perm.eq_of_pairwise (fun member other _ _ below above => absurd above (String.lt_asymm below))
      (insertAll_sorted .nil) inOrder (insertAll_perm [] members distinct)
  rw [ofMembers_eq, same]

theorem canonicalMembers_eq_self {members : List (String × Json)}
    (held : ∀ member ∈ members, member.2.canonical = member.2) : canonicalMembers members = members := by
  induction members with
  | nil => rfl
  | cons member rest ih =>
    rw [canonicalMembers, held member List.mem_cons_self, ih fun other later => held other (List.mem_cons_of_mem _ later)]

mutual

theorem canonical_canonical : ∀ document : Json, document.canonical.canonical = document.canonical
  | .null | .bool _ | .integer _ | .real _ | .text _ => rfl
  | .array items => by rw [canonical, canonical, canonicalItems_canonicalItems items]
  | .object members => by
    have held (member : String × Json) (present : member ∈ insertAll [] (canonicalMembers members)) :
        member.2.canonical = member.2 :=
      canonical_of_mem members member ((mem_insertAll present).resolve_left List.not_mem_nil)
    rw [canonical, ofMembers_eq, canonical, canonicalMembers_eq_self held, ofMembers_of_sorted (insertAll_sorted .nil)]

theorem canonicalItems_canonicalItems : ∀ items : List Json, canonicalItems (canonicalItems items) = canonicalItems items
  | [] => rfl
  | item :: rest => by
    rw [canonicalItems, canonicalItems, canonical_canonical item, canonicalItems_canonicalItems rest]

theorem canonical_of_mem : ∀ (members : List (String × Json)) (member : String × Json),
    member ∈ canonicalMembers members → member.2.canonical = member.2
  | [], _, present => nomatch present
  | (name, value) :: rest, member, present => by
    rcases List.mem_cons.mp present with rfl | later
    · exact canonical_canonical value
    · exact canonical_of_mem rest member later

end

/-- Reordered members that show the same names in the same places were not reordered at all. -/
theorem eq_of_perm_of_names {members others : List (String × Json)} (perm : members.Perm others)
    (names : members.map (·.1) = others.map (·.1)) (distinct : (others.map (·.1)).Nodup) : members = others := by
  induction members generalizing others with
  | nil => exact (List.map_eq_nil_iff.mp names.symm).symm
  | cons member rest ih =>
    cases others with
    | nil => cases names
    | cons other left =>
      rw [List.map_cons, List.map_cons, List.cons.injEq] at names
      rw [List.map_cons, List.nodup_cons] at distinct
      obtain rfl : member = other := by
        rcases List.mem_cons.mp (perm.subset List.mem_cons_self) with same | elsewhere
        · exact same
        · exact absurd (names.1 ▸ List.mem_map_of_mem elsewhere) distinct.1
      rw [ih perm.cons_inv names.2 distinct.2]

/-- An object tells its members, though not in which order they were given. -/
theorem perm_of_ofMembers {members others : List (String × Json)} (distinct : (members.map (·.1)).Nodup)
    (distinct' : (others.map (·.1)).Nodup) (same : ofMembers members = ofMembers others) : members.Perm others := by
  have ordered : insertAll [] members = insertAll [] others := object.inj same
  exact (insertAll_perm [] members distinct).symm.trans (ordered ▸ insertAll_perm [] others distinct')

theorem zip_of_ofMembers {names : List String} (distinct : names.Nodup) {values others : List Json}
    (whole : values.length = names.length) (whole' : others.length = names.length)
    (same : ofMembers (names.zip values) = ofMembers (names.zip others)) : values = others := by
  have named {values : List Json} (whole : values.length = names.length) : (names.zip values).map (·.1) = names :=
    List.map_fst_zip (Nat.le_of_eq whole.symm)
  have apart {values : List Json} (whole : values.length = names.length) : ((names.zip values).map (·.1)).Nodup :=
    (named whole).symm ▸ distinct
  have equal := eq_of_perm_of_names (perm_of_ofMembers (apart whole) (apart whole') same)
    ((named whole).trans (named whole').symm) (apart whole')
  calc values
    _ = (names.zip values).map (·.2) := (List.map_snd_zip (Nat.le_of_eq whole)).symm
    _ = others := by rw [equal, List.map_snd_zip (Nat.le_of_eq whole')]

end UnitOfWork.Json
