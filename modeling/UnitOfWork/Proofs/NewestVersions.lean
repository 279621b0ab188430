import UnitOfWork.Proofs.SoftLocks

/-! Versions of cached items. Of all items offered for a key that is not locked, by either operation and in any
order, the newest stays. Under a lock versions are not compared: of all updates kept back the last comes out. -/

namespace UnitOfWork

namespace Versioned

def number? (item : Versioned) : Option Int := (item.version.bind Value.toInt?).map Int64.toInt

/-- Both versions are whole numbers, and that of `item` is the lesser. -/
def Older (item other : Versioned) : Prop :=
  ∃ number greater, item.number? = some number ∧ other.number? = some greater ∧ number < greater

def afterOffer (item : Versioned) (held : Option Versioned) : Option Versioned :=
  if held.any fun held => isStale held.version item.version then held else some item

section
variable {a b c : Versioned}

theorem Older.trans (first : a.Older b) (second : b.Older c) : a.Older c := by
  obtain ⟨l, m, least, middle, below⟩ := first
  obtain ⟨m', n, middle', greatest, above⟩ := second
  obtain rfl : m = m' := Option.some.inj (middle.symm.trans middle')
  exact ⟨l, n, least, greatest, Int.lt_trans below above⟩

theorem Older.asymm (first : a.Older b) : ¬ b.Older a := by
  rintro ⟨n', m', greater', number', above⟩
  obtain ⟨m, n, number, greater, below⟩ := first
  obtain rfl : m = m' := Option.some.inj (number.symm.trans number')
  obtain rfl : n = n' := Option.some.inj (greater.symm.trans greater')
  omega

theorem older_or_older (numbered : a.number?.isSome = true) (numbered' : b.number?.isSome = true)
    (different : a.number? ≠ b.number?) : a.Older b ∨ b.Older a := by
  obtain ⟨m, number⟩ := Option.isSome_iff_exists.mp numbered
  obtain ⟨n, number'⟩ := Option.isSome_iff_exists.mp numbered'
  have apart : m ≠ n := by
    rintro rfl
    exact different (number.trans number'.symm)
  rcases Int.lt_or_gt_of_ne apart with below | above
  · exact .inl ⟨m, n, number, number', below⟩
  · exact .inr ⟨n, m, number', number, above⟩

theorem version_of_number? {item : Versioned} {n : Int} (number : item.number? = some n) :
    ∃ version k, item.version = some version ∧ version.toInt? = some k ∧ k.toInt = n := by
  obtain ⟨k, read, rfl⟩ := Option.map_eq_some_iff.mp number
  obtain ⟨version, present, read⟩ := Option.bind_eq_some_iff.mp read
  exact ⟨version, k, present, read, rfl⟩

end

end Versioned

theorem compareVersions_toInt {a b : Value} {m n : Int64} (first : a.toInt? = some m) (second : b.toInt? = some n) :
    compareVersions a b = some (compare m.toInt n.toInt) := by
  unfold compareVersions
  split
  · cases first
  · cases first
  · rw [first, second]
    rfl

theorem isStale_iff_older {held item : Versioned} (numbered : held.number?.isSome = true)
    (numbered' : item.number?.isSome = true) : isStale held.version item.version = true ↔ item.Older held := by
  obtain ⟨m, number⟩ := Option.isSome_iff_exists.mp numbered
  obtain ⟨n, number'⟩ := Option.isSome_iff_exists.mp numbered'
  obtain ⟨version, k, present, read, rfl⟩ := Versioned.version_of_number? number
  obtain ⟨version', k', present', read', rfl⟩ := Versioned.version_of_number? number'
  rw [present, present', isStale, compareVersions_toInt read read', beq_iff_eq, Option.some.injEq,
    Int.compare_eq_gt]
  constructor
  · intro below
    exact ⟨_, _, number', number, below⟩
  · rintro ⟨i, j, least, most, below⟩
    obtain rfl := Option.some.inj (number'.symm.trans least)
    obtain rfl := Option.some.inj (number.symm.trans most)
    exact below

/-- Items whose versions are whole numbers, no two of them the same. -/
structure Ranked (items : List Versioned) : Prop where
  numbered : ∀ item ∈ items, item.number?.isSome = true
  distinct : (items.map Versioned.number?).Nodup

/-- The item of the greatest version; none only if there are no items. -/
def Newest (items : List Versioned) : Option Versioned → Prop
  | some item => item ∈ items ∧ ∀ other ∈ items, other = item ∨ other.Older item
  | none => items = []

section
variable {items others : List Versioned} {item : Versioned} {held : Option Versioned}

theorem Ranked.sublist (ranked : Ranked items) (part : others.Sublist items) : Ranked others where
  numbered other member := ranked.numbered other (part.subset member)
  distinct := ranked.distinct.sublist (part.map _)

theorem Ranked.perm (ranked : Ranked items) (reordered : others.Perm items) : Ranked others where
  numbered other member := ranked.numbered other (reordered.mem_iff.mp member)
  distinct := (reordered.map _).nodup_iff.mpr ranked.distinct

theorem Ranked.different (ranked : Ranked (items ++ [item])) {other : Versioned} (member : other ∈ items) :
    other.number? ≠ item.number? := by
  have distinct := ranked.distinct
  rw [List.map_append, List.nodup_append] at distinct
  exact distinct.2.2 _ (List.mem_map_of_mem member) _ (List.mem_singleton_self _)

theorem Newest.perm (newest : Newest items held) (reordered : others.Perm items) : Newest others held := by
  cases held with
  | none =>
    obtain rfl : items = [] := newest
    exact reordered.eq_nil
  | some item => exact ⟨reordered.mem_iff.mpr newest.1, fun other member => newest.2 other (reordered.mem_iff.mp member)⟩

theorem Newest.unique {other : Option Versioned} (newest : Newest items held) (newest' : Newest items other) :
    held = other := by
  cases held with
  | none =>
    obtain rfl : items = [] := newest
    cases other with
    | none => rfl
    | some item => cases newest'.1
  | some item =>
    cases other with
    | none =>
      obtain rfl : items = [] := newest'
      cases newest.1
    | some item' =>
      rcases newest.2 item' newest'.1 with same | older
      · rw [same]
      · rcases newest'.2 item newest.1 with same | older'
        · rw [same]
        · exact absurd older' older.asymm

theorem Newest.of_last (older : ∀ other ∈ items, other.Older item) : Newest (items ++ [item]) (some item) := by
  refine ⟨by simp, fun other listed => ?_⟩
  rcases List.mem_append.mp listed with before | last
  · exact .inr (older other before)
  · exact .inl (List.mem_singleton.mp last)

/-- One more item: it is stale unless it is newer than all before it, and the newest of them all stays. -/
theorem Newest.offer (newest : Newest items held) (ranked : Ranked (items ++ [item])) :
    ((held.any fun held => isStale held.version item.version) = false ↔ ∀ other ∈ items, other.Older item) ∧
      Newest (items ++ [item]) (item.afterOffer held) := by
  cases held with
  | none =>
    obtain rfl : items = [] := newest
    exact ⟨⟨fun _ => nofun, fun _ => rfl⟩, Newest.of_last nofun⟩
  | some held =>
    obtain ⟨member, most⟩ := newest
    have last : item ∈ items ++ [item] := by simp
    have stale := isStale_iff_older (ranked.numbered held (List.mem_append_left _ member)) (ranked.numbered item last)
    unfold Versioned.afterOffer
    cases judged : isStale held.version item.version with
    | true =>
      have older := stale.mp judged
      rw [Option.any_some, judged, if_pos rfl]
      refine ⟨⟨nofun, fun all => absurd older (all held member).asymm⟩, List.mem_append_left _ member, ?_⟩
      intro other listed
      rcases List.mem_append.mp listed with before | final
      · exact most other before
      · rw [List.mem_singleton.mp final]
        exact .inr older
    | false =>
      have newer : held.Older item := by
        rcases Versioned.older_or_older (ranked.numbered item last)
          (ranked.numbered held (List.mem_append_left _ member)) (ranked.different member).symm with older | newer
        · simp [stale.mpr older] at judged
        · exact newer
      have all : ∀ other ∈ items, other.Older item := by
        intro other before
        rcases most other before with rfl | older
        · exact newer
        · exact older.trans newer
      rw [Option.any_some, judged, if_neg Bool.false_ne_true]
      exact ⟨⟨fun _ => all, fun _ => rfl⟩, Newest.of_last all⟩

theorem Newest.offers (newest : Newest items held) (ranked : Ranked (items ++ others)) :
    Newest (items ++ others) (others.foldl (fun held item => item.afterOffer held) held) := by
  induction others generalizing items held with
  | nil => exact (List.append_nil items).symm ▸ newest
  | cons item rest ih =>
    rw [List.append_cons] at ranked ⊢
    exact ih (newest.offer (ranked.sublist (List.sublist_append_left ..))).2 ranked

theorem Ranked.newest (ranked : Ranked items) : Newest items (items.foldl (fun held item => item.afterOffer held) none) :=
  have nothing : Newest [] none := rfl
  nothing.offers ranked

end

namespace RegionAccess

def update? (key : CacheKey) : RegionAccess → Option Versioned
  | .update other item => if other == key then some item else none
  | _ => none

/-- The item that the access offers for the key, to be refused for its version alone. -/
def offer? (key : CacheKey) : RegionAccess → Option Versioned
  | .put other item false => if other == key then some item else none
  | access => access.update? key

/-- Whether the access neither locks the item of the key nor drops it, and is no minimal put of it. -/
def leavesOpen (key : CacheKey) : RegionAccess → Bool
  | .put other _ minimal => !(minimal && other == key)
  | .place other _ | .evict other => !(other == key)
  | .clear => false
  | .get _ | .update _ _ | .draw | .unlock _ _ => true

def accepted (region : MemoryRegion) : RegionAccess → Bool
  | .put key item minimal => (region.put key item minimal).1
  | .update key item => (region.update key item).1
  | _ => false

end RegionAccess

open RegionAccess

def updates (key : CacheKey) (accesses : List RegionAccess) : List Versioned := accesses.filterMap (update? key)

def offers (key : CacheKey) (accesses : List RegionAccess) : List Versioned := accesses.filterMap (offer? key)

namespace MemoryRegion

section
variable {region : MemoryRegion} {key : CacheKey} {held : Option Versioned} {item : Versioned} {access : RegionAccess}

theorem update_open (unlocked : region.items.find? key = held.map .stored) : region.update key item =
    if held.any fun held => isStale held.version item.version then (false, region)
    else (true, region.store key item) := by
  cases held with
  | none => rw [update, unlocked]; rfl
  | some held => rw [update, unlocked]; rfl

theorem put_open (unlocked : region.items.find? key = held.map .stored) :
    region.put key item false = region.update key item := by
  cases held with
  | none => rw [put, update, unlocked]; rfl
  | some held => rw [put, update, unlocked]; rfl

theorem offer_eq_update (unlocked : region.items.find? key = held.map .stored) (offered : access.offer? key = some item) :
    ∃ other, (other == key) = true ∧ (access.accepted region, access.perform region) = region.update other item := by
  cases access with
  | put other offer minimal =>
    cases minimal with
    | true => cases offered
    | false =>
      obtain ⟨same, chosen⟩ := Option.ite_none_right_eq_some.mp offered
      cases chosen
      exact ⟨other, same, put_open ((Registry.find?_congr _ same).trans unlocked)⟩
  | update other offer =>
    obtain ⟨same, chosen⟩ := Option.ite_none_right_eq_some.mp offered
    cases chosen
    exact ⟨other, same, rfl⟩
  | _ => cases offered

theorem perform_offer (unlocked : region.items.find? key = held.map .stored) (offered : access.offer? key = some item) :
    access.accepted region = !held.any (fun held => isStale held.version item.version) ∧
      (access.accepted region = false → access.perform region = region) ∧
      (access.perform region).items.find? key = (item.afterOffer held).map .stored := by
  obtain ⟨other, same, done⟩ := offer_eq_update unlocked offered
  rw [update_open ((Registry.find?_congr _ same).trans unlocked)] at done
  unfold Versioned.afterOffer
  cases stale : held.any fun held => isStale held.version item.version with
  | true =>
    rw [stale, if_pos rfl] at done
    obtain ⟨answer, left⟩ := Prod.mk.inj done
    rw [answer, left]
    exact ⟨rfl, fun _ => rfl, unlocked⟩
  | false =>
    rw [stale, if_neg Bool.false_ne_true] at done
    obtain ⟨answer, left⟩ := Prod.mk.inj done
    rw [answer, left]
    exact ⟨rfl, nofun, (Registry.find?_insert _ _ _ _).trans (if_pos same)⟩

theorem find?_perform_idle (unlocked : region.items.find? key = held.map .stored) (left : access.leavesOpen key = true)
    (idle : access.offer? key = none) : (access.perform region).items.find? key = region.items.find? key := by
  cases concerned : access.concerns key with
  | false => exact find?_perform_apart concerned
  | true =>
    have same {other : CacheKey} (concerned : (other == key) = true) (left : (!(other == key)) = true) : False := by
      simp [concerned] at left
    cases access with
    | get other => rfl
    | draw => rfl
    | clear => cases left
    | place other token => exact (same concerned left).elim
    | evict other => exact (same concerned left).elim
    | put other item minimal =>
      cases minimal with
      | true => exact (same concerned left).elim
      | false => exact absurd ((if_pos concerned).symm.trans idle) (Option.some_ne_none item)
    | update other item => exact absurd ((if_pos concerned).symm.trans idle) (Option.some_ne_none item)
    | unlock other token =>
      refine (region.find?_unlock other key token).trans ?_
      have same : (other == key) = true := concerned
      rw [if_pos same, Registry.find?_congr _ same, unlocked]
      cases held <;> rfl

/-- Of a run that leaves the item open only the offers count. -/
theorem find?_after_open (accesses : List RegionAccess) (unlocked : region.items.find? key = held.map .stored)
    (left : ∀ access ∈ accesses, access.leavesOpen key = true) : (region.after accesses).items.find? key =
      ((offers key accesses).foldl (fun held item => item.afterOffer held) held).map .stored := by
  induction accesses generalizing region held with
  | nil => exact unlocked
  | cons access rest ih =>
    have later := fun access member => left access (List.mem_cons_of_mem _ member)
    cases offered : access.offer? key with
    | none =>
      have idle := find?_perform_idle unlocked (left access List.mem_cons_self) offered
      rw [offers, List.filterMap_cons_none offered]
      exact ih (idle.trans unlocked) later
    | some item =>
      rw [offers, List.filterMap_cons_some offered]
      exact ih (perform_offer unlocked offered).2.2 later

theorem newest_after (absent : region.items.find? key = none) {accesses : List RegionAccess}
    (left : ∀ access ∈ accesses, access.leavesOpen key = true) (ranked : Ranked (offers key accesses)) :
    ∃ newest, Newest (offers key accesses) newest ∧ (region.after accesses).items.find? key = newest.map .stored :=
  have unlocked : region.items.find? key = (none : Option Versioned).map .stored := absent
  ⟨_, ranked.newest, find?_after_open accesses unlocked left⟩

theorem get?_open (unlocked : region.items.find? key = held.map .stored) :
    region.get? key = held.map (·.value) := by
  rw [get?, unlocked]
  cases held <;> rfl

end

end MemoryRegion

/-- Whatever is done meanwhile that does not lock or drop the item, an offer is accepted iff it is newer than all
offers before it, a refused one changes nothing, and what can be read in the end is the newest of all that was
offered, in this order or in any other. -/
theorem newest_version_wins (start : MemoryRegion) (key : CacheKey) (absent : start.items.find? key = none)
    (accesses : List RegionAccess) (left : ∀ access ∈ accesses, access.leavesOpen key = true)
    (ranked : Ranked (offers key accesses)) :
    (∀ earlier access later item, accesses = earlier ++ access :: later → access.offer? key = some item →
      (access.accepted (start.after earlier) = true ↔ ∀ other ∈ offers key earlier, other.Older item) ∧
      (access.accepted (start.after earlier) = false → access.perform (start.after earlier) = start.after earlier)) ∧
    ∃ newest, Newest (offers key accesses) newest ∧ (start.after accesses).get? key = newest.map (·.value) ∧
      ∀ (start : MemoryRegion) (reordered : List RegionAccess), start.items.find? key = none →
        (∀ access ∈ reordered, access.leavesOpen key = true) → (offers key reordered).Perm (offers key accesses) →
        (start.after reordered).get? key = newest.map (·.value) := by
  constructor
  · rintro earlier access later item rfl offered
    have listed : offers key (earlier ++ access :: later) = offers key earlier ++ [item] ++ offers key later := by
      rw [offers, List.filterMap_append, List.filterMap_cons_some offered, List.append_assoc]
      rfl
    rw [listed] at ranked
    have soFar := ranked.sublist (List.sublist_append_left ..)
    obtain ⟨held, newest, unlocked⟩ := MemoryRegion.newest_after absent
      (fun access member => left access (List.mem_append_left _ member)) (soFar.sublist (List.sublist_append_left ..))
    obtain ⟨answer, refused, -⟩ := MemoryRegion.perform_offer unlocked offered
    refine ⟨?_, refused⟩
    rw [answer, Bool.not_eq_true', (newest.offer soFar).1]
  · obtain ⟨newest, most, unlocked⟩ := MemoryRegion.newest_after absent left ranked
    refine ⟨newest, most, MemoryRegion.get?_open unlocked, fun start reordered absent left same => ?_⟩
    obtain ⟨other, most', unlocked⟩ := MemoryRegion.newest_after absent left (ranked.perm same)
    rw [MemoryRegion.get?_open unlocked, (most.perm same).unique most']

namespace Sample

def numbered (number : Int64) (version : Value) : Versioned :=
  ⟨.entry ⟨"Order", some version, [.basic (.bigInt number)]⟩, some version⟩

/-- The second version arrives by a load after the third was written. -/
def overtaken : List RegionAccess :=
  [.put orderKey (numbered 1 (.tinyInt 1)) false, .place otherKey ⟨7⟩, .update orderKey (numbered 3 (.bigInt 3)),
    .put orderKey (numbered 2 (.smallInt 2)) false, .unlock orderKey ⟨7⟩, .get orderKey]

def inOrder : List RegionAccess :=
  [.update orderKey (numbered 1 (.tinyInt 1)), .draw, .update orderKey (numbered 2 (.smallInt 2)), .evict otherKey,
    .put orderKey (numbered 3 (.bigInt 3)) false]

theorem offers_overtaken : offers orderKey overtaken =
    [numbered 1 (.tinyInt 1), numbered 3 (.bigInt 3), numbered 2 (.smallInt 2)] := rfl

theorem ranked_overtaken : Ranked (offers orderKey overtaken) := ⟨by decide +kernel, by decide +kernel⟩

theorem newest_overtaken : Newest (offers orderKey overtaken) (some (numbered 3 (.bigInt 3))) := by
  rw [offers_overtaken]
  refine ⟨by simp, fun other member => ?_⟩
  simp only [List.mem_cons, List.not_mem_nil, or_false] at member
  rcases member with rfl | rfl | rfl
  · exact .inr ⟨1, 3, rfl, rfl, by decide⟩
  · exact .inl rfl
  · exact .inr ⟨2, 3, rfl, rfl, by decide⟩

end Sample

open Sample in
theorem newest_version_wins_overtaken :
    (RegionAccess.put orderKey (numbered 2 (.smallInt 2)) false).accepted
      (({} : MemoryRegion).after (overtaken.take 3)) = false ∧
    (({} : MemoryRegion).after overtaken).get? orderKey = some (numbered 3 (.bigInt 3)).value ∧
    (({} : MemoryRegion).after inOrder).get? orderKey = some (numbered 3 (.bigInt 3)).value := by
  obtain ⟨answers, newest, most, readable, reordered⟩ :=
    newest_version_wins {} orderKey rfl overtaken (by decide +kernel) ranked_overtaken
  cases most.unique newest_overtaken
  refine ⟨?_, readable, reordered {} inOrder rfl (by decide +kernel) ?_⟩
  · have answer := (answers (overtaken.take 3) _ (overtaken.drop 4) _ rfl rfl).1
    refine Bool.eq_false_iff.mpr fun accepted => ?_
    have third : numbered 3 (.bigInt 3) ∈ offers orderKey (overtaken.take 3) := List.mem_cons_of_mem _ List.mem_cons_self
    exact (answer.mp accepted _ third).asymm ⟨2, 3, rfl, rfl, by decide⟩
  · exact .cons _ (.swap _ _ _)

section
variable {region : MemoryRegion} {key : CacheKey} {token : SoftLock} {kept : Option Versioned}

theorem foldl_keeping (accesses : List RegionAccess) :
    accesses.foldl (keeping key) kept = (updates key accesses).getLast?.or kept := by
  induction accesses generalizing kept with
  | nil => rfl
  | cons access rest ih =>
    rw [List.foldl_cons, ih]
    cases written : access.update? key with
    | none =>
      have idle : access.keeping key kept = kept := by
        cases access with
        | update other item => exact if_neg fun same => Option.some_ne_none item ((if_pos same).symm.trans written)
        | _ => rfl
      rw [idle, updates, updates, List.filterMap_cons_none written]
    | some item =>
      have now : access.keeping key kept = some item := by
        cases access with
        | update other offered =>
          obtain ⟨same, chosen⟩ := Option.ite_none_right_eq_some.mp written
          exact (if_pos same).trans chosen
        | _ => cases written
      rw [now, updates, updates, List.filterMap_cons_some written, List.getLast?_cons]
      cases (rest.filterMap (update? key)).getLast? <;> rfl

theorem MemoryRegion.released_after (locked : region.items.find? key = some (.locked token kept))
    {accesses : List RegionAccess} (lasts : ∀ access ∈ accesses, access.ends key token = false) {last : Versioned}
    (written : (updates key accesses).getLast? = some last) :
    ((region.after accesses).unlock key token).items.find? key = some (.stored last) := by
  rw [find?_unlock, if_pos BEq.rfl, locked_after accesses locked lasts, foldl_keeping, written]
  exact if_pos rfl

end

/-- Under a lock, whatever the clients do that does not end it, the update written last is the one that its release
makes readable; the one of the greatest version is that one iff all updates before it are older. -/
theorem locked_updates_release_newest_iff (region : MemoryRegion) (key : CacheKey) {token : SoftLock}
    {kept : Option Versioned} (locked : region.items.find? key = some (.locked token kept))
    (accesses : List RegionAccess) (lasts : ∀ access ∈ accesses, access.ends key token = false)
    (earlier : List Versioned) (last : Versioned) (written : updates key accesses = earlier ++ [last])
    (ranked : Ranked (updates key accesses)) :
    ((region.after accesses).unlock key token).get? key = some last.value ∧
    ∃ newest, Newest (updates key accesses) (some newest) ∧
      (((region.after accesses).unlock key token).items.find? key = some (.stored newest) ↔
        ∀ other ∈ earlier, other.Older last) := by
  have released : ((region.after accesses).unlock key token).items.find? key = (some last).map .stored :=
    MemoryRegion.released_after locked lasts (by rw [written, List.getLast?_concat])
  refine ⟨MemoryRegion.get?_open released, ?_⟩
  rw [written] at ranked ⊢
  obtain ⟨held, newest⟩ : ∃ held, Newest (earlier ++ [last]) held := ⟨_, ranked.newest⟩
  cases held with
  | none => cases List.append_ne_nil_of_right_ne_nil earlier (List.cons_ne_nil last []) newest
  | some item =>
    refine ⟨item, newest, ?_⟩
    rw [released, Option.map_some]
    constructor
    · intro same other member
      cases same
      rcases newest.2 other (List.mem_append_left _ member) with rfl | older
      · exact absurd rfl (ranked.different member)
      · exact older
    · intro all
      rw [Option.some.inj (newest.unique (Newest.of_last all))]

namespace Sample

def lockedOrder : MemoryRegion := ({} : MemoryRegion).after [.draw, .place orderKey ⟨1⟩]

def underLockInOrder : List RegionAccess :=
  [.update orderKey (numbered 1 (.int 1)), .put orderKey (numbered 4 (.int 4)) false, .unlock orderKey ⟨9⟩,
    .update orderKey (numbered 2 (.bigInt 2))]

def crossed : List RegionAccess :=
  [.update orderKey (numbered 2 (.bigInt 2)), .update orderKey (numbered 1 (.bigInt 1))]

theorem ranked_underLock : Ranked (updates orderKey underLockInOrder) := ⟨by decide +kernel, by decide +kernel⟩

end Sample

open Sample in
theorem locked_updates_release_newest_iff_in_order :
    ((lockedOrder.after underLockInOrder).unlock orderKey ⟨1⟩).get? orderKey = some (numbered 2 (.bigInt 2)).value ∧
    ∃ newest, Newest (updates orderKey underLockInOrder) (some newest) ∧
      ((lockedOrder.after underLockInOrder).unlock orderKey ⟨1⟩).items.find? orderKey = some (.stored newest) := by
  obtain ⟨readable, newest, most, iff⟩ := locked_updates_release_newest_iff lockedOrder orderKey rfl underLockInOrder
    (by decide +kernel) [numbered 1 (.int 1)] (numbered 2 (.bigInt 2)) rfl ranked_underLock
  refine ⟨readable, newest, most, iff.mpr fun other member => ?_⟩
  rw [List.mem_singleton.mp member]
  exact ⟨1, 2, rfl, rfl, by decide⟩

open Sample in
/-- The second version is written under a lock and the first after it: the release brings out the first. Without the
lock the first is refused and the second stays. -/
theorem stale_update_is_released :
    (numbered 1 (.bigInt 1)).Older (numbered 2 (.bigInt 2)) ∧
    ((lockedOrder.after crossed).unlock orderKey ⟨1⟩).get? orderKey = some (numbered 1 (.bigInt 1)).value ∧
    (({} : MemoryRegion).after crossed).get? orderKey = some (numbered 2 (.bigInt 2)).value :=
  ⟨⟨1, 2, rfl, rfl, by decide⟩, rfl, rfl⟩

end UnitOfWork
