import TSpider.Mdl.Types

/-!
# The search for an own ticket

Before a session locks an object it looks for a ticket of its own on it (`find_ticket`). The comparison of keys appends the
version of the ticket's key to the key that is searched, if that has none yet, so the search changes which object is locked
when it finds nothing.
-/

namespace TSpider.Mdl

def Key.strategy (k : Key) : Strategy :=
  match k.ns with
  | .global | .commit | .schema => .scoped
  | _ => .object

def Key.preallocated (k : Key) : Bool := k.ns = .global || k.ns = .commit

theorem nul_nil : (0 : UInt8) ∉ [] := List.not_mem_nil

theorem length_nil_le : ([] : List UInt8).length ≤ nameLen := Nat.zero_le _

def emptyName : Name := ⟨[], nul_nil, length_nil_le⟩

/-- The key of the lock that `MDL_map::find_or_insert` returns. -/
def Key.lock (k : Key) : Key := if k.preallocated then ⟨k.ns, emptyName, emptyName, 0⟩ else k

def Key.updateTableShareKey (k : Key) (tableVersion : UInt64) : Key :=
  if tableVersion ≠ 0 ∧ k.version = 0 then { k with version := tableVersion } else k

/-- What `MDL_key::is_equal` makes of the key before it compares it. -/
def Key.extend (k rhs : Key) : Key := if rhs.version ≠ 0 ∧ k.version = 0 then k.updateTableShareKey rhs.version else k

section Scan
variable {ι : Type*} (keyOf : ι → Key) (typeOf : ι → MdlType) (type : MdlType)

def suits (k : Key) (i : ι) : Bool :=
  keyOf i = k && (keyOf i).strategy.hasStrongerOrEqualType (typeOf i) type

def scan : Key → List ι → Key × Option ι
  | k, [] => (k, none)
  | k, i :: l =>
    let k' := k.extend (keyOf i)
    if suits keyOf typeOf type k' i then (k', some i) else scan k' l

variable {keyOf typeOf type} {k : Key} {l : List ι} {i : ι}

theorem key_of_suits (h : suits keyOf typeOf type k i = true) : keyOf i = k := by
  rw [suits, Bool.and_eq_true, decide_eq_true_iff] at h
  exact h.1

theorem extend_of_version (h : k.version ≠ 0) (rhs : Key) : k.extend rhs = k := by
  rw [Key.extend, if_neg fun hk => h hk.2]

theorem extend_of_plain {rhs : Key} (h : rhs.version = 0) : k.extend rhs = k := by
  rw [Key.extend, if_neg fun hk => hk.1 h]

theorem extend_version {rhs : Key} (hrhs : rhs.version ≠ 0) (hk : k.version = 0) : (k.extend rhs).version = rhs.version := by
  rw [Key.extend, if_pos ⟨hrhs, hk⟩, Key.updateTableShareKey, if_pos ⟨hrhs, hk⟩]

theorem extend_ns (rhs : Key) : (k.extend rhs).ns = k.ns := by
  unfold Key.extend Key.updateTableShareKey
  split_ifs <;> rfl

theorem suits_of_scan (h : (scan keyOf typeOf type k l).2 = some i) :
    i ∈ l ∧ suits keyOf typeOf type (scan keyOf typeOf type k l).1 i = true := by
  induction l generalizing k with
  | nil => simp [scan] at h
  | cons j l ih =>
    rw [scan] at h ⊢
    by_cases hj : suits keyOf typeOf type (k.extend (keyOf j)) j = true
    · rw [if_pos hj] at h ⊢
      obtain rfl : j = i := Option.some.inj h
      exact ⟨List.mem_cons_self, hj⟩
    · rw [if_neg hj] at h ⊢
      exact ⟨List.mem_cons_of_mem _ (ih h).1, (ih h).2⟩

theorem scan_plain (hplain : ∀ j ∈ l.takeWhile (!suits keyOf typeOf type k ·), (keyOf j).version = 0) (hk : k.version = 0) :
    scan keyOf typeOf type k l = (k, l.find? (suits keyOf typeOf type k)) := by
  induction l with
  | nil => rfl
  | cons j l ih =>
    rw [scan, List.find?_cons]
    by_cases hj : suits keyOf typeOf type k j = true
    · have hversion : (keyOf j).version = 0 := by rw [key_of_suits hj, hk]
      rw [extend_of_plain hversion, if_pos hj, hj]
    · rw [List.takeWhile_cons_of_pos (by simpa using hj)] at hplain
      rw [extend_of_plain (hplain j List.mem_cons_self), if_neg hj, Bool.not_eq_true _ |>.mp hj]
      exact ih fun j' hj' => hplain j' (List.mem_cons_of_mem _ hj')

theorem scan_version (hk : k.version ≠ 0) : (scan keyOf typeOf type k l).1 = k := by
  induction l with
  | nil => rfl
  | cons j l ih =>
    rw [scan]
    rw [extend_of_version hk]
    split_ifs
    · rfl
    · exact ih

theorem scan_disturbed {j : ι} (hj : j ∈ l.takeWhile (!suits keyOf typeOf type k ·)) (hversion : (keyOf j).version ≠ 0)
    (hk : k.version = 0) : (scan keyOf typeOf type k l).1.version ≠ 0 := by
  induction l with
  | nil => simp at hj
  | cons j' l ih =>
    by_cases hsuits : suits keyOf typeOf type k j' = true
    · rw [List.takeWhile_cons_of_neg (by simpa using hsuits)] at hj
      simp at hj
    · rw [List.takeWhile_cons_of_pos (by simpa using hsuits)] at hj
      rw [scan]
      by_cases hj' : (keyOf j').version = 0
      · rw [extend_of_plain hj', if_neg hsuits]
        obtain rfl | hj := List.mem_cons.mp hj
        · exact absurd hj' hversion
        · exact ih hj
      · have hext : (k.extend (keyOf j')).version ≠ 0 := by rwa [extend_version hj' hk]
        split_ifs
        · exact hext
        · rwa [scan_version hext]

theorem scan_ns : (scan keyOf typeOf type k l).1.ns = k.ns := by
  induction l generalizing k with
  | nil => rfl
  | cons j l ih =>
    rw [scan]
    split_ifs
    · exact extend_ns _
    · rw [ih, extend_ns]

end Scan

/-! ## Requests for objects that are not tables -/

structure OwnTicket where
  key : Key
  type : MdlType
  isLock : key.lock = key

abbrev Tickets := Duration → List OwnTicket

structure ObjectRequest where
  key : Key
  type : MdlType
  duration : Duration
  notTable : key.ns ≠ .table
  plain : key.version = 0
  isLock : key.lock = key

variable (tickets : Tickets) (r : ObjectRequest)

def searchOrder (d : Duration) : List (Duration × OwnTicket) :=
  d.order.flatMap fun d' => (tickets d').map (d', ·)

def findTicket : Key × Option (Duration × OwnTicket) :=
  scan (fun x => x.2.key) (fun x => x.2.type) r.type r.key (searchOrder tickets r.duration)

/-- The key of the lock on which `try_acquire_lock_impl` reuses, clones, takes or awaits a ticket. -/
def lockedKey : Key :=
  match findTicket tickets r with
  | (_, some x) => x.2.key
  | (k, none) => k.lock

def ObjectRequest.suits (x : Duration × OwnTicket) : Bool :=
  Mdl.suits (fun x : Duration × OwnTicket => x.2.key) (fun x => x.2.type) r.type r.key x

/-- The search meets no ticket of a table version before one that suits; or finds none, and the lock does not depend on the
version.
-/
def ObjectRequest.Undisturbed (tickets : Tickets) : Prop :=
  (∀ x ∈ (searchOrder tickets r.duration).takeWhile (!r.suits ·), x.2.key.version = 0) ∨
    r.key.preallocated = true ∧ ∀ x ∈ searchOrder tickets r.duration, r.suits x = false

instance (tickets : Tickets) : Decidable (r.Undisturbed tickets) := inferInstanceAs (Decidable (_ ∨ _))

section Locked
variable {tickets : Tickets} {r : ObjectRequest}

theorem mem_searchOrder {d d' : Duration} {t : OwnTicket} : (d', t) ∈ searchOrder tickets d ↔ t ∈ tickets d' := by
  cases d <;> cases d' <;> simp [searchOrder, Duration.order]

theorem lock_preallocated {k l : Key} (hk : k.preallocated = true) (hns : l.ns = k.ns) : l.lock = k.lock := by
  have hl : l.preallocated = true := by rwa [Key.preallocated, hns]
  rw [Key.lock, Key.lock, if_pos hl, if_pos hk, hns]

theorem key_of_findTicket {k : Key} {x : Duration × OwnTicket} (h : findTicket tickets r = (k, some x)) : x.2.key = k := by
  have hscan := suits_of_scan (congrArg Prod.snd h)
  rw [show scan _ _ _ _ _ = _ from h] at hscan
  exact key_of_suits hscan.2

theorem ns_findTicket : (findTicket tickets r).1.ns = r.key.ns := scan_ns

theorem lockedKey_eq {k : Key} {o : Option (Duration × OwnTicket)} (h : findTicket tickets r = (k, o)) :
    lockedKey tickets r = k.lock := by
  rw [lockedKey, h]
  cases o with
  | none => rfl
  | some x =>
    rw [← key_of_findTicket h]
    exact x.2.isLock.symm

theorem lockedKey_of_undisturbed (h : r.Undisturbed tickets) : lockedKey tickets r = r.key := by
  rcases hfind : findTicket tickets r with ⟨k, o⟩
  rw [lockedKey_eq hfind]
  rcases h with hplain | ⟨hpre, -⟩
  · have hkey := (Prod.mk.inj (hfind.symm.trans (scan_plain hplain r.plain))).1
    rw [hkey, r.isLock]
  · have hns : k.ns = r.key.ns := by
      rw [← ns_findTicket, hfind]
    rw [lock_preallocated hpre hns, r.isLock]

theorem found_of_undisturbed (h : r.Undisturbed tickets) {x : Duration × OwnTicket}
    (hx : x ∈ searchOrder tickets r.duration) (hsuits : r.suits x = true) : (findTicket tickets r).2.isSome = true := by
  rcases h with hplain | ⟨-, hnone⟩
  · rw [findTicket, scan_plain hplain r.plain, List.find?_isSome]
    exact ⟨x, hx, hsuits⟩
  · rw [hnone x hx] at hsuits
    exact absurd hsuits (by decide)

theorem version_of_disturbed (h : ¬ r.Undisturbed tickets) : (findTicket tickets r).1.version ≠ 0 := by
  have hsome := (not_or.mp h).1
  push Not at hsome
  obtain ⟨x, hx, hversion⟩ := hsome
  exact scan_disturbed hx hversion r.plain

end Locked

/-- **A request for an object other than a table locks it under the requested key and finds a ticket that suffices** exactly
if the search is not disturbed. -/
theorem ownTicket_iff : (lockedKey tickets r = r.key ∧
      ((∃ d, ∃ t ∈ tickets d, r.suits (d, t) = true) → ∃ x, (findTicket tickets r).2 = some x ∧ x.2.key = r.key)) ↔
    r.Undisturbed tickets := by
  constructor
  · rintro ⟨hlocked, hfinds⟩
    by_contra hdisturbed
    rcases hfind : findTicket tickets r with ⟨k, o⟩
    have hversion : k.version ≠ 0 := by
      have := version_of_disturbed hdisturbed
      rwa [hfind] at this
    rw [lockedKey_eq hfind] at hlocked
    -- only the lock of a namespace without names can be the requested one
    by_cases hpre : k.preallocated = true
    · have hns : k.ns = r.key.ns := by rw [← ns_findTicket, hfind]
      refine (not_or.mp hdisturbed).2 ⟨by rwa [Key.preallocated, ← hns], fun x hx =>
        Bool.not_eq_true _ |>.mp fun hsuits => ?_⟩
      obtain ⟨y, hy, hkey⟩ := hfinds ⟨x.1, x.2, mem_searchOrder.mp hx, hsuits⟩
      obtain rfl : o = some y := by rwa [hfind] at hy
      exact hversion (by rw [← key_of_findTicket hfind, hkey, r.plain])
    · rw [Key.lock, if_neg hpre] at hlocked
      exact hversion (by rw [hlocked, r.plain])
  · intro h
    refine ⟨lockedKey_of_undisturbed h, fun ⟨d, t, ht, hsuits⟩ => ?_⟩
    obtain ⟨x, hx⟩ := Option.isSome_iff_exists.mp (found_of_undisturbed h (mem_searchOrder.mpr ht) hsuits)
    rcases hfind : findTicket tickets r with ⟨k, o⟩
    obtain rfl : o = some x := by rwa [hfind] at hx
    exact ⟨x, rfl, by rw [← x.2.isLock, key_of_findTicket hfind, ← lockedKey_eq hfind, lockedKey_of_undisturbed h]⟩

/-! ## The switch lock -/

def switchLockBytes : List UInt8 := [115, 112, 105, 100, 101, 114, 95, 115, 119, 105, 116, 99, 104, 95, 108, 111, 99, 107]

theorem nul_switchLockBytes : 0 ∉ switchLockBytes := by simp [switchLockBytes]

theorem length_switchLockBytes : switchLockBytes.length ≤ nameLen := by simp [switchLockBytes, nameLen]

def switchLockKey : Key := ⟨.userLock, ⟨switchLockBytes, nul_switchLockBytes, length_switchLockBytes⟩, emptyName, 0⟩

theorem switchLockKey_notTable : switchLockKey.ns ≠ .table := by decide

def userReadLock : ObjectRequest := ⟨switchLockKey, .userXaSwitchS, .transaction, switchLockKey_notTable, rfl, rfl⟩

theorem nul_t : (0 : UInt8) ∉ [116] := by decide

theorem length_t : [(116 : UInt8)].length ≤ nameLen := Nat.le_add_left 1 191

def versionedTable : OwnTicket := ⟨⟨.table, ⟨[116], nul_t, length_t⟩, ⟨[116], nul_t, length_t⟩, 1⟩, .sharedRead, rfl⟩

/-- A session that holds a ticket of a table version locks another object than the switch lock. -/
theorem userReadLock_disturbed :
    lockedKey (fun d => if d = .transaction then [versionedTable] else []) userReadLock ≠ switchLockKey := by
  decide

end TSpider.Mdl
