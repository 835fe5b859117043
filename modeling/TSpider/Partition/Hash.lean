import Mathlib.Data.Nat.Log
import Mathlib.Data.BitVec
import Mathlib.Tactic.Ring

/-!
# Partitions by hash values

* `linearPartId` : the partition of a hash value by linear hashing, `linearPartId_grows` : its law;
* `partIterViaWalking` : the decision to walk an interval of integers, `walk_covers` : the walk visits all of it.
-/

namespace TSpider.Partition

/-! ## Linear hashing -/

/-- The loop of `set_linear_hash_mask`; with at most `MAX_PARTITIONS` (8192) partitions `mask` does not overflow. -/
def maskLoop (numParts : Nat) : Nat → Nat → Nat
  | 0, mask => mask
  | fuel + 1, mask => if mask < numParts then maskLoop numParts fuel (mask <<< 1) else mask

/-- The mask is doubled in each turn, so `numParts` of them are enough (`maskLoop_pow`). -/
def setLinearHashMask (numParts : Nat) : Nat := maskLoop numParts numParts 1 - 1

def getPartIdFromLinearHash (hashValue : BitVec 64) (mask numParts : Nat) : Nat :=
  let partId := hashValue.toNat &&& mask
  if partId ≥ numParts then hashValue.toNat &&& (((mask + 1) >>> 1) - 1) else partId

/-- `get_part_id_linear_key`, and `get_part_id_linear_hash` for an expression that has a value. -/
def linearPartId (numParts : Nat) (hashValue : BitVec 64) : Nat :=
  getPartIdFromLinearHash hashValue (setLinearHashMask numParts) numParts

theorem maskLoop_pow {n j : Nat} (fuel : Nat) (hfuel : n ≤ 2 ^ (j + fuel)) :
    ∃ k, maskLoop n fuel (2 ^ j) = 2 ^ k ∧ n ≤ 2 ^ k ∧ (k = j ∨ 0 < k ∧ 2 ^ (k - 1) < n) := by
  induction fuel generalizing j with
  | zero => exact ⟨j, rfl, hfuel, .inl rfl⟩
  | succ fuel ih =>
    rw [maskLoop]
    split_ifs with hlt
    · rw [Nat.shiftLeft_eq, ← pow_succ]
      obtain ⟨k, hk, hle, hlast⟩ := ih (by rwa [show j + 1 + fuel = j + (fuel + 1) by omega])
      refine ⟨k, hk, hle, .inr ?_⟩
      rcases hlast with rfl | hlast
      · exact ⟨Nat.succ_pos j, hlt⟩
      · exact hlast
    · exact ⟨j, rfl, not_lt.mp hlt, .inl rfl⟩

/-- The partition of `h`, with `n` between two powers of two: the low bits, or one bit less if they are too large. -/
theorem linearPartId_eq {n j : Nat} (hlow : 2 ^ j ≤ n) (hhigh : n ≤ 2 ^ (j + 1)) (h : BitVec 64) :
    linearPartId n h = if h.toNat % 2 ^ (j + 1) < n then h.toNat % 2 ^ (j + 1) else h.toNat % 2 ^ j := by
  obtain ⟨k, hmask, hle, hlast⟩ := maskLoop_pow (n := n) (j := 0) n (by
    rw [Nat.zero_add]
    exact Nat.lt_two_pow_self.le)
  have hkle : k ≤ j + 1 := by
    rcases hlast with rfl | ⟨hpos, hlt⟩
    · exact Nat.zero_le _
    · have := (Nat.pow_lt_pow_iff_right (by decide : 1 < 2)).mp (hlt.trans_le hhigh)
      omega
  have hjk : j ≤ k := (Nat.pow_le_pow_iff_right (by decide : 1 < 2)).mp (hlow.trans hle)
  have hpos : 0 < 2 ^ k := Nat.two_pow_pos k
  rw [pow_zero] at hmask
  simp only [linearPartId, getPartIdFromLinearHash, setLinearHashMask, hmask, Nat.and_two_pow_sub_one_eq_mod,
    Nat.sub_add_cancel hpos, Nat.shiftRight_eq_div_pow, pow_one]
  rcases Nat.lt_or_ge j k with hlt | hge
  · -- the mask has `j + 1` bits
    obtain rfl : k = j + 1 := by omega
    rw [pow_succ, Nat.mul_div_cancel _ (by decide), Nat.and_two_pow_sub_one_eq_mod]
    split_ifs with hge hlt hlt <;> first | rfl | omega
  · -- there are `2 ^ j` partitions, and the mask has `j` bits
    obtain rfl : k = j := by omega
    have hn : n = 2 ^ k := le_antisymm hle hlow
    have hmod : h.toNat % 2 ^ k < n := (Nat.mod_lt _ hpos).trans_le hlow
    rw [if_neg (not_le.mpr hmod)]
    split_ifs with hbelow
    · rw [← Nat.mod_mod_of_dvd h.toNat (pow_dvd_pow 2 (Nat.le_succ k)), Nat.mod_eq_of_lt (hbelow.trans_eq hn)]
    · rfl

/-- **Linear hashing.** The number is below the number of partitions, and a new partition takes rows of a single one. -/
theorem linearPartId_grows (n : Nat) (hn : 1 ≤ n) : (∀ h, linearPartId n h < n) ∧
      ∃ split < n, ∀ h, linearPartId (n + 1) h = linearPartId n h ∨ linearPartId (n + 1) h = n ∧
        linearPartId n h = split := by
  have hlow : 2 ^ Nat.log 2 n ≤ n := Nat.pow_log_le_self 2 (by omega)
  have hhigh : n < 2 ^ (Nat.log 2 n + 1) := Nat.lt_pow_succ_log_self (by decide) n
  have hpos : 0 < 2 ^ Nat.log 2 n := Nat.two_pow_pos _
  refine ⟨fun h => ?_, n % 2 ^ Nat.log 2 n, (Nat.mod_lt _ hpos).trans_le hlow, fun h => ?_⟩
  · rw [linearPartId_eq hlow hhigh.le]
    split_ifs with hlt
    · exact hlt
    · exact (Nat.mod_lt _ hpos).trans_le hlow
  · rw [linearPartId_eq hlow hhigh.le, linearPartId_eq (hlow.trans (Nat.le_succ n)) hhigh]
    rcases Nat.lt_trichotomy (h.toNat % 2 ^ (Nat.log 2 n + 1)) n with hlt | heq | hgt
    · rw [if_pos (by omega), if_pos hlt]
      exact .inl rfl
    · -- only these rows move
      rw [if_pos (by omega), if_neg (by omega)]
      refine .inr ⟨heq, ?_⟩
      rw [← Nat.mod_mod_of_dvd h.toNat (pow_dvd_pow 2 (Nat.le_succ _)), heq]
    · rw [if_neg (by omega), if_neg (by omega)]
      exact .inl rfl

/-- From five to six partitions. -/
theorem linearPartId_grows_five : (1 ≤ 5) ∧ (∀ h, linearPartId 5 h < 5) ∧
    ∃ split < 5, ∀ h, linearPartId 6 h = linearPartId 5 h ∨ linearPartId 6 h = 5 ∧ linearPartId 5 h = split :=
  ⟨by decide, linearPartId_grows 5 (by decide)⟩

/-! ## Walking an interval -/

/-- An interval of an integer column: the flags of its ends and their `Field::val_int`, or `NULL`. -/
structure Interval where
  noMin : Bool
  noMax : Bool
  nearMin : Bool
  nearMax : Bool
  minNull : Bool
  maxNull : Bool
  min : BitVec 64
  max : BitVec 64

inductive PartIter
  /-- No partition matches (0). -/
  | none
  /-- All partitions have to be used (-1). -/
  | all
  | single (partId : Nat)
  /-- `field_vals.start` and `field_vals.end`. -/
  | walk (start stop : BitVec 64)
  deriving DecidableEq

def partIterViaWalking (totalParts : Nat) (maybeNull : Bool) (nullId : Option Nat) (iv : Interval) : PartIter :=
  if maybeNull && !(iv.noMin || iv.noMax) && iv.minNull && iv.maxNull then
    match nullId with
    | some partId => .single partId
    | none => .none
  else if maybeNull && (!iv.noMin && iv.minNull || !iv.noMax && iv.maxNull) || (iv.noMin || iv.noMax) then .all
  else if (iv.max - iv.min).toNat = 2 ^ 64 - 1 then .all
  else
    let a := iv.min + .ofNat 64 iv.nearMin.toNat
    let b := iv.max + .ofNat 64 (!iv.nearMax).toNat
    let nValues := (b - a).toNat
    if nValues > 2 * totalParts ∧ nValues > 32 then .all else .walk a b

/-- What the calls of `get_next_partition_via_walking` return, `none` with more than `fuel` values. It passes over a value
without a partition; the one for sub-partitions ends there. -/
def walkAll (getId : BitVec 64 → Option Nat) (isSubpart : Bool) (stop : BitVec 64) : Nat → BitVec 64 → Option (List Nat)
  | fuel, cur =>
    if cur = stop then some []
    else
      match fuel with
      | 0 => none
      | fuel + 1 =>
        match getId cur with
        | some partId => (walkAll getId isSubpart stop fuel (cur + 1)).map (partId :: ·)
        | none => if isSubpart then some [] else walkAll getId isSubpart stop fuel (cur + 1)

def fieldVal (unsigned : Bool) (v : BitVec 64) : Int := if unsigned then v.toNat else v.toInt

def Interval.Contains (iv : Interval) (unsigned : Bool) (v : BitVec 64) : Prop :=
  fieldVal unsigned iv.min + iv.nearMin.toNat ≤ fieldVal unsigned v ∧
    fieldVal unsigned v + iv.nearMax.toNat ≤ fieldVal unsigned iv.max

theorem toNat_sub_fieldVal (unsigned : Bool) (x y : BitVec 64) (h : fieldVal unsigned x ≤ fieldVal unsigned y) :
    ((y - x).toNat : Int) = fieldVal unsigned y - fieldVal unsigned x := by
  cases unsigned with
  | true =>
    simp only [fieldVal, if_true] at h ⊢
    rw [BitVec.toNat_sub_of_le (by rw [BitVec.le_def]; omega)]
    omega
  | false =>
    simp only [fieldVal, Bool.false_eq_true, if_false, BitVec.toInt_eq_toNat_cond] at h ⊢
    rw [BitVec.toNat_sub]
    have := x.isLt
    have := y.isLt
    split_ifs at h ⊢ <;> omega

/-- The walk meets the values whose distance from its start is less than that of its end. -/
theorem walkAll_visits (partId : BitVec 64 → Nat) (isSubpart : Bool) (stop : BitVec 64) (fuel : Nat) (cur : BitVec 64)
    (hfuel : (stop - cur).toNat ≤ fuel) : ∃ ids, walkAll (fun v => some (partId v)) isSubpart stop fuel cur = some ids ∧
      ∀ v, (v - cur).toNat < (stop - cur).toNat → partId v ∈ ids := by
  induction fuel generalizing cur with
  | zero =>
    have hstop : cur = stop := by bv_omega
    refine ⟨[], by rw [walkAll, if_pos hstop], fun v hv => ?_⟩
    rw [hstop, BitVec.sub_self] at hv
    exact absurd hv (Nat.not_lt_zero _)
  | succ fuel ih =>
    by_cases hstop : cur = stop
    · refine ⟨[], by rw [walkAll, if_pos hstop], fun v hv => ?_⟩
      rw [hstop, BitVec.sub_self] at hv
      exact absurd hv (Nat.not_lt_zero _)
    · have hnext : (stop - (cur + 1)).toNat + 1 = (stop - cur).toNat := by bv_omega
      obtain ⟨ids, hids, hvisits⟩ := ih (cur + 1) (by omega)
      refine ⟨partId cur :: ids, by rw [walkAll, if_neg hstop]; simp only [hids, Option.map_some], fun v hv => ?_⟩
      by_cases hcur : v = cur
      · exact hcur ▸ List.mem_cons_self
      · have hdist : (v - (cur + 1)).toNat + 1 = (v - cur).toNat := by bv_omega
        exact List.mem_cons_of_mem _ (hvisits v (by omega))

/-- `x` and `y` are the distances of a value and of the right end from the left end, before the ends are moved. -/
theorem toNat_sub_ofBool_lt {x y : BitVec 64} {e f : Bool} (hx : e.toNat ≤ x.toNat) (hxy : x.toNat < y.toNat + f.toNat)
    (hy : y.toNat ≠ 2 ^ 64 - 1) :
    (x - BitVec.ofNat 64 e.toNat).toNat < (y + BitVec.ofNat 64 f.toNat - BitVec.ofNat 64 e.toNat).toNat := by
  have := y.isLt
  simp only [BitVec.toNat_sub, BitVec.toNat_add, BitVec.toNat_ofNat]
  cases e <;> cases f <;> simp at * <;> omega

/-- **Walking an interval**: a walk that is chosen ends after at most `max (2 * parts) 32` values, and the [sub]partition of
every value in the interval is returned. -/
theorem walk_covers (totalParts : Nat) (maybeNull : Bool) (nullId : Option Nat) (iv : Interval) {start stop : BitVec 64}
    (hwalk : partIterViaWalking totalParts maybeNull nullId iv = .walk start stop) (isSubpart unsigned : Bool)
    (partId : BitVec 64 → Nat) :
    ∃ ids, walkAll (fun v => some (partId v)) isSubpart stop (max (2 * totalParts) 32) start = some ids ∧
      ∀ v, iv.Contains unsigned v → partId v ∈ ids := by
  unfold partIterViaWalking at hwalk
  dsimp only at hwalk
  split_ifs at hwalk with hnull hall hwide hmany
  · cases nullId <;> cases hwalk
  · obtain ⟨rfl, rfl⟩ := PartIter.walk.inj hwalk
    obtain ⟨ids, hids, hvisits⟩ := walkAll_visits partId isSubpart (iv.max + .ofNat 64 (!iv.nearMax).toNat)
      (max (2 * totalParts) 32) (iv.min + .ofNat 64 iv.nearMin.toNat) (by omega)
    refine ⟨ids, hids, fun v ⟨hleft, hright⟩ => hvisits v ?_⟩
    have hx := toNat_sub_fieldVal unsigned iv.min v (by omega)
    have hy := toNat_sub_fieldVal unsigned iv.min iv.max (by omega)
    have hflag : (!iv.nearMax).toNat + iv.nearMax.toNat = 1 := by cases iv.nearMax <;> rfl
    have hlt := toNat_sub_ofBool_lt (x := v - iv.min) (y := iv.max - iv.min) (e := iv.nearMin) (f := !iv.nearMax)
      (by omega) (by omega) hwide
    rwa [show v - (iv.min + .ofNat 64 iv.nearMin.toNat) = v - iv.min - .ofNat 64 iv.nearMin.toNat by ring,
      show iv.max + .ofNat 64 (!iv.nearMax).toNat - (iv.min + .ofNat 64 iv.nearMin.toNat) =
        iv.max - iv.min + .ofNat 64 (!iv.nearMax).toNat - .ofNat 64 iv.nearMin.toNat by ring]

def topValues : Interval := ⟨false, false, true, false, false, false, -3, -1⟩

theorem walk_covers_top : ∃ ids, walkAll (fun v => some (v.toNat % 4)) false 0 32 (-2) = some ids ∧
    ∀ v, topValues.Contains true v → v.toNat % 4 ∈ ids :=
  walk_covers 4 false none topValues (by decide) false true fun v => v.toNat % 4

end TSpider.Partition
