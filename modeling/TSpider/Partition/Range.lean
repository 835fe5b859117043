import Mathlib.Data.List.GetD
import TSpider.Lib.Search
import TSpider.Partition.Hash

/-!
# Partitions by ranges

* `Ranges.getPartitionIdRange`, `Ranges.partsOf` : the partition of a value and those of an interval of a `RANGE` partitioned
  table, `range_partitions` : they are those that contain the value and meet the interval;
* `versGetPartitionId` : the partition of a row of a system-versioned table, `versGetPartitionId_const_iff` : when it does not
  depend on the history partition that is current.
-/

namespace TSpider.Partition
open Lib

/-! ## Ranges of an integer expression -/

theorem getD_lt_getD {l : List Int} (h : l.Pairwise (· < ·)) {i j : Nat} (hij : i < j) (hj : j < l.length) :
    l.getD i 0 < l.getD j 0 := by
  rw [List.getD_eq_getElem _ _ hj, List.getD_eq_getElem _ _ (hij.trans hj)]
  exact List.pairwise_iff_getElem.mp h i j _ hj hij

theorem getD_le_getD {l : List Int} (h : l.Pairwise (· < ·)) {i j : Nat} (hij : i ≤ j) (hj : j < l.length) :
    l.getD i 0 ≤ l.getD j 0 := by
  rcases hij.eq_or_lt with rfl | hlt
  · exact le_rfl
  · exact (getD_lt_getD h hlt hj).le

/-- The constants of `VALUES LESS THAN`, and whether a last partition has `MAXVALUE`. -/
structure Ranges where
  unsigned : Bool
  limits : List Int
  definedMaxValue : Bool
  increasing : limits.Pairwise (· < ·)
  nonempty : definedMaxValue = false → limits ≠ []

namespace Ranges
variable (t : Ranges)

def limit (i : Nat) : Int := t.limits.getD i 0

def offset : Int := if t.unsigned then 2 ^ 63 else 0

/-- `range_int_array`, with `LONGLONG_MAX` for `MAXVALUE`. -/
def rangeIntArray (i : Nat) : Int := if i < t.limits.length then t.limit i - t.offset else 2 ^ 63 - 1

def maxPartition : Nat := t.limits.length + t.definedMaxValue.toNat - 1

def partFuncValue (v : BitVec 64) : BitVec 64 := if t.unsigned then v - 0x8000000000000000#64 else v

def getPartitionIdRange : Option (BitVec 64) → Option Nat
  | none => some 0
  | some v =>
    let value := (t.partFuncValue v).toInt
    let loc := bisect (fun i => decide (t.rangeIntArray i ≤ value)) 0 t.maxPartition
    if loc = t.maxPartition ∧ value ≥ t.rangeIntArray loc ∧ t.definedMaxValue = false then none else some loc

/-- `get_partition_id_range_for_endpoint`, for an expression that is `NULL` only if its column is. -/
def getPartitionIdRangeForEndpoint (leftEndpoint includeEndpoint : Bool) : Option (BitVec 64) → Nat
  | none => if !leftEndpoint && includeEndpoint then 1 else 0
  | some v =>
    let value := (t.partFuncValue v + .ofNat 64 (leftEndpoint && !includeEndpoint).toNat).toInt
    let loc := bisect (fun i => decide (t.rangeIntArray i < value)) 0 t.maxPartition
    if leftEndpoint then
      if value ≥ t.rangeIntArray loc ∧ (loc < t.maxPartition ∨ t.definedMaxValue = false) then loc + 1 else loc
    else (if includeEndpoint ∧ loc < t.maxPartition ∧ value = t.rangeIntArray loc then loc + 1 else loc) + 1

/-- What `get_next_partition_id_range` returns after `get_part_iter_for_interval_via_mapping`, for an expression as above. For
one that is `NULL` for other values too the source adds the first partition (`ret_null_part`). -/
def partsOf (maybeNull : Bool) (iv : Interval) : List Nat :=
  let min := if maybeNull && iv.minNull then none else some iv.min
  let max := if maybeNull && iv.maxNull then none else some iv.max
  if !(iv.noMin || iv.noMax || iv.nearMin || iv.nearMax) && min.isNone && max.isNone then [0]
  else
    let start := if iv.noMin then 0 else t.getPartitionIdRangeForEndpoint true (!iv.nearMin) min
    if !iv.noMin ∧ start = t.maxPartition + 1 then []
    else
      let stop := if iv.noMax then t.maxPartition + 1 else t.getPartitionIdRangeForEndpoint false (!iv.nearMax) max
      if !iv.noMax ∧ start ≥ stop then [] else List.range' start (stop - start)

/-- Partition `i` holds the values from the limit before it up to its own, and with `MAXVALUE` all from there. -/
def Has (i : Nat) (x : Int) : Prop :=
  i ≤ t.maxPartition ∧ (0 < i → t.limit (i - 1) ≤ x) ∧ (i < t.limits.length → x < t.limit i)

end Ranges

/-- The values between the ends. A left end that is `NULL` is below all of them. -/
def Interval.Between (iv : Interval) (maybeNull unsigned : Bool) (x : Int) : Prop :=
  (iv.noMin = false → (maybeNull && iv.minNull) = false → fieldVal unsigned iv.min + iv.nearMin.toNat ≤ x) ∧
    (iv.noMax = false → x + iv.nearMax.toNat ≤ fieldVal unsigned iv.max)

namespace Ranges
variable {t : Ranges}

theorem partFuncValue_toInt (v : BitVec 64) : (t.partFuncValue v).toInt = fieldVal t.unsigned v - t.offset := by
  unfold partFuncValue fieldVal offset
  have := v.isLt
  split_ifs
  · rw [BitVec.toInt_eq_toNat_cond, BitVec.toNat_sub]
    simp only [BitVec.toNat_ofNat]
    split_ifs <;> omega
  · omega

theorem maxPartition_le : t.maxPartition ≤ t.limits.length ∧
    (t.definedMaxValue = false → t.maxPartition < t.limits.length) ∧
    (t.definedMaxValue = true → t.maxPartition = t.limits.length) := by
  have hne : t.definedMaxValue = false → 0 < t.limits.length := fun h => List.length_pos_iff.mpr (t.nonempty h)
  unfold maxPartition
  cases hd : t.definedMaxValue <;> simp [hd] at hne ⊢
  omega

theorem rangeIntArray_eq {i : Nat} (hi : i < t.limits.length) : t.rangeIntArray i = t.limit i - t.offset := if_pos hi

theorem search_spec (y : Int) : ∃ loc, bisect (fun i => decide (t.rangeIntArray i < y - t.offset)) 0 t.maxPartition = loc ∧
    loc ≤ t.maxPartition ∧ (∀ i < loc, t.limit i < y) ∧ ∀ i, loc ≤ i → i < t.maxPartition → y ≤ t.limit i := by
  have hle := t.maxPartition_le.1
  have hmono : ∀ i j, i ≤ j → j < t.maxPartition → decide (t.rangeIntArray j < y - t.offset) = true →
      decide (t.rangeIntArray i < y - t.offset) = true := by
    intro i j hij hj hlt
    rw [decide_eq_true_eq, rangeIntArray_eq (by omega)] at hlt ⊢
    exact (Int.sub_le_sub_right (getD_le_getD t.increasing hij (by omega)) _).trans_lt hlt
  obtain ⟨-, hmax, hbelow, habove⟩ := bisect_spec hmono (Nat.zero_le _)
  refine ⟨_, rfl, hmax, fun i hi => ?_, fun i hi hlt => ?_⟩
  · have := hbelow i (Nat.zero_le _) hi
    rw [decide_eq_true_eq, rangeIntArray_eq (by omega)] at this
    omega
  · have := habove i hi hlt
    rw [decide_eq_false_iff_not, rangeIntArray_eq (by omega)] at this
    omega

theorem limit_lt {i j : Nat} (hij : i < j) (hj : j < t.limits.length) : t.limit i < t.limit j :=
  getD_lt_getD t.increasing hij hj

theorem getPartitionIdRange_eq_some (v : BitVec 64) (i : Nat) :
    t.getPartitionIdRange (some v) = some i ↔ t.Has i (fieldVal t.unsigned v) := by
  obtain ⟨hlen, hlast, hdef⟩ := t.maxPartition_le
  obtain ⟨loc, hloc, hmax, hbelow, habove⟩ := t.search_spec (fieldVal t.unsigned v + 1)
  simp only [getPartitionIdRange, partFuncValue_toInt, ← Int.lt_add_one_iff,
    show fieldVal t.unsigned v - t.offset + 1 = fieldVal t.unsigned v + 1 - t.offset by ring, hloc]
  constructor
  · intro h
    split_ifs at h with hno
    obtain rfl := Option.some.inj h
    refine ⟨hmax, fun hpos => ?_, fun hlt => ?_⟩
    · have := hbelow (loc - 1) (by omega)
      omega
    · have := habove loc le_rfl
      by_contra hge
      have hlocmax : loc = t.maxPartition := by omega
      rw [rangeIntArray_eq hlt] at hno
      refine hno ⟨hlocmax, by omega, Bool.eq_false_iff.mpr fun hd => ?_⟩
      exact absurd (hdef hd) (by omega)
  · rintro ⟨hi, hleft, hright⟩
    obtain rfl : loc = i := by
      rcases lt_trichotomy loc i with hlt | heq | hgt
      · have := habove (i - 1) (by omega) (by omega)
        have := hleft (by omega)
        omega
      · exact heq
      · have := hbelow i hgt
        have := hright (by omega)
        omega
    rw [if_neg]
    rintro ⟨-, hge, hd⟩
    have hlt : loc < t.limits.length := hi.trans_lt (hlast hd)
    rw [rangeIntArray_eq hlt] at hge
    have := hright hlt
    omega

theorem toInt_add_toNat {x : BitVec 64} {near : Bool} (h : x.toInt + near.toNat < 2 ^ 63) :
    (x + .ofNat 64 near.toNat).toInt = x.toInt + near.toNat := by
  have := x.isLt
  have := near.toNat_le
  simp only [BitVec.toInt_eq_toNat_cond, BitVec.toNat_add, BitVec.toNat_ofNat] at *
  split_ifs at * <;> omega

theorem startEndpoint_le_iff (v : BitVec 64) (near : Bool)
    (hv : ∃ u, fieldVal t.unsigned v + near.toNat ≤ fieldVal t.unsigned u) {i : Nat} (hi : i ≤ t.maxPartition) :
    t.getPartitionIdRangeForEndpoint true (!near) (some v) ≤ i ↔
      (i < t.limits.length → fieldVal t.unsigned v + near.toNat < t.limit i) := by
  have hvalue : (t.partFuncValue v + .ofNat 64 near.toNat).toInt = fieldVal t.unsigned v + near.toNat - t.offset := by
    obtain ⟨u, hu⟩ := hv
    have hlt := (t.partFuncValue u).toInt_lt
    rw [t.partFuncValue_toInt u] at hlt
    have hle := t.partFuncValue_toInt v
    rw [toInt_add_toNat (by omega), hle]
    ring
  obtain ⟨hlen, hlast, hdef⟩ := t.maxPartition_le
  obtain ⟨loc, hloc, hmax, hbelow, habove⟩ := t.search_spec (fieldVal t.unsigned v + near.toNat)
  simp only [getPartitionIdRangeForEndpoint, Bool.not_not, Bool.true_and, hvalue, hloc, if_true]
  generalize fieldVal t.unsigned v + near.toNat = y at *
  rcases lt_trichotomy i loc with hlt | rfl | hgt
  · have := hbelow i hlt
    split_ifs <;> omega
  · by_cases hlt : i < t.limits.length
    · rw [rangeIntArray_eq hlt]
      have hin : i < t.maxPartition ∨ t.definedMaxValue = false := by
        refine or_iff_not_imp_right.mpr fun hd => ?_
        exact (hdef (Bool.not_eq_false _ ▸ hd)).symm ▸ hlt
      simp only [hin, and_true]
      split_ifs <;> omega
    · have : i = t.maxPartition ∧ t.definedMaxValue = true := by
        cases hd : t.definedMaxValue with
        | false =>
          have := hlast hd
          omega
        | true => exact ⟨by omega, rfl⟩
      rw [if_neg (by simp [this])]
      omega
  · have := habove loc le_rfl (by omega)
    have hmono := fun h => limit_lt (t := t) hgt h
    split_ifs <;> omega

theorem lt_stopEndpoint_iff (v : BitVec 64) (near : Bool) (i : Nat) :
    i < t.getPartitionIdRangeForEndpoint false (!near) (some v) ↔
      i ≤ t.maxPartition ∧ (0 < i → t.limit (i - 1) + near.toNat ≤ fieldVal t.unsigned v) := by
  have hlen := t.maxPartition_le.1
  obtain ⟨loc, hloc, hmax, hbelow, habove⟩ := t.search_spec (fieldVal t.unsigned v)
  simp only [getPartitionIdRangeForEndpoint, Bool.false_and, Bool.toNat_false, BitVec.add_zero, partFuncValue_toInt, hloc,
    Bool.false_eq_true, if_false]
  generalize fieldVal t.unsigned v = y at *
  have := near.toNat_le
  by_cases hi : i ≤ t.maxPartition
  · rcases lt_trichotomy i (loc + 1) with hlt | rfl | hgt
    · have := fun h => hbelow (i - 1) h
      split_ifs <;> omega
    · have := habove loc le_rfl (by omega)
      rw [rangeIntArray_eq (by omega)]
      split_ifs with hin <;> cases near <;> simp at hin ⊢ <;> omega
    · have := habove loc le_rfl (by omega)
      have := limit_lt (t := t) (i := loc) (j := i - 1) (by omega) (by omega)
      split_ifs <;> omega
  · split_ifs <;> omega

theorem mem_partsOf {maybeNull : Bool} {iv : Interval} (hmax : iv.noMax = true ∨ (maybeNull && iv.maxNull) = false)
    (hne : ∃ u, iv.Between maybeNull t.unsigned (fieldVal t.unsigned u)) (i : Nat) :
    i ∈ t.partsOf maybeNull iv ↔ i ≤ t.maxPartition ∧
      (iv.noMin = false → (maybeNull && iv.minNull) = false → i < t.limits.length →
        fieldVal t.unsigned iv.min + iv.nearMin.toNat < t.limit i) ∧
      (iv.noMax = false → 0 < i → t.limit (i - 1) + iv.nearMax.toNat ≤ fieldVal t.unsigned iv.max) := by
  obtain ⟨u, hu⟩ := hne
  obtain ⟨start, hstart⟩ : ∃ start, (if iv.noMin then 0 else t.getPartitionIdRangeForEndpoint true (!iv.nearMin)
    (if maybeNull && iv.minNull then none else some iv.min)) = start := ⟨_, rfl⟩
  obtain ⟨stop, hstop⟩ : ∃ stop, (if iv.noMax then t.maxPartition + 1 else t.getPartitionIdRangeForEndpoint
    false (!iv.nearMax)
    (if maybeNull && iv.maxNull then none else some iv.max)) = stop := ⟨_, rfl⟩
  have hleft : i ≤ t.maxPartition → (start ≤ i ↔ (iv.noMin = false → (maybeNull && iv.minNull) = false →
      i < t.limits.length → fieldVal t.unsigned iv.min + iv.nearMin.toNat < t.limit i)) := by
    intro hi
    rw [← hstart]
    split_ifs with hno hnull
    · simp [hno]
    · simp [getPartitionIdRangeForEndpoint, hnull]
    · simp only [Bool.not_eq_true] at hno hnull
      rw [startEndpoint_le_iff _ _ ⟨u, hu.1 hno hnull⟩ hi]
      simp [hno, hnull]
  have hright : ∀ i, i < stop ↔ i ≤ t.maxPartition ∧
      (iv.noMax = false → 0 < i → t.limit (i - 1) + iv.nearMax.toNat ≤ fieldVal t.unsigned iv.max) := by
    intro i
    rw [← hstop]
    by_cases hno : iv.noMax = true
    · rw [if_pos hno, Nat.lt_succ_iff]
      simp [hno]
    · rw [if_neg hno, hmax.resolve_left hno, if_neg Bool.false_ne_true, lt_stopEndpoint_iff]
      simp [hno]
  have hbound : stop ≤ t.maxPartition + 1 := by
    by_contra hgt
    have := ((hright (t.maxPartition + 1)).mp (by omega)).1
    omega
  have hparts : t.partsOf maybeNull iv = List.range' start (stop - start) := by
    unfold partsOf
    dsimp only
    rw [hstart, hstop, if_neg]
    · split_ifs with hnone hempty
      · rw [show stop - start = 0 by omega]
        rfl
      · rw [show stop - start = 0 by omega]
        rfl
      · rfl
    · intro h
      simp at h
      have := hmax.resolve_left (by simp [h.1.1.1.1.2])
      simp [h.2.1, h.2.2] at this
  rw [hparts, List.mem_range'_1]
  constructor
  · rintro ⟨hge, hlt⟩
    obtain ⟨hi, hb⟩ := (hright i).mp (by omega)
    exact ⟨hi, (hleft hi).mp hge, hb⟩
  · rintro ⟨hi, ha, hb⟩
    have := (hleft hi).mpr ha
    have := (hright i).mpr ⟨hi, hb⟩
    omega

end Ranges

/-- **`RANGE` partitions.** The partition found for a value is the one that contains it, and those used for a non-empty
interval are those that meet it. -/
theorem range_partitions (t : Ranges) (maybeNull : Bool) :
    (∀ v i, t.getPartitionIdRange (some v) = some i ↔ t.Has i (fieldVal t.unsigned v)) ∧
      ∀ iv : Interval, (iv.noMax = true ∨ (maybeNull && iv.maxNull) = false) →
        (∃ u, iv.Between maybeNull t.unsigned (fieldVal t.unsigned u)) →
        ∀ i, i ∈ t.partsOf maybeNull iv ↔ ∃ x, iv.Between maybeNull t.unsigned x ∧ t.Has i x := by
  refine ⟨Ranges.getPartitionIdRange_eq_some, fun iv hmax hne i => (Ranges.mem_partsOf hmax hne i).trans ⟨?_, ?_⟩⟩
  · rintro ⟨hi, hleft, hright⟩
    obtain ⟨u, hu⟩ := hne
    have hlimits : 0 < i → i < t.limits.length → t.limit (i - 1) < t.limit i := fun hpos => Ranges.limit_lt (by omega)
    -- a value of the interval, moved to the nearest value of the partition
    by_cases hlow : 0 < i ∧ fieldVal t.unsigned u < t.limit (i - 1)
    · refine ⟨t.limit (i - 1), ⟨fun h h' => ?_, fun h => hright h hlow.1⟩, hi, fun _ => le_rfl, hlimits hlow.1⟩
      exact (hu.1 h h').trans hlow.2.le
    · by_cases hhigh : i < t.limits.length ∧ t.limit i ≤ fieldVal t.unsigned u
      · refine ⟨t.limit i - 1, ⟨fun h h' => ?_, fun h => ?_⟩, hi, fun hpos => ?_, fun _ => by omega⟩
        · have := hleft h h' hhigh.1
          omega
        · have := hu.2 h
          omega
        · have := hlimits hpos hhigh.1
          omega
      · exact ⟨_, hu, hi, by omega, by omega⟩
  · rintro ⟨x, hx, hi, hleft, hright⟩
    refine ⟨hi, fun h h' hlt => (hx.1 h h').trans_lt (hright hlt), fun h hpos => ?_⟩
    have := hx.2 h
    have := hleft hpos
    omega

def twoLimits : Ranges := ⟨false, [10, 20], true, by decide, by decide⟩

def tenToTwenty : Interval := ⟨false, false, true, false, false, false, 10, 20⟩

theorem range_partitions_twoLimits : twoLimits.partsOf false tenToTwenty = [1, 2] ∧
    ∀ i, i ∈ twoLimits.partsOf false tenToTwenty ↔ ∃ x, tenToTwenty.Between false false x ∧ twoLimits.Has i x :=
  ⟨by decide, (range_partitions twoLimits false).2 tenToTwenty (.inr rfl) ⟨15, by unfold Interval.Between; decide⟩⟩

/-! ## History partitions -/

/-- The end times of the history partitions, `range_int_array` of a table partitioned by `SYSTEM_TIME INTERVAL`. -/
structure History where
  ends : List Int
  nonempty : ends ≠ []
  increasing : ends.Pairwise (· < ·)

namespace History
variable (h : History) (ts : Int)

def rangeValue (i : Nat) : Int := h.ends.getD i 0

/-- `num_parts - 2`: the last partition holds the current rows. -/
def maxHistId : Nat := h.ends.length - 1

def isCurrent (cur : Nat) : Bool :=
  (cur == 0 || decide (h.rangeValue (cur - 1) < ts)) && (cur == h.maxHistId || decide (h.rangeValue cur ≥ ts))

def search : Nat := bisect (fun i => decide (h.rangeValue i ≤ ts)) 0 h.maxHistId

end History

/-- `vers_get_partition_id`: `rowEnd` is `none` for the maximal end time or `NULL`, `rangeValue` without an `INTERVAL`. -/
def versGetPartitionId (rangeValue : Option History) (nowPart histPart : Nat) : Option Int → Nat
  | none => nowPart
  | some ts =>
    match rangeValue with
    | none => histPart
    | some h => if h.isCurrent ts histPart then histPart else h.search ts

namespace History
variable {h : History} {ts : Int}

theorem lt_length {j : Nat} (hj : j ≤ h.maxHistId) : j < h.ends.length := by
  have hlen : 0 < h.ends.length := List.length_pos_iff.mpr h.nonempty
  unfold maxHistId at hj
  omega

theorem rangeValue_le {i j : Nat} (hij : i ≤ j) (hj : j ≤ h.maxHistId) : h.rangeValue i ≤ h.rangeValue j :=
  getD_le_getD h.increasing hij (lt_length hj)

theorem search_mono : ∀ i j, i ≤ j → j < h.maxHistId → decide (h.rangeValue j ≤ ts) = true →
    decide (h.rangeValue i ≤ ts) = true := by
  intro i j hij hj hts
  rw [decide_eq_true_eq] at hts ⊢
  exact (rangeValue_le hij hj.le).trans hts

theorem search_cuts : Cuts (fun i => decide (h.rangeValue i ≤ ts)) 0 h.maxHistId (h.search ts) :=
  bisect_spec search_mono (Nat.zero_le _)

theorem isCurrent_iff {cur : Nat} : h.isCurrent ts cur = true ↔
    (cur = 0 ∨ h.rangeValue (cur - 1) < ts) ∧ (cur = h.maxHistId ∨ ts ≤ h.rangeValue cur) := by
  simp [isCurrent]

/-- The end time of a partition is in it for the test, and behind it for the search. -/
theorem search_eq_of_current (hts : ∀ k < h.maxHistId, h.rangeValue k ≠ ts) {cur : Nat} (hcur : cur ≤ h.maxHistId)
    (hfast : h.isCurrent ts cur = true) : h.search ts = cur := by
  obtain ⟨hleft, hright⟩ := isCurrent_iff.mp hfast
  refine bisect_eq search_mono ⟨Nat.zero_le _, hcur, fun i _ hi => ?_, fun i hi hmax => ?_⟩
  · rw [decide_eq_true_eq]
    have hprev := hleft.resolve_left (by omega)
    exact (rangeValue_le (by omega) (by omega)).trans hprev.le
  · rw [decide_eq_false_iff_not, not_le]
    have hle := hright.resolve_left (by omega)
    exact (lt_of_le_of_ne hle (hts cur (by omega)).symm).trans_le (rangeValue_le hi hmax.le)

end History

/-- **The history partition of a row** is the same whichever is current, exactly if the row's end time is not that of a
history partition before the last one. -/
theorem versGetPartitionId_const_iff (h : History) (nowPart : Nat) (ts : Int) : (∀ a ≤ h.maxHistId, ∀ b ≤ h.maxHistId,
      versGetPartitionId (some h) nowPart a (some ts) = versGetPartitionId (some h) nowPart b (some ts)) ↔
    ∀ k < h.maxHistId, h.rangeValue k ≠ ts := by
  constructor
  · intro hsame k hk hts
    have hcuts := @History.search_cuts h ts
    have hbehind : k < h.search ts := by
      by_contra hle
      have hfalse := hcuts.above k (by omega) hk
      simp [hts] at hfalse
    -- with the partition that ends at `ts` as the current one, the test succeeds
    have hfast : h.isCurrent ts k = true := by
      refine History.isCurrent_iff.mpr ⟨or_iff_not_imp_left.mpr fun hk0 => ?_, .inr hts.ge⟩
      rw [← hts]
      exact getD_lt_getD h.increasing (by omega) (History.lt_length hk.le)
    -- with the one that the search finds it does not
    have hslow : h.isCurrent ts (h.search ts) ≠ true := by
      rw [ne_eq, History.isCurrent_iff]
      rintro ⟨hzero | hlt, -⟩
      · omega
      · exact absurd (History.rangeValue_le (by omega) (by have := hcuts.le; omega)) (not_le.mpr (hlt.trans_eq hts.symm))
    have heq := hsame k hk.le _ hcuts.le
    simp only [versGetPartitionId, hfast, if_true, hslow, Bool.false_eq_true, if_false] at heq
    omega
  · intro hts a ha b hb
    have hsearch : ∀ cur ≤ h.maxHistId, versGetPartitionId (some h) nowPart cur (some ts) = h.search ts := by
      intro cur hcur
      simp only [versGetPartitionId]
      split_ifs with hfast
      · exact (History.search_eq_of_current hts hcur hfast).symm
      · rfl
    rw [hsearch a ha, hsearch b hb]

def twoEnds : History := ⟨[10, 20], by decide, by decide⟩

/-- A row that ended at the end of the first of two history partitions. -/
theorem versGetPartitionId_at_end :
    versGetPartitionId (some twoEnds) 2 0 (some 10) = 0 ∧ versGetPartitionId (some twoEnds) 2 1 (some 10) = 1 := by
  decide

end TSpider.Partition
