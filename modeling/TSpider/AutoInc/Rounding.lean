import TSpider.AutoInc.Residue

/-!
# The rounding formulas in all of their range

* `rounding_iff` : when the next value and the start of a reservation are the least numbers of the node's form;
* `counter_kept_iff` : when a written value does not lower the counter.
-/

namespace TSpider.AutoInc
open Lib Nat

variable {cfg : Config} {v : Vars} {n : Nat}

/-- The numbers from `n` on of the form of the node. -/
def Config.form (cfg : Config) (n : Nat) : Set Nat := {r | n ≤ r ∧ ∃ k, r = cfg.modeValue + k * cfg.step}

/-- The rounding formula with natural numbers. -/
def Config.rounded (cfg : Config) (n : Nat) : Nat :=
  cfg.modeValue + (n + cfg.step - 1 - cfg.modeValue) / cfg.step * cfg.step

theorem isLeast_rounded (cfg : Config) (n : Nat) : IsLeast (cfg.form n) (cfg.rounded n) := by
  have hs := cfg.step_range
  have hlt := Nat.lt_div_mul_add hs.1 (a := n + cfg.step - 1 - cfg.modeValue)
  refine ⟨⟨by unfold Config.rounded; omega, _, rfl⟩, ?_⟩
  rintro _ ⟨hn, k, rfl⟩
  have hle : n + cfg.step - 1 - cfg.modeValue < (k + 1) * cfg.step := by
    rw [Nat.succ_mul]
    omega
  exact Nat.add_le_add_left (Nat.mul_le_mul_right _ (Nat.lt_succ_iff.mp ((Nat.div_lt_iff_lt_mul hs.1).mpr hle))) _

/-! ## The formula over 64 bits -/

def Config.snapped (cfg : Config) (n : Nat) : Nat := snap cfg.step cfg.modeValue (n + cfg.step - 1)

theorem snap_add_step (cfg : Config) (n : Nat) : snap cfg.step cfg.modeValue (n + cfg.step) = cfg.snapped (n + 1) := by
  rw [Config.snapped, Nat.add_right_comm, Nat.add_sub_cancel]

theorem snapped_of_le (hm : cfg.modeValue ≤ n + cfg.step - 1) (hx : n + cfg.step - 1 < cfg.modeValue + wordSize) :
    cfg.snapped n = cfg.rounded n % wordSize := by
  have hsub : (n + cfg.step - 1 + wordSize - cfg.modeValue) % wordSize = n + cfg.step - 1 - cfg.modeValue := by
    unfold wordSize at *
    omega
  rw [Config.snapped, snap, hsub, add_comm, Config.rounded]

theorem rounded_le (hm : cfg.modeValue ≤ n + cfg.step - 1) : cfg.rounded n ≤ n + cfg.step - 1 := by
  have := div_mul_le_self (n + cfg.step - 1 - cfg.modeValue) cfg.step
  unfold Config.rounded
  omega

/-- The subtraction borrows. -/
theorem snapped_of_lt (hx : n + cfg.step - 1 < cfg.modeValue) : n ≤ cfg.snapped n ∧ cfg.snapped n < cfg.modeValue := by
  have hs := cfg.step_range
  have hm := cfg.mode_range
  have hw : n + cfg.step - 1 < wordSize ∧ cfg.modeValue ≤ wordSize := by
    unfold wordSize
    omega
  have hlt := lt_snap_add hs.1 hw.1 hw.2 (by omega)
  have hle := snap_le hs.1 hw.1 hw.2 (by omega)
  unfold Config.snapped
  omega

/-- The addition of the step carries, and the subtraction does not take it back. -/
theorem snapped_of_ge (hn : n ≤ wordSize) (hx : cfg.modeValue + wordSize ≤ n + cfg.step - 1) :
    cfg.snapped n = cfg.modeValue := by
  have hs := cfg.step_range
  have hsub : (n + cfg.step - 1 + wordSize - cfg.modeValue) % wordSize < cfg.step := by
    unfold wordSize at *
    omega
  have hw : cfg.modeValue < wordSize := cfg.mode_range.trans_lt (by decide)
  rw [Config.snapped, snap, div_eq_of_lt hsub, zero_mul, zero_add, mod_eq_of_lt hw]

theorem snapped_eq_rounded_iff (hn : n ≤ wordSize) : cfg.snapped n = cfg.rounded n ↔
    cfg.modeValue ≤ n + cfg.step - 1 ∧ n + cfg.step - 1 < cfg.modeValue + wordSize ∧ cfg.rounded n < wordSize := by
  refine ⟨fun h => ⟨?_, ?_, h ▸ snap_lt⟩, fun ⟨hm, hx, hlt⟩ => by rw [snapped_of_le hm hx, mod_eq_of_lt hlt]⟩
  · by_contra hlt
    have hbelow := (snapped_of_lt (not_le.mp hlt)).2
    rw [h, Config.rounded] at hbelow
    omega
  · by_contra hge
    have hleast := (isLeast_rounded cfg n).1.1
    have := snapped_of_ge hn (not_lt.mp hge)
    have := cfg.mode_range
    have := cfg.step_range
    unfold wordSize at *
    omega

theorem nextInsertId_iff (hsp : cfg.spiderMode = true) {nr : Nat} (hnr : nr < wordSize) :
    computeNextInsertId cfg v nr = ulonglongMax ∨ IsLeast (cfg.form (nr + 1)) (computeNextInsertId cfg v nr) ↔
      cfg.modeValue ≤ nr + cfg.step := by
  have hs := cfg.step_range
  have hmode := cfg.mode_range
  have hn : nr + 1 ≤ wordSize := hnr
  rw [computeNextInsertId, if_pos hsp, snap_add_step]
  rcases lt_or_ge (nr + 1 + cfg.step - 1) cfg.modeValue with hx | hm
  · -- what is returned is above `nr`, and below the first number of the form
    have hsnap := snapped_of_lt hx
    rw [if_neg (by omega)]
    refine ⟨fun h => ?_, fun h => by omega⟩
    rcases h with h | ⟨⟨-, k, hk⟩, -⟩
    · unfold ulonglongMax wordSize at h
      omega
    · omega
  · refine ⟨fun _ => by omega, fun _ => ?_⟩
    split_ifs with hle
    · exact .inl rfl
    · have hx : nr + 1 + cfg.step - 1 < cfg.modeValue + wordSize := by
        by_contra hge
        have := snapped_of_ge hn (not_lt.mp hge)
        unfold wordSize at *
        omega
      have hsnap := snapped_of_le hm hx
      have hround := rounded_le hm
      have hlt : cfg.rounded (nr + 1) < wordSize := by
        unfold wordSize at *
        omega
      rw [hsnap, mod_eq_of_lt hlt]
      exact .inr (isLeast_rounded cfg _)

theorem roundCounter_iff (hsp : cfg.spiderMode = true) {c : Nat} (hc : c < wordSize) :
    IsLeast (cfg.form c) (roundCounter cfg c) ↔
      cfg.modeValue ≤ c + cfg.step - 1 ∧ c + cfg.step - 1 < cfg.modeValue + wordSize ∧ cfg.rounded c < wordSize := by
  rw [← snapped_eq_rounded_iff hc.le, roundCounter, if_pos hsp, ← Config.snapped]
  exact ⟨fun h => h.unique (isLeast_rounded cfg c), fun h => h ▸ isLeast_rounded cfg c⟩

/-- **The next value is the overflow marker or the least of the form above `nr`, and a reservation of one row starts with the
least from the counter on**, exactly if nothing borrows or ends past `2 ^ 64`. -/
theorem rounding_iff (cfg : Config) (hsp : cfg.spiderMode = true) (v : Vars) (nr : UInt64) (sid : Nat)
    (s : Session) (sh : Share)
    (hc : sh.nextAutoIncVal < wordSize) :
    ((computeNextInsertId cfg v nr.toNat = ulonglongMax ∨
        IsLeast (cfg.form (nr.toNat + 1)) (computeNextInsertId cfg v nr.toNat)) ∧
      IsLeast (cfg.form sh.nextAutoIncVal) (getAutoIncrement cfg sid 1 s sh).1) ↔
    cfg.modeValue ≤ nr.toNat + cfg.step ∧ cfg.modeValue ≤ sh.nextAutoIncVal + cfg.step - 1 ∧
      sh.nextAutoIncVal + cfg.step - 1 < cfg.modeValue + wordSize ∧ cfg.rounded sh.nextAutoIncVal < wordSize := by
  rw [nextInsertId_iff hsp nr.toNat_lt]
  exact and_congr_right fun _ => roundCounter_iff hsp hc

/-- Step 17 and mode value 1, with a new counter. -/
theorem rounding_new : IsLeast ((Config.bigint 17 1 (by decide) (by decide)).form 0) (getAutoIncrement
    (.bigint 17 1 (by decide) (by decide)) 0 1 ((State.initial 0 true).session 0) (State.initial 0 true).share).1 :=
  ((rounding_iff (.bigint 17 1 (by decide) (by decide)) rfl ⟨1, 1, one_range, one_range⟩ 5 0
    ((State.initial 0 true).session 0)
    (State.initial 0 true).share (by decide)).mpr (by decide)).2

/-- Step 17 and mode value 20: the numbers of the form are 20, 37, ..., and the next value after 1 is 2. -/
theorem rounding_borrows : computeNextInsertId (.bigint 17 20 (by decide) (by decide)) ⟨1, 1, one_range, one_range⟩ 1 = 2 ∧
    2 ≠ ulonglongMax ∧ 2 ∉ (Config.bigint 17 20 (by decide) (by decide)).form 2 := by
  refine ⟨by decide, by decide, ?_⟩
  rintro ⟨-, k, hk⟩
  change 2 = 20 + k * 17 at hk
  omega

/-! ## Following a written value -/

/-- A negative value of a signed column. -/
def Config.Negative (cfg : Config) (value : Nat) : Prop := cfg.unsignedField = false ∧ 2 ^ 63 ≤ value

/-- No number above `value` in 64 bits has the form of the node. -/
def Config.Last (cfg : Config) (value : Nat) : Prop :=
  ∀ r < wordSize, (cfg.spiderMode = true → r ∈ cfg.form 0) → r ≤ value

/-- The formula ends below `2 ^ 64`; or there is no larger number, and what is left of it is not below `c`. -/
def Config.Follows (cfg : Config) (value c : Nat) : Prop :=
  if cfg.spiderMode then
    value + cfg.step < cfg.modeValue + wordSize ∧
        (cfg.rounded (value + 1) < wordSize ∨ c + wordSize ≤ cfg.rounded (value + 1)) ∨
      cfg.modeValue + wordSize ≤ value + cfg.step ∧ c ≤ cfg.modeValue ∧ wordSize ≤ cfg.rounded (value + 1)
  else value + 1 < wordSize ∨ c = 0

theorem last_iff (hsp : cfg.spiderMode = true) (value : Nat) : cfg.Last value ↔ wordSize ≤ cfg.rounded (value + 1) := by
  have hleast := isLeast_rounded cfg (value + 1)
  constructor
  · intro h
    by_contra hlt
    have hle := h _ (not_le.mp hlt) fun _ => ⟨zero_le _, hleast.1.2⟩
    exact absurd (hleast.1.1.trans hle) (not_succ_le_self value)
  · intro h r hr hform
    by_contra hgt
    exact absurd (h.trans (hleast.2 ⟨not_le.mp hgt, (hform hsp).2⟩)) (not_le.mpr hr)

theorem snapped_follows_iff (hsp : cfg.spiderMode = true) {value c : Nat} (hv : value < wordSize) (hc : c ≤ value) :
    c ≤ cfg.snapped (value + 1) ∧ (cfg.Last value ∨ value < cfg.snapped (value + 1)) ↔ cfg.Follows value c := by
  have hs := cfg.step_range
  have hmode := cfg.mode_range
  have hn : value + 1 ≤ wordSize := hv
  rw [last_iff hsp, Config.Follows, if_pos hsp]
  rcases lt_or_ge (value + 1 + cfg.step - 1) cfg.modeValue with hx | hm
  · have hsnap := snapped_of_lt hx
    have hround : cfg.rounded (value + 1) = cfg.modeValue := by
      rw [Config.rounded, Nat.sub_eq_zero_of_le hx.le, Nat.zero_div, Nat.zero_mul, Nat.add_zero]
    unfold wordSize at *
    omega
  · have hround := rounded_le hm
    have hleast := (isLeast_rounded cfg (value + 1)).1.1
    rcases lt_or_ge (value + 1 + cfg.step - 1) (cfg.modeValue + wordSize) with hx | hx
    · have hsnap := snapped_of_le hm hx
      unfold wordSize at *
      omega
    · have hsnap := snapped_of_ge hn hx
      unfold wordSize at *
      omega

theorem next_follows_iff (hsp : ¬ cfg.spiderMode = true) {value c : Nat} (hv : value < wordSize) (hc : c ≤ value) :
    c ≤ (value + 1) % wordSize ∧ (cfg.Last value ∨ value < (value + 1) % wordSize) ↔ cfg.Follows value c := by
  rw [Config.Follows, if_neg hsp]
  rcases eq_or_lt_of_le (succ_le_of_lt hv) with hlast | hlt
  · have hle : cfg.Last value := fun r hr _ => le_of_lt_succ (hlast ▸ hr)
    rw [← succ_eq_add_one, hlast, mod_self]
    simp [hle]
  · rw [mod_eq_of_lt hlt]
    exact ⟨fun _ => .inl hlt, fun _ => ⟨hc.trans (le_succ _), .inr (lt_succ_self _)⟩⟩

/-- **The counter does not move back, and is above a written value** with a larger number of the form, exactly if it was above
it or the formula follows it. -/
theorem counter_kept_iff (cfg : Config) (value : UInt64) (error : Bool) (sh : Share) :
    (sh.nextAutoIncVal ≤ (setAutoIncrementIfHigher cfg value.toNat error sh).nextAutoIncVal ∧
      (cfg.Negative value.toNat ∨ cfg.Last value.toNat ∨
        value.toNat < (setAutoIncrementIfHigher cfg value.toNat error sh).nextAutoIncVal)) ↔
    cfg.Negative value.toNat ∨ value.toNat < sh.nextAutoIncVal ∨ cfg.Follows value.toNat sh.nextAutoIncVal := by
  have hv := value.toNat_lt
  by_cases hneg : cfg.Negative value.toNat
  · have hpos : ¬ cfg.countsAsPositive value.toNat := by
      rintro (hu | hlt)
      · exact absurd (hneg.1.symm.trans hu) (by decide)
      · exact absurd hneg.2 (not_le.mpr hlt.2)
    rw [setAutoIncrementIfHigher, noteInsertError_nextAutoIncVal, if_neg hpos]
    rcases Nat.eq_zero_or_pos sh.nextAutoIncVal with hc | hc
    · simp [hneg, hc]
    · simp [hneg, not_le.mpr hc]
  · have hnr : (if cfg.countsAsPositive value.toNat then value.toNat else 0) = value.toNat := by
      unfold Config.Negative at hneg
      split_ifs with hpos
      · rfl
      · simp only [Config.countsAsPositive, not_or, Bool.not_eq_true] at hpos
        have hlt : ¬ 2 ^ 63 ≤ value.toNat := fun h => hneg ⟨hpos.1, h⟩
        omega
    rw [setAutoIncrementIfHigher, noteInsertError_nextAutoIncVal, hnr]
    simp only [hneg, false_or]
    rcases lt_or_ge value.toNat sh.nextAutoIncVal with hc | hc
    · simp [not_le.mpr hc, hc]
    · simp only [if_pos hc, not_lt.mpr hc, false_or]
      by_cases hsp : cfg.spiderMode = true
      · rw [if_pos hsp, snap_add_step]
        exact snapped_follows_iff hsp hv hc
      · rw [if_neg hsp]
        exact next_follows_iff hsp hv hc

/-- The largest value is written to a column without the mode switch: a counter of 5 becomes 0. -/
theorem counter_wraps : (setAutoIncrementIfHigher ⟨false, true, 1, 1, true, ulonglongMax, by decide, by decide⟩
    ulonglongMax false
    ⟨5, true, false, none⟩).nextAutoIncVal = 0 := by
  decide

end TSpider.AutoInc
