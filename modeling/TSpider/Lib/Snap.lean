import Mathlib.Tactic
import Mathlib.Data.Nat.ModEq

/-!
# Rounding to a residue class in 64-bit unsigned arithmetic

`snap s m x` is the value of the C expression `(x - m) / s * s + m` over `unsigned long long`: with exact integers it is
the greatest number at most `x` that is congruent to `m` modulo `s`. The subtraction may borrow and the addition may
carry, and then the result is still close to `x` (`snap_le`, `lt_snap_add`) but in general not in the class of `m`;
`snap_modEq` gives the two conditions under which it is.
-/

namespace TSpider.Lib

def wordSize : Nat := 2 ^ 64

/-- `(x - m) / s * s + m` in 64-bit unsigned arithmetic. -/
def snap (s m x : Nat) : Nat := ((x + wordSize - m) % wordSize / s * s + m) % wordSize

variable {s m x : Nat}

theorem snap_lt : snap s m x < wordSize := Nat.mod_lt _ (by decide)

theorem snap_split (hs : 0 < s) :
    ∃ q r, (x + wordSize - m) % wordSize = q + r ∧ r < s ∧ s ∣ q ∧ snap s m x = (q + m) % wordSize := by
  refine ⟨(x + wordSize - m) % wordSize / s * s, (x + wordSize - m) % wordSize % s, ?_, Nat.mod_lt _ hs,
    Nat.dvd_mul_left _ _, rfl⟩
  rw [Nat.mul_comm]
  exact (Nat.div_add_mod _ _).symm

theorem snap_le (hs : 0 < s) (hx : x < wordSize) (hm : m ≤ wordSize) (hsx : s ≤ x + 1) : snap s m x ≤ x := by
  obtain ⟨q, r, hq, hr, -, h⟩ := snap_split (x := x) (m := m) hs
  unfold wordSize at *
  omega

theorem lt_snap_add (hs : 0 < s) (hx : x < wordSize) (hm : m ≤ wordSize) (hsx : s ≤ x + 1) : x < snap s m x + s := by
  obtain ⟨q, r, hq, hr, -, h⟩ := snap_split (x := x) (m := m) hs
  unfold wordSize at *
  omega

theorem snap_modEq (hs : 0 < s) (h : s ∣ wordSize ∨ (m ≤ x ∧ x < wordSize)) : snap s m x ≡ m [MOD s] := by
  obtain ⟨q, r, hq, hr, hdvd, heq⟩ := snap_split hs
  have hqm : q + m ≡ m [MOD s] := by
    simpa using ((Nat.modEq_zero_iff_dvd.mpr hdvd).add_right m)
  rw [heq]
  rcases h with hw | ⟨hmx, hx⟩
  · exact ((Nat.mod_modEq (q + m) wordSize).of_dvd hw).trans hqm
  · rwa [Nat.mod_eq_of_lt]
    unfold wordSize at *
    omega

/-- A result above `x - s` has not wrapped, so it is in the class of `m` even where `x` is past the word size. -/
theorem snap_modEq_of_lt {y : Nat} (hs : 0 < s) (hsw : s ≤ wordSize) (hy : y < wordSize) (hm : m ≤ y + s)
    (h : y < snap s m (y + s)) : snap s m (y + s) ≡ m [MOD s] := by
  obtain ⟨q, r, hq, hr, hdvd, heq⟩ := snap_split (x := y + s) (m := m) hs
  have hqm : q + m ≡ m [MOD s] := by
    simpa using ((Nat.modEq_zero_iff_dvd.mpr hdvd).add_right m)
  have hlt : q + m < wordSize := by
    unfold wordSize at *
    omega
  rw [heq, Nat.mod_eq_of_lt hlt]
  exact hqm

end TSpider.Lib
