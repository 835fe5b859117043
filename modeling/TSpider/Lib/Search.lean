import Mathlib.Tactic.ByContra
import Mathlib.Tactic.SplitIfs

/-!
# Searching by halves

`bisect p lo hi` is the loop that halves `lo .. hi` and goes to the right where `p` holds. If `p` holds up to some place and
nowhere behind it, the loop finds the first place without it (`bisect_spec`).
-/

namespace TSpider.Lib

def bisectLoop (p : Nat → Bool) : Nat → Nat → Nat → Nat
  | 0, _, hi => hi
  | fuel + 1, lo, hi =>
    if lo < hi then
      if p ((hi + lo) / 2) then bisectLoop p fuel ((hi + lo) / 2 + 1) hi else bisectLoop p fuel lo ((hi + lo) / 2)
    else hi

/-- Each turn makes the section shorter, so its length is enough fuel. -/
def bisect (p : Nat → Bool) (lo hi : Nat) : Nat := bisectLoop p (hi - lo) lo hi

structure Cuts (p : Nat → Bool) (lo hi r : Nat) : Prop where
  ge : lo ≤ r
  le : r ≤ hi
  below : ∀ i, lo ≤ i → i < r → p i = true
  above : ∀ i, r ≤ i → i < hi → p i = false

variable {p : Nat → Bool} {lo hi : Nat}

theorem Cuts.empty : Cuts p lo lo lo :=
  ⟨Nat.le_refl _, Nat.le_refl _, fun i h h' => by omega, fun i h h' => by omega⟩

theorem bisectLoop_cuts (fuel lo hi : Nat) (hmono : ∀ i j, i ≤ j → j < hi → p j = true → p i = true) (hle : lo ≤ hi)
    (hfuel : hi - lo ≤ fuel) : Cuts p lo hi (bisectLoop p fuel lo hi) := by
  induction fuel generalizing lo hi with
  | zero =>
    obtain rfl : lo = hi := by omega
    exact .empty
  | succ fuel ih =>
    rw [bisectLoop]
    split_ifs with hlt hmid
    · obtain ⟨hge, hle', hbelow, habove⟩ := ih ((hi + lo) / 2 + 1) hi hmono (by omega) (by omega)
      refine ⟨by omega, hle', fun i hi' hr => ?_, habove⟩
      by_cases h : i ≤ (hi + lo) / 2
      · exact hmono i _ h (by omega) hmid
      · exact hbelow i (by omega) hr
    · have hleft : ∀ i j, i ≤ j → j < (hi + lo) / 2 → p j = true → p i = true :=
        fun i j hij hj => hmono i j hij (by omega)
      obtain ⟨hge, hle', hbelow, habove⟩ := ih lo _ hleft (by omega) (by omega)
      refine ⟨hge, by omega, hbelow, fun i hr hi' => ?_⟩
      by_cases h : i < (hi + lo) / 2
      · exact habove i hr h
      · exact Bool.eq_false_iff.mpr fun hp => hmid (hmono _ i (by omega) hi' hp)
    · obtain rfl : lo = hi := by omega
      exact .empty

theorem bisect_spec (hmono : ∀ i j, i ≤ j → j < hi → p j = true → p i = true) (hle : lo ≤ hi) :
    Cuts p lo hi (bisect p lo hi) :=
  bisectLoop_cuts _ lo hi hmono hle (Nat.le_refl _)

theorem Cuts.unique {r s : Nat} (hr : Cuts p lo hi r) (hs : Cuts p lo hi s) : r = s := by
  by_contra hne
  rcases Nat.lt_or_gt_of_ne hne with h | h
  · exact Bool.false_ne_true ((hr.above r (Nat.le_refl _) (by have := hs.le; omega)).symm.trans (hs.below r hr.ge h))
  · exact Bool.false_ne_true ((hs.above s (Nat.le_refl _) (by have := hr.le; omega)).symm.trans (hr.below s hs.ge h))

theorem bisect_eq (hmono : ∀ i j, i ≤ j → j < hi → p j = true → p i = true) {r : Nat} (hr : Cuts p lo hi r) :
    bisect p lo hi = r :=
  (bisect_spec hmono (Nat.le_trans hr.ge hr.le)).unique hr

end TSpider.Lib
