import Mathlib.Data.List.Basic
import Mathlib.Data.Nat.Notation
import Mathlib.Tactic.Linarith

/-!
# Integers in byte strings

A record format writes integers of a fixed number of bytes, low byte first, at fixed places. `store`
and `korr` write and read one, `slice` cuts a field out of a record and `patch` overwrites one.
-/

namespace TSpider.Lib

def store : ℕ → ℕ → List UInt8
  | 0, _ => []
  | w + 1, n => UInt8.ofNat n :: store w (n / 256)

def korr : List UInt8 → ℕ
  | [] => 0
  | b :: bs => b.toNat + 256 * korr bs

@[simp] theorem length_store (w n : ℕ) : (store w n).length = w := by
  induction w generalizing n with
  | zero => rfl
  | succ w ih => simp [store, ih]

theorem korr_store (w n : ℕ) : korr (store w n) = n % 256 ^ w := by
  induction w generalizing n with
  | zero => simp [store, korr, Nat.mod_one]
  | succ w ih =>
    have hlow : (UInt8.ofNat n).toNat = n % 256 := rfl
    rw [store, korr, ih, hlow, pow_succ', Nat.mod_mul]

theorem store_inj {w m n : ℕ} (h : store w m = store w n) : m % 256 ^ w = n % 256 ^ w := by
  rw [← korr_store, ← korr_store, h]

def slice (i n : ℕ) (l : List UInt8) : List UInt8 := (l.drop i).take n

theorem slice_append {i n : ℕ} {a b : List UInt8} (ha : a.length = i) (hb : b.length = n)
    (c : List UInt8) : slice i n (a ++ (b ++ c)) = b := by
  subst ha hb
  simp [slice]

def patch (i : ℕ) (bs l : List UInt8) : List UInt8 := l.take i ++ (bs ++ l.drop (i + bs.length))

theorem patch_append {i : ℕ} {a b bs : List UInt8} (ha : a.length = i) (hb : b.length = bs.length)
    (c : List UInt8) : patch i bs (a ++ (b ++ c)) = a ++ (bs ++ c) := by
  subst ha
  simp [patch, ← hb]

@[simp] theorem length_patch {i : ℕ} {bs l : List UInt8} (h : i + bs.length ≤ l.length) :
    (patch i bs l).length = l.length := by
  simp only [patch, List.length_append, List.length_take, List.length_drop]
  omega

theorem slice_patch_self {i : ℕ} {bs l : List UInt8} (h : i ≤ l.length) : slice i bs.length (patch i bs l) = bs := by
  have hi : (l.take i).length = i := List.length_take_of_le h
  exact slice_append hi rfl _

theorem slice_patch_of_le {i n j : ℕ} {bs l : List UInt8} (hij : i + n ≤ j) (hj : j ≤ l.length) :
    slice i n (patch j bs l) = slice i n l := by
  have hi : i ≤ (l.take j).length := by
    rw [List.length_take_of_le hj]
    omega
  rw [slice, patch, List.drop_append_of_le_length hi, List.take_append_of_le_length (by simp; omega), List.drop_take,
    List.take_take, min_eq_left (by omega), slice]

end TSpider.Lib
