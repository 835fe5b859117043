import TSpider.Lib.Bytes

/-!
# Buffers of a fixed size

A buffer is the list of its bytes; its size is the length of the list. `poke` writes bytes and `peek` reads them, both at
an offset, and both are `none` if a byte lies outside. `strmake` writes a C string with its closing NUL.

A program that reads and writes through them is an `Option`; `Runs P` says that it makes no access outside its buffers and
ends with a result that has `P`.
-/

namespace TSpider.Lib
open List

def poke (i : ℕ) (bs l : List UInt8) : Option (List UInt8) :=
  if i + bs.length ≤ l.length then some (patch i bs l) else none

def peek (i n : ℕ) (l : List UInt8) : Option (List UInt8) :=
  if i + n ≤ l.length then some (slice i n l) else none

section Poke
variable {i : ℕ} {bs l : List UInt8}

theorem poke_of_le (h : i + bs.length ≤ l.length) : poke i bs l = some (patch i bs l) := if_pos h

theorem poke_of_lt (h : l.length < i + bs.length) : poke i bs l = none := if_neg (by omega)

end Poke

def Runs {α : Type} (P : α → Prop) (r : Option α) : Prop := ∃ a, r = some a ∧ P a

section Runs
variable {α β : Type} {P : α → Prop}

@[simp] theorem runs_some {a : α} : Runs P (some a) ↔ P a := by simp [Runs]

@[simp] theorem not_runs_none : ¬ Runs P none := by simp [Runs]

theorem runs_peek (i n : ℕ) (l : List UInt8) (f : List UInt8 → Option α) :
    Runs P (peek i n l >>= f) ↔ i + n ≤ l.length ∧ Runs P (f (slice i n l)) := by
  rw [peek]
  split_ifs with h <;> simp [h]

theorem runs_poke (i : ℕ) (bs l : List UInt8) (f : List UInt8 → Option α) :
    Runs P (poke i bs l >>= f) ↔ i + bs.length ≤ l.length ∧ Runs P (f (patch i bs l)) := by
  rw [poke]
  split_ifs with h <;> simp [h]

theorem runs_get (i : ℕ) (l : List UInt8) (f : UInt8 → Option α) :
    Runs P (l[i]? >>= f) ↔ i < l.length ∧ Runs P (f (l.getD i 0)) := by
  by_cases h : i < l.length <;> simp [h]

end Runs

/-- `strmake` of at most `len` bytes of `s` to offset `i`, and the offset of the closing NUL. -/
def strmake (l : List UInt8) (i : ℕ) (s : List UInt8) (len : ℕ) : Option (List UInt8 × ℕ) :=
  (poke i (s.take len ++ [0]) l).map fun l => (l, i + (s.take len).length)

section Strmake
variable {l : List UInt8} {i len : ℕ} {s : List UInt8}

theorem strmake_of_lt (hs : s.length ≤ len) (h : i + s.length < l.length) :
    strmake l i s len = some (patch i (s ++ [0]) l, i + s.length) := by
  rw [strmake, take_of_length_le hs, poke_of_le (by rw [length_append, length_singleton]; omega)]
  rfl

theorem strmake_of_le (hs : s.length ≤ len) (h : l.length ≤ i + s.length) : strmake l i s len = none := by
  rw [strmake, take_of_length_le hs, poke_of_lt (by rw [length_append, length_singleton]; omega)]
  rfl

theorem strmake_starts {a : List UInt8} (ha : a <+: l) (hs : s.length ≤ len) (h : a.length + s.length < l.length) :
    ∃ l', strmake l a.length s len = some (l', a.length + s.length) ∧ l'.length = l.length ∧ a ++ (s ++ [0]) <+: l' := by
  refine ⟨_, strmake_of_lt hs h, length_patch (by rw [length_append, length_singleton]; omega), ?_⟩
  rw [patch, ← prefix_iff_eq_take.mp ha]
  exact (prefix_append_right_inj a).mpr (prefix_append _ _)

end Strmake

theorem append_nul_inj {a b x y : List UInt8} (ha : 0 ∉ a) (hb : 0 ∉ b) : a ++ 0 :: x = b ++ 0 :: y ↔ a = b ∧ x = y := by
  refine ⟨fun h => ?_, fun ⟨h, h'⟩ => by rw [h, h']⟩
  induction a generalizing b with
  | nil =>
    cases b with
    | nil => exact ⟨rfl, (List.cons.inj h).2⟩
    | cons c b => exact absurd (mem_cons.mpr (.inl (List.cons.inj h).1)) hb
  | cons c a ih =>
    cases b with
    | nil => exact absurd (mem_cons.mpr (.inl (List.cons.inj h).1.symm)) ha
    | cons d b =>
      obtain ⟨rfl, htail⟩ := List.cons.inj h
      obtain ⟨rfl, rfl⟩ := ih (fun h => ha (mem_cons_of_mem _ h)) (fun h => hb (mem_cons_of_mem _ h)) htail
      exact ⟨rfl, rfl⟩

end TSpider.Lib
