import Mathlib.Tactic.NormNum

/-!
# `LIMIT` clauses

The numbers of a `LIMIT` clause are unsigned in the parser and `longlong` in Spider. `appendLimit` is the text that Spider
sends (`spider_mysql_handler::append_limit`), `LimitText.select` what a shard answers to it: a negative number is a syntax
error.
-/

namespace TSpider.Limit

/-- `Item::val_int` of an unsigned number. -/
def longlong (n : Nat) : Int := if n % 2 ^ 64 < 2 ^ 63 then (n % 2 ^ 64 : Nat) else (n % 2 ^ 64 : Nat) - 2 ^ 64

def maxLonglong : Int := 9223372036854775807

theorem longlong_of_lt {n : Nat} (h : n < 2 ^ 63) : longlong n = n := by
  unfold longlong
  rw [Nat.mod_eq_of_lt (h.trans (by norm_num)), if_pos h]

theorem longlong_neg {n : Nat} (h : 2 ^ 63 ≤ n) (h' : n < 2 ^ 64) : longlong n < 0 := by
  unfold longlong
  omega

inductive LimitText where
  | none
  | limit (offset : Option Int) (count : Int)
  deriving DecidableEq

def appendLimit (offset limit : Int) : LimitText :=
  if offset ≠ 0 ∨ limit < maxLonglong then .limit (if offset ≠ 0 then some offset else Option.none) limit else .none

section Select
variable {α : Type*}

def LimitText.select (rows : List α) : LimitText → Option (List α)
  | .none => some rows
  | .limit Option.none count => if 0 ≤ count then some (rows.take count.toNat) else Option.none
  | .limit (some offset) count =>
    if 0 ≤ offset ∧ 0 ≤ count then some ((rows.drop offset.toNat).take count.toNat) else Option.none

def selectLimit (rows : List α) (offset limit : Int) : Option (List α) := (appendLimit offset limit).select rows

variable {rows : List α} {offset limit : Int}

theorem selectLimit_all (h : maxLonglong ≤ limit) : selectLimit rows 0 limit = some rows := by
  simp [selectLimit, appendLimit, LimitText.select, not_lt.mpr h]

theorem selectLimit_eq (hoffset : 0 ≤ offset) (hlimit : 0 ≤ limit) (h : offset ≠ 0 ∨ limit < maxLonglong) :
    selectLimit rows offset limit = some ((rows.drop offset.toNat).take limit.toNat) := by
  unfold selectLimit appendLimit
  rw [if_pos h]
  by_cases h0 : offset = 0
  · subst h0
    rw [if_neg (by simp), LimitText.select, if_pos hlimit]
    simp
  · rw [if_pos h0, LimitText.select, if_pos ⟨hoffset, hlimit⟩]

theorem selectLimit_neg (h : offset < 0 ∨ limit < 0) : selectLimit rows offset limit = none := by
  unfold selectLimit appendLimit
  have hmax : offset ≠ 0 ∨ limit < maxLonglong := by
    rcases h with h | h
    · exact .inl h.ne
    · exact .inr (h.trans (by decide))
  rw [if_pos hmax]
  by_cases h0 : offset = 0
  · subst h0
    rw [if_neg (by simp), LimitText.select, if_neg (by omega)]
  · rw [if_pos h0, LimitText.select, if_neg (by omega)]

theorem mem_of_selectLimit {res : List α} (h : selectLimit rows offset limit = some res) :
    0 ≤ offset ∧ ∀ a ∈ res, a ∈ rows.drop offset.toNat := by
  by_cases hneg : offset < 0 ∨ limit < 0
  · rw [selectLimit_neg hneg] at h
    cases h
  push Not at hneg
  refine ⟨hneg.1, fun a ha => ?_⟩
  by_cases hall : offset ≠ 0 ∨ limit < maxLonglong
  · rw [selectLimit_eq hneg.1 hneg.2 hall, Option.some.injEq] at h
    subst h
    exact List.mem_of_mem_take ha
  · unfold selectLimit appendLimit at h
    rw [if_neg hall] at h
    obtain rfl : rows = res := Option.some.inj h
    push Not at hall
    rw [hall.1]
    exact ha

theorem take_of_selectLimit {res : List α} (h : selectLimit rows offset limit = some res) :
    res.take limit.toNat = (rows.drop offset.toNat).take limit.toNat := by
  by_cases hneg : offset < 0 ∨ limit < 0
  · rw [selectLimit_neg hneg] at h
    cases h
  push Not at hneg
  by_cases hall : offset ≠ 0 ∨ limit < maxLonglong
  · rw [selectLimit_eq hneg.1 hneg.2 hall, Option.some.injEq] at h
    rw [← h, List.take_take, min_self]
  · unfold selectLimit appendLimit at h
    rw [if_neg hall] at h
    obtain rfl : rows = res := Option.some.inj h
    push Not at hall
    rw [hall.1]
    rfl

end Select

end TSpider.Limit
