import Mathlib.Tactic
import Mathlib.Data.Rat.Floor

/-!
# Aggregate functions that take partial values

`COUNT`, `SUM`, `MIN` and `MAX` as `Item_sum` objects. When the aggregation is pushed down,
`spider_db_fetch_for_item_sum_func` stores a shard's partial value with `direct_add`; `add` (rows in group order), or
`reset_field` and `update_field` (a temporary table), then take it in place of the argument, as the flags `direct_added` or
`direct_counted` and `direct_reseted_field` say.

Values are rational numbers (DECIMAL or integer, without overflow); a `NULL` is `none`.
-/

namespace TSpider.Agg

inductive Fn
  | count | sum | min | max
  deriving DecidableEq, Repr

structure CountItem where
  count : ℤ
  directCounted : Bool
  directResetedField : Bool
  directCount : ℤ

structure SumItem where
  nullValue : Bool
  sum : ℚ
  count : Nat
  directAdded : Bool
  directResetedField : Bool
  directSumIsNull : Bool
  directSum : ℚ

/-- `Item_sum_hybrid`: `value` is the cached minimum or maximum. -/
structure HybridItem where
  nullValue : Bool
  value : ℚ
  directAdded : Bool
  directItem : Option ℚ

/-- An aggregate function of the query; `isMin` is `cmp_sign > 0`. -/
inductive Item
  | count (s : CountItem)
  | sum (s : SumItem)
  | hybrid (isMin : Bool) (s : HybridItem)

open Item

def Item.fn : Item → Fn
  | .count _ => .count
  | .sum _ => .sum
  | .hybrid true _ => .min
  | .hybrid false _ => .max

def Item.val : Item → Option ℚ
  | .count s => some s.count
  | .sum s => if s.nullValue then none else some s.sum
  | .hybrid _ s => if s.nullValue then none else some s.value

/-! ## The member functions -/

/-- `direct_add` as called by `spider_db_fetch_for_item_sum_func` for a shard's column `cell`; `none` is
`ER_SPIDER_UNKNOWN_NUM` for a count that is `NULL`. -/
def Item.fetch (cell : Option ℚ) : Item → Option Item
  | .count s => cell.map fun v =>
    .count { s with directCounted := true, directResetedField := false, directCount := ⌊v⌋ }
  | .sum s => some (.sum { s with
      directAdded := true, directResetedField := false, directSumIsNull := cell.isNone, directSum := cell.getD 0 })
  | .hybrid m s => some (.hybrid m { s with directAdded := true, directItem := cell })

def Item.clear : Item → Item
  | .count s => .count { s with count := 0 }
  | .sum s => .sum { s with nullValue := true, count := 0, sum := 0 }
  | .hybrid m s => .hybrid m { s with nullValue := true }

/-- `Item_sum_count::add`, where `arg` is the argument's value in the current row. -/
def CountItem.add (arg : Option ℚ) (s : CountItem) : CountItem :=
  if s.directCounted then { s with directCounted := false, count := s.count + s.directCount }
  else { s with directResetedField := false, count := if arg.isNone then s.count else s.count + 1 }

def SumItem.add (arg : Option ℚ) (s : SumItem) : SumItem :=
  if s.directAdded then
    if s.directSumIsNull then { s with directAdded := false }
    else { s with directAdded := false, sum := s.directSum + s.sum, nullValue := false }
  else match arg with
    | none => { s with directResetedField := false }
    | some v => { s with directResetedField := false, count := s.count + 1, sum := v + s.sum, nullValue := false }

def replaces (isMin : Bool) (v old : ℚ) : Bool := if isMin then v < old else old < v

def HybridItem.add (isMin : Bool) (arg : Option ℚ) (s : HybridItem) : HybridItem :=
  match if s.directAdded then s.directItem else arg with
  | none => { s with directAdded := false }
  | some v =>
    if s.nullValue || replaces isMin v s.value then { s with directAdded := false, value := v, nullValue := false }
    else { s with directAdded := false }

def Item.add (arg : Option ℚ) : Item → Item
  | .count s => .count (s.add arg)
  | .sum s => .sum (s.add arg)
  | .hybrid m s => .hybrid m (s.add m arg)

/-- `Item_sum_count::reset_field`, which ignores its argument. -/
def CountItem.resetField (_ignoreDirectReset : Bool) (arg : Option ℚ) (s : CountItem) : CountItem × Option ℚ :=
  if s.directCounted then ({ s with directCounted := false, directResetedField := true }, some s.directCount)
  else (s, some (if arg.isNone then 0 else 1))

def SumItem.resetField (ignoreDirectReset : Bool) (arg : Option ℚ) (s : SumItem) : SumItem × Option ℚ :=
  if s.directAdded then
    ({ s with directAdded := ignoreDirectReset, directResetedField := true },
      if s.directSumIsNull then none else some s.directSum)
  else (s, arg)

def HybridItem.resetField (ignoreDirectReset : Bool) (arg : Option ℚ) (s : HybridItem) : HybridItem × Option ℚ :=
  if s.directAdded then ({ s with directAdded := ignoreDirectReset }, s.directItem) else (s, arg)

def Item.resetField (ignoreDirectReset : Bool) (arg : Option ℚ) : Item → Item × Option ℚ
  | .count s => (s.resetField ignoreDirectReset arg).map .count id
  | .sum s => (s.resetField ignoreDirectReset arg).map .sum id
  | .hybrid m s => (s.resetField ignoreDirectReset arg).map (.hybrid m) id

def CountItem.updateField (arg field : Option ℚ) (s : CountItem) : CountItem × Option ℚ :=
  if s.directCounted || s.directResetedField then
    ({ s with directCounted := false, directResetedField := false }, some (field.getD 0 + s.directCount))
  else (s, some (if arg.isNone then field.getD 0 else field.getD 0 + 1))

def sumField (arg field : Option ℚ) : Option ℚ :=
  match arg, field with
  | none, f => f
  | some v, none => some v
  | some v, some f => some (v + f)

def SumItem.updateField (arg field : Option ℚ) (s : SumItem) : SumItem × Option ℚ :=
  if s.directAdded || s.directResetedField then
    ({ s with directAdded := false, directResetedField := false },
      sumField (if s.directSumIsNull then none else some s.directSum) field)
  else (s, sumField arg field)

/-- What `min_max_update_int_field` and `min_max_update_decimal_field` write for the value `arg`. -/
def minMaxField (isMin : Bool) (arg field : Option ℚ) : Option ℚ :=
  match arg, field with
  | none, f => f
  | some v, none => some v
  | some v, some old => some (if isMin ^^ !decide (v < old) then v else old)

def HybridItem.updateField (isMin : Bool) (arg field : Option ℚ) (s : HybridItem) : HybridItem × Option ℚ :=
  ({ s with directAdded := false }, minMaxField isMin (if s.directAdded then s.directItem else arg) field)

def Item.updateField (arg field : Option ℚ) : Item → Item × Option ℚ
  | .count s => (s.updateField arg field).map .count id
  | .sum s => (s.updateField arg field).map .sum id
  | .hybrid m s => (s.updateField m arg field).map (.hybrid m) id

/-! ## What they compute -/

def Fn.unit : Fn → Option ℚ
  | .count => some 0
  | _ => none

def Fn.combine : Fn → Option ℚ → Option ℚ → Option ℚ
  | .count => fun a b => some (a.getD 0 + b.getD 0)
  | .sum => Option.merge (· + ·)
  | .min => Option.merge Min.min
  | .max => Option.merge Max.max

def Fn.Answers (f : Fn) (cell : Option ℚ) : Prop := f = .count → ∃ n : ℤ, cell = some n

/-- A sum that is `NULL` is kept as zero, so that the next value can be added to it. -/
def Item.Zeroed : Item → Prop
  | .sum s => s.nullValue = true → s.sum = 0
  | _ => True

def Item.Fresh (cell : Option ℚ) : Item → Prop
  | .count s => s.directCounted = true ∧ cell = some (s.directCount : ℚ)
  | .sum s => s.directAdded = true ∧ cell = if s.directSumIsNull then none else some s.directSum
  | .hybrid _ s => s.directAdded = true ∧ cell = s.directItem

/-- The partial value `cell` is what `update_field` takes: unused, or written to a record that was not kept. -/
def Item.Held (cell : Option ℚ) : Item → Prop
  | .count s => (s.directCounted || s.directResetedField) = true ∧ cell = some (s.directCount : ℚ)
  | .sum s => (s.directAdded || s.directResetedField) = true ∧ cell = if s.directSumIsNull then none else some s.directSum
  | .hybrid _ s => s.directAdded = true ∧ cell = s.directItem

variable {it it' : Item} {cell arg field : Option ℚ}

theorem Item.Fresh.held (h : it.Fresh cell) : it.Held cell := by
  cases it with
  | count s | sum s => exact ⟨by rw [h.1, Bool.true_or], h.2⟩
  | hybrid m s => exact h

theorem Fn.unit_combine {f : Fn} (h : f.Answers cell) : f.combine f.unit cell = cell := by
  cases f with
  | count =>
    obtain ⟨n, rfl⟩ := h rfl
    simp [Fn.combine, Fn.unit]
  | sum | min | max => simp [Fn.combine, Fn.unit]

theorem Item.fetch_spec (h : it.fn.Answers cell) :
    ∃ it', it.fetch cell = some it' ∧ it'.fn = it.fn ∧ it'.val = it.val ∧ (it'.Zeroed ↔ it.Zeroed) ∧ it'.Fresh cell := by
  cases it with
  | count s =>
    obtain ⟨n, rfl⟩ := h rfl
    exact ⟨_, rfl, rfl, rfl, .rfl, rfl, by simp⟩
  | sum s =>
    refine ⟨_, rfl, rfl, rfl, .rfl, rfl, ?_⟩
    cases cell <;> simp
  | hybrid m s => exact ⟨_, rfl, by cases m <;> rfl, rfl, .rfl, rfl, rfl⟩

@[simp] theorem Item.clear_fn : it.clear.fn = it.fn := by
  cases it with
  | count s => rfl
  | sum s => rfl
  | hybrid m s => cases m <;> rfl

theorem Item.clear_val : it.clear.val = it.fn.unit := by
  cases it with
  | count s => simp [clear, val, fn, Fn.unit]
  | sum s => rfl
  | hybrid m s => cases m <;> rfl

theorem Item.clear_zeroed : it.clear.Zeroed := by
  cases it with
  | sum s => exact fun _ => rfl
  | count s | hybrid m s => trivial

theorem Item.Fresh.clear (h : it.Fresh cell) : it.clear.Fresh cell := by
  cases it <;> exact h

theorem HybridItem.add_val (isMin : Bool) (s : HybridItem) (v : ℚ) (hd : s.directAdded = true)
    (hi : s.directItem = some v) (hv : s.nullValue = false) (arg : Option ℚ) : (s.add isMin arg).nullValue = false ∧
      (s.add isMin arg).value = if isMin then min s.value v else max s.value v := by
  unfold HybridItem.add
  rw [hd, hi, hv]
  cases isMin with
  | true =>
    by_cases hlt : v < s.value
    · simp [replaces, hlt, hlt.le]
    · simp [replaces, hlt, not_lt.mp hlt]
  | false =>
    by_cases hlt : s.value < v
    · simp [replaces, hlt, hlt.le]
    · simp [replaces, hlt, not_lt.mp hlt]

theorem Item.Fresh.add (h : it.Fresh cell) (hz : it.Zeroed) (arg : Option ℚ) :
    (it.add arg).fn = it.fn ∧ (it.add arg).val = it.fn.combine it.val cell ∧ (it.add arg).Zeroed := by
  cases it with
  | count s =>
    obtain ⟨hd, rfl⟩ := h
    refine ⟨rfl, ?_, trivial⟩
    simp [add, CountItem.add, hd, fn, val, Fn.combine]
  | sum s =>
    obtain ⟨hd, rfl⟩ := h
    refine ⟨rfl, ?_, ?_⟩
    · cases hn : s.directSumIsNull <;> cases hv : s.nullValue
      · simp [add, SumItem.add, hd, hn, hv, fn, val, Fn.combine, add_comm]
      · simp [add, SumItem.add, hd, hn, hv, fn, val, Fn.combine, hz hv]
      all_goals simp [add, SumItem.add, hd, hn, hv, fn, val, Fn.combine]
    · cases hn : s.directSumIsNull
      · simp [add, SumItem.add, hd, hn, Zeroed]
      · simpa [add, SumItem.add, hd, hn, Zeroed] using hz
  | hybrid m s =>
    obtain ⟨hd, rfl⟩ := h
    refine ⟨by cases m <;> rfl, ?_, trivial⟩
    cases hi : s.directItem with
    | none => cases m <;> simp [add, HybridItem.add, hd, hi, fn, val, Fn.combine]
    | some v =>
      cases hv : s.nullValue with
      | true => cases m <;> simp [add, HybridItem.add, hd, hi, hv, fn, val, Fn.combine]
      | false =>
        obtain ⟨hnull, hval⟩ := HybridItem.add_val m s v hd hi hv arg
        cases m <;> simp [add, val, fn, Fn.combine, hnull, hval, hv]

theorem Item.Fresh.resetField (h : it.Fresh cell) (ignoreDirectReset : Bool) (arg : Option ℚ) :
    (it.resetField ignoreDirectReset arg).1.fn = it.fn ∧ (it.resetField ignoreDirectReset arg).2 = cell ∧
      (ignoreDirectReset = true → (it.resetField ignoreDirectReset arg).1.Held cell) := by
  cases it with
  | count s =>
    obtain ⟨hd, rfl⟩ := h
    simp [resetField, CountItem.resetField, hd, fn, Held]
  | sum s =>
    obtain ⟨hd, rfl⟩ := h
    simp [resetField, SumItem.resetField, hd, fn, Held]
  | hybrid m s =>
    obtain ⟨hd, rfl⟩ := h
    refine ⟨by cases m <;> simp [resetField, HybridItem.resetField, hd, fn], ?_, ?_⟩
    · simp [resetField, HybridItem.resetField, hd]
    · simp [resetField, HybridItem.resetField, hd, Held]

theorem Item.Held.updateField (h : it.Held cell) (arg field : Option ℚ) :
    (it.updateField arg field).1.fn = it.fn ∧ (it.updateField arg field).2 = it.fn.combine field cell := by
  cases it with
  | count s =>
    obtain ⟨hd, rfl⟩ := h
    simp [updateField, CountItem.updateField, hd, fn, Fn.combine]
  | sum s =>
    obtain ⟨hd, rfl⟩ := h
    cases hn : s.directSumIsNull <;> cases field <;>
      simp [updateField, SumItem.updateField, hd, hn, fn, Fn.combine, sumField, add_comm]
  | hybrid m s =>
    obtain ⟨hd, rfl⟩ := h
    cases hi : s.directItem with
    | none => cases m <;> simp [updateField, HybridItem.updateField, hd, hi, fn, Fn.combine, minMaxField]
    | some v =>
      cases field with
      | none => cases m <;> simp [updateField, HybridItem.updateField, hd, hi, fn, Fn.combine, minMaxField]
      | some old =>
        by_cases hlt : v < old
        · cases m <;> simp [updateField, HybridItem.updateField, hd, hi, fn, Fn.combine, minMaxField, hlt, hlt.le]
        · cases m <;> simp [updateField, HybridItem.updateField, hd, hi, fn, Fn.combine, minMaxField, hlt, not_lt.mp hlt]

end TSpider.Agg
