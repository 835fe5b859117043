import TSpider.Limit.Scan

/-!
# A scan whose count requests can fail

`ha_spider::records` returns `HA_POS_ERROR` if its request fails, and `rnd_next_internal` reads that number as the `longlong`
-1. The partition is then passed over as if the offset covered it, and the offset is one larger for the partitions behind it.

An error that the request has raised stays in the diagnostics area, and the statement fails with it in the end, unless
`spider_error_read_mode` is on (`check_error_mode`).
-/

namespace TSpider.Limit
open List

variable {α : Type*}

/-- What the request for the record count of a partition gives. -/
inductive Answer where
  | counted
  | failed (raised : Bool)

def haPosError : Nat := 2 ^ 64 - 1

/-- `ha_spider::records`, as `longlong`. -/
def Answer.records : Answer → List α → Int
  | counted, rows => rows.length
  | failed _, _ => longlong haPosError

/-- An error is in the diagnostics area after the request. -/
def Answer.reported (errorMode : Bool) : Answer → Bool
  | counted => false
  | failed raised => raised && !errorMode

/-- The first call of `rnd_next` while counts are asked for: whether an error is reported, `direct_current_offset` and the
partitions left. -/
def skipCounted (errorMode : Bool) (selectLimit : Int) : Bool → Int → List (Answer × List α) → Bool × Int × List (List α)
  | error, offset, [] => (error, offset, [])
  | error, offset, (a, t) :: ts =>
    if selectLimit ≠ 0 ∧ 0 < offset then
      if a.records t ≤ offset then skipCounted errorMode selectLimit (error || a.reported errorMode) (offset - a.records t) ts
      else (error || a.reported errorMode, offset, t :: ts.map Prod.snd)
    else (error, offset, t :: ts.map Prod.snd)

def answered (tables : List (Answer × List α)) : List (Answer × List α) := tables.map fun t => (.counted, t.2)

/-- The answers of the partitions that are passed over. -/
def passed (limit : Int) : Int → List (Answer × List α) → List Answer
  | _, [] => []
  | c, (a, t) :: ts =>
    if limit ≠ 0 ∧ 0 < c then if a.records t ≤ c then a :: passed limit (c - a.records t) ts else [] else []

variable (errorMode : Bool) (limit : Int) {error : Bool} {c : Int} {a : Answer} {t : List α} {tables : List (Answer × List α)}

theorem Answer.eq_counted (hc : 0 < c) (h : c < a.records t) : a = .counted := by
  cases a with
  | counted => rfl
  | failed raised => exact absurd (hc.trans h) (by decide : ¬ 0 < longlong haPosError)

theorem Answer.records_le : a.records t ≤ t.length ∧ (a.records t = t.length ↔ a = .counted) := by
  have hneg : longlong haPosError = -1 := by decide
  cases a with
  | counted => simp [records]
  | failed raised =>
    rw [records, hneg]
    exact ⟨by omega, fun h => by omega, nofun⟩

theorem skipCounted_error : (skipCounted errorMode limit error c tables).1 =
    (error || (passed limit c tables).any (Answer.reported errorMode)) := by
  induction tables generalizing error c with
  | nil => simp [skipCounted, passed]
  | cons t ts ih =>
    rw [skipCounted, passed]
    split_ifs with hasked hpass
    · rw [ih, any_cons, Bool.or_assoc]
    · rw [Answer.eq_counted hasked.2 (not_le.mp hpass)]
      rfl
    · simp

theorem passed_answered (c : Int) (tables : List (Answer × List α)) : ∀ a ∈ passed limit c (answered tables),
    a = .counted := by
  induction tables generalizing c with
  | nil => simp [answered, passed]
  | cons t ts ih =>
    rw [answered, map_cons, ← answered, passed]
    split_ifs
    · exact forall_mem_cons.mpr ⟨rfl, ih _⟩
    · simp
    · simp

theorem skipCounted_answered (h : ∀ a ∈ passed limit c tables, a = .counted) :
    (skipCounted errorMode limit error c tables).2 = (skipCounted errorMode limit error c (answered tables)).2 := by
  induction tables generalizing error c with
  | nil => rfl
  | cons t ts ih =>
    obtain ⟨a, t⟩ := t
    have hrest : (answered ts).map Prod.snd = ts.map Prod.snd := by simp [answered]
    rw [passed] at h
    rw [answered, map_cons, ← answered, skipCounted, skipCounted, hrest]
    split_ifs at h with hasked hpass
    · obtain ⟨rfl, h⟩ := forall_mem_cons.mp h
      simp only [if_pos hasked, if_pos hpass]
      exact ih h
    · obtain rfl := Answer.eq_counted hasked.2 (not_le.mp hpass)
      simp only [if_pos hasked, if_neg hpass]
    · simp only [if_neg hasked]

/-- The offset, less the number of rows that are left. -/
def ahead (r : Int × List (List α)) : Int := r.1 - (r.2.flatten.length : Int)

theorem ahead_skipCounted (error : Bool) (c : Int) (tables : List (Answer × List α)) : ∃ lost, 0 ≤ lost ∧
    (lost = 0 ↔ ∀ a ∈ passed limit c tables, a = .counted) ∧
    ahead (skipCounted errorMode limit error c tables).2 = ahead (c, tables.map Prod.snd) + lost := by
  induction tables generalizing error c with
  | nil => exact ⟨0, le_rfl, by simp [passed], by simp [skipCounted]⟩
  | cons t ts ih =>
    rw [skipCounted, passed]
    split_ifs with hasked hpass
    · obtain ⟨lost, hlost, hzero, hahead⟩ := ih (error || t.1.reported errorMode) (c - t.1.records t.2)
      obtain ⟨hle, heq⟩ := Answer.records_le (a := t.1) (t := t.2)
      refine ⟨t.2.length - t.1.records t.2 + lost, by omega, ?_, ?_⟩
      · rw [forall_mem_cons, ← hzero, ← heq]
        omega
      · rw [hahead]
        simp only [ahead, map_cons, flatten_cons, length_append]
        omega
    · exact ⟨0, le_rfl, by simp, by simp⟩
    · exact ⟨0, le_rfl, by simp, by simp⟩

/-- **A count request that fails loses rows**: the scan reports an error or goes on as it should exactly if every partition
passed over was counted, or one of them raises an error that is not hidden. -/
theorem skipCounted_iff (c : Int) (tables : List (Answer × List α)) :
    ((skipCounted errorMode limit false c tables).1 = true ∨
        (skipCounted errorMode limit false c tables).2 = (skipCounted errorMode limit false c (answered tables)).2) ↔
      (passed limit c tables).any (Answer.reported errorMode) = true ∨ ∀ a ∈ passed limit c tables, a = .counted := by
  rw [skipCounted_error, Bool.false_or]
  refine or_congr Iff.rfl ⟨fun hsame => ?_, skipCounted_answered errorMode limit⟩
  obtain ⟨lost, -, hzero, hahead⟩ := ahead_skipCounted errorMode limit false c tables
  obtain ⟨lost', -, hzero', hahead'⟩ := ahead_skipCounted errorMode limit false c (answered tables)
  have hnone : lost' = 0 := hzero'.mpr (passed_answered limit c tables)
  have hrows : (answered tables).map Prod.snd = tables.map Prod.snd := by simp [answered]
  rw [hsame, hahead', hnone, hrows] at hahead
  exact hzero.mp (by omega)

/-- The count of the first partition fails without an error: `LIMIT 1 OFFSET 1` reads the row 5 instead of the row 2. -/
theorem skipCounted_not_exact :
    skipCounted false 1 false 1 [(.failed false, [1, 2]), (.counted, [3, 4, 5])] = (false, 2, [[3, 4, 5]]) ∧
      skipCounted false 1 false 1 [(.counted, [1, 2]), (.counted, [3, 4, 5])] = (false, 1, [[1, 2], [3, 4, 5]]) := by
  decide

end TSpider.Limit
