import TSpider.Lib.TopN
import TSpider.Limit.Scan

/-!
# `ORDER BY .. LIMIT` at the shards

`spider_check_direct_order_limit` decides whether a query with `ORDER BY` and `LIMIT` is sent with both clauses. Every shard
is then asked for `limit + offset` rows, and the server sorts the union of the answers and applies the clause.

The numbers are unsigned in the parser and `longlong` in Spider, and they are compared and added as such. `wrap` is the value
that the processor computes when a sum or a difference leaves the range.
-/

namespace TSpider.Limit

def wrap (n : Int) : Int := (n + 2 ^ 63) % 2 ^ 64 - 2 ^ 63

/-- What `spider_check_direct_order_limit` reads of `st_select_lex`; of an expression, whether `print_item_type` can print
it. -/
structure SelectLex where
  leafTables : Nat
  tableList : Nat
  /-- `SELECT_DISTINCT` and `OPTION_FOUND_ROWS` of `options`. -/
  distinct : Bool
  foundRows : Bool
  groupList : List Bool
  withSumFunc : Bool
  sumFuncs : List Bool
  having : Bool
  orderList : List Bool
  /-- The numbers of the clause if there is one (`explicit_limit`). A missing offset is 0. -/
  limits : Option Limits

def getSelectLimit (lex : Option SelectLex) : Int × Int :=
  match lex.bind SelectLex.limits with
  | some q => (longlong q.limit, longlong q.offset)
  | none => (maxLonglong, 0)

structure OrderHandler where
  /-- `sql_command` is `SQLCOM_HA_READ`. -/
  haRead : Bool
  indexMerge : Bool
  isClone : Bool
  selectLex : Option SelectLex
  /-- `spider_db_append_condition` can print the conditions. -/
  printsCondition : Bool
  /-- `SPIDER_SQL_KIND_HANDLER` is among `sql_kinds`. -/
  kindHandler : Bool

/-- The parameters; `direct_order_limit` is -1 in the session if the table's is to be used. -/
structure OrderParams where
  sessionLimit : Int
  tableLimit : Int
  parallelLimit : Bool
  limitInGroup : Bool
  sessionLimit_mem : -1 ≤ sessionLimit ∧ sessionLimit ≤ maxLonglong
  tableLimit_mem : 0 ≤ tableLimit ∧ tableLimit ≤ maxLonglong

def OrderParams.directOrderLimit (p : OrderParams) : Int := if p.sessionLimit = -1 then p.tableLimit else p.sessionLimit

structure OrderResult where
  directDistinct : Bool
  directAggregate : Bool
  internalLimit : Int
  splitRead : Int
  directOrderLimitCount : Nat

/-- The first part of the check: `first_check`, and the flags of the result list. -/
def OrderHandler.firstCheck (h : OrderHandler) (r : OrderResult) : Bool × OrderResult :=
  match h.selectLex with
  | none => (false, { r with directDistinct := false, directAggregate := false })
  | some lex =>
    let r := { r with directDistinct := lex.distinct || r.directDistinct, directAggregate := true }
    if lex.leafTables ≠ 1 ∨ lex.tableList ≠ 1 then (false, { r with directDistinct := false, directAggregate := false })
    else if h.printsCondition = false then (false, { r with directDistinct := false, directAggregate := false })
    else if h.kindHandler then (true, { r with directDistinct := false, directAggregate := false })
    else if lex.groupList = [] ∧ lex.withSumFunc = false then (true, { r with directAggregate := false })
    else (true, { r with directAggregate := lex.groupList.all id && lex.sumFuncs.all id })

def SelectLex.ownAggregate (lex : SelectLex) (r : OrderResult) : Bool :=
  !r.directAggregate && (lex.groupList ≠ [] || lex.withSumFunc)

def checkDirectOrderLimit (p : OrderParams) (h : OrderHandler) (r : OrderResult) : Bool × OrderResult :=
  if h.haRead || h.indexMerge || h.isClone then (false, r)
  else
    let (selectLimit, offsetLimit) := getSelectLimit h.selectLex
    let (first, r) := h.firstCheck r
    match h.selectLex with
    | none => (false, r)
    | some lex =>
      if p.parallelLimit && (lex.ownAggregate r || lex.distinct) then
        (false, { r with internalLimit := maxLonglong, splitRead := maxLonglong })
      else if p.directOrderLimit = 0 ∨ (lex.distinct ∧ lex.limits.isSome) then (false, r)
      else if first = false ∨ lex.limits = none ∨ lex.foundRows ∨ lex.ownAggregate r ∨ lex.having ∨
          (p.limitInGroup = false ∧ lex.groupList ≠ []) ∨ lex.orderList = [] ∨
          selectLimit > wrap (p.directOrderLimit - offsetLimit) then (false, r)
      else if lex.orderList.all id = false then (false, r)
      else
        (true, { r with
          internalLimit := wrap (selectLimit + offsetLimit)
          splitRead := wrap (selectLimit + offsetLimit)
          directOrderLimitCount := r.directOrderLimitCount + 1 })

/-- `limit_num`, the number in the text that a shard gets. -/
def OrderResult.limitNum (r : OrderResult) : Int := if r.internalLimit ≥ r.splitRead then r.splitRead else r.internalLimit

/-! ## The limit that is sent -/

theorem wrap_of_mem {n : Int} (h : -2 ^ 63 ≤ n) (h' : n < 2 ^ 63) : wrap n = n := by
  unfold wrap
  omega

theorem wrap_of_lt {n : Int} (h : -2 ^ 64 ≤ n) (h' : n < -2 ^ 63) : wrap n = n + 2 ^ 64 := by
  unfold wrap
  omega

theorem wrap_le (n : Int) : wrap n ≤ maxLonglong := by
  unfold wrap maxLonglong
  omega

theorem longlong_of_ge {n : Nat} (h : 2 ^ 63 ≤ n) (h' : n < 2 ^ 64) : longlong n = n - 2 ^ 64 := by
  unfold longlong
  rw [Nat.mod_eq_of_lt h', if_neg (by omega)]

theorem directOrderLimit_mem (p : OrderParams) : 0 ≤ p.directOrderLimit ∧ p.directOrderLimit ≤ maxLonglong := by
  have hsession := p.sessionLimit_mem
  unfold OrderParams.directOrderLimit
  split_ifs
  · exact p.tableLimit_mem
  · exact ⟨by omega, hsession.2⟩

theorem checkDirectOrderLimit_true {p : OrderParams} {h : OrderHandler} {r : OrderResult} {lex : SelectLex} {q : Limits}
    (hlex : h.selectLex = some lex) (hq : lex.limits = some q) (htaken : (checkDirectOrderLimit p h r).1 = true) :
    longlong q.limit ≤ wrap (p.directOrderLimit - longlong q.offset) ∧
      (checkDirectOrderLimit p h r).2.limitNum = wrap (longlong q.limit + longlong q.offset) := by
  have hnum : getSelectLimit (some lex) = (longlong q.limit, longlong q.offset) := by
    simp [getSelectLimit, hq]
  revert htaken
  unfold checkDirectOrderLimit
  rw [hlex]
  simp only [hnum]
  split_ifs with h1 h2 h3 h4 h5
  · nofun
  · nofun
  · nofun
  · nofun
  · nofun
  · intro _
    simp only [not_or, gt_iff_lt, not_lt] at h4
    exact ⟨h4.2.2.2.2.2.2.2, by simp [OrderResult.limitNum]⟩

/-- The sum is big enough: both numbers are below `2 ^ 63`, or the sum of two negative numbers wraps to the greatest
number. -/
def Limits.SumFits (q : Limits) : Prop :=
  (q.limit < 2 ^ 63 ∧ q.offset < 2 ^ 63) ∨
    (2 ^ 63 ≤ q.limit ∧ 2 ^ 63 ≤ q.offset ∧ q.limit + q.offset = 2 ^ 64 + 2 ^ 63 - 1)

instance (q : Limits) : Decidable q.SumFits := inferInstanceAs (Decidable (_ ∨ _))

section Sum
variable {q : Limits} (hl : q.limit < 2 ^ 64) (ho : q.offset < 2 ^ 64) {d : Int} (hd : 0 ≤ d ∧ d ≤ maxLonglong)
  (hle : longlong q.limit ≤ wrap (d - longlong q.offset))
include hl ho hd hle

theorem sum_of_sumFits (hfits : q.SumFits) : wrap (longlong q.limit + longlong q.offset) = maxLonglong ∨
      wrap (longlong q.limit + longlong q.offset) = (q.offset + q.limit : Nat) := by
  unfold maxLonglong at *
  rcases hfits with ⟨hl63, ho63⟩ | ⟨hl63, ho63, hsum⟩
  · rw [longlong_of_lt hl63, longlong_of_lt ho63, wrap_of_mem (by omega) (by omega)] at hle
    rw [longlong_of_lt hl63, longlong_of_lt ho63, wrap_of_mem (by omega) (by omega)]
    omega
  · rw [longlong_of_ge hl63 hl, longlong_of_ge ho63 ho, wrap_of_lt (by omega) (by omega)]
    omega

theorem sum_enough_iff :
    min (q.offset + q.limit : Int) maxLonglong ≤ wrap (longlong q.limit + longlong q.offset) ↔ q.SumFits := by
  constructor
  · unfold maxLonglong
    intro h
    rcases Nat.lt_or_ge q.limit (2 ^ 63) with hl63 | hl63
    · rcases Nat.lt_or_ge q.offset (2 ^ 63) with ho63 | ho63
      · exact .inl ⟨hl63, ho63⟩
      · rw [longlong_of_lt hl63, longlong_of_ge ho63 ho, wrap_of_mem (by omega) (by omega)] at h
        omega
    · rcases Nat.lt_or_ge q.offset (2 ^ 63) with ho63 | ho63
      · rw [longlong_of_ge hl63 hl, longlong_of_lt ho63, wrap_of_mem (by omega) (by omega)] at h
        omega
      · -- two negative numbers: the sum is negative or wraps around
        rw [longlong_of_ge hl63 hl, longlong_of_ge ho63 ho] at h
        rcases lt_or_ge ((q.limit - 2 ^ 64 : Int) + (q.offset - 2 ^ 64)) (-2 ^ 63) with hwrap | hneg
        · rw [wrap_of_lt (by omega) hwrap] at h
          exact .inr ⟨hl63, ho63, by omega⟩
        · rw [wrap_of_mem hneg (by omega)] at h
          omega
  · intro hfits
    rcases sum_of_sumFits hl ho hd hle hfits with hsum | hsum
    · rw [hsum]
      exact min_le_right ..
    · rw [hsum, Nat.cast_add]
      exact min_le_left ..

end Sum

/-! ## The rows of the query -/

section Rows
variable {α κ : Type*} [LinearOrder κ]

/-- Sorting the shards' answers and applying the clause gives rows that the clause may give over all rows, in any order of the
shards. -/
def SameRows (key : α → κ) (q : Limits) (limitNum : Int) : Prop :=
  ∀ tables orders : List (List α), List.Forall₂ (Lib.SortedOf key) tables orders →
    ∃ answers, orders.mapM (selectLimit · 0 limitNum) = some answers ∧
      ∀ u, Lib.SortedOf key answers.flatten u → ∃ full, Lib.SortedOf key tables.flatten full ∧
        (u.drop q.offset).take q.limit = (full.drop q.offset).take q.limit

theorem sameRows_all (key : α → κ) (q : Limits) : SameRows key q maxLonglong := by
  intro tables orders h
  have hall : ∀ orders : List (List α), orders.mapM (selectLimit · 0 maxLonglong) = some orders := by
    intro orders
    induction orders with
    | nil => rfl
    | cons s ss ih =>
      rw [List.mapM_cons, selectLimit_all le_rfl, ih]
      rfl
  have hperm : orders.flatten.Perm tables.flatten := by
    induction h with
    | nil => exact .refl _
    | cons hs _ ih => exact hs.1.append ih
  exact ⟨orders, hall orders, fun u hu => ⟨u, ⟨hu.1.trans hperm, hu.2⟩, rfl⟩⟩

theorem sameRows_of_sum (key : α → κ) (q : Limits) {n : Int} (hn : n = (q.offset + q.limit : Nat)) (hmax : n < maxLonglong) :
    SameRows key q n := by
  intro tables orders h
  refine ⟨orders.map (·.take n.toNat), ?_, fun u hu => ?_⟩
  · clear h
    induction orders with
    | nil => rfl
    | cons s ss ih =>
      rw [List.mapM_cons, selectLimit_eq le_rfl (by omega) (.inr hmax), ih]
      rfl
  · have hcut : List.Forall₂ (Lib.CutTo key n.toNat) tables (orders.map (·.take n.toNat)) := by
      clear hu
      induction h with
      | nil => exact .nil
      | cons hs _ ih => exact .cons ⟨_, hs, rfl⟩ ih
    exact Lib.exists_sortedOf_window (by omega) hcut hu

/-- **Every shard is asked for enough rows**, exactly if both numbers are below `2 ^ 63` or the sum wraps to the greatest
number. -/
theorem orderLimit_enough_iff (key : α → κ) (p : OrderParams) (h : OrderHandler) (r : OrderResult) (lex : SelectLex)
    (q : Limits) (hlex : h.selectLex = some lex) (hq : lex.limits = some q) (hl : q.limit < 2 ^ 64)
    (ho : q.offset < 2 ^ 64) (htaken : (checkDirectOrderLimit p h r).1 = true) :
    (min (q.offset + q.limit : Int) maxLonglong ≤ (checkDirectOrderLimit p h r).2.limitNum ∧
      SameRows key q (checkDirectOrderLimit p h r).2.limitNum) ↔ q.SumFits := by
  obtain ⟨hle, hnum⟩ := checkDirectOrderLimit_true hlex hq htaken
  have hd := directOrderLimit_mem p
  rw [hnum]
  constructor
  · exact fun hprop => (sum_enough_iff hl ho hd hle).mp hprop.1
  · intro hfits
    refine ⟨(sum_enough_iff hl ho hd hle).mpr hfits, ?_⟩
    rcases (wrap_le (longlong q.limit + longlong q.offset)).lt_or_eq with hlt | hmax
    · rcases sum_of_sumFits hl ho hd hle hfits with hsum | hsum
      · exact absurd hsum hlt.ne
      · exact sameRows_of_sum key q hsum hlt
    · rw [hmax]
      exact sameRows_all key q

def OrderParams.default : OrderParams where
  sessionLimit := maxLonglong
  tableLimit := maxLonglong
  parallelLimit := false
  limitInGroup := true
  sessionLimit_mem := by decide
  tableLimit_mem := by decide

def OrderHandler.ofLimits (q : Limits) : OrderHandler where
  haRead := false
  indexMerge := false
  isClone := false
  selectLex := some {
    leafTables := 1, tableList := 1, distinct := false, foundRows := false, groupList := [], withSumFunc := false
    sumFuncs := [], having := false, orderList := [true], limits := some q }
  printsCondition := true
  kindHandler := false

def OrderResult.init : OrderResult where
  directDistinct := false
  directAggregate := false
  internalLimit := maxLonglong
  splitRead := maxLonglong
  directOrderLimitCount := 0

/-- `LIMIT 10 OFFSET 20`. -/
theorem orderLimit_enough_ten :
    min (30 : Int) maxLonglong ≤ (checkDirectOrderLimit .default (.ofLimits ⟨10, 20⟩) .init).2.limitNum ∧
      SameRows (id : Nat → Nat) ⟨10, 20⟩ (checkDirectOrderLimit .default (.ofLimits ⟨10, 20⟩) .init).2.limitNum :=
  (orderLimit_enough_iff id .default (.ofLimits ⟨10, 20⟩) .init _ ⟨10, 20⟩ rfl rfl (by decide) (by decide) (by decide)).mpr
    (by decide)

/-- `LIMIT 18446744073709551615 OFFSET 1`, all rows but the first: the sum is 0, and the query has no rows. -/
theorem not_orderLimit_enough : (checkDirectOrderLimit .default (.ofLimits ⟨18446744073709551615, 1⟩) .init).1 = true ∧
    (checkDirectOrderLimit .default (.ofLimits ⟨18446744073709551615, 1⟩) .init).2.limitNum = 0 ∧
    selectLimit [1, 2, 3] 0 (checkDirectOrderLimit .default (.ofLimits ⟨18446744073709551615, 1⟩) .init).2.limitNum =
      some [] ∧
    ([1, 2, 3].drop 1).take 18446744073709551615 = [2, 3] := by
  refine ⟨by decide, by decide, by decide, by decide⟩

end Rows

end TSpider.Limit
