import TSpider.Limit.Order
import TSpider.Limit.Window

/-!
# `DISTINCT`, `SQL_CALC_FOUND_ROWS` and a scan with `LIMIT` and `OFFSET`

`spider_set_direct_limit_offset` accepts a query by a list of exclusions. The options of the select are not in the list, and
the server counts and compares the repeated rows like any others.

* `ScanHandler.accepts` : the test of `spider_set_direct_limit_offset`;
* `endSend`, `endWrite` : what the server does with a row, with and without the temporary table of `DISTINCT` or of the
  `GROUP BY` that replaces it;
* `Options.answer` : the rows that are sent and the value of `FOUND_ROWS()`, for rows that come from a plain scan.
-/

namespace TSpider.Limit
open List

structure ScanHandler where
  /-- `sql_command` is `SQLCOM_SELECT`. -/
  select : Bool
  directAggregate : Bool
  directOrderLimit : Bool
  /-- `prev_index_rnd_init` is `SPD_RND`. -/
  rndInit : Bool
  selectLex : Option SelectLex
  /-- `partition_ht()` of the table is Spider's. -/
  partitionHt : Bool
  /-- Conditions have been pushed down. Those that read no column are not; they are constant or not deterministic. -/
  condition : Bool
  whereSubquery : Bool
  /-- The select is that of the statement and not of a derived table. -/
  mainSelect : Bool

/-- `spider_set_direct_limit_offset` at the first call of a scan. -/
def ScanHandler.accepts (h : ScanHandler) : Bool :=
  match h.selectLex with
  | none => false
  | some lex =>
    h.select && !h.directAggregate && !h.directOrderLimit && h.rndInit && (getSelectLimit (some lex)).1 ≠ 0 &&
      (getSelectLimit (some lex)).2 ≠ 0 && lex.tableList = 1 && h.partitionHt && !h.condition && !h.whereSubquery &&
      lex.groupList = [] && !lex.withSumFunc && !lex.having && lex.orderList = [] && h.mainSelect

/-! ## The server -/

structure Options where
  /-- `select_distinct` at execution: it is dropped if the select list holds a unique key. -/
  distinct : Bool
  /-- `send_group_parts`: the `DISTINCT` has been changed to `GROUP BY`. -/
  grouped : Bool
  foundRows : Bool
  /-- `HA_STATS_RECORDS_IS_EXACT`, and the `stats.records` of the table. -/
  exactRecords : Bool
  statRecords : Nat

/-- The number of rows is taken from the statistics once the limit is reached. -/
def Options.fromStats (o : Options) : Bool := o.exactRecords && !o.grouped

section Server
variable {β σ : Type*}

/-- `end_send`: the rows that are left to discard, `send_records`, `do_send_rows` and the rows that were sent. -/
structure Sender (β : Type*) where
  offsetLimitCnt : Nat
  sendRecords : Nat
  doSendRows : Bool
  sent : List β

def Sender.sendData (row : β) (s : Sender β) : Sender β :=
  if s.offsetLimitCnt = 0 then { s with sent := s.sent ++ [row] } else { s with offsetLimitCnt := s.offsetLimitCnt - 1 }

/-- `end_send`; the first part is on if no more rows are needed. -/
def endSend (o : Options) (selectLimitCnt : Nat) (row : β) (s : Sender β) : Bool × Sender β :=
  let s := if s.doSendRows then s.sendData row else s
  let s := { s with sendRecords := s.sendRecords + 1 }
  if selectLimitCnt ≤ s.sendRecords ∧ s.doSendRows then
    if o.foundRows then
      if o.fromStats then (true, { s with sendRecords := o.statRecords }) else (false, { s with doSendRows := false })
    else (true, s)
  else (false, s)

/-- `end_write`: the rows of the temporary table. With `OPTION_FOUND_ROWS` the table has no limit. -/
def endWrite [DecidableEq β] (o : Options) (selectLimitCnt : Nat) (row : β) (table : List β) : Bool × List β :=
  if row ∈ table then (false, table)
  else (!o.foundRows && selectLimitCnt ≤ table.length + 1, table ++ [row])

def feedRows (step : β → σ → Bool × σ) : List β → σ → σ
  | [], s => s
  | b :: bs, s =>
    match step b s with
    | (true, s) => s
    | (false, s) => feedRows step bs s

def Options.send (o : Options) (q : Limits) (rows : List β) : List β × Nat :=
  let s := feedRows (endSend o (q.offset + q.limit)) rows ⟨q.offset, 0, true, []⟩
  (s.sent, s.sendRecords)

def Options.answer [DecidableEq β] (o : Options) (q : Limits) (rows : List β) : List β × Nat :=
  o.send q (if o.distinct then feedRows (endWrite o (q.offset + q.limit)) rows [] else rows)

/-! ### In closed form -/

def firsts [DecidableEq β] : List β → List β → List β
  | _, [] => []
  | seen, b :: bs => if b ∈ seen then firsts seen bs else b :: firsts (seen ++ [b]) bs

def Options.count (o : Options) (q : Limits) (n : Nat) : Nat :=
  if o.foundRows then if o.fromStats ∧ q.offset + q.limit ≤ n then o.statRecords else n else min (q.offset + q.limit) n

def Options.window (o : Options) (q : Limits) (rows : List β) : List β × Nat :=
  ((rows.drop q.offset).take q.limit, o.count q rows.length)

theorem feedRows_counting (o : Options) (cnt : Nat) (rows : List β) (left n : Nat) (sent : List β) :
    feedRows (endSend o cnt) rows ⟨left, n, false, sent⟩ = ⟨left, n + rows.length, false, sent⟩ := by
  induction rows generalizing n with
  | nil => rfl
  | cons b bs ih =>
    have hstep : endSend o cnt b ⟨left, n, false, sent⟩ = (false, ⟨left, n + 1, false, sent⟩) := by simp [endSend]
    simp only [feedRows, hstep, ih, length_cons]
    congr 1
    omega

section Send
variable (o : Options) {q : Limits}

theorem endSend_more {n : Nat} (hn : n + 1 < q.offset + q.limit) (row : β) (sent : List β) :
    endSend o (q.offset + q.limit) row ⟨q.offset - n, n, true, sent⟩ =
      (false, ⟨q.offset - (n + 1), n + 1, true, if n < q.offset then sent else sent ++ [row]⟩) := by
  by_cases h : n < q.offset
  · simp [endSend, Sender.sendData, h, show q.offset - n ≠ 0 by omega, show ¬ q.offset + q.limit ≤ n + 1 by omega]
    omega
  · simp [endSend, Sender.sendData, h, show q.offset - n = 0 by omega, show ¬ q.offset + q.limit ≤ n + 1 by omega]
    omega

theorem endSend_last {n : Nat} (hm : 0 < q.limit) (hn : n + 1 = q.offset + q.limit) (row : β) (sent : List β) :
    endSend o (q.offset + q.limit) row ⟨q.offset - n, n, true, sent⟩ = if o.foundRows then
        if o.fromStats then (true, ⟨0, o.statRecords, true, sent ++ [row]⟩) else (false, ⟨0, n + 1, false, sent ++ [row]⟩)
      else (true, ⟨0, n + 1, true, sent ++ [row]⟩) := by
  simp [endSend, Sender.sendData, show q.offset - n = 0 by omega, hn]

theorem feedRows_endSend (hm : 0 < q.limit) (rows : List β) {n : Nat} (hn : n < q.offset + q.limit) (sent : List β) :
    (feedRows (endSend o (q.offset + q.limit)) rows ⟨q.offset - n, n, true, sent⟩).sent =
        sent ++ (rows.drop (q.offset - n)).take (q.limit - (n - q.offset)) ∧
      (feedRows (endSend o (q.offset + q.limit)) rows ⟨q.offset - n, n, true, sent⟩).sendRecords =
        o.count q (n + rows.length) := by
  induction rows generalizing n sent with
  | nil =>
    refine ⟨by simp [feedRows], ?_⟩
    simp only [feedRows, length_nil, Nat.add_zero, Options.count]
    split_ifs <;> omega
  | cons b bs ih =>
    rcases Nat.lt_or_ge (n + 1) (q.offset + q.limit) with hmore | hlast
    · obtain ⟨hsent, hcount⟩ := ih hmore (if n < q.offset then sent else sent ++ [b])
      simp only [feedRows, endSend_more o hmore]
      refine ⟨hsent.trans ?_, hcount.trans (by rw [length_cons]; congr 1; omega)⟩
      by_cases h : n < q.offset
      · rw [if_pos h, show q.offset - n = q.offset - (n + 1) + 1 by omega, drop_succ_cons,
          show q.limit - (n + 1 - q.offset) = q.limit - (n - q.offset) by omega]
      · rw [if_neg h, show q.offset - (n + 1) = 0 by omega, show q.offset - n = 0 by omega,
          show q.limit - (n - q.offset) = q.limit - (n + 1 - q.offset) + 1 by omega]
        simp
    · have hlast : n + 1 = q.offset + q.limit := by omega
      have hone : ((b :: bs).drop (q.offset - n)).take (q.limit - (n - q.offset)) = [b] := by
        rw [show q.offset - n = 0 by omega, show q.limit - (n - q.offset) = 1 by omega]
        rfl
      rw [hone]
      simp only [feedRows, endSend_last o hm hlast, Options.count, length_cons]
      cases hfound : o.foundRows with
      | true =>
        cases hexact : o.fromStats with
        | true =>
          simp only [if_true, true_and]
          rw [if_pos (by omega)]
        | false =>
          simp only [if_true, Bool.false_eq_true, if_false, feedRows_counting, false_and, true_and]
          omega
      | false =>
        simp only [Bool.false_eq_true, if_false, true_and]
        omega

theorem send_eq (hm : 0 < q.limit) (rows : List β) : o.send q rows = o.window q rows := by
  obtain ⟨hsent, hcount⟩ := feedRows_endSend o hm rows (n := 0) (by omega) []
  simp only [Options.send, Options.window, Prod.mk.injEq]
  exact ⟨by simpa using hsent, by simpa using hcount⟩

theorem window_take (hfound : o.foundRows = false) (rows : List β) :
    o.window q (rows.take (q.offset + q.limit)) = o.window q rows := by
  have hrows : ((rows.take (q.offset + q.limit)).drop q.offset).take q.limit = (rows.drop q.offset).take q.limit := by
    rw [drop_take, Nat.add_sub_cancel_left, take_take, min_self]
  simp only [Options.window, Options.count, hfound, Bool.false_eq_true, if_false, hrows, length_take]
  rw [← Nat.min_assoc, Nat.min_self]

theorem window_eq_nil_iff (hm : 0 < q.limit) (rows : List β) : o.window q rows = ([], 0) ↔ rows = [] := by
  constructor
  · intro h
    simp only [Options.window, Options.count, Prod.mk.injEq, take_eq_nil_iff, drop_eq_nil_iff] at h
    obtain ⟨hrows, hcount⟩ := h
    split_ifs at hcount
    all_goals exact eq_nil_of_length_eq_zero (by omega)
  · rintro rfl
    have hcnt : ¬ q.offset + q.limit ≤ 0 := by omega
    simp only [Options.window, Options.count, drop_nil, take_nil, length_nil, hcnt, and_false, if_false,
      Nat.min_zero, ite_self]

end Send

section Distinct
variable [DecidableEq β] (o : Options) {q : Limits}

theorem feedRows_endWrite_all (hfound : o.foundRows = true) (cnt : Nat) (rows table : List β) :
    feedRows (endWrite o cnt) rows table = table ++ firsts table rows := by
  induction rows generalizing table with
  | nil => simp [feedRows, firsts]
  | cons b bs ih =>
    by_cases hmem : b ∈ table
    · simp only [feedRows, endWrite, firsts, hmem, if_true, ih table]
    · simp only [feedRows, endWrite, firsts, hmem, if_false, hfound, Bool.not_true, Bool.false_and, ih (table ++ [b])]
      simp

theorem feedRows_endWrite_limit (hfound : o.foundRows = false) {cnt : Nat} (rows table : List β) (hlen : table.length < cnt) :
    feedRows (endWrite o cnt) rows table = table ++ (firsts table rows).take (cnt - table.length) := by
  induction rows generalizing table with
  | nil => simp [feedRows, firsts]
  | cons b bs ih =>
    by_cases hmem : b ∈ table
    · simp only [feedRows, endWrite, firsts, hmem, if_true, ih table hlen]
    · rw [firsts, if_neg hmem, show cnt - table.length = cnt - (table.length + 1) + 1 by omega, take_succ_cons]
      rcases Nat.lt_or_ge (table.length + 1) cnt with hmore | hlast
      · have hstep : endWrite o cnt b table = (false, table ++ [b]) := by
          simp [endWrite, hmem, hfound, show ¬ cnt ≤ table.length + 1 by omega]
        simp only [feedRows, hstep]
        rw [ih (table ++ [b]) (by simpa using hmore)]
        simp
      · have hstep : endWrite o cnt b table = (true, table ++ [b]) := by simp [endWrite, hmem, hfound, hlast]
        simp only [feedRows, hstep]
        rw [show cnt - (table.length + 1) = 0 by omega, take_zero]

/-- **The answer of a plain scan.** -/
theorem answer_eq (hm : 0 < q.limit) (rows : List β) :
    o.answer q rows = o.window q (if o.distinct then firsts [] rows else rows) := by
  unfold Options.answer
  rw [send_eq o hm]
  cases o.distinct with
  | false => rfl
  | true =>
    simp only [if_true]
    cases hfound : o.foundRows with
    | true => rw [feedRows_endWrite_all o hfound, nil_append]
    | false =>
      rw [feedRows_endWrite_limit o hfound rows [] (by simp; omega), nil_append, length_nil, Nat.sub_zero,
        window_take o hfound]

theorem firsts_eq_nil_iff (rows : List β) : firsts [] rows = [] ↔ rows = [] := by
  cases rows with
  | nil => simp [firsts]
  | cons b bs => simp [firsts]

end Distinct

end Server

end TSpider.Limit
