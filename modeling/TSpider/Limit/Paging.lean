import TSpider.Limit.Pushdown

/-!
# When `LIMIT` and `OFFSET` of a pushed down query are exact

* `ResultList.rest` : the rows that the handler still reads; `pushedRows` : all rows that are read, in pages or at once;
* `Send.all` : what the server sends of the rows it is handed;
* `execute_exact_iff` : when the answer is the one that was asked for.
-/

namespace TSpider.Limit
open ResultList List

variable {α : Type*} {w : List α} {g : GroupBy α}

section Read
variable (hw : (w.length : Int) < maxLonglong)
include hw

theorem selectLimit_short {c l : Int} (hc : 0 ≤ c) (hl : 0 ≤ l) : selectLimit w c l =
    some ((w.drop c.toNat).take l.toNat) := by
  by_cases h : c ≠ 0 ∨ l < maxLonglong
  · exact selectLimit_eq hc hl h
  · push Not at h
    obtain ⟨rfl, hall⟩ := h
    rw [selectLimit_all hall, Int.toNat_zero, drop_zero, take_of_length_le (by omega)]

/-! ## The rows that are read -/

def ResultList.rest (w : List α) (r : ResultList α) : List α :=
  r.page ++ if r.finish then [] else w.drop r.recordNum.toNat

structure ResultList.Paging (w : List α) (r : ResultList α) : Prop where
  internalLimit : r.internalLimit = maxLonglong
  recordNum_nonneg : 0 ≤ r.recordNum
  recordNum_le : r.recordNum ≤ w.length
  splitReadBase : 0 < r.splitReadBase

theorem ResultList.Paging.storeResult {r : ResultList α} (hr : r.Paging w) (hsplit : 0 < r.splitRead) :
    ∃ res, selectLimit w r.recordNum r.limitNum = some res ∧ (r.storeResult res).rest w = w.drop r.recordNum.toNat ∧
      (r.storeResult res).Paging w := by
  obtain ⟨hinternal, hnonneg, hle, hbase⟩ := hr
  have hlimit : 0 < r.limitNum ∧ r.limitNum ≤ r.splitRead ∧
      (r.limitNum < r.splitRead → (w.length : Int) ≤ r.recordNum + r.limitNum) := by
    unfold ResultList.limitNum
    split <;> omega
  obtain ⟨hpos, hlesplit, hlast⟩ := hlimit
  refine ⟨_, selectLimit_short hw hnonneg hpos.le, ?_, ?_⟩
  · have hlen : ((w.drop r.recordNum.toNat).take r.limitNum.toNat).length =
        min r.limitNum.toNat (w.length - r.recordNum.toNat) := by simp
    simp only [ResultList.rest, ResultList.storeResult, decide_eq_true_eq, hlen]
    split
    · -- the last page is not full
      rw [append_nil, take_of_length_le]
      rw [length_drop]
      omega
    · -- a full page
      have hfull : (r.recordNum + (min r.limitNum.toNat (w.length - r.recordNum.toNat) : Nat)).toNat =
          r.recordNum.toNat + r.limitNum.toNat := by omega
      rw [hfull, ← drop_drop, take_append_drop]
  · refine ⟨hinternal, ?_, ?_, hbase⟩
    · simp only [ResultList.storeResult]
      omega
    · simp only [ResultList.storeResult, length_take, length_drop]
      omega

/-- **One call of `spider_db_seek_next`** takes the first of the rows that are left. -/
theorem seekNext_spec {r : ResultList α} (hr : r.finish = false → r.Paging w) (buf : α) :
    (r.rest w = [] ∧ ∃ r', r.seekNext w buf = (.eof, r', buf)) ∨
    ∃ a r', r.rest w = a :: r'.rest w ∧ r.seekNext w buf = (.ok, r', a) ∧ (r'.finish = false → r'.Paging w) := by
  unfold seekNext
  cases hpage : r.page with
  | cons a as =>
    exact .inr ⟨a, { r with page := as }, by simp [rest, hpage], rfl, fun hf => { hr hf with }⟩
  | nil =>
    cases hfinish : r.finish with
    | true => exact .inl ⟨by simp [rest, hpage, hfinish], r, rfl⟩
    | false =>
      have hrest : r.rest w = w.drop r.recordNum.toNat := by simp [rest, hpage, hfinish]
      have hnext : r.nextSplitReadParam.Paging w := { hr hfinish with }
      have hsplit : 0 < r.nextSplitReadParam.splitRead := by
        simp only [nextSplitReadParam]
        split
        · omega
        · exact (hr hfinish).splitReadBase
      obtain ⟨res, hres, hstored, hpaging⟩ := hnext.storeResult hw hsplit
      simp only [Bool.false_eq_true, if_false, hres]
      cases res with
      | nil =>
        left
        refine ⟨?_, _, rfl⟩
        -- an empty page is not full, so nothing follows it
        have hfin : (r.nextSplitReadParam.storeResult []).finish = true := by
          simp only [storeResult, length_nil, decide_eq_true_eq]
          exact .inr (by simpa using hsplit)
        rw [hrest, show r.recordNum = r.nextSplitReadParam.recordNum from rfl, ← hstored, rest, hfin]
        rfl
      | cons a as =>
        right
        refine ⟨a, { r.nextSplitReadParam.storeResult (a :: as) with page := as }, ?_, rfl, fun _ => { hpaging with }⟩
        rw [hrest, show r.recordNum = r.nextSplitReadParam.recordNum from rfl, ← hstored]
        rfl

end Read

/-- The rows read if the clause is not sent: the first page starts at the offset, those after it at its size. -/
def pushedRows (w : List α) (offset splitRead : Nat) : List α :=
  if w.length < offset + splitRead then w.drop offset else (w.drop offset).take splitRead ++ w.drop splitRead

def ReadParams.readRows (p : ReadParams) (q : Limits) (foundRows : Bool) (w : List α) : List α :=
  if p.IsDirect q foundRows then (w.drop q.offset).take q.limit else pushedRows w q.offset p.splitRead

theorem length_readRows_le (p : ReadParams) (q : Limits) (foundRows : Bool) (w : List α) :
    (p.readRows q foundRows w).length ≤ w.length := by
  unfold ReadParams.readRows pushedRows
  split
  · simp
  · split
    · simp
    · simp only [length_append, length_take, length_drop]
      omega

def ResultList.firstPage (p : ReadParams) (q : Limits) (foundRows : Bool) (w : List α) : ResultList α :=
  let r := init p q foundRows
  r.storeResult ((w.drop q.offset).take r.limitNum.toNat)

section FirstPage
variable {p : ReadParams} {q : Limits} {foundRows : Bool}

theorem firstPage_direct (h : p.IsDirect q foundRows) (hm : q.limit < 2 ^ 63) (w : List α) :
    (firstPage p q foundRows w).page = p.readRows q foundRows w ∧ (firstPage p q foundRows w).finish = true := by
  have hlimit : (init p q foundRows : ResultList α).limitNum = q.limit := by
    simp [limitNum, init, h, longlong_of_lt hm]
  simp only [firstPage, hlimit, Int.toNat_natCast]
  constructor
  · simp [storeResult, ReadParams.readRows, h]
  · simp only [storeResult, init, h, if_true, longlong_of_lt hm, decide_eq_true_eq]
    omega

variable (hw : (w.length : Int) < maxLonglong)
include hw

theorem firstPage_paged (h : ¬ p.IsDirect q foundRows) : (firstPage p q foundRows w).page =
    (w.drop q.offset).take p.splitRead ∧
      ((firstPage p q foundRows w).finish = true ↔ w.length < q.offset + p.splitRead) ∧
      (firstPage p q foundRows w).recordNum = min p.splitRead (w.length - q.offset) := by
  have hsplit := p.splitRead_pos
  have htake : (w.drop q.offset).take (init p q foundRows : ResultList α).limitNum.toNat =
      (w.drop q.offset).take p.splitRead := by
    simp only [limitNum, init, h, if_false, sub_zero]
    split
    · rw [Int.toNat_natCast]
    · rw [take_of_length_le, take_of_length_le] <;> simp only [length_drop] <;> omega
  simp only [firstPage, htake]
  refine ⟨rfl, ?_, by simp [storeResult, init]⟩
  simp only [storeResult, init, h, if_false, decide_eq_true_eq, length_take, length_drop]
  omega

variable (hm : p.IsDirect q foundRows → q.limit < 2 ^ 63)
include hm

theorem firstPage_rest : (firstPage p q foundRows w).rest w = p.readRows q foundRows w := by
  by_cases h : p.IsDirect q foundRows
  · obtain ⟨hpage, hfinish⟩ := firstPage_direct h (hm h) w
    rw [rest, hpage, hfinish, if_pos rfl, append_nil]
  · obtain ⟨hpage, hfinish, hrecord⟩ := firstPage_paged hw h
    rw [rest, ReadParams.readRows, if_neg h, pushedRows, hpage]
    simp only [hfinish]
    split
    · rw [append_nil, take_of_length_le]
      rw [length_drop]
      omega
    · congr 2
      omega

theorem firstPage_paging (hmore : (firstPage p q foundRows w).finish = false) : (firstPage p q foundRows w).Paging w := by
  by_cases h : p.IsDirect q foundRows
  · rw [(firstPage_direct h (hm h) w).2] at hmore
    cases hmore
  · obtain ⟨-, -, hrecord⟩ := firstPage_paged hw h
    have hbase := p.splitReadBase_pos
    refine ⟨by simp [firstPage, storeResult, init, h], ?_, ?_, by simpa [firstPage, storeResult, init, h] using hbase⟩
    · omega
    · omega

theorem readRows_of_empty (hempty : (firstPage p q foundRows w).page = []) : p.readRows q foundRows w = [] := by
  by_cases h : p.IsDirect q foundRows
  · rw [← (firstPage_direct h (hm h) w).1, hempty]
  · obtain ⟨hpage, -, -⟩ := firstPage_paged hw h
    have hsplit := p.splitRead_pos
    rw [hempty, eq_comm, take_eq_nil_iff, drop_eq_nil_iff] at hpage
    have hle : w.length ≤ q.offset := by omega
    rw [ReadParams.readRows, if_neg h, pushedRows, if_pos (by omega), drop_eq_nil_of_le hle]

theorem initScan_eq (hn : q.offset < 2 ^ 63) (buf : α) :
    GroupBy.initScan p q foundRows w buf = some
      { list := .firstPage p q foundRows w, first := true,
        storeError := (firstPage p q foundRows w).page.isEmpty, offsetLimit := q.offset, buf } := by
  have hlimit : (0 : Int) ≤ (init p q foundRows : ResultList α).limitNum := by
    by_cases h : p.IsDirect q foundRows
    · simp [limitNum, init, h, longlong_of_lt (hm h)]
    · simp only [limitNum, init, h, if_false]
      split <;> omega
  simp only [GroupBy.initScan, longlong_of_lt hn, selectLimit_short hw (Int.natCast_nonneg _) hlimit, Int.toNat_natCast]
  rfl

end FirstPage

/-! ## The rows that are handed to the server -/

def GroupBy.Yields (w : List α) : GroupBy α → List α → Prop
  | g, [] => ∃ g', g.nextRow w = (.eof, g')
  | g, a :: as => ∃ g', g.nextRow w = (.ok, g') ∧ g'.buf = a ∧ g'.Yields w as

theorem nextRow_later (herror : g.storeError = false) (hfirst : g.first = false) (hn : g.offsetLimit = 0) :
    g.nextRow w = { g with first := false, list := g.list }.seekNext w := by
  rw [GroupBy.nextRow, if_neg (by simp [herror]), if_neg (by simp [hfirst]), if_neg (by simp [hn]), ← hfirst]

def repeated (n : Nat) : List α → List α
  | [] => []
  | a :: as => a :: (List.replicate n a ++ as)

theorem drop_repeated (n : Nat) (rows : List α) : (repeated n rows).drop n = rows := by
  cases rows with
  | nil => simp [repeated]
  | cons a as =>
    have hrep : a :: (List.replicate n a ++ as) = List.replicate n a ++ (a :: as) := by
      rw [← cons_append, ← replicate_succ, replicate_succ', append_assoc]
      rfl
    simp [repeated, hrep]

theorem length_repeated_le (n : Nat) (rows : List α) : (repeated n rows).length ≤ n + rows.length := by
  cases rows with
  | nil => simp [repeated]
  | cons a as => simp [repeated, Nat.add_assoc]

section Yields
variable (hw : (w.length : Int) < maxLonglong)
include hw

theorem nextRow_seek {list : ResultList α}
    (hnext : g.nextRow w = { g with first := false, list := list }.seekNext w)
    (hlist : list.finish = false → list.Paging w) :
    (list.rest w = [] ∧ ∃ g', g.nextRow w = (.eof, g')) ∨
    ∃ a list', list.rest w = a :: list'.rest w ∧ (list'.finish = false → list'.Paging w) ∧
      g.nextRow w = (.ok, { g with first := false, list := list', buf := a }) := by
  rcases seekNext_spec hw hlist g.buf with ⟨hnil, r', hr'⟩ | ⟨a, r', hrest, hr', hpaging⟩
  · exact .inl ⟨hnil, _, by rw [hnext, GroupBy.seekNext, hr']⟩
  · exact .inr ⟨a, r', hrest, hpaging, by rw [hnext, GroupBy.seekNext, hr']⟩

theorem yields_rest (herror : g.storeError = false) (hfirst : g.first = false)
    (hlist : g.list.finish = false → g.list.Paging w) {n : Nat} (hn : g.offsetLimit = n) :
    g.Yields w (List.replicate n g.buf ++ g.list.rest w) := by
  induction n generalizing g with
  | succ n ih =>
    refine ⟨{ g with offsetLimit := g.offsetLimit - 1 }, ?_, rfl, ?_⟩
    · rw [GroupBy.nextRow, if_neg (by simp [herror]), if_neg (by simp [hfirst]), if_pos (by omega)]
    · exact ih herror hfirst hlist (by simp only [hn]; omega)
  | zero =>
    generalize hrows : g.list.rest w = rows
    induction rows generalizing g with
    | nil =>
      rcases nextRow_seek hw (nextRow_later herror hfirst hn) hlist with ⟨-, heof⟩ | ⟨a, list', hrest, -, -⟩
      · exact heof
      · rw [hrows] at hrest
        cases hrest
    | cons a as ih =>
      rcases nextRow_seek hw (nextRow_later herror hfirst hn) hlist with ⟨hnil, -⟩ | ⟨b, list', hrest, hpaging, hok⟩
      · rw [hrows] at hnil
        cases hnil
      · rw [hrows] at hrest
        obtain ⟨rfl, rfl⟩ := List.cons.inj hrest
        exact ⟨_, hok, rfl, ih herror rfl hpaging hn rfl⟩

/-- **The rows that the server is handed.** -/
theorem yields_repeated (hfirst : g.first = true) (herror : g.storeError = true → g.list.rest w = [])
    (hlist : g.list.finish = false → g.list.Paging w) {n : Nat} (hn : g.offsetLimit = n) :
    g.Yields w (repeated n (g.list.rest w)) := by
  cases hstored : g.storeError with
  | true =>
    rw [herror hstored]
    exact ⟨g, by rw [GroupBy.nextRow, if_pos hstored]⟩
  | false =>
    have hnext : g.nextRow w = { g with first := false, list := g.list }.seekNext w := by
      rw [GroupBy.nextRow, if_neg (by simp [hstored]), if_pos hfirst]
    rcases nextRow_seek hw hnext hlist with ⟨hnil, heof⟩ | ⟨a, list', hrest, hpaging, hok⟩
    · rw [hnil]
      exact heof
    · rw [hrest]
      exact ⟨_, hok, rfl, yields_rest hw (g := { g with first := false, list := list', buf := a }) hstored rfl hpaging hn⟩

end Yields

/-! ## The rows that the server sends -/

def Send.all (maxLimit : Nat) (foundRows : Bool) : List α → Send α → Send α
  | [], s => s
  | a :: as, s =>
    match s.row maxLimit foundRows a with
    | (true, s) => s
    | (false, s) => s.all maxLimit foundRows as

theorem executeLoop_of_yields {maxLimit : Nat} {foundRows : Bool} {rows : List α}
    (h : g.Yields w rows) {k : Nat} (hk : rows.length < k) (s : Send α) :
    executeLoop w maxLimit foundRows k g s = some (s.all maxLimit foundRows rows) := by
  induction rows generalizing g s k with
  | nil =>
    obtain ⟨k, rfl⟩ : ∃ j, k = j + 1 := ⟨k - 1, by omega⟩
    obtain ⟨g', hg'⟩ := h
    simp only [executeLoop, hg', Send.all]
  | cons a as ih =>
    obtain ⟨k, rfl⟩ : ∃ j, k = j + 1 := ⟨k - 1, by omega⟩
    obtain ⟨g', hg', rfl, hrest⟩ := h
    have hk' : as.length < k := by simpa using hk
    simp only [executeLoop, hg', Send.all]
    cases s.row maxLimit foundRows g'.buf with
    | mk stop s' =>
      cases stop with
      | true => rfl
      | false => exact ih hrest hk' s'

section All
variable {maxLimit : Nat} {foundRows : Bool}

theorem Send.all_off (rows : List α) {s : Send α} (hs : s.doSendRows = false) :
    (s.all maxLimit foundRows rows).sent = s.sent := by
  induction rows generalizing s with
  | nil => rfl
  | cons a as ih =>
    have hrow : s.row maxLimit foundRows a = (false, { s with sendRecords := s.sendRecords + 1 }) := by
      simp [Send.row, Send.limit, hs]
    simp only [Send.all, hrow]
    exact ih hs

/-- **The rows that are sent**: the server discards `offsetLimitCnt` rows and counts them. -/
theorem Send.all_sent (rows : List α) {s : Send α} (hs : s.doSendRows = true) (hmax : s.sendRecords < maxLimit) :
    (s.all maxLimit foundRows rows).sent =
      s.sent ++ (rows.drop s.offsetLimitCnt).take (maxLimit - s.sendRecords - s.offsetLimitCnt) := by
  induction rows generalizing s with
  | nil => simp [Send.all]
  | cons a as ih =>
    -- the counters after the row, before the limit is looked at
    obtain ⟨t, ht, hsent⟩ : ∃ t : Send α, (s.row maxLimit foundRows a =
        if t.sendRecords ≥ maxLimit then (if foundRows then (false, { t with doSendRows := false }) else (true, t))
        else (false, t)) ∧ t.doSendRows = true ∧ t.sendRecords = s.sendRecords + 1 ∧
        t.offsetLimitCnt = s.offsetLimitCnt - 1 ∧ t.sent = if s.offsetLimitCnt ≠ 0 then s.sent else s.sent ++ [a] := by
      by_cases hoff : s.offsetLimitCnt = 0
      · exact ⟨{ s with sent := s.sent ++ [a], sendRecords := s.sendRecords + 1 },
          by simp [Send.row, Send.limit, hs, hoff], hs, rfl, by simp [hoff], by simp [hoff]⟩
      · exact ⟨{ s with offsetLimitCnt := s.offsetLimitCnt - 1, sendRecords := s.sendRecords + 1 },
          by simp [Send.row, Send.limit, hs, hoff], hs, rfl, rfl, by simp [hoff]⟩
    obtain ⟨hsend, hrecords, hcnt, hsent⟩ := hsent
    simp only [Send.all, ht]
    -- what is left of the budget after the row
    have hsplit : s.sent ++ ((a :: as).drop s.offsetLimitCnt).take (maxLimit - s.sendRecords - s.offsetLimitCnt) =
        t.sent ++ (as.drop t.offsetLimitCnt).take (maxLimit - t.sendRecords - t.offsetLimitCnt) := by
      rw [hsent, hcnt, hrecords]
      by_cases hoff : s.offsetLimitCnt = 0
      · obtain ⟨j, hj⟩ : ∃ j, maxLimit - s.sendRecords = j + 1 := ⟨maxLimit - s.sendRecords - 1, by omega⟩
        have hj' : maxLimit - (s.sendRecords + 1) = j := by omega
        simp [hoff, hj, hj']
      · obtain ⟨j, hj⟩ : ∃ j, s.offsetLimitCnt = j + 1 := ⟨s.offsetLimitCnt - 1, by omega⟩
        have hbudget : maxLimit - s.sendRecords - (j + 1) = maxLimit - (s.sendRecords + 1) - j := by omega
        simp [hj, hbudget]
    rw [hsplit]
    by_cases hlimit : t.sendRecords ≥ maxLimit
    · have hzero : maxLimit - t.sendRecords - t.offsetLimitCnt = 0 := by omega
      rw [if_pos hlimit, hzero, take_zero, append_nil]
      cases foundRows with
      | true => exact Send.all_off as rfl
      | false => rfl
    · rw [if_neg hlimit]
      exact ih hsend (not_le.mp hlimit)

end All

/-! ## The answer of the statement -/

section Execute
variable {p : ReadParams} {q : Limits} {foundRows : Bool}

theorem selectLimitCnt_eq_zero (hn : q.offset < 2 ^ 64) (hm : q.limit < 2 ^ 64) :
    selectLimitCnt q = 0 ↔ q.limit = 0 ∧ q.offset = 0 := by
  unfold selectLimitCnt
  split <;> omega

theorem take_selectLimitCnt (hn : q.offset < 2 ^ 63) (hm : q.limit < 2 ^ 64) {rows : List α}
    (hrows : (rows.length : Int) < maxLonglong) : rows.take (selectLimitCnt q - q.offset) = rows.take q.limit := by
  have hmax : maxLonglong = 2 ^ 63 - 1 := by decide
  by_cases hsum : q.limit + q.offset < 2 ^ 64
  · have hcnt : selectLimitCnt q - q.offset = q.limit := by
      rw [selectLimitCnt, Nat.mod_eq_of_lt hsum, if_pos (by omega)]
      omega
    rw [hcnt]
  · have hcnt : selectLimitCnt q = 2 ^ 64 - 1 := by
      rw [selectLimitCnt, if_neg (by omega)]
    rw [hcnt, take_of_length_le (by omega), take_of_length_le (by omega)]

/-- **The answer of the statement**, if the shard accepts the query: the first rows read; `FOUND_ROWS()` stays as it was. -/
theorem execute_eq (w : ResultSet α) (hn : q.offset < 2 ^ 63) (hm : p.IsDirect q foundRows → q.limit < 2 ^ 63)
    (hm' : q.limit < 2 ^ 64) (buf : α) (limitFoundRows : Nat) :
    ∃ found, execute p q foundRows w buf limitFoundRows = some ((p.readRows q foundRows w.rows).take q.limit, found) ∧
      (foundRows = true → found = limitFoundRows) := by
  have hn' : q.offset < 2 ^ 64 := by omega
  have hzero := selectLimitCnt_eq_zero hn' hm'
  unfold execute
  split
  · rename_i h
    refine ⟨0, by simp [(hzero.mp h.1).1], fun hf => ?_⟩
    rw [h.2] at hf
    cases hf
  refine ⟨limitFoundRows, ?_, fun _ => rfl⟩
  rw [initScan_eq w.length_lt hm hn buf]
  have hlen := length_readRows_le p q foundRows w.rows
  have hyields := yields_repeated w.length_lt (g :=
      { list := .firstPage p q foundRows w.rows, first := true,
        storeError := (firstPage p q foundRows w.rows).page.isEmpty, offsetLimit := q.offset, buf }) rfl
    (fun h => by
      rw [firstPage_rest w.length_lt hm]
      exact readRows_of_empty w.length_lt hm (isEmpty_iff.mp h))
    (firstPage_paging w.length_lt hm) rfl
  rw [firstPage_rest w.length_lt hm] at hyields
  have hfuel : (repeated q.offset (p.readRows q foundRows w.rows)).length < q.offset + w.rows.length + 1 := by
    have := length_repeated_le q.offset (p.readRows q foundRows w.rows)
    omega
  simp only [executeLoop_of_yields hyields hfuel, Option.map_some, Option.some.injEq, Prod.mk.injEq, and_true]
  by_cases hcnt : selectLimitCnt q = 0
  · rw [Send.all_off _ (by simp [hcnt]), (hzero.mp hcnt).1, take_zero]
  · rw [Send.all_sent _ (by simp [hcnt]) (Nat.pos_of_ne_zero hcnt), nil_append, Nat.sub_zero, drop_repeated]
    exact take_selectLimitCnt hn hm' (by have := w.length_lt; omega)

theorem execute_refused (w : ResultSet α) (hn : q.offset < 2 ^ 64) (hm : q.limit < 2 ^ 64)
    (hneg : 2 ^ 63 ≤ q.offset ∨ p.IsDirect q foundRows ∧ 2 ^ 63 ≤ q.limit) (buf : α) (limitFoundRows : Nat) :
    execute p q foundRows w buf limitFoundRows = none := by
  have hcnt : selectLimitCnt q ≠ 0 := by
    rw [ne_eq, selectLimitCnt_eq_zero hn hm]
    omega
  have hscan : GroupBy.initScan p q foundRows w.rows buf = none := by
    have hrefused : longlong q.offset < 0 ∨ (init p q foundRows : ResultList α).limitNum < 0 := by
      rcases hneg with hneg | ⟨hdirect, hneg⟩
      · exact .inl (longlong_neg hneg hn)
      · exact .inr (by simpa [limitNum, init, hdirect] using longlong_neg hneg hm)
    simp only [GroupBy.initScan, selectLimit_neg hrefused]
  simp only [execute, hcnt, false_and, if_false, hscan]

/-- The pages behind the first have the rows asked for: the same rows stand behind `splitRead` as behind
`offset + splitRead`. -/
def PagesAgree (p : ReadParams) (q : Limits) (w : List α) : Prop :=
  w.length < q.offset + p.splitRead ∨
    (w.drop p.splitRead).take (q.limit - p.splitRead) = (w.drop (q.offset + p.splitRead)).take (q.limit - p.splitRead)

theorem take_pushedRows_iff (w : List α) :
    (pushedRows w q.offset p.splitRead).take q.limit = (w.drop q.offset).take q.limit ↔ PagesAgree p q w := by
  unfold pushedRows PagesAgree
  split
  · rename_i hshort
    exact iff_of_true rfl (.inl hshort)
  · rename_i hmore
    have hlen : ((w.drop q.offset).take p.splitRead).length = p.splitRead := by
      rw [length_take, length_drop]
      omega
    -- both lists begin with the first page
    have hsplit : w.drop q.offset = (w.drop q.offset).take p.splitRead ++ w.drop (q.offset + p.splitRead) := by
      rw [← drop_drop, take_append_drop]
    conv_lhs => rhs; rw [hsplit]
    rw [take_append, take_append, hlen, append_cancel_left_eq, or_iff_right hmore]

end Execute

/-- **A query pushed down as a whole**: the client gets the rows asked for, and with `SQL_CALC_FOUND_ROWS` the number of all,
exactly if the numbers sent are below `2 ^ 63`, later pages agree, and `FOUND_ROWS()` was right before. -/
theorem execute_exact_iff {α : Type*} (p : ReadParams) (q : Limits) (hn : q.offset < 2 ^ 64) (hm : q.limit < 2 ^ 64)
    (foundRows : Bool) (w : ResultSet α) (buf : α) (limitFoundRows : Nat) :
    (∃ found, execute p q foundRows w buf limitFoundRows = some ((w.rows.drop q.offset).take q.limit, found) ∧
      (foundRows = true → found = w.rows.length)) ↔ q.offset < 2 ^ 63 ∧ (p.IsDirect q foundRows → q.limit < 2 ^ 63) ∧
      (¬ p.IsDirect q foundRows → PagesAgree p q w.rows) ∧ (foundRows = true → limitFoundRows = w.rows.length) := by
  by_cases haccepted : q.offset < 2 ^ 63 ∧ (p.IsDirect q foundRows → q.limit < 2 ^ 63)
  · obtain ⟨hn63, hm63⟩ := haccepted
    obtain ⟨found, heq, hfound⟩ := execute_eq w hn63 hm63 hm buf limitFoundRows
    have hrows : (p.readRows q foundRows w.rows).take q.limit = (w.rows.drop q.offset).take q.limit ↔
        (¬ p.IsDirect q foundRows → PagesAgree p q w.rows) := by
      unfold ReadParams.readRows
      split
      · rename_i hdirect
        simp [hdirect, take_take]
      · rename_i hdirect
        rw [take_pushedRows_iff]
        simp [hdirect]
    simp only [heq, Option.some.injEq, Prod.mk.injEq, hrows, hn63, true_and]
    constructor
    · rintro ⟨n, ⟨hpages, rfl⟩, hn⟩
      exact ⟨hm63, hpages, fun hf => (hfound hf).symm.trans (hn hf)⟩
    · rintro ⟨-, hpages, hn⟩
      exact ⟨found, ⟨hpages, rfl⟩, fun hf => (hfound hf).trans (hn hf)⟩
  · have hneg : 2 ^ 63 ≤ q.offset ∨ p.IsDirect q foundRows ∧ 2 ^ 63 ≤ q.limit := by
      by_contra h
      push Not at h
      exact haccepted ⟨h.1, h.2⟩
    rw [execute_refused w hn hm hneg]
    refine iff_of_false (by simp) fun h => haccepted ⟨h.1, h.2.1⟩

/-- Rows 2 and 3 of a result of four rows, in pages of two. -/
theorem execute_exact_four :
    ∃ found, execute ⟨10, 2, 0, 2, by decide, by decide⟩ ⟨2, 1⟩ false ⟨[1, 2, 3, 4], by decide⟩ 0 7 = some ([2, 3], found) ∧
      (false = true → found = 4) :=
  (execute_exact_iff ⟨10, 2, 0, 2, by decide, by decide⟩ ⟨2, 1⟩ (by decide) (by decide) false ⟨[1, 2, 3, 4], by decide⟩
    0 7).mpr ⟨by decide, by decide, fun h => absurd (by decide) h, by decide⟩

/-- With pages of two rows the second page starts at row 3 again; with `SQL_CALC_FOUND_ROWS` the number is an earlier one; a
limit of `2 ^ 63` is refused. -/
theorem execute_not_exact :
    execute ⟨0, 2, 0, 2, by decide, by decide⟩ ⟨3, 1⟩ false ⟨[1, 2, 3, 4], by decide⟩ 0 7 = some ([2, 3, 3], 7) ∧
    execute ⟨10, 9, 0, 9, by decide, by decide⟩ ⟨2, 1⟩ true ⟨[1, 2, 3, 4], by decide⟩ 0 7 = some ([2, 3], 7) ∧
    execute ⟨10, 9, 0, 9, by decide, by decide⟩ ⟨18446744073709551615, 1⟩ false ⟨[1, 2, 3, 4], by decide⟩ 0 7 = none := by
  refine ⟨by decide, by decide, ?_⟩
  exact execute_refused _ (by decide) (by decide) (.inr ⟨by decide, by decide⟩) 0 7

end TSpider.Limit
