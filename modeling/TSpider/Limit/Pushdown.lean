import TSpider.Limit.Scan

/-!
# A query that is pushed down as a whole, with `LIMIT` and `OFFSET`

`spider_group_by_handler` sends the query to the shard and `Pushdown_query::execute` sends its rows to the client. If
`spider_direct_order_limit` allows it, the shard gets the clause of the statement; otherwise the result is read in pages of
`split_read` rows, and only the first page starts at the offset. The handler repeats the first row `offset` times, because the
server discards that many rows.
-/

namespace TSpider.Limit

variable {α : Type*}

/-- The result of the query without the clause. The number of its rows is a `longlong`. -/
structure ResultSet (α : Type*) where
  rows : List α
  length_lt : (rows.length : Int) < maxLonglong

structure ReadParams where
  directOrderLimit : Nat
  /-- The size of the first page, from `spider_split_read_param`. -/
  splitRead : Nat
  secondRead : Nat
  splitReadBase : Nat
  splitRead_pos : 0 < splitRead
  splitReadBase_pos : 0 < splitReadBase

/-- `SPIDER_RESULT_LIST`: the rows of the current page that are not read yet, and the state of the paging. -/
structure ResultList (α : Type*) where
  page : List α
  recordNum : Int
  internalLimit : Int
  splitRead : Int
  secondRead : Int
  splitReadBase : Int
  setSplitReadCount : Nat
  finish : Bool

def ResultList.nextSplitReadParam (r : ResultList α) : ResultList α :=
  { r with
    splitRead := if r.setSplitReadCount = 1 ∧ 0 < r.secondRead then r.secondRead else r.splitReadBase
    setSplitReadCount := r.setSplitReadCount + 1 }

def ResultList.limitNum (r : ResultList α) : Int :=
  if r.internalLimit - r.recordNum ≥ r.splitRead then r.splitRead else r.internalLimit - r.recordNum

def ResultList.storeResult (r : ResultList α) (res : List α) : ResultList α :=
  { r with
    page := res
    recordNum := r.recordNum + res.length
    finish := r.internalLimit ≤ r.recordNum + res.length ∨ r.splitRead > res.length }

/-- `spider_db_seek_next`: a later page starts at the number of rows read so far. -/
def ResultList.seekNext (w : List α) (r : ResultList α) (buf : α) : Code × ResultList α × α :=
  match r.page with
  | a :: as => (.ok, { r with page := as }, a)
  | [] =>
    if r.finish then (.eof, r, buf)
    else
      let r := r.nextSplitReadParam
      match selectLimit w r.recordNum r.limitNum with
      | none => (.error, r, buf)
      | some [] => (.eof, r.storeResult [], buf)
      | some (a :: as) => (.ok, { r.storeResult (a :: as) with page := as }, a)

structure GroupBy (α : Type*) where
  list : ResultList α
  first : Bool
  /-- `store_error` is `HA_ERR_END_OF_FILE`. -/
  storeError : Bool
  offsetLimit : Int
  /-- The row in `table->record[0]`. -/
  buf : α

variable (p : ReadParams) (q : Limits) (foundRows : Bool)

def ReadParams.IsDirect : Prop :=
  p.directOrderLimit ≠ 0 ∧ foundRows = false ∧ longlong q.limit < p.directOrderLimit

instance : Decidable (p.IsDirect q foundRows) := by
  unfold ReadParams.IsDirect
  infer_instance

def ResultList.init : ResultList α where
  page := []
  recordNum := 0
  internalLimit := if p.IsDirect q foundRows then longlong q.limit else maxLonglong
  splitRead := if p.IsDirect q foundRows then longlong q.limit else p.splitRead
  secondRead := if p.IsDirect q foundRows then maxLonglong else p.secondRead
  splitReadBase := if p.IsDirect q foundRows then maxLonglong else p.splitReadBase
  setSplitReadCount := 1
  finish := false

def GroupBy.initScan (w : List α) (buf : α) : Option (GroupBy α) :=
  let r := ResultList.init p q foundRows
  match selectLimit w (longlong q.offset) r.limitNum with
  | none => none
  | some res =>
    some { list := r.storeResult res, first := true, storeError := res.isEmpty, offsetLimit := longlong q.offset, buf }

def GroupBy.seekNext (w : List α) (g : GroupBy α) : Code × GroupBy α :=
  match g.list.seekNext w g.buf with
  | (code, list, buf) => (code, { g with list, buf })

def GroupBy.nextRow (w : List α) (g : GroupBy α) : Code × GroupBy α :=
  if g.storeError then (.eof, g)
  else if g.first then { g with first := false }.seekNext w
  else if g.offsetLimit ≠ 0 then (.ok, { g with offsetLimit := g.offsetLimit - 1 })
  else g.seekNext w

structure Send (α : Type*) where
  sent : List α
  offsetLimitCnt : Nat
  sendRecords : Nat
  doSendRows : Bool

def Send.limit (maxLimit : Nat) (foundRows : Bool) (s : Send α) : Bool × Send α :=
  if s.sendRecords ≥ maxLimit ∧ s.doSendRows = true then
    if foundRows then (false, { s with doSendRows := false }) else (true, s)
  else (false, s)

/-- The body of the loop in `Pushdown_query::execute`; the flag says that the loop ends. -/
def Send.row (maxLimit : Nat) (foundRows : Bool) (s : Send α) (a : α) : Bool × Send α :=
  let s :=
    if s.doSendRows then
      if s.offsetLimitCnt ≠ 0 then { s with offsetLimitCnt := s.offsetLimitCnt - 1 } else { s with sent := s.sent ++ [a] }
    else s
  { s with sendRecords := s.sendRecords + 1 }.limit maxLimit foundRows

def executeLoop (w : List α) (maxLimit : Nat) (foundRows : Bool) : Nat → GroupBy α → Send α → Option (Send α)
  | 0, _, _ => none
  | k + 1, g, s =>
    match g.nextRow w with
    | (.eof, _) => some s
    | (.error, _) => none
    | (.ok, g) =>
      match s.row maxLimit foundRows g.buf with
      | (true, s) => some s
      | (false, s) => executeLoop w maxLimit foundRows k g s

/-- `st_select_lex_unit::set_limit`. -/
def selectLimitCnt : Nat :=
  if q.limit ≤ (q.limit + q.offset) % 2 ^ 64 then (q.limit + q.offset) % 2 ^ 64 else 2 ^ 64 - 1

/-- The rows that the client receives, and `FOUND_ROWS()` afterwards, which `do_select` does not set; `none` if the statement
fails. -/
def execute (w : ResultSet α) (buf : α) (limitFoundRows : Nat) :
    Option (List α × Nat) :=
  if selectLimitCnt q = 0 ∧ foundRows = false then some ([], 0)
  else
    match GroupBy.initScan p q foundRows w.rows buf with
    | none => none
    | some g =>
      -- no run has more calls: the rows, the repeated row and the end of file
      let fuel := q.offset + w.rows.length + 1
      (executeLoop w.rows (selectLimitCnt q) foundRows fuel g ⟨[], q.offset, 0, selectLimitCnt q ≠ 0⟩).map
        fun s => (s.sent, limitFoundRows)

end TSpider.Limit
