import Mathlib.Data.List.Basic
import Mathlib.Data.List.TakeDrop
import Mathlib.Tactic.Common

/-!
# Reading a remote result in pages, in all quick modes

`spider_db_seek_next` reads the rows of the current page and asks for the next one. With `quick_mode` 0 the result of each
query is buffered. With 1 and 2 the result stays open, and pages of up to `quick_page_size` rows are copied out of it. With
3 the rows of a query that do not fit into the page go to a temporary table. Once a statement has read a table by a constant
key (`spider_const_index_read`), a page has one row.

There is no background search here, the interrupted reading of mode 2 (`quick_phase`) is left out, and no query fails.
-/

namespace TSpider.Seek

inductive QuickMode
  | collective
  | oneByOne
  | waiting
  | stored
  deriving DecidableEq, Repr

/-- The parameters of a scan; `nextSize n` is what the `n`-th call of `spider_next_split_read_param` chooses, and
`constIndexRead n` is `spider_const_index_read` when the `n`-th page is stored. -/
structure Settings where
  quickMode : QuickMode
  quickPageSize : Nat
  internalLimit : Nat
  firstSize : Nat
  nextSize : Nat → Nat
  constIndexRead : Nat → Bool

def nextSplitReadParam (semiSplitReadBase secondRead splitReadBase n : Nat) : Nat :=
  if semiSplitReadBase ≠ 0 then semiSplitReadBase else if n = 1 ∧ 0 < secondRead then secondRead else splitReadBase

/-- A `SPIDER_RESULT`. `buffered` is the stored result of mode 0 from its cursor on; else `positions` are the copied rows,
`tmpTbl` the temporary table from its cursor on, `result` the open result. -/
structure Page (α : Type) where
  recordNum : Nat
  buffered : List α
  positions : List α
  tmpTbl : Option (List α)
  result : Option (List α)

def Page.empty {α : Type} : Page α := ⟨0, [], [], none, none⟩

/-- `SPIDER_RESULT_LIST` with its current page; `queries` collects offset and limit of the queries sent. -/
structure State (α : Type) where
  page : Page α
  currentRowNum : Nat
  recordNum : Nat
  limitNum : Nat
  splitRead : Nat
  setSplitReadCount : Nat
  finish : Bool
  queries : List (Nat × Nat)

inductive Outcome (α : Type)
  | row (a : α)
  | eof
  /-- A read through a pointer that is not set, or behind an array. -/
  | crash
  deriving DecidableEq, Repr

variable {α : Type} (cfg : Settings)

def fetch (s : State α) : Outcome α × State α :=
  let s' := { s with currentRowNum := s.currentRowNum + 1 }
  if cfg.quickMode = .collective then
    match s.page.buffered with
    | [] => (.eof, s')
    | a :: rest => (.row a, { s' with page := { s.page with buffered := rest } })
  else if s.currentRowNum < cfg.quickPageSize then
    match s.page.positions[s.currentRowNum]? with
    | none => (.crash, s')
    | some a => (.row a, s')
  else
    match s.page.tmpTbl with
    | none => (.crash, s')
    | some [] => (.eof, s')
    | some (a :: rest) => (.row a, { s' with page := { s.page with tmpTbl := some rest } })

/-- `page_size`: 0 stands for all rows of the query. -/
def pageSize (s : State α) : Nat :=
  if cfg.constIndexRead s.setSplitReadCount then 1
  else if cfg.quickPageSize = 0 ∨ s.limitNum < cfg.quickPageSize then s.limitNum else cfg.quickPageSize

def spilled (s : State α) (rows : List α) : Bool :=
  cfg.quickMode == .stored && decide (rows.length ≥ pageSize cfg s) && decide (pageSize cfg s < s.limitNum)

/-- `spider_db_store_result`: the rows of the query, or what is left of a result; false for `HA_ERR_END_OF_FILE`. -/
def storeResult (rows : List α) (s : State α) : Bool × State α :=
  if cfg.quickMode = .collective then
    (true, { s with
      page := { Page.empty with recordNum := rows.length, buffered := rows }
      currentRowNum := 0
      recordNum := s.recordNum + rows.length
      finish := s.finish || decide (cfg.internalLimit ≤ s.recordNum + rows.length) || decide (s.splitRead > rows.length) })
  else if rows = [] then (false, { s with page := .empty, currentRowNum := 0, finish := true })
  else
    let size := if spilled cfg s rows then s.limitNum else pageSize cfg s
    let count := if spilled cfg s rows then rows.length else (rows.take (pageSize cfg s)).length
    let last := decide (cfg.internalLimit ≤ s.recordNum + count) || decide (size > count)
    (true, { s with
      page :=
        { recordNum := count
          buffered := []
          positions := rows.take (pageSize cfg s)
          tmpTbl := if spilled cfg s rows then some (rows.drop (pageSize cfg s)) else none
          result :=
            if last || cfg.quickMode == .stored || decide (s.limitNum = count) then none
            else some (rows.drop (pageSize cfg s)) }
      currentRowNum := 0
      recordNum := s.recordNum + count
      finish := s.finish || last })

def query (w : List α) (limit : Nat) (s : State α) : Bool × State α :=
  storeResult cfg ((w.drop s.recordNum).take limit)
    { s with limitNum := limit, queries := s.queries ++ [(s.recordNum, limit)] }

def nextPage (w : List α) (s : State α) : Bool × State α :=
  let s := { s with splitRead := cfg.nextSize s.setSplitReadCount, setSplitReadCount := s.setSplitReadCount + 1 }
  match s.page.result with
  | some rest => storeResult cfg rest { s with limitNum := s.limitNum - s.page.recordNum }
  | none => query cfg w (min s.splitRead (cfg.internalLimit - s.recordNum)) s

def seekNext (w : List α) (s : State α) : Outcome α × State α :=
  if s.currentRowNum < s.page.recordNum then fetch cfg s
  else if s.finish then (.eof, s)
  else
    let next := nextPage cfg w s
    if next.1 then fetch cfg next.2 else (.eof, next.2)

def start (w : List α) : Bool × State α :=
  query cfg w (min cfg.firstSize cfg.internalLimit) ⟨.empty, 0, 0, 0, cfg.firstSize, 1, false, []⟩

def seekAll (w : List α) : Nat → State α → Option (List α × State α)
  | 0, _ => none
  | k + 1, s =>
    match seekNext cfg w s with
    | (.row a, s') => (seekAll w k s').map fun r => (a :: r.1, r.2)
    | (.eof, s') => some ([], s')
    | (.crash, _) => none

/-- The whole scan. No scan has more calls than rows and the end of file. -/
def scan (w : List α) : Option (List α × State α) :=
  if (start cfg w).1 then seekAll cfg w (w.length + 1) (start cfg w).2 else some ([], (start cfg w).2)

end TSpider.Seek
