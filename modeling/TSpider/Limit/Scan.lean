import TSpider.Limit.Clause

/-!
# A table scan with `LIMIT` and `OFFSET` over partitions

`ha_partition::rnd_next` reads the partitions one after another. For a plain `SELECT .. LIMIT m OFFSET n` Spider skips whole
partitions by their record counts, asks the first partition that is left for its rows behind the remaining offset, and
repeats the current row for the server to discard.

The counters are those of one handler, the `creator` of the shared `SPIDER_PARTITION_HANDLER_SHARE` (the handler of the
partition that was opened first). Every handler sets its own counters when its scan starts, but only the creator's are read.
-/

namespace TSpider.Limit

/-- The result of a handler call: 0, `HA_ERR_END_OF_FILE` or another error. -/
inductive Code where
  | ok
  | eof
  | error
  deriving DecidableEq

structure Limits where
  limit : Nat
  offset : Nat

structure Direct where
  selectOffset : Int
  currentOffset : Int
  selectLimit : Int
  deriving DecidableEq

structure Part (α : Type*) where
  rows : List α
  /-- This handler is `partition_handler_share->creator`. -/
  creator : Bool
  scanAndFirst : Bool
  /-- The rows of the stored result that are not read yet. -/
  result : List α
  usePreCall : Bool
  storeError : Code

variable {α : Type*}

def Part.init (creator : Bool) (rows : List α) : Part α where
  rows := rows
  creator := creator
  scanAndFirst := true
  result := []
  usePreCall := false
  storeError := .ok

def setDirectLimitOffset (q : Limits) (p : Part α) (d : Direct) : Direct :=
  if p.creator then ⟨longlong q.offset, longlong q.offset, longlong q.limit⟩ else d

def Part.seekNext (p : Part α) (d : Direct) (buf : α) : Code × Part α × Direct × α :=
  match p.result with
  | [] => (.eof, p, d, buf)
  | a :: as => (.ok, { p with result := as }, d, a)

/-- `ha_spider::rnd_next_internal`; `fill` is off in the pre-scan call, which has no buffer. -/
def Part.rndNextInternal (q : Limits) (fill : Bool) (p : Part α) (d : Direct) (buf : α) :
    Code × Part α × Direct × α :=
  if p.scanAndFirst then
    let d := setDirectLimitOffset q p d
    if d.selectLimit = 0 then (.eof, p, d, buf)
    else if 0 < d.currentOffset ∧ (p.rows.length : Int) ≤ d.currentOffset then
      (.eof, p, { d with currentOffset := d.currentOffset - p.rows.length }, buf)
    else
      match selectLimit p.rows d.currentOffset d.selectLimit with
      | none => (.error, p, { d with currentOffset := 0 }, buf)
      | some [] => (.eof, p, { d with currentOffset := 0 }, buf)
      | some (a :: as) =>
        if fill then (.ok, { p with scanAndFirst := false, result := as }, { d with currentOffset := 0 }, a)
        else (.ok, { p with scanAndFirst := false, result := a :: as }, { d with currentOffset := 0 }, buf)
  else if 0 < d.selectOffset then (.ok, p, { d with selectOffset := d.selectOffset - 1 }, buf)
  else p.seekNext d buf

def Part.rndNext (q : Limits) (p : Part α) (d : Direct) (buf : α) : Code × Part α × Direct × α :=
  if p.usePreCall then
    if p.storeError = .ok then ({ p with usePreCall := false } : Part α).rndNextInternal q true d buf
    else (p.storeError, p, d, buf)
  else p.rndNextInternal q true d buf

def Part.preRndNext (q : Limits) (pre : Bool) (p : Part α) (d : Direct) (buf : α) : Code × Part α × Direct :=
  let p := { p with usePreCall := pre }
  if pre then
    match p.rndNextInternal q false d buf with
    | (code, p, d, _) => (code, { p with storeError := code }, d)
  else (.ok, p, d)

def preScan (q : Limits) (pre : Bool) (buf : α) : List (Part α) → Direct → Code × List (Part α) × Direct
  | [], d => (.ok, [], d)
  | p :: ps, d =>
    match p.preRndNext q pre d buf with
    | (.error, p, d) => (.error, p :: ps, d)
    | (_, p, d) =>
      match preScan q pre buf ps d with
      | (code, ps, d) => (code, p :: ps, d)

structure Scan (α : Type*) where
  parts : List (Part α)
  direct : Direct
  buf : α

/-- `ha_partition::rnd_next`: at the end of a partition the scan moves on to the next one. -/
def rndNext (q : Limits) : List (Part α) → Direct → α → Code × Scan α
  | [], d, buf => (.eof, ⟨[], d, buf⟩)
  | p :: ps, d, buf =>
    match p.rndNext q d buf with
    | (.ok, p, d, buf) => (.ok, ⟨p :: ps, d, buf⟩)
    | (.error, p, d, buf) => (.error, ⟨p :: ps, d, buf⟩)
    | (.eof, _, d, buf) => rndNext q ps d buf

def Scan.read (q : Limits) : Nat → Scan α → Option (List α)
  | 0, _ => some []
  | k + 1, s =>
    match rndNext q s.parts s.direct s.buf with
    | (.ok, t) => (t.read q k).map (t.buf :: ·)
    | (.eof, _) => some []
    | (.error, _) => none

/-- The handlers of the partitions with the rows `tables`, of which `creator` is the creator, if there is one. -/
def initParts : Nat → List (List α) → List (Part α)
  | _, [] => []
  | 0, t :: ts => .init true t :: ts.map (.init false)
  | c + 1, t :: ts => .init false t :: initParts c ts

/-- The rows that the server keeps; `d` are the creator's counters before, and `buf` is what the row buffer holds. -/
def limitRows (q : Limits) (pre : Bool) (creator : Nat) (d : Direct) (buf : α) (tables : List (List α)) :
    Option (List α) :=
  match preScan q pre buf (initParts creator tables) d with
  | (.error, _) => none
  | (_, ps, d) => (Scan.read q (q.offset + q.limit) ⟨ps, d, buf⟩).map (·.drop q.offset)

end TSpider.Limit
