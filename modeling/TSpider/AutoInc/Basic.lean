import TSpider.Lib.Run
import TSpider.Lib.Snap

/-!
# Auto-increment values of a partitioned table

The generator of one node: the counter `next_auto_inc_val` that all sessions share (`Partition_share`), the interval
each session's handler has reserved from it (`handler`), and the steps of `ha_partition::write_row` and
`handler::ha_release_auto_increment` that read or write them. A step is a critical section under the auto-increment lock
together with the session-local work next to it, so a run of `step` is an interleaving of the sessions.

`ulonglong` values are natural numbers and every operation on them is reduced modulo `wordSize`.
-/

namespace TSpider.AutoInc
open Lib

def ulonglongMax : Nat := wordSize - 1

/-- The read-only server options and the auto-increment column of the table. -/
structure Config where
  modeSwitch : Bool
  isSpider : Bool
  step : Nat
  modeValue : Nat
  /-- `UNSIGNED_FLAG` of the column. -/
  unsignedField : Bool
  /-- The largest value the column can store. -/
  fieldMax : Nat
  step_range : 1 ≤ step ∧ step ≤ 64
  mode_range : modeValue ≤ 128

variable (cfg : Config)

def Config.spiderMode : Bool := cfg.modeSwitch && cfg.isSpider

structure Vars where
  increment : Nat
  offset : Nat
  increment_range : 1 ≤ increment ∧ increment ≤ 65535
  offset_range : 1 ≤ offset ∧ offset ≤ 65535

/-! ## Intervals -/

/-- `Discrete_interval`: `max` is excluded. -/
structure Interval where
  min : Nat
  values : Nat
  max : Nat
  deriving DecidableEq

def Interval.replace (start val incr : Nat) : Interval where
  min := start
  values := val
  max := if val = ulonglongMax then val else (start + val * incr) % wordSize

/-- `Discrete_intervals_list`: all intervals of the list and those not yet taken. -/
structure IntervalsList where
  all : List Interval
  current : List Interval

def IntervalsList.maximum (l : IntervalsList) : Nat := (l.all.getLast?.map Interval.max).getD 0

/-- `THD::force_one_auto_inc_interval`. -/
def forceOneAutoIncInterval (nextId : Nat) : IntervalsList :=
  let iv := Interval.replace nextId ulonglongMax 0
  ⟨[iv], [iv]⟩

/-! ## State -/

inductive Phase where
  | outside
  | between
  /-- `update_next_auto_inc_val` is done; the value in the field and whether it is an explicit one. -/
  | opened (value : Nat) (explicit : Bool)
  /-- `update_auto_increment` is done; the value in the field and whether it was generated. -/
  | filled (value : Nat) (generated : Bool)
  deriving DecidableEq

/-- The auto-increment part of a session's `handler` and of its current statement. -/
structure Session where
  phase : Phase
  vars : Vars
  estimationRowsToInsert : Nat
  manyValues : Nat
  /-- `SQLCOM_INSERT`, `SQLCOM_REPLACE` and their `SELECT` forms. -/
  insertCommand : Bool
  /-- The statement must hold the generator until its end (`auto_increment_safe_stmt_log_lock`). -/
  stmtLog : Bool
  nextInsertId : Nat
  interval : Interval
  intervalsCount : Nat
  insertIdForCurRow : Nat
  forced : IntervalsList

/-- `Partition_share`: the counter, its two flags, and the session that keeps the lock between its steps. -/
structure Share where
  nextAutoIncVal : Nat
  autoIncInitialized : Bool
  lastInsertFailed : Bool
  lockOwner : Option Nat

/-- A reservation: the counter interval it took and the explicit values whose inserts had completed before it. -/
structure Reservation where
  first : Nat
  stop : Nat
  explicitBefore : List Nat

/-- A value given by `update_auto_increment`, with the explicit values completed before its reservation. -/
structure Generated where
  value : Nat
  explicitBefore : List Nat

/-- What happened so far; no step of the program reads it. -/
structure History where
  generated : List Generated
  explicitDone : List Nat
  reservation : Nat → Reservation
  lastReserver : Option Nat

/-- One node: the shared counter, the sessions by number, and the history. -/
structure State where
  share : Share
  session : Nat → Session
  history : History

/-! ## Computing values -/

def computeNextInsertId (v : Vars) (nr : Nat) : Nat :=
  let next :=
    if cfg.spiderMode then snap cfg.step cfg.modeValue (nr + cfg.step)
    else if v.increment = 1 then (nr + 1) % wordSize
    else snap v.increment v.offset (nr + v.increment)
  if next ≤ nr then ulonglongMax else next

/-- `(longlong) nr > 0 || (flags & UNSIGNED_FLAG)`. -/
def Config.countsAsPositive (nr : Nat) : Prop := cfg.unsignedField = true ∨ (0 < nr ∧ nr < 2 ^ 63)

instance (nr : Nat) : Decidable (cfg.countsAsPositive nr) := by
  unfold Config.countsAsPositive; infer_instance

def adjustNextInsertIdAfterExplicitValue (nr : Nat) (s : Session) : Session :=
  if 0 < s.nextInsertId ∧ s.nextInsertId ≤ nr then
    { s with nextInsertId := computeNextInsertId cfg s.vars nr }
  else s

variable (s : Session)

/-- How many values `update_auto_increment` asks for: the estimate, the number of `VALUES` lists, and later 1, 2, 4, ... up to
`AUTO_INC_DEFAULT_NB_MAX`. -/
def nbDesiredValues : Nat :=
  if s.intervalsCount = 0 ∧ 0 < s.estimationRowsToInsert then s.estimationRowsToInsert
  else if s.intervalsCount = 0 ∧ 0 < s.manyValues then s.manyValues
  else if s.intervalsCount ≤ 16 then min (1 * 2 ^ s.intervalsCount) 65535
  else 65535

def Config.increment (v : Vars) : Nat := if cfg.spiderMode then cfg.step else v.increment

def roundCounter (next : Nat) : Nat :=
  if cfg.spiderMode then snap cfg.step cfg.modeValue (next + cfg.step - 1) else next

/-- `ha_partition::get_auto_increment`: the first value and the share after the reservation of `n` values. -/
def getAutoIncrement (sid n : Nat) (s : Session) (sh : Share) : Nat × Share :=
  let first := roundCounter cfg sh.nextAutoIncVal
  (first, { sh with
    nextAutoIncVal := (first + n * cfg.increment s.vars) % wordSize
    lockOwner := if s.stmtLog then some sid else sh.lockOwner })

/-- The correction for offset and increment that `update_auto_increment` applies to the engine's first value. -/
def roundFirst (v : Vars) (first : Nat) : Nat :=
  if cfg.spiderMode then first else computeNextInsertId cfg v ((first + wordSize - 1) % wordSize)

/-! ## `handler::update_auto_increment` -/

inductive FillResult where
  | ok
  | readFailed
  | erange
  deriving DecidableEq

structure Fill where
  result : FillResult
  session : Session
  share : Share

/-- The end of `update_auto_increment`: `nr` is stored, a new interval of `append` values is remembered, the cursor is set. -/
def storeValue (nr : Nat) (append : Option Nat) (s : Session) (sh : Share) : Fill :=
  if nr = ulonglongMax then ⟨.erange, { s with phase := .between }, sh⟩
  else
    let s := match append with
      | some n => { s with
          interval := Interval.replace nr n (cfg.increment s.vars)
          intervalsCount := s.intervalsCount + 1 }
      | none => s
    let s := { s with insertIdForCurRow := nr }
    if cfg.fieldMax < nr then ⟨.erange, { s with phase := .between }, sh⟩
    else ⟨.ok, { s with nextInsertId := computeNextInsertId cfg s.vars nr, phase := .filled nr true }, sh⟩

/-- `update_auto_increment` for a row without a value of its own, when the cursor is beyond what is reserved. -/
def reserveValue (sid : Nat) (s : Session) (sh : Share) : Fill :=
  match s.forced.current with
  | iv :: rest => storeValue cfg iv.min (some iv.values) { s with forced := { s.forced with current := rest } } sh
  | [] =>
    let n := nbDesiredValues s
    let r := getAutoIncrement cfg sid n s sh
    if r.1 = ulonglongMax then ⟨.readFailed, { s with phase := .between }, r.2⟩
    else storeValue cfg (roundFirst cfg s.vars r.1) (some n) s r.2

def updateAutoIncrement (sid value : Nat) (explicit : Bool) (s : Session) (sh : Share) : Fill :=
  if explicit then
    let s := if cfg.countsAsPositive value then adjustNextInsertIdAfterExplicitValue cfg value s else s
    ⟨.ok, { s with insertIdForCurRow := 0, phase := .filled value false }, sh⟩
  else if s.interval.max ≤ s.nextInsertId then reserveValue cfg sid s sh
  else storeValue cfg s.nextInsertId none s sh

/-! ## The counter -/

/-- `ha_partition::update_next_auto_inc_val`, with `info(HA_STATUS_AUTO)`: `need` and `remotes` are what the partitions
answer, `value` is the field of the row. -/
def updateNextAutoIncVal (need : Bool) (value : Nat) (insertCommand : Bool) (remotes : List UInt64)
    (sh : Share) : Share :=
  if sh.autoIncInitialized && !need then sh
  else
    let remote := (remotes.map UInt64.toNat).foldl max 0
    let autoIncrementValue :=
      if cfg.spiderMode then
        if sh.nextAutoIncVal = 0 ∨ sh.lastInsertFailed = true ∨ sh.autoIncInitialized = false then remote
        else sh.nextAutoIncVal
      else remote
    { sh with
      nextAutoIncVal := max sh.nextAutoIncVal autoIncrementValue
      autoIncInitialized := !(cfg.spiderMode && value != 0)
      lastInsertFailed := sh.lastInsertFailed && !insertCommand }

/-- The flags after a failed insert: the next statement asks the partitions again. -/
def noteInsertError (error : Bool) (sh : Share) : Share :=
  if cfg.spiderMode && error then { sh with lastInsertFailed := true, autoIncInitialized := false } else sh

def setAutoIncrementIfHigher (value : Nat) (error : Bool) (sh : Share) : Share :=
  let nr := if cfg.countsAsPositive value then value else 0
  let sh :=
    if sh.nextAutoIncVal ≤ nr then
      { sh with nextAutoIncVal :=
          if cfg.spiderMode then snap cfg.step cfg.modeValue (nr + cfg.step) else (nr + 1) % wordSize }
    else sh
  noteInsertError cfg error sh

/-- The comparison of `release_auto_increment` under which the counter is lowered to the session's cursor. -/
def handsBack (sh : Share) : Prop :=
  s.nextInsertId < sh.nextAutoIncVal ∧ sh.nextAutoIncVal ≤ s.interval.max ∧ s.forced.maximum < s.nextInsertId

instance (sh : Share) : Decidable (handsBack s sh) := by unfold handsBack; infer_instance

def releaseAutoIncrement (sid : Nat) (s : Session) (sh : Share) : Share :=
  if s.nextInsertId = 0 then sh
  else
    { sh with
      nextAutoIncVal := if handsBack s sh then s.nextInsertId else sh.nextAutoIncVal
      lockOwner := if sh.lockOwner = some sid then none else sh.lockOwner }

/-- `handler::ha_release_auto_increment`, the session's part. -/
def resetAutoIncrement : Session :=
  { s with
    phase := .outside
    insertIdForCurRow := 0
    interval := Interval.replace 0 0 0
    intervalsCount := 0
    forced := if 0 < s.nextInsertId then ⟨[], []⟩ else s.forced
    nextInsertId := 0 }

/-! ## Steps -/

structure StmtInfo where
  vars : Vars
  estimationRowsToInsert : Nat
  manyValues : Nat
  insertCommand : Bool
  stmtLog : Bool

inductive Op where
  /-- `SET INSERT_ID`. -/
  | setInsertId (value : UInt64)
  | startStmt (info : StmtInfo)
  /-- `write_row` up to `update_next_auto_inc_val`, for a row whose field holds `value`; `explicit` if it is kept (not zero,
  or under `MODE_NO_AUTO_VALUE_ON_ZERO`). -/
  | openRow (value : UInt64) (explicit need : Bool) (remotes : List UInt64)
  /-- `update_auto_increment`. -/
  | fillRow
  /-- `ha_write_row` of the partition, then `set_auto_increment_if_higher`. -/
  | writeRow (error : Bool)
  /-- `write_row` leaves before it writes: version check, partition function, locked partitions. -/
  | leaveRow
  | endBulkInsert (error : Bool)
  /-- `ha_release_auto_increment`. -/
  | release

def Op.isSetInsertId : Op → Bool
  | .setInsertId _ => true
  | _ => false

def Op.isFillRow : Op → Bool
  | .fillRow => true
  | _ => false

def Op.isRelease : Op → Bool
  | .release => true
  | _ => false

def Share.free (sh : Share) (sid : Nat) : Prop := sh.lockOwner = none ∨ sh.lockOwner = some sid

instance (sh : Share) (sid : Nat) : Decidable (sh.free sid) := by unfold Share.free; infer_instance

def State.put (st : State) (sid : Nat) (s : Session) (sh : Share) : State :=
  { st with share := sh, session := Function.update st.session sid s }

def Session.awaitsValue : Bool :=
  match s.phase with
  | .opened _ false => true
  | _ => false

def Session.reserves : Prop := s.interval.max ≤ s.nextInsertId ∧ s.forced.current = []

instance : Decidable s.reserves := by unfold Session.reserves; infer_instance

def State.newReservation (st : State) (sid : Nat) : Reservation where
  first := roundCounter cfg st.share.nextAutoIncVal
  stop := roundCounter cfg st.share.nextAutoIncVal +
    nbDesiredValues (st.session sid) * cfg.increment (st.session sid).vars
  explicitBefore := st.history.explicitDone

def State.fillHistory (st : State) (sid : Nat) (f : Fill) : History :=
  let h := st.history
  let h : History :=
    if (st.session sid).reserves then
      { h with
        reservation := Function.update h.reservation sid (st.newReservation cfg sid)
        lastReserver := some sid }
    else h
  if f.result = .ok then
    { h with generated := ⟨f.session.insertIdForCurRow, (h.reservation sid).explicitBefore⟩ :: h.generated }
  else h

def State.writeHistory (st : State) (value : Nat) (generated error : Bool) : History :=
  if generated = false ∧ error = false ∧ 0 < value ∧ cfg.countsAsPositive value then
    { st.history with explicitDone := value :: st.history.explicitDone }
  else st.history

def step (st : State) (act : Nat × Op) : Option State :=
  let sid := act.1
  let s := st.session sid
  match act.2, s.phase with
  | .setInsertId value, .outside => some (st.put sid { s with forced := forceOneAutoIncInterval value.toNat } st.share)
  | .startStmt i, .outside =>
    some (st.put sid { s with
      phase := .between, vars := i.vars, estimationRowsToInsert := i.estimationRowsToInsert
      manyValues := i.manyValues, insertCommand := i.insertCommand, stmtLog := i.stmtLog } st.share)
  | .openRow value explicit need remotes, .between =>
    if (value ≠ 0 → explicit = true) ∧ (st.share.free sid ∨ (st.share.autoIncInitialized = true ∧ need = false)) then
      some (st.put sid { s with phase := .opened value.toNat explicit }
        (updateNextAutoIncVal cfg need value.toNat s.insertCommand remotes st.share))
    else none
  | .fillRow, .opened value explicit =>
    if st.share.free sid ∨ explicit = true ∨ ¬s.reserves then
      let f := updateAutoIncrement cfg sid value explicit s st.share
      some { st.put sid f.session f.share with
        history := if explicit then st.history else st.fillHistory cfg sid f }
    else none
  | .writeRow error, .filled value generated =>
    if st.share.free sid then
      some { st.put sid { s with phase := .between } (setAutoIncrementIfHigher cfg value error st.share) with
        history := st.writeHistory cfg value generated error }
    else none
  | .leaveRow, .filled _ _ => some (st.put sid { s with phase := .between } st.share)
  | .endBulkInsert error, .between =>
    if st.share.free sid then some (st.put sid s (noteInsertError cfg error st.share)) else none
  | .release, .between =>
    if st.share.free sid ∨ s.nextInsertId = 0 then
      some (st.put sid (resetAutoIncrement s) (releaseAutoIncrement sid s st.share))
    else none
  | _, _ => none

theorem one_range : 1 ≤ 1 ∧ 1 ≤ 65535 := by decide

def Session.idle : Session where
  phase := .outside
  vars := ⟨1, 1, one_range, one_range⟩
  estimationRowsToInsert := 0
  manyValues := 0
  insertCommand := false
  stmtLog := false
  nextInsertId := 0
  interval := Interval.replace 0 0 0
  intervalsCount := 0
  insertIdForCurRow := 0
  forced := ⟨[], []⟩

def State.initial (next : UInt64) (initialized : Bool) : State where
  share := ⟨next.toNat, initialized, false, none⟩
  session := fun _ => Session.idle
  history := ⟨[], [], fun _ => ⟨0, 0, []⟩, none⟩

end TSpider.AutoInc
