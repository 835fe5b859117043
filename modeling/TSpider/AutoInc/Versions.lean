import TSpider.AutoInc.Unique

/-!
# Generated values and FLUSH TABLES WITH NO BLOCK

A statement opens its tables under the `table_share_version` of its start (`thd->flush_no_block_version`), and a partitioned
table has one `Partition_share`, hence one counter, for each version under which it was opened.

What separates them is the comparison in `ha_partition::write_row` after `update_auto_increment`
(`get_share_version_err`): a statement of an old version leaves with `ER_SPIDER_SHARE_INVALID_NUM`. The row is stored later,
and a new counter starts from what the shards have stored (`info(HA_STATUS_AUTO)`).
-/

namespace TSpider.AutoInc.Versions
open Lib

structure Table extends Config where
  parts : Nat
  parts_pos : 0 < parts

/-- A row with a generated value that has passed the version check: its statement's version and its partition. -/
structure Row where
  version : Nat
  part : Nat
  value : Nat
  deriving DecidableEq

structure Node where
  /-- `table_share_version`. -/
  version : Nat
  /-- The `Partition_share` of each version, with the handlers of the sessions on it. -/
  opened : Nat → State
  /-- `thd->flush_no_block_version`. -/
  flushNoBlockVersion : Nat → Nat
  checked : Nat → Bool
  /-- The rows that are buffered for a shard or sent to it and not yet executed, with their session. -/
  passed : List (Nat × Row)
  stored : List Row

def Node.initial : Node where
  version := 0
  opened := fun _ => State.initial 0 false
  flushNoBlockVersion := fun _ => 0
  checked := fun _ => false
  passed := []
  stored := []

def Node.largest (n : Node) (p : Nat) : Nat := ((n.stored.filter (·.part = p)).map Row.value).foldl max 0

/-- What the partitions report for `HA_STATUS_AUTO`: one more than the largest value they store. -/
def Node.remotes (t : Table) (n : Node) : List UInt64 :=
  (List.range t.parts).map fun p => UInt64.ofNat (n.largest p + 1)

def Node.current (n : Node) (sid : Nat) : State := n.opened (n.flushNoBlockVersion sid)

def Node.advance (t : Table) (n : Node) (sid : Nat) (op : AutoInc.Op) : Option Node :=
  (AutoInc.step t.toConfig (n.current sid) (sid, op)).map fun st =>
    { n with opened := Function.update n.opened (n.flushNoBlockVersion sid) st }

/-- The errors with which `write_row` leaves before it has a partition. -/
inductive WriteError where
  | autoIncrement (result : FillResult)
  /-- `ER_SPIDER_SHARE_INVALID_NUM`. -/
  | shareInvalid
  deriving DecidableEq

def getShareVersionErr (curVersion newestVersion : Nat) (error : Option WriteError) : Option WriteError :=
  if curVersion = newestVersion then error else some .shareInvalid

inductive Op where
  /-- `close_cached_tables` with `REFRESH_NO_BLOCK`. -/
  | flush
  | startStmt (sid : Nat) (info : StmtInfo)
  /-- `write_row` up to `update_next_auto_inc_val`, for a row without a value. -/
  | openRow (sid : Nat) (need : Bool)
  | fillRow (sid : Nat)
  /-- The version check, and the choice of the partition; `none` if there is none or it is not locked. -/
  | checkVersion (sid : Nat) (part : Option Nat)
  /-- The shard executes the insert of a row, and stores it or refuses it. -/
  | execute (sid : Nat) (row : Row) (ok : Bool)
  /-- `ha_write_row` of the partition returns. -/
  | writeRow (sid : Nat) (error : Bool)
  | endBulkInsert (sid : Nat) (error : Bool)
  | release (sid : Nat)

def Node.send (n : Node) (sid part value : Nat) : Node :=
  { n with
    checked := Function.update n.checked sid true
    passed := (sid, ⟨n.flushNoBlockVersion sid, part, value⟩) :: n.passed }

/-- The rest of `write_row` after `update_auto_increment` has put `value` into the row, up to `ha_write_row`. A row without a
value has left before. -/
def Node.checkVersion (t : Table) (n : Node) (sid value : Nat) (part : Option Nat) : Option Node :=
  match getShareVersionErr (n.flushNoBlockVersion sid) n.version none, part with
  | none, some p => if p < t.parts then some (n.send sid p value) else none
  | none, none => n.advance t sid .leaveRow
  | some _, _ => n.advance t sid .leaveRow

def step (t : Table) (n : Node) : Op → Option Node
  | .flush => some { n with version := n.version + 1 }
  | .startStmt sid info =>
    if ((n.current sid).session sid).phase = .outside then
      Node.advance t { n with flushNoBlockVersion := Function.update n.flushNoBlockVersion sid n.version } sid
        (.startStmt info)
    else none
  | .openRow sid need => n.advance t sid (.openRow 0 false need (n.remotes t))
  | .fillRow sid => (n.advance t sid .fillRow).map fun m => { m with checked := Function.update m.checked sid false }
  | .checkVersion sid part =>
    match ((n.current sid).session sid).phase, n.checked sid with
    | .filled value _, false => n.checkVersion t sid value part
    | _, _ => none
  | .execute sid row ok =>
    if (sid, row) ∈ n.passed then
      some { n with
        passed := n.passed.erase (sid, row)
        stored := if ok then row :: n.stored else n.stored }
    else none
  | .writeRow sid error => if n.checked sid then n.advance t sid (.writeRow error) else none
  | .endBulkInsert sid error => n.advance t sid (.endBulkInsert error)
  | .release sid => if ∀ r ∈ n.passed, r.1 ≠ sid then n.advance t sid .release else none

def Node.rows (n : Node) : List Row := n.passed.map Prod.snd ++ n.stored

/-- `UniqueOk`; and a version's counter is initialised only when no row of an older version is on its way. -/
def StepOk (t : Table) (n : Node) : Op → Prop
  | .openRow sid _ =>
    (n.current sid).share.nextAutoIncVal = 0 → ∀ r ∈ n.passed, n.flushNoBlockVersion sid ≤ r.2.version
  | .fillRow sid => UniqueOk t.toConfig (n.current sid) (sid, .fillRow)
  | .writeRow sid error => UniqueOk t.toConfig (n.current sid) (sid, .writeRow error)
  | .release sid => UniqueOk t.toConfig (n.current sid) (sid, .release)
  | _ => True

instance (t : Table) (n : Node) (op : Op) : Decidable (StepOk t n op) := by
  cases op <;> unfold StepOk <;> infer_instance

end TSpider.AutoInc.Versions
