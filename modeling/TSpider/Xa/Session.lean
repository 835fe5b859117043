import TSpider.Xa.Trx
import TSpider.Lib.Run
import Mathlib.Data.List.Sort

/-!
# A session and its transactions

One session over whole runs: connections are taken from the pool or made (`spider_get_conn`), join the transaction
(`spider_internal_start_trx`), send their queued settings and statements (`spider_db_conn_queue_action`, `spider_db_query`),
and the server ends statements and transactions, which calls `spider_commit` and `spider_rollback`.

`LOCK TABLES`, `HANDLER`, consistent snapshots and external XA are outside of the runs.
-/

namespace TSpider.Xa
open Lib

/-- Variables constant during a run; `params.multiStmt` is replaced by the session's own option bits. -/
structure Vars where
  params : Params
  internalXa : Bool
  syncAutocommit : Bool
  ignoreAutocommit : Bool
  semiTrx : Bool
  connRecycleStrict : Bool
  remoteAutocommit : Int
  remoteTrxIsolation : Int

/-- A session. `stmt` and `all` tell whether Spider is registered in `thd->transaction`; `held` are the handlers' connections,
`finished` the xids of the internal XA transactions ended. -/
structure Session where
  st : State
  notAutocommit : Bool
  begun : Bool
  stmt : Bool
  all : Bool
  held : List ConnId
  priority : ConnId → Int
  nextXid : Xid
  nextConn : ConnId
  finished : List Xid

/-- `OPTION_NOT_AUTOCOMMIT | OPTION_BEGIN`. -/
def Session.multi (s : Session) : Bool := s.notAutocommit || s.begun

variable (v : Vars)

def Session.params (s : Session) : Params := { v.params with multiStmt := s.multi }

/-! ## Joining the transaction -/

structure Request where
  /-- `ha_spider::error_mode`. -/
  errorMode : Bool
  update : Bool
  /-- `sql_use_partition_count > 1`. -/
  partitions : Bool
  /-- `conn_can_fo`. -/
  activeStandby : Bool
  /-- `spider_semi_trx_isolation` applies. -/
  semiIsolation : Bool
  priority : Int
  server : Server
  deriving DecidableEq

/-- `trans_register_ha` for the statement, and for the transaction if there is one. -/
def Session.register (s : Session) : Session := { s with stmt := true, all := s.all || s.multi }

/-- The branches of a new transaction; what an earlier one has left on a connection still held stays. -/
def World.newTrx (w : World) (hash : List ConnId) : World :=
  { w with branch := fun c => if c ∈ hash ∧ (w.branch c = .active ∨ w.branch c = .prepared) then w.branch c else .none }

variable (q : Request)

/-- `spider_internal_start_trx`, the part for a transaction that is not started. -/
def Session.beginTrx (s : Session) : Session :=
  let xa := v.internalXa && (s.multi || (q.partitions && q.update))
  { s.register with
    nextXid := if xa then s.nextXid + 1 else s.nextXid
    st := { s.st with
      world := s.st.world.newTrx s.st.trx.trxConnHash
      trx := { s.st.trx with
        trxStart := true, trxXa := xa, internalXa := xa, trxXaPrepared := false, updatedInThisTrx := false
        xid := if xa then s.nextXid else s.st.trx.xid } } }

def Conn.autocommits (k : Conn) : Bool :=
  match k.queuedAutocommit with
  | none => k.autocommit == 1
  | some b => b

def Conn.queueStart (k : Conn) : Conn := { k with queuedTrxStart := true, trxStart := true }

/-- `spider_internal_start_trx`, what is queued for the connection. -/
def Conn.queueTrx (xa begun : Bool) (k : Conn) : Conn :=
  if k.tableLock = 3 then { k with disableXa := true }
  else if xa then { k with queuedXaStart := true, disableXa := false }
  else if !begun && v.syncAutocommit && k.tableLock == 0 && k.autocommits && v.semiTrx then k.queueStart
  else if begun then k.queueStart
  else k

/-- `spider_check_and_set_autocommit`, with `spider_sync_autocommit`. -/
def Conn.queueAutocommit (notAutocommit : Bool) (k : Conn) : Conn :=
  if v.syncAutocommit then { k with queuedAutocommit := some (!notAutocommit) } else k

/-- `spider_tree_insert`: the traversal is in the order of the priorities. -/
def treeInsert (priority : ConnId → Int) (c : ConnId) (tree : List ConnId) : List ConnId :=
  tree.orderedInsert (fun a b => priority a < priority b) c

/-- `spider_internal_start_trx`, the part for the connection. -/
def Session.join (c : ConnId) (s : Session) : Session :=
  let k := { (s.st.conn c).queueAutocommit v s.notAutocommit with disableReconnect := true }
  let st := s.st.setConn c { k.queueTrx v s.st.trx.trxXa s.begun with joinTrx := true }
  { s with st := { st with trx := { st.trx with joinTrxTop := treeInsert s.priority c st.trx.joinTrxTop } } }

def startTrx (c : ConnId) (s : Session) : Session :=
  (if s.st.trx.trxStart then s else s.beginTrx v q).join v c

/-! ## `spider_get_conn_by_idx` -/

/-- `spider_create_conn`. -/
def Conn.new (server : Server) : Conn where
  joinTrx := false
  disableXa := false
  tableLock := 0
  errorMode := false
  serverLost := false
  disableReconnect := false
  queuedConnect := true
  queuedTrxStart := false
  queuedXaStart := false
  queuedAutocommit := none
  queuedSemiTrxIsolation := false
  isXaCommitOnePhase := false
  useForActiveStandby := false
  ignoreDupKey := false
  trxStart := false
  tableLocked := false
  openedHandlers := false
  autocommit := 0
  trxIsolation := 0
  semiTrxIsolation := -2
  server := server

def State.hold (st : State) (c : ConnId) : State :=
  { st with trx := { st.trx with trxConnHash := c :: st.trx.trxConnHash } }

def State.pooled (st : State) (c : ConnId) : Bool := st.pool.any fun e => e.1 == c

/-- `spd_connect_pools.get_conn`. -/
def State.takeConn (st : State) (c : ConnId) : State := { st with pool := st.pool.filter fun e => e.1 != c }

/-- `spider_get_conn`: the connection `c` of the transaction, of the pool, or the next new one. -/
def getConn (c : ConnId) (s : Session) : Option Session :=
  if c ∈ s.st.trx.trxConnHash then some s
  else if s.st.pooled c && (v.params.connRecycleMode % 2 == 1 || v.connRecycleStrict) then
    some { s with st := (s.st.takeConn c).hold c, priority := Function.update s.priority c q.priority }
  else if c = s.nextConn then
    some { s with
      st := (s.st.setConn c (.new q.server)).hold c, priority := Function.update s.priority c q.priority
      nextConn := c + 1 }
  else none

def Conn.adopt (k : Conn) : Conn :=
  { k with
    errorMode := k.errorMode && q.errorMode, useForActiveStandby := k.useForActiveStandby || q.activeStandby }

/-- The isolation part of `spider_set_trx_status_info`. -/
def Conn.queueIsolation (k : Conn) : Conn :=
  if k.semiTrxIsolation = -2 ∧ q.semiIsolation = true then { k with queuedSemiTrxIsolation := true }
  else { k with semiTrxIsolation := -1 }

def setTrxStatusInfo (c : ConnId) (s : Session) : Session :=
  let s := if (s.st.conn c).joinTrx then s else startTrx v q c s
  let st := s.st.setConn c ((s.st.conn c).queueIsolation q)
  { s with st :=
    if st.trx.trxStart && q.update then { st with trx := { st.trx with updatedInThisTrx := true } } else st }

/-- `spider_get_conn_by_idx` for a handler that has no connection yet. -/
def useConn (c : ConnId) (s : Session) : Option Session :=
  (getConn v q c s).map fun s =>
    let s := { s with st := s.st.setConn c ((s.st.conn c).adopt q) }
    let s := setTrxStatusInfo v q c s
    { s with held := c :: s.held }

/-! ## Statements of the transaction -/

/-- Queued settings and `START TRANSACTION` or `XA START` in one packet: what follows a refused one is not executed. -/
inductive QueueReply where
  | ack
  | refused (autocommitSet : Bool)
  | lost
  deriving DecidableEq

/-- A statement on a connection: whether that can be opened, the replies, whether an error reaches the session
(`ha_spider::check_error_mode`), and the values set. -/
structure Query where
  connects : Bool
  queue : QueueReply
  reply : Reply
  told : Bool
  ignoreDupKey : Bool
  trxIsolation : Int
  semiTrxIsolation : Int
  deriving DecidableEq

/-- `SET autocommit`, if the queue sends one. -/
def Conn.sendsAutocommit (k : Conn) : Option Bool :=
  match k.queuedAutocommit with
  | none => none
  | some b =>
    if v.ignoreAutocommit then if k.autocommit = 0 then some true else none
    else if (if b then k.autocommit ≠ 1 else k.autocommit ≠ 0) then some b else none

def World.connect (w : World) (c : ConnId) : World :=
  { w with trxOpen := Function.update w.trxOpen c false, autocommit := Function.update w.autocommit c true }

/-- The shard executes `SET autocommit`, which ends a transaction when it turns it on. -/
def World.setAutocommit (w : World) (c : ConnId) : Option Bool → World
  | none => w
  | some b => { w with
      autocommit := Function.update w.autocommit c b, trxOpen := Function.update w.trxOpen c (w.trxOpen c && !b) }

def World.start (w : World) (c : ConnId) (trx xa : Bool) : World :=
  { w with
    trxOpen := Function.update w.trxOpen c (w.trxOpen c || trx)
    branch := Function.update w.branch c (if xa then .active else w.branch c) }

/-- The shard executes or begins a statement: without `autocommit` and outside of XA it opens a transaction. -/
def World.statement (w : World) (c : ConnId) : World :=
  { w with trxOpen := Function.update w.trxOpen c (w.trxOpen c || (!w.autocommit c && w.branch c != .active)) }

/-- The queue has been sent: `spider_conn_clear_queue` and the values that are now set. -/
def Conn.flushed (q : Query) (k : Conn) : Conn :=
  { k with
    autocommit := match k.queuedAutocommit with
      | none => k.autocommit
      | some b => if b || v.ignoreAutocommit then 1 else 0
    trxIsolation := q.trxIsolation
    semiTrxIsolation := if k.queuedSemiTrxIsolation then q.semiTrxIsolation else k.semiTrxIsolation
    queuedTrxStart := false, queuedXaStart := false, queuedAutocommit := none, queuedSemiTrxIsolation := false }

def State.fail (st : State) (told : Bool) : State := if told then st.myMessage else st

def State.dropConn (st : State) (c : ConnId) : State :=
  { st.setConn c { st.conn c with serverLost := true } with world := st.world.disconnect c }

/-- The queued connect of `spider_db_conn_queue_action`; `none` if it fails. -/
def openConn (q : Query) (c : ConnId) (st : State) : Option State :=
  if (st.conn c).queuedConnect then
    if q.connects then
      some { st.setConn c { st.conn c with
          serverLost := false, queuedConnect := false, autocommit := v.remoteAutocommit
          trxIsolation := v.remoteTrxIsolation } with world := st.world.connect c }
    else none
  else some st

/-- `spider_db_conn_queue_action` on an open connection: whether it succeeds, and the state. -/
def queueAction (transmit : Bool) (q : Query) (c : ConnId) (st : State) : Bool × State :=
  let k := st.conn c
  match q.queue with
  | .ack =>
    let w := (st.world.setAutocommit c (k.sendsAutocommit v)).start c (k.queuedTrxStart && transmit) k.queuedXaStart
    (true, { st.setConn c (k.flushed v q) with world := w })
  | .refused autocommitSet =>
    (false, if autocommitSet then { st with world := st.world.setAutocommit c (k.sendsAutocommit v) } else st)
  | .lost => (false, st.dropConn c)

/-- `spider_db_query` for a statement of the transaction. -/
def remoteQuery (transmit : Bool) (q : Query) (c : ConnId) (st : State) : State :=
  match openConn v q c st with
  | none => (st.setConn c { st.conn c with serverLost := true }).fail q.told
  | some st =>
    if (st.conn c).serverLost then st.fail q.told
    else
      let r := queueAction v transmit q c (st.setConn c { st.conn c with ignoreDupKey := q.ignoreDupKey })
      if r.1 then
        match q.reply with
        | .ack => { r.2 with world := r.2.world.statement c }
        | .refused _ => ({ r.2 with world := r.2.world.statement c } : State).fail q.told
        | .lost _ => (r.2.dropConn c).fail q.told
      else r.2.fail q.told

/-- A shard does not acknowledge `XA START` while a transaction or a branch is open in the session. -/
def Query.possible (q : Query) (c : ConnId) (st : State) : Bool :=
  !(q.queue == .ack && (st.conn c).queuedXaStart && st.world.sessionOpen c)

/-! ## Steps -/

inductive Op where
  /-- `SET autocommit`, with no transaction (the server commits one first). -/
  | setAutocommit (on : Bool)
  /-- `BEGIN`, with no transaction. -/
  | begin
  /-- A statement starts; the error of the one before is forgotten. -/
  | startStmt
  | useConn (c : ConnId) (q : Request)
  | again (c : ConnId)
  | query (c : ConnId) (q : Query)
  | raise
  /-- The server ends the statement, with `ha_rollback_trans` if there was an error. -/
  | endStmt (env : Env)
  /-- The server ends the transaction. -/
  | commit (env : Env)
  /-- The same with `ROLLBACK`, or on its own after an error. -/
  | rollback (afterError : Bool) (env : Env)

def State.atCall (st : State) (isError : Bool) : State := { st with isError, trace := [] }

/-- `spider_commit` or `spider_rollback` has ended the transaction: the handlers forget their connections. -/
def Session.ended (s : Session) (r : Nat × State) : Session :=
  { s with
    st := if r.1 ≠ 0 then r.2.myMessage else r.2
    held := []
    finished := if s.st.trx.trxStart && s.st.trx.trxXa then s.st.trx.xid :: s.finished else s.finished }

/-- `ha_commit_trans` or `ha_rollback_trans` of the statement. -/
def endStmt (env : Env) (s : Session) : Session :=
  let s' := { s with stmt := false }
  if s.stmt then
    let st := s.st.atCall s.st.isError
    let r := if s.st.isError then spiderRollback (s.params v) env false st else spiderCommit (s.params v) env false st
    if s.multi then { s' with st := r.2 } else s'.ended r
  else s'

/-- `ha_commit_trans` of the transaction. -/
def commitTrx (env : Env) (s : Session) : Session :=
  let s' := { s with all := false, begun := false }
  if s.all then s'.ended (spiderCommit (s.params v) env true (s.st.atCall false)) else s'

/-- `ha_rollback_trans` of the transaction. -/
def rollbackTrx (afterError : Bool) (env : Env) (s : Session) : Session :=
  let s' := { s with all := false, begun := false }
  if s.all then s'.ended (spiderRollback (s.params v) env true (s.st.atCall (afterError && s.st.isError))) else s'

def step (s : Session) : Op → Option Session
  | .setAutocommit on => if s.stmt || s.all then none else some { s with notAutocommit := !on }
  | .begin => if s.stmt || s.all then none else some { s with begun := true }
  | .startStmt => if s.stmt then none else some { s with st := { s.st with isError := false } }
  | .useConn c q => useConn v q c s
  | .again c => if c ∈ s.held then some s.register else none
  | .query c q =>
    if c ∈ s.held ∧ q.possible c s.st = true then some { s with st := remoteQuery v (s.params v).transmit q c s.st }
    else none
  | .raise => some { s with st := s.st.myMessage }
  | .endStmt env => some (endStmt v env s)
  | .commit env => if s.stmt then none else some (commitTrx v env s)
  | .rollback afterError env => if s.stmt then none else some (rollbackTrx v afterError env s)

def Session.init : Session where
  st := {
    isError := false
    trx := {
      trxStart := false, trxXa := false, trxXaPrepared := false, internalXa := false, updatedInThisTrx := false
      trxConsistentSnapshot := false, xid := 0, joinTrxTop := [], trxConnHash := [] }
    conn := fun c => .new ⟨c, 0⟩
    world := { branch := fun _ => .none, trxOpen := fun _ => false, autocommit := fun _ => true }
    log := { xa := fun _ => none, member := fun _ => [] }
    trace := []
    pool := []
    nullDeref := false }
  notAutocommit := false
  begun := false
  stmt := false
  all := false
  held := []
  priority := fun _ => 0
  nextXid := 1
  nextConn := 0
  finished := []

end TSpider.Xa
