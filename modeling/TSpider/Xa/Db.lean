import TSpider.Xa.State

/-!
# Statements to a shard and accesses to the log tables

`spider_db_query` with `spider_db_errorno`, the `spider_db_*` functions of `spd_db_conn.cc` that end a transaction on a
connection, `spider_end_trx`, and the functions of `spd_sys_table.cc` on the log tables.

A queued setting (time zone, `sql_log_off`, isolation) that is flushed in front of a statement and refused has the same
result as the statement being refused, so it is part of `Env.reply`.
-/

namespace TSpider.Xa
open Lib

/-! ## Statements -/

variable (p : Params) (env : Env) (c : ConnId)

def dbErrorno (k : Conn) (e : ShardError) (st : State) : Nat × State :=
  if k.ignoreDupKey && isDupEntryError e.num then (haErrFoundDuppKey, st)
  else if isXaNotaError e.num && p.forceCommit == 1 then (e.num, st)
  else if k.isXaCommitOnePhase then (erSpiderXaTimeout, st.myMessage)
  else (e.num, st.myMessage)

variable (s : Stmt) (st : State)

def State.loseConn (c : ConnId) : State :=
  let lost := st.setConn c { st.conn c with serverLost := true }
  if (st.conn c).disableReconnect then lost.myMessage else lost

/-- `spider_db_query`, and `spider_db_errorno` if it fails; on a lost connection nothing is sent. -/
def dbQuery : Nat × State :=
  if (st.conn c).serverLost then (erSpiderRemoteServerGoneAway, (st.record (.stmt c s none)).myMessage)
  else
    match env.reply c s with
    | .ack => (0, st.issue c s .ack)
    | .refused e => dbErrorno p (st.conn c) e (st.issue c s (.refused e))
    | .lost effect => (erSpiderRemoteServerGoneAway, (st.issue c s (.lost effect)).loseConn c)

/-- Two statements in one packet (`xa_end_and_prepare`, `xa_commit_one_phase`): `next_result` reads the second result, and
reports an error on a handle that is gone. -/
def dbPacket : Nat × State :=
  let r := dbQuery p env c s st
  if (r.2.conn c).serverLost then (r.1, r.2.myMessage) else r

def dbXaEnd : Nat × State :=
  if !(st.conn c).queuedConnect && !(st.conn c).queuedXaStart then dbQuery p env c .xaEnd st else (0, st)

def dbXaEndAndPrepare : Nat × State :=
  if !(st.conn c).queuedConnect && !(st.conn c).queuedXaStart then
    if (st.conn c).useForActiveStandby && (st.conn c).serverLost then (erSpiderLinkIsFailover, st.myMessage)
    else dbPacket p env c .xaEndAndPrepare st
  else (0, st)

def dbXaCommit : Nat × State :=
  if !(st.conn c).isXaCommitOnePhase && !(st.conn c).queuedConnect && !(st.conn c).queuedXaStart then
    dbQuery p env c .xaCommit st
  else (0, st)

def dbXaCommitOnePhase : Nat × State :=
  if !(st.conn c).queuedConnect && !(st.conn c).queuedXaStart then
    dbPacket p env c .xaCommitOnePhase (st.setConn c { st.conn c with isXaCommitOnePhase := true })
  else (0, st)

def dbXaRollback : Nat × State :=
  if !(st.conn c).queuedConnect && !(st.conn c).queuedXaStart then dbQuery p env c .xaRollback st else (0, st)

/-- The end of `spider_db_commit` and `spider_db_rollback`. -/
def dbTrxEnded (r : Nat × State) : Nat × State :=
  if r.1 = 0 then (0, r.2.setConn c { r.2.conn c with trxStart := false }) else r

/-- `spider_db_commit`, with `spider_db_mysql::commit`. -/
def dbCommit : Nat × State :=
  if !(st.conn c).queuedConnect && !(st.conn c).queuedTrxStart then
    if (st.conn c).useForActiveStandby && (st.conn c).serverLost then (erSpiderLinkIsFailover, st.myMessage)
    else dbTrxEnded c (if p.transmit then dbQuery p env c .commit st else (0, st))
  else dbTrxEnded c (0, st)

/-- `spider_db_mysql::rollback`: a lost connection counts as rolled back if there was no error before. -/
def mysqlRollback : Nat × State :=
  let r := dbQuery p env c s st
  if r.1 = erSpiderRemoteServerGoneAway ∧ st.isError = false then (0, { r.2 with isError := false }) else r

/-- `spider_db_rollback`; `s` tells the two places that call it apart. -/
def dbRollback : Nat × State :=
  if !(st.conn c).queuedConnect && !(st.conn c).queuedTrxStart then dbTrxEnded c (mysqlRollback p env c s st)
  else dbTrxEnded c (0, st)

/-- `spider_mysql_handler::unlock_tables`. -/
def dbUnlockTables : Nat × State :=
  if (st.conn c).tableLocked then
    dbQuery p env c .unlockTables (st.setConn c { st.conn c with tableLocked := false })
  else (0, st)

/-! ## `spider_end_trx` -/

def endTrxLock : Nat × State :=
  if (st.conn c).tableLock = 3 then
    let st := st.setConn c { st.conn c with tableLock := 0, disableReconnect := false }
    if (st.conn c).serverLost then (0, st)
    else
      let r := dbUnlockTables p env c st
      if r.1 = erSpiderRemoteServerGoneAway then (0, r.2) else r
  else if (st.conn c).tableLock = 0 then (0, st.setConn c { st.conn c with disableReconnect := false })
  else (0, st)

/-- The isolation level is set back when the transaction ran with `semi_trx_isolation`. -/
def restoresIsolation (k : Conn) : Bool :=
  decide (0 ≤ k.semiTrxIsolation) && k.trxIsolation != k.semiTrxIsolation && !k.serverLost &&
    !k.queuedSemiTrxIsolation

/-- The isolation level; its result replaces that of the unlock. -/
def endTrxIsolation (r : Nat × State) : Nat × State :=
  if restoresIsolation (r.2.conn c) then
    let q := dbQuery p env c .setTrxIsolation r.2
    if !(q.2.conn c).disableReconnect && q.1 == erSpiderRemoteServerGoneAway then (0, q.2) else q
  else r

def endTrx : Nat × State :=
  let r := endTrxIsolation p env c (endTrxLock p env c st)
  (r.1, r.2.setConn c { r.2.conn c with semiTrxIsolation := -2 })

/-! ## Log tables -/

def logAccess (a : LogAccess) (write : Log → Log) (st : State) : Nat × State :=
  match env.log a with
  | some e => (e.num, st.myMessage)
  | none => (0, { st.record .logWrite with log := write st.log })

def logOpen (a : LogAccess) (st : State) : Nat × State :=
  match env.log a with
  | some e => (e.num, st.myMessage)
  | none => (0, st)

/-- `spider_insert_xa`: a row that exists is left as it is. -/
def insertXa (status : XaStatus) (st : State) : Nat × State :=
  match st.log.xa st.trx.xid with
  | some _ => logOpen env .insertXa st
  | none => logAccess env .insertXa
      (fun l => { l with xa := Function.update l.xa st.trx.xid (some status) }) st

/-- A row of the host exists; the key of `spider_xa_member` ends with the host, so the port and the socket do not count. -/
def Log.hasHost (l : Log) (xid : Xid) (host : Nat) : Bool := (l.member xid).any fun s => s.host == host

/-- `spider_insert_xa_member`. -/
def insertXaMember : Nat × State :=
  if st.log.hasHost st.trx.xid (st.conn c).server.host then logOpen env (.insertMember c) st
  else logAccess env (.insertMember c) (fun l => { l with
    member := Function.update l.member st.trx.xid ((st.conn c).server :: l.member st.trx.xid) }) st

def xaNotExists : Nat × State := (erSpiderXaNotExists, st.myMessage)

def updateXa (a : LogAccess) (status : XaStatus) (st : State) : Nat × State :=
  match st.log.xa st.trx.xid with
  | none => andThen (logOpen env a st) xaNotExists
  | some _ => logAccess env a (fun l => { l with xa := Function.update l.xa st.trx.xid (some status) }) st

/-- `spider_delete_xa_member`: no row is no error. -/
def deleteXaMember : Nat × State :=
  logAccess env .deleteMember (fun l => { l with member := Function.update l.member st.trx.xid [] }) st

def deleteXa : Nat × State :=
  match st.log.xa st.trx.xid with
  | none => andThen (logOpen env .deleteXa st) xaNotExists
  | some _ => logAccess env .deleteXa (fun l => { l with xa := Function.update l.xa st.trx.xid none }) st

/-- The row of the transaction must exist (`spider_check_sys_table`). -/
def checkXaRow (a : LogAccess) (st : State) : Nat × State :=
  andThen (logOpen env a st) fun st =>
    match st.log.xa st.trx.xid with
    | none => xaNotExists st
    | some _ => (0, st)

/-- `spider_check_sys_xa_status` with `PREPARED` and one other status; not made with `force_commit` 2. -/
def checkXaStatus (a : LogAccess) (other : XaStatus) (st : State) : Nat × State :=
  if p.forceCommit = 2 then (0, st)
  else andThen (logOpen env a st) fun st =>
    if st.log.xa st.trx.xid = some .prepared ∨ st.log.xa st.trx.xid = some other then (0, st)
    else (erSpiderXaNotPrepared, st.myMessage)

end TSpider.Xa
