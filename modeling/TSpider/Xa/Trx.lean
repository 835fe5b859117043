import TSpider.Xa.Db

/-!
# Ending an internal XA transaction

`spider_internal_xa_prepare`, `spider_internal_xa_commit`, `spider_internal_xa_commit_one_phase`,
`spider_internal_xa_rollback`, `spider_commit` and `spider_rollback` of `spd_trx.cc`, and the release of the
transaction's connections (`spider_free_trx_conn`, `spider_free_conn_from_trx`).
-/

namespace TSpider.Xa
open Lib

/-! ## Pieces that the functions share -/

variable (p : Params) (env : Env) (da : Bool) (c : ConnId) (e : Nat) (st : State)

/-- The transaction is written to the log: it updated data or `xa_register_mode` is 0, and the log is on. -/
def State.logged : Bool :=
  (st.trx.updatedInThisTrx || p.xaRegisterMode == 0) && !p.ignoreXaLog

/-- `SPIDER_CONN_RESTORE_DASTATUS_AND_RESET_TMP_ERROR_NUM` after an error on `c`: error mode hides it. `da` is the session's
error state before the loop. -/
def restoreDastatus (r : Nat × State) : Nat × State :=
  if r.1 ≠ 0 ∧ (r.2.conn c).errorMode = true then
    (0, if !da && r.2.isError then { r.2 with isError := false } else r.2)
  else r

def State.leaveTrx (c : ConnId) : State := st.setConn c { st.conn c with joinTrx := false }

/-- `if (!error_num && tmp) error_num = code`. -/
def firstError (tmp code : Nat) : Nat := if e = 0 ∧ tmp ≠ 0 then code else e

/-- `thd->clear_error()` and `my_message` at the end of a commit loop that collected an error. -/
def reportTimeout (r : Nat × State) : Nat × State := if r.1 ≠ 0 then (r.1, r.2.myMessage) else r

def State.clearTree : State := { st with trx := { st.trx with joinTrxTop := [] } }

/-! ## `spider_internal_xa_prepare` -/

def prepareMember : Nat × State :=
  restoreDastatus da c (insertXaMember env c st)

def prepareLog : Nat × State :=
  if st.logged p then
    andThen (logOpen env .openXa st) fun st =>
    andThen (insertXa env .notYet st) fun st =>
    andThen (logOpen env .openMember st) fun st =>
    untilError (prepareMember env st.isError) st.trx.joinTrxTop st
  else (0, st)

def prepareConn : Nat × State :=
  if (st.conn c).disableXa then
    andThen (if (st.conn c).tableLock ≠ 3 then restoreDastatus da c (dbRollback p env c .rollbackAtPrepare st)
      else (0, st)) fun st =>
    andThen (restoreDastatus da c (endTrx p env c st)) fun st =>
    (0, st.leaveTrx c)
  else dbXaEndAndPrepare p env c st

def preparedLog : Nat × State :=
  if st.logged p then
    andThen (logOpen env .reopenXa st) (updateXa env .updatePrepared .prepared)
  else (0, st)

/-- All connections but the last are prepared, then the last commits in one phase. With fewer than two a null pointer is
passed on.
-/
def prepareConns : Nat × State :=
  match st.trx.joinTrxTop with
  | [] => (0, { st with nullDeref := true })
  | [c] => andThen (prepareConn p env st.isError c st) fun st => (0, { st with nullDeref := true })
  | c :: d :: cs =>
    andThen (untilError (prepareConn p env st.isError) (c :: d :: cs).dropLast st)
      (dbXaCommitOnePhase p env ((d :: cs).getLastD d))

def internalXaPrepare : Nat × State :=
  andThen (prepareLog p env st) fun st =>
  andThen (prepareConns p env st) (preparedLog p env)

/-! ## `spider_internal_xa_commit` -/

def commitLog : Nat × State :=
  if st.logged p then
    andThen (logOpen env .commitOpenXa st) fun st =>
    andThen (checkXaRow env .commitCheckXa st) fun st =>
    andThen (checkXaStatus p env .commitStatus .commit st) (updateXa env .updateCommit .commit)
  else (0, st)

def sysLogXaFailed : State :=
  if env.failedLogError c then st.myMessage else st

/-- `force_commit` lets an error of `XA COMMIT` count. -/
def commitErrorCounts (n : Nat) : Bool :=
  p.forceCommit == 0 || (p.forceCommit == 1 && n != erXaerNota)

def commitBranch : Nat × State :=
  let r := dbXaCommit p env c st
  if r.1 = 0 then (e, r.2)
  else
    let q := if commitErrorCounts p r.1 then restoreDastatus da c r else (0, r.2)
    (firstError e q.1 erSpiderXaTimeout, sysLogXaFailed env c q.2)

def commitConn : Nat × State :=
  if (st.conn c).joinTrx then
    let r := commitBranch p env da c e st
    let q := restoreDastatus da c (endTrx p env c r.2)
    (firstError r.1 q.1 erSpiderXaTimeout, q.2.leaveTrx c)
  else (e, st)

def deleteRows : Nat × State :=
  andThen (logOpen env .deleteOpenMember st) fun st =>
  andThen (deleteXaMember env st) fun st =>
  andThen (logOpen env .deleteOpenXa st) (deleteXa env)

def deleteLog : Nat × State :=
  if st.logged p then deleteRows env st else (0, st)

def commitConns : Nat × State :=
  let r := forEach (commitConn p env st.isError) st.trx.joinTrxTop 0 st
  reportTimeout (r.1, r.2.clearTree)

def internalXaCommit : Nat × State :=
  andThen (commitLog p env st) fun st =>
  andThen (commitConns p env st) (deleteLog p env)

/-! ## `spider_internal_xa_commit_one_phase` -/

def onePhaseConn : Nat × State :=
  if (st.conn c).joinTrx then
    let r := dbXaCommitOnePhase p env c st
    let e := if r.1 = erXaerNota then e else firstError e r.1 erSpiderXaTimeout
    let q := endTrx p env c r.2
    (firstError e q.1 erSpiderXaTimeout, q.2.leaveTrx c)
  else (e, st)

def internalXaCommitOnePhase : Nat × State :=
  let r := forEach (onePhaseConn p env) st.trx.joinTrxTop 0 st
  reportTimeout (r.1, r.2.clearTree)

/-! ## `spider_internal_xa_rollback` -/

def State.loggedPrepared : Bool := st.trx.trxXaPrepared && st.logged p

/-- The checks of the row and the status `ROLLBACK`, only after a prepare. -/
def rollbackLog : Nat × State :=
  if st.loggedPrepared p then
    andThen (logOpen env .rollbackOpenXa st) fun st =>
    andThen (checkXaRow env .rollbackCheckXa st) fun st =>
    andThen (checkXaStatus p env .rollbackStatus .rollback st) (updateXa env .updateRollback .rollback)
  else (0, st)

def rollbackErrorCounts (n : Nat) : Bool :=
  p.forceCommit == 0 || (p.forceCommit == 1 && !isXaNotaError n)

def rollbackXaEnd : Nat × State :=
  if st.trx.trxXaPrepared then (e, st)
  else
    let r := dbXaEnd p env c st
    if r.1 ≠ 0 ∧ (rollbackErrorCounts p r.1 = true ∨ r.1 = erXaerRmfail) then
      let q := restoreDastatus da c r
      (firstError e q.1 q.1, q.2)
    else (e, r.2)

def rollbackXa : Nat × State :=
  let r := dbXaRollback p env c st
  if r.1 ≠ 0 ∧ rollbackErrorCounts p r.1 = true then
    let q := restoreDastatus da c r
    (firstError e q.1 q.1, q.2)
  else (e, r.2)

def rollbackBranch : Nat × State :=
  if (st.conn c).disableXa then
    if (st.conn c).tableLock ≠ 3 ∧ st.trx.trxXaPrepared = false ∧ (st.conn c).serverLost = false then
      let q := restoreDastatus da c (dbRollback p env c .rollback st)
      (firstError e q.1 q.1, q.2)
    else (e, st)
  else if (st.conn c).serverLost then (e, st)
  else
    let r := rollbackXaEnd p env da c e st
    rollbackXa p env da c r.1 r.2

def rollbackConn : Nat × State :=
  if (st.conn c).joinTrx then
    let r := rollbackBranch p env da c e st
    let q := restoreDastatus da c (endTrx p env c r.2)
    (firstError r.1 q.1 q.1, q.2.leaveTrx c)
  else (e, st)

/-- The rows are deleted after a rollback of a prepared transaction without error and without a lost connection. -/
def rollbackDeleteLog (joined : List ConnId) (st : State) : Nat × State :=
  if st.loggedPrepared p ∧ joined.all (fun c => !(st.conn c).serverLost) then deleteRows env st else (0, st)

def internalXaRollback : Nat × State :=
  andThen (rollbackLog p env st) fun st =>
  let joined := st.trx.joinTrxTop.filter fun c => (st.conn c).joinTrx
  let r := forEach (rollbackConn p env st.isError) st.trx.joinTrxTop 0 st
  andThen (r.1, r.2.clearTree) (rollbackDeleteLog p env joined)

/-! ## The connections at the end of a transaction -/

/-- `spider_free_conn`: the connection is closed. -/
def State.freeConn (c : ConnId) : State :=
  { st with
    trx := { st.trx with trxConnHash := st.trx.trxConnHash.erase c }
    world := st.world.disconnect c }

def freePreparedTrx : State := (st.trx.joinTrxTop.foldl State.freeConn st).clearTree

def Conn.clearQueueAtCommit (k : Conn) : Conn :=
  { k with
    queuedTrxStart := false, trxStart := k.trxStart && !k.queuedTrxStart, queuedXaStart := false
    isXaCommitOnePhase := false }

/-- `spider_conn_clear_queue` and the other resets at the start of `spider_free_conn_from_trx`. -/
def Conn.resetForPool (k : Conn) (versionChanged : Bool) : Conn :=
  { k with
    queuedTrxStart := false, queuedXaStart := false, queuedAutocommit := none, queuedSemiTrxIsolation := false
    useForActiveStandby := false, errorMode := true, serverLost := k.serverLost || versionChanged }

def State.putConn (c : ConnId) : State :=
  { st with
    trx := { st.trx with trxConnHash := st.trx.trxConnHash.erase c }
    pool := st.pool ++ [(c, st.world.sessionOpen c, (st.conn c).joinTrx)] }

def freeConnFromTrx : State :=
  let st := st.setConn c ((st.conn c).resetForPool (env.versionChanged c))
  let st := if env.versionChanged c && p.errorWhenFlushServer then st.myMessage else st
  if ((st.conn c).serverLost || p.connRecycleMode != 2) && !(st.conn c).openedHandlers then
    if !(st.conn c).serverLost && p.connRecycleMode == 1 && !st.isError && !env.putFails c then st.putConn c
    else st.freeConn c
  else st

def freeTrxConnOne (c : ConnId) : State :=
  let st := st.setConn c (st.conn c).clearQueueAtCommit
  if (st.conn c).tableLock ≠ 0 then st
  else if p.connRecycleMode ≠ 2 then freeConnFromTrx p env c st
  else st.setConn c { st.conn c with errorMode := true }

def freeTrxConn : State :=
  st.trx.trxConnHash.foldl (freeTrxConnOne p env) st

/-! ## `spider_rollback` and `spider_commit` -/

def commitPlainConn : Nat × State :=
  let r := if (st.conn c).autocommit ≠ 1 ∨ (st.conn c).trxStart = true then restoreDastatus da c (dbCommit p env c st)
    else (0, st)
  let e := if r.1 ≠ 0 then r.1 else e
  let q := restoreDastatus da c (endTrx p env c r.2)
  (if q.1 ≠ 0 then q.1 else e, q.2.leaveTrx c)

def rollbackPlainConn : Nat × State :=
  let r := if (st.conn c).serverLost = false ∧ ((st.conn c).autocommit ≠ 1 ∨ (st.conn c).trxStart = true) then
      restoreDastatus da c (dbRollback p env c .rollback st)
    else (0, st)
  let e := if r.1 ≠ 0 then r.1 else e
  let q := restoreDastatus da c (endTrx p env c r.2)
  (if q.1 ≠ 0 then q.1 else e, q.2.leaveTrx c)

/-- `trx->trx_xa = FALSE; trx->join_trx_top = NULL`. -/
def State.leaveXa : State := { st with trx := { st.trx with trxXa := false, joinTrxTop := [] } }

/-- The last lines of `spider_commit` and `spider_rollback`. -/
def finishTrx : State :=
  let st := freeTrxConn p env st
  { st with trx := { st.trx with trxConsistentSnapshot := false } }

def State.endStarted : State := { st with trx := { st.trx with trxStart := false, updatedInThisTrx := false } }

/-- `spider_rollback`. For a killed session the kills sent to the shards are not modelled. -/
def spiderRollback (all : Bool) (st : State) : Nat × State :=
  if p.lastKilled = .killConnection then (0, st.clearTree)
  else if all || !p.multiStmt then
    if st.trx.trxStart then
      let r :=
        if st.trx.trxXa then
          let r := internalXaRollback p env st
          (r.1, r.2.leaveXa)
        else
          let r := forEach (rollbackPlainConn p env st.isError) st.trx.joinTrxTop 0 st
          (r.1, r.2.clearTree)
      (r.1, finishTrx p env r.2.endStarted)
    else (0, finishTrx p env st)
  else (0, st)

/-- `trx->trx_xa_prepared = TRUE`. -/
def State.markPrepared : State := { st with trx := { st.trx with trxXaPrepared := true } }

/-- The commit of a started internal XA transaction up to the resets: the code, the state, whether `spider_commit` returns at
once.
-/
def commitXa (all : Bool) (st : State) : Nat × State × Bool :=
  if st.trx.joinTrxTop.length = 1 then
    let r := internalXaCommitOnePhase p env st
    let q := internalXaCommit p env r.2
    (if q.1 ≠ 0 then q.1 else r.1, q.2, false)
  else
    let r := internalXaPrepare p env st
    if r.2.nullDeref then (r.1, r.2, true)
    else if r.1 = erSpiderXaTimeout then (r.1, freePreparedTrx r.2, true)
    else if r.1 ≠ 0 then (r.1, (spiderRollback p env all r.2).2, true)
    else
      let q := internalXaCommit p env r.2.markPrepared
      (q.1, q.2, false)

def spiderCommit (all : Bool) (st : State) : Nat × State :=
  if all || !p.multiStmt then
    if st.trx.trxStart then
      if st.trx.trxXa then
        let r := if st.trx.internalXa && !st.trx.trxXaPrepared then commitXa p env all st else (0, st, false)
        if r.2.2 then (r.1, r.2.1) else (r.1, finishTrx p env r.2.1.leaveXa.endStarted)
      else
        let r := forEach (commitPlainConn p env st.isError) st.trx.joinTrxTop 0 st
        (r.1, finishTrx p env r.2.clearTree.endStarted)
    else (0, finishTrx p env st)
  else (0, st)

end TSpider.Xa
