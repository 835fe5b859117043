import TSpider.Lib.Loop

/-!
# Internal XA transactions: state

The coordinator's side of an internal XA transaction (`SPIDER_TRX`, the joined `SPIDER_CONN`s, the tables `spider_xa` and
`spider_xa_member`) together with what its statements do on the shards. The replies of the shards and the failures of the
log tables are an environment `Env` that the functions read. Every statement that is issued and every log write is added
to a trace with the state of the shards and of the log before it, so a crash point is an entry of the trace.
-/

namespace TSpider.Xa
open Lib

abbrev ConnId := Nat

/-- Transaction ids; equal numbers stand for equal `xid`s. -/
abbrev Xid := Nat

/-! ## Error codes -/

def erSpiderLinkIsFailover : Nat := 12519
def erSpiderXaNotPrepared : Nat := 12603
def erSpiderXaNotExists : Nat := 12607
def erSpiderRemoteServerGoneAway : Nat := 12701
def erSpiderXaTimeout : Nat := 12728
def erXaerNota : Nat := 1397
def erXaerRmfail : Nat := 1399
def erXaRbtimeout : Nat := 1613
def erXaRbdeadlock : Nat := 1614
def haErrFoundDuppKey : Nat := 121

/-- An error that a shard answers: not zero, and neither `CR_SERVER_GONE_ERROR` nor `CR_SERVER_LOST`. -/
structure ShardError where
  num : Nat
  ne_zero : num ≠ 0
  not_gone : num ≠ 2006 ∧ num ≠ 2013
  deriving DecidableEq

/-- An error of an access to the log tables: not zero and not the code that Spider keeps for an unknown outcome. -/
structure LogError where
  num : Nat
  ne_zero : num ≠ 0
  ne_timeout : num ≠ erSpiderXaTimeout
  deriving DecidableEq

def isXaNotaError (n : Nat) : Bool := n == erXaerNota || n == erXaRbtimeout || n == erXaRbdeadlock

def isDupEntryError (n : Nat) : Bool := n == 1062 || n == 1022 || n == haErrFoundDuppKey

/-! ## Shards -/

inductive Stmt where
  /-- `XA END; XA PREPARE` in one packet. -/
  | xaEndAndPrepare
  /-- `XA END; XA COMMIT .. ONE PHASE` in one packet. -/
  | xaCommitOnePhase
  | xaCommit
  | xaEnd
  | xaRollback
  | commit
  | rollback
  /-- `ROLLBACK` in the prepare loop, to a connection that takes no part in XA. -/
  | rollbackAtPrepare
  | setTrxIsolation
  | unlockTables
  deriving DecidableEq

/-- What happens to a statement: acknowledged, refused without effect, or the connection is lost, with or without the
effect. -/
inductive Reply where
  | ack
  | refused (e : ShardError)
  | lost (effect : Bool)
  deriving DecidableEq

/-- The branch of the transaction on a shard. `none` also stands for a branch the shard no longer knows. -/
inductive Branch where
  | none
  | active
  | prepared
  | committed
  | rolledBack
  deriving DecidableEq

/-- The shards as seen from their connections: the XA branch, an open plain transaction, the remote `autocommit`. -/
structure World where
  branch : ConnId → Branch
  trxOpen : ConnId → Bool
  autocommit : ConnId → Bool

def Stmt.onBranch : Stmt → Branch → Branch
  | .xaEndAndPrepare, .active => .prepared
  | .xaCommitOnePhase, .active => .committed
  | .xaCommit, .prepared => .committed
  | .xaRollback, .active => .rolledBack
  | .xaRollback, .prepared => .rolledBack
  | _, b => b

def Stmt.endsTrx : Stmt → Bool
  | .commit => true
  | .rollback => true
  | .rollbackAtPrepare => true
  | _ => false

def World.exec (w : World) (c : ConnId) (s : Stmt) : World :=
  { w with
    branch := Function.update w.branch c (s.onBranch (w.branch c))
    trxOpen := Function.update w.trxOpen c (w.trxOpen c && !s.endsTrx) }

/-- The branch after its session is gone: a branch that was not prepared is rolled back, a prepared one is kept. -/
def Branch.detach : Branch → Branch
  | .active => .rolledBack
  | b => b

def World.disconnect (w : World) (c : ConnId) : World :=
  { w with
    branch := Function.update w.branch c (w.branch c).detach
    trxOpen := Function.update w.trxOpen c false }

def Branch.forget : Branch → Branch
  | .active => .none
  | .prepared => .none
  | b => b

/-- The shard answers `XAER_NOTA`: there is no such branch (it was resolved from outside). -/
def World.nota (w : World) (c : ConnId) : World :=
  { w with branch := Function.update w.branch c (w.branch c).forget }

def World.after (w : World) (c : ConnId) (s : Stmt) : Reply → World
  | .ack => w.exec c s
  | .refused e => if e.num = erXaerNota then w.nota c else w
  | .lost effect => (if effect then w.exec c s else w).disconnect c

def World.sessionOpen (w : World) (c : ConnId) : Bool :=
  w.trxOpen c || w.branch c == .active || w.branch c == .prepared

/-! ## The coordinator -/

inductive XaStatus where
  | notYet
  | prepared
  | commit
  | rollback
  deriving DecidableEq

/-- The server of a shard; the port and the socket are one number. -/
structure Server where
  host : Nat
  port : Nat
  deriving DecidableEq

/-- The tables `spider_xa` and `spider_xa_member`, the second with the server that each row names. -/
structure Log where
  xa : Xid → Option XaStatus
  member : Xid → List Server

structure Conn where
  joinTrx : Bool
  disableXa : Bool
  tableLock : Nat
  errorMode : Bool
  serverLost : Bool
  disableReconnect : Bool
  queuedConnect : Bool
  queuedTrxStart : Bool
  queuedXaStart : Bool
  queuedAutocommit : Option Bool
  queuedSemiTrxIsolation : Bool
  isXaCommitOnePhase : Bool
  useForActiveStandby : Bool
  ignoreDupKey : Bool
  trxStart : Bool
  tableLocked : Bool
  openedHandlers : Bool
  autocommit : Int
  trxIsolation : Int
  semiTrxIsolation : Int
  server : Server
  deriving DecidableEq

/-- `SPIDER_TRX`. The tree of joined connections is the list of its in-order traversal. -/
structure Trx where
  trxStart : Bool
  trxXa : Bool
  trxXaPrepared : Bool
  internalXa : Bool
  updatedInThisTrx : Bool
  trxConsistentSnapshot : Bool
  xid : Xid
  joinTrxTop : List ConnId
  trxConnHash : List ConnId

inductive Killed where
  | notKilled
  | killQuery
  | killConnection
  deriving DecidableEq

structure Params where
  forceCommit : Nat
  ignoreXaLog : Bool
  xaRegisterMode : Nat
  connRecycleMode : Nat
  /-- `OPTION_NOT_AUTOCOMMIT | OPTION_BEGIN`. -/
  multiStmt : Bool
  withBeginCommit : Bool
  errorWhenFlushServer : Bool
  lastKilled : Killed

/-- `spider_db_mysql::trx_transmit_begin_commit`. -/
def Params.transmit (p : Params) : Bool := p.withBeginCommit || p.multiStmt

inductive LogAccess where
  | openXa
  | insertXa
  | openMember
  | insertMember (c : ConnId)
  | reopenXa
  | updatePrepared
  | commitOpenXa
  | commitCheckXa
  | commitStatus
  | updateCommit
  | deleteOpenMember
  | deleteMember
  | deleteOpenXa
  | deleteXa
  | rollbackOpenXa
  | rollbackCheckXa
  | rollbackStatus
  | updateRollback
  deriving DecidableEq

structure Env where
  reply : ConnId → Stmt → Reply
  log : LogAccess → Option LogError
  /-- Writing `spider_xa_failed_log` reports an error. -/
  failedLogError : ConnId → Bool
  /-- The server definition of the connection has changed since it was opened. -/
  versionChanged : ConnId → Bool
  /-- Freeing a pending result or `put_conn` fails. -/
  putFails : ConnId → Bool

/-- A statement, with its reply unless the connection was already lost and it was not sent, or a log write. -/
inductive Action where
  | stmt (c : ConnId) (s : Stmt) (reply : Option Reply)
  | logWrite
  deriving DecidableEq

structure Event where
  world : World
  log : Log
  action : Action

/-- A session, its shards and the log. `pool` lists the connections put back, with the remote session and the join mark. -/
structure State where
  isError : Bool
  trx : Trx
  conn : ConnId → Conn
  world : World
  log : Log
  trace : List Event
  pool : List (ConnId × Bool × Bool)
  /-- A null pointer was followed. -/
  nullDeref : Bool

def State.setConn (st : State) (c : ConnId) (k : Conn) : State :=
  { st with conn := Function.update st.conn c k }

def State.myMessage (st : State) : State := { st with isError := true }

def State.record (st : State) (a : Action) : State := { st with trace := st.trace ++ [⟨st.world, st.log, a⟩] }

def State.issue (st : State) (c : ConnId) (s : Stmt) (r : Reply) : State :=
  { st.record (.stmt c s (some r)) with world := st.world.after c s r }

end TSpider.Xa
