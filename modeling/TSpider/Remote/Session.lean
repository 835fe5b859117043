import TSpider.Lib.Run
import TSpider.Lib.WriteBehind

/-!
# The session of a connection at a node

The settings that a local session asks for on a connection are queued (`spider_conn_queue_*`) and sent in front of the next
statement (`spider_db_conn_queue_action`), each of them only if the connection does not have the value already. The isolation
level has two caches: `trx_isolation`, and `semi_trx_isolation` for a level that is in force up to the end of the transaction
(`spider_end_trx`).
-/

namespace TSpider.Remote
open Lib

variable {τ : Type} [DecidableEq τ]

inductive Iso where
  | readUncommitted
  | readCommitted
  | repeatableRead
  | serializable
  deriving DecidableEq

/-- `spider_ignore_autocommit`, and what `spider_remote_*` says about a new session at the node. -/
structure Config (τ : Type) where
  ignoreAutocommit : Bool
  autocommit : Option Bool
  sqlLogOff : Option Bool
  timeZone : Option τ
  trxIsolation : Option Iso

structure Node (τ : Type) where
  isolation : Iso
  autocommit : Bool
  sqlLogOff : Bool
  timeZone : τ

/-- `SPIDER_CONN` and its session at the node. Negative values of the caches are `none`. No function reads the levels asked
for, `wantedTrx` and `wantedSemi`. -/
structure Conn (τ : Type) where
  queuedConnect : Bool
  serverLost : Bool
  isolation : Iso
  trxIsolation : Option Iso
  semiTrxIsolation : Option Iso
  queuedTrxIsolation : Option Iso
  queuedSemiTrxIsolation : Option Iso
  autocommit : Cell Bool
  sqlLogOff : Cell Bool
  timeZone : Cell τ
  wantedTrx : Option Iso
  wantedSemi : Option Iso
  /-- The last operation has sent a data statement. -/
  sent : Bool

/-- A statement that is sent in front of a data statement; `start` stands for START TRANSACTION and XA START. -/
inductive Setting (τ : Type) where
  | isolation (v : Iso)
  | autocommit (v : Bool)
  | sqlLogOff (v : Bool)
  | timeZone (v : τ)
  | start

namespace Conn
variable (c : Conn τ)

def wantedIsolation : Option Iso := c.wantedSemi.or c.wantedTrx

def apply (c : Conn τ) : Setting τ → Conn τ
  | .isolation v => { c with isolation := v }
  | .autocommit v => { c with autocommit := c.autocommit.set v }
  | .sqlLogOff v => { c with sqlLogOff := c.sqlLogOff.set v }
  | .timeZone v => { c with timeZone := c.timeZone.set v }
  | .start => c

/-- The level that is sent: that of the transaction if it is queued, else the other one. -/
def dueIsolation : Option Iso := (c.queuedSemiTrxIsolation.or c.queuedTrxIsolation).filter fun v => c.trxIsolation ≠ some v

def dueAutocommit (ignore : Bool) : Option Bool :=
  if ignore then if c.autocommit.queued.isSome ∧ c.autocommit.cached = some false then some true else none
  else c.autocommit.due

/-- The text of `spider_db_conn_queue_action`, with `starts` statements that start a transaction. -/
def due (ignore : Bool) (starts : Nat) : List (Setting τ) :=
  c.dueIsolation.toList.map .isolation ++ (c.dueAutocommit ignore).toList.map .autocommit ++
    c.sqlLogOff.due.toList.map .sqlLogOff ++ c.timeZone.due.toList.map .timeZone ++ List.replicate starts .start

/-- The caches after the text has been executed; `session` is `thd_tx_isolation`. -/
def settle (ignore : Bool) (session : Iso) : Conn τ :=
  { c with
    trxIsolation :=
      if c.queuedSemiTrxIsolation = none then c.queuedTrxIsolation.or c.trxIsolation
      else if c.queuedSemiTrxIsolation ≠ c.trxIsolation then some session else c.trxIsolation
    semiTrxIsolation :=
      if c.queuedSemiTrxIsolation ≠ none ∧ c.queuedSemiTrxIsolation ≠ c.trxIsolation then c.queuedSemiTrxIsolation
      else c.semiTrxIsolation
    queuedTrxIsolation := none
    queuedSemiTrxIsolation := none
    autocommit :=
      { c.autocommit with
        cached := (c.autocommit.queued.map (· || ignore)).or c.autocommit.cached, queued := none }
    sqlLogOff := c.sqlLogOff.settle
    timeZone := c.timeZone.settle }

variable (cfg : Config τ)

/-- `spider_db_connect` and `spider_reset_conn_setted_parameter` for a new session `n`. -/
def connect (n : Node τ) : Conn τ :=
  { c with
    queuedConnect := false
    serverLost := false
    isolation := n.isolation
    trxIsolation := cfg.trxIsolation
    autocommit := c.autocommit.connect n.autocommit cfg.autocommit
    sqlLogOff := c.sqlLogOff.connect n.sqlLogOff cfg.sqlLogOff
    timeZone := c.timeZone.connect n.timeZone cfg.timeZone }

/-- How the text before a statement is executed: the session opened, `thd_tx_isolation`, how many statements start a
transaction or succeed, and whether the next loses the connection. -/
structure Exec (τ : Type) where
  session : Option (Node τ)
  txIsolation : Iso
  starts : Nat
  done : Nat
  lost : Bool

def reconnect (e : Exec τ) : Conn τ × Bool :=
  if c.queuedConnect then
    match e.session with
    | some n => (c.connect cfg n, true)
    | none => ({ c with serverLost := true }, false)
  else (c, !c.serverLost)

def flush (e : Exec τ) : Conn τ × Bool :=
  let due := c.due cfg.ignoreAutocommit e.starts
  if due.length ≤ e.done then ((due.foldl apply c).settle cfg.ignoreAutocommit e.txIsolation, true)
  else ({ (due.take e.done).foldl apply c with serverLost := e.lost }, false)

def beforeQuery (e : Exec τ) : Conn τ × Bool :=
  match c.reconnect cfg e with
  | (c, true) => c.flush cfg e
  | (c, false) => (c, false)

def setTrxIsolation (e : Exec τ) (ok lost : Bool) : Conn τ :=
  match c.trxIsolation with
  | none => c
  | some v =>
    match c.beforeQuery cfg e with
    | (c, true) => if ok then { c with isolation := v } else { c with serverLost := lost }
    | (c, false) => c

def endTrx (e : Exec τ) (ok lost : Bool) : Conn τ :=
  let c' :=
    if c.semiTrxIsolation ≠ none ∧ c.trxIsolation ≠ c.semiTrxIsolation ∧ c.serverLost = false ∧
      c.queuedSemiTrxIsolation = none then
      c.setTrxIsolation cfg e ok lost
    else c
  { c' with semiTrxIsolation := none, wantedSemi := none }

def clearQueue : Conn τ :=
  { c with
    queuedTrxIsolation := none
    queuedSemiTrxIsolation := none
    autocommit := c.autocommit.clear
    sqlLogOff := c.sqlLogOff.clear
    timeZone := c.timeZone.clear
    wantedTrx := none
    wantedSemi := none }

end Conn

inductive Op (τ : Type) where
  | queueTrxIsolation (v : Iso)
  | queueSemiTrxIsolation (v : Iso)
  /-- `conn->semi_trx_isolation = -1`. -/
  | noSemi
  | queueAutocommit (v : Bool)
  | queueSqlLogOff (v : Bool)
  | queueTimeZone (v : τ)
  | queueConnect
  | lose
  | statement (e : Conn.Exec τ)
  | endTrx (e : Conn.Exec τ) (ok lost : Bool)
  | release

namespace Conn

def step (cfg : Config τ) (c : Conn τ) (op : Op τ) : Conn τ :=
  let c := { c with sent := false }
  match op with
  | .queueTrxIsolation v => { c with queuedTrxIsolation := some v, wantedTrx := some v, wantedSemi := none }
  | .queueSemiTrxIsolation v => { c with queuedSemiTrxIsolation := some v, wantedSemi := some v }
  | .noSemi => { c with semiTrxIsolation := none }
  | .queueAutocommit v => { c with autocommit := c.autocommit.queue v }
  | .queueSqlLogOff v => { c with sqlLogOff := c.sqlLogOff.queue v }
  | .queueTimeZone v => { c with timeZone := c.timeZone.queue v }
  | .queueConnect => { c with queuedConnect := true }
  | .lose => { c with serverLost := true }
  | .statement e => { (c.beforeQuery cfg e).1 with sent := (c.beforeQuery cfg e).2 }
  | .endTrx e ok lost => c.endTrx cfg e ok lost
  | .release => c.clearQueue

/-- `spider_create_conn`; there is no session at the node yet, its values do not matter. -/
def create (n : Node τ) : Conn τ where
  queuedConnect := true
  serverLost := false
  isolation := n.isolation
  trxIsolation := none
  semiTrxIsolation := none
  queuedTrxIsolation := none
  queuedSemiTrxIsolation := none
  autocommit := ⟨n.autocommit, none, none, none⟩
  sqlLogOff := ⟨n.sqlLogOff, none, none, none⟩
  timeZone := ⟨n.timeZone, none, none, none⟩
  wantedTrx := none
  wantedSemi := none
  sent := false

end Conn

end TSpider.Remote
