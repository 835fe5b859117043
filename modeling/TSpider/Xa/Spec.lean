import TSpider.Xa.Frame

/-!
# Result codes and the local effect of a statement

What a function returns for a connection depends on the record of that connection and on the replies only. The codes are
given here as functions of the record (`queryCode`, `endTrxCode`).
-/

namespace TSpider.Xa
open Lib

/-! ## What a connection sees -/

def State.see (c : ConnId) (st : State) : Conn × Branch × Bool := (st.conn c, st.world.branch c, st.world.trxOpen c)

theorem Touches.see_eq {S : Stmt → Prop} {c d : ConnId} {st st' : State} (h : Touches S (· = c) st st') (hd : d ≠ c) :
    st'.see d = st.see d := by
  simp only [State.see, h.conn d hd, h.branch_eq d hd, h.trxOpen_eq d hd]

section
variable {c : ConnId} {st st' : State} (h : st'.see c = st.see c)
include h

theorem see_conn : st'.conn c = st.conn c :=
  congrArg (fun x => x.1) h

theorem see_branch : st'.world.branch c = st.world.branch c :=
  congrArg (fun x => x.2.1) h

theorem see_trxOpen : st'.world.trxOpen c = st.world.trxOpen c :=
  congrArg (fun x => x.2.2) h

end

/-- The remote session has a branch: connecting and `XA START` are not still in the queue. -/
def Conn.started (k : Conn) : Bool := !k.queuedConnect && !k.queuedXaStart

/-! ## Codes of a statement -/

def errorCode (p : Params) (k : Conn) (e : ShardError) : Nat :=
  if k.ignoreDupKey && isDupEntryError e.num then haErrFoundDuppKey
  else if isXaNotaError e.num && p.forceCommit == 1 then e.num
  else if k.isXaCommitOnePhase then erSpiderXaTimeout
  else e.num

def queryCode (p : Params) (k : Conn) (r : Reply) : Nat :=
  if k.serverLost then erSpiderRemoteServerGoneAway
  else match r with
    | .ack => 0
    | .refused e => errorCode p k e
    | .lost _ => erSpiderRemoteServerGoneAway

def Conn.queried (k : Conn) : Reply → Conn
  | .lost _ => { k with serverLost := true }
  | _ => k

section Statement
variable (p : Params) (env : Env) (c : ConnId) (s : Stmt) (st : State)

theorem dbErrorno_fst (k : Conn) (e : ShardError) : (dbErrorno p k e st).1 = errorCode p k e := by
  unfold dbErrorno errorCode
  split_ifs <;> rfl

theorem errorCode_ne_zero (k : Conn) (e : ShardError) : errorCode p k e ≠ 0 := by
  unfold errorCode
  have := e.ne_zero
  split_ifs <;> first | assumption | decide

theorem queryCode_eq_zero {k : Conn} {r : Reply} : queryCode p k r = 0 ↔ k.serverLost = false ∧ r = .ack := by
  unfold queryCode
  by_cases hl : k.serverLost = true
  · simp [hl, erSpiderRemoteServerGoneAway]
  · cases r with
    | ack => simp [hl]
    | refused e => simp [hl, errorCode_ne_zero]
    | lost effect => simp [hl, erSpiderRemoteServerGoneAway]

theorem dbQuery_fst : (dbQuery p env c s st).1 = queryCode p (st.conn c) (env.reply c s) := by
  unfold dbQuery queryCode
  split_ifs with hl
  · rfl
  · cases env.reply c s with
    | ack => rfl
    | refused e => exact dbErrorno_fst p _ _ e
    | lost effect => rfl

theorem dbQuery_ack (hl : (st.conn c).serverLost = false) (hr : env.reply c s = .ack) :
    dbQuery p env c s st = (0, st.issue c s .ack) := by
  simp [dbQuery, hl, hr]

@[simp] theorem issue_conn (r : Reply) : (st.issue c s r).conn = st.conn := rfl
@[simp] theorem issue_world (r : Reply) : (st.issue c s r).world = st.world.after c s r := rfl
@[simp] theorem issue_isError (r : Reply) : (st.issue c s r).isError = st.isError := rfl
@[simp] theorem issue_trace (r : Reply) :
    (st.issue c s r).trace = st.trace ++ [⟨st.world, st.log, .stmt c s (some r)⟩] := rfl

theorem dbErrorno_conn (k : Conn) (e : ShardError) : (dbErrorno p k e st).2.conn = st.conn := by
  unfold dbErrorno
  split_ifs <;> rfl

theorem dbErrorno_world (k : Conn) (e : ShardError) : (dbErrorno p k e st).2.world = st.world := by
  unfold dbErrorno
  split_ifs <;> rfl

theorem dbErrorno_trace (k : Conn) (e : ShardError) : (dbErrorno p k e st).2.trace = st.trace := by
  unfold dbErrorno
  split_ifs <;> rfl

theorem loseConn_conn : (st.loseConn c).conn c = { st.conn c with serverLost := true } := by
  unfold State.loseConn
  split_ifs <;> simp [State.myMessage]

theorem loseConn_world : (st.loseConn c).world = st.world := by
  unfold State.loseConn
  split_ifs <;> rfl

theorem loseConn_trace : (st.loseConn c).trace = st.trace := by
  unfold State.loseConn
  split_ifs <;> rfl

theorem dbQuery_sent (hl : (st.conn c).serverLost = false) :
    (dbQuery p env c s st).2.conn c = (st.conn c).queried (env.reply c s) ∧
      (dbQuery p env c s st).2.world = st.world.after c s (env.reply c s) ∧
      (dbQuery p env c s st).2.trace = st.trace ++ [⟨st.world, st.log, .stmt c s (some (env.reply c s))⟩] := by
  unfold dbQuery
  rw [if_neg (by simp [hl])]
  cases env.reply c s with
  | ack => exact ⟨rfl, rfl, rfl⟩
  | refused e =>
    exact ⟨by rw [dbErrorno_conn]; rfl, by rw [dbErrorno_world]; rfl, by rw [dbErrorno_trace]; rfl⟩
  | lost effect =>
    exact ⟨by rw [loseConn_conn]; rfl, by rw [loseConn_world]; rfl, by rw [loseConn_trace]; rfl⟩

theorem dbQuery_not_sent (hl : (st.conn c).serverLost = true) :
    (dbQuery p env c s st).2.conn c = st.conn c ∧ (dbQuery p env c s st).2.world = st.world ∧
      (dbQuery p env c s st).2.trace = st.trace ++ [⟨st.world, st.log, .stmt c s none⟩] := by
  unfold dbQuery
  rw [if_pos hl]
  exact ⟨rfl, rfl, rfl⟩

theorem dbPacket_fst : (dbPacket p env c s st).1 = queryCode p (st.conn c) (env.reply c s) := by
  unfold dbPacket
  dsimp only
  split_ifs <;> exact dbQuery_fst p env c s st

theorem dbPacket_eq : (dbPacket p env c s st).2.conn = (dbQuery p env c s st).2.conn ∧
    (dbPacket p env c s st).2.world = (dbQuery p env c s st).2.world ∧
    (dbPacket p env c s st).2.trace = (dbQuery p env c s st).2.trace := by
  unfold dbPacket
  dsimp only
  split_ifs <;> exact ⟨rfl, rfl, rfl⟩

theorem dbPacket_ack (hl : (st.conn c).serverLost = false) (hr : env.reply c s = .ack) :
    dbPacket p env c s st = (0, st.issue c s .ack) := by
  simp [dbPacket, dbQuery_ack p env c s st hl hr, hl]

end Statement

/-! ## `spider_end_trx` -/

def Conn.unlocks (k : Conn) : Bool := k.tableLock == 3 && !k.serverLost && k.tableLocked

def Conn.unlocked (k : Conn) (r : Reply) : Conn :=
  if k.tableLock = 3 then
    let k := { k with tableLock := 0, disableReconnect := false }
    if !k.serverLost && k.tableLocked then { k with tableLocked := false }.queried r else k
  else if k.tableLock = 0 then { k with disableReconnect := false }
  else k

/-- The code of `UNLOCK TABLES`; a connection that goes away is no error. -/
def unlockCode (p : Params) (k : Conn) (r : Reply) : Nat :=
  if k.unlocks = true ∧ queryCode p k r ≠ erSpiderRemoteServerGoneAway then queryCode p k r else 0

def endTrxCode (p : Params) (env : Env) (c : ConnId) (k : Conn) : Nat :=
  let u := k.unlocked (env.reply c .unlockTables)
  let n := queryCode p u (env.reply c .setTrxIsolation)
  if restoresIsolation u then
    if u.disableReconnect = false ∧ n = erSpiderRemoteServerGoneAway then 0 else n
  else unlockCode p k (env.reply c .unlockTables)

section EndTrx
variable (p : Params) (env : Env) (c : ConnId) (st : State)

theorem dbQuery_conn (s : Stmt) (hl : (st.conn c).serverLost = false) :
    (dbQuery p env c s st).2.conn c = (st.conn c).queried (env.reply c s) := (dbQuery_sent p env c s st hl).1

theorem queryCode_congr {k u : Conn} (h1 : u.serverLost = k.serverLost) (h2 : u.ignoreDupKey = k.ignoreDupKey)
    (h3 : u.isXaCommitOnePhase = k.isXaCommitOnePhase) (r : Reply) : queryCode p u r = queryCode p k r := by
  unfold queryCode
  rw [h1]
  cases r <;> simp [errorCode, h2, h3]

theorem endTrxLock_spec : (endTrxLock p env c st).1 = unlockCode p (st.conn c) (env.reply c .unlockTables) ∧
    (endTrxLock p env c st).2.conn c = (st.conn c).unlocked (env.reply c .unlockTables) := by
  unfold endTrxLock Conn.unlocked unlockCode Conn.unlocks
  by_cases h3 : (st.conn c).tableLock = 3
  · by_cases hl : (st.conn c).serverLost = true
    · simp [h3, hl]
    · by_cases hk : (st.conn c).tableLocked = true
      · have hcode := queryCode_congr p (k := st.conn c)
          (u := { st.conn c with tableLock := 0, disableReconnect := false, tableLocked := false }) rfl rfl rfl
        simp only [h3, hl, hk, dbUnlockTables, setConn_conn_self]
        simp only [if_true, Bool.false_eq_true, if_false, dbQuery_fst, setConn_conn_self, Bool.not_false,
          Bool.and_self, true_and, beq_self_eq_true]
        constructor
        · split_ifs <;> simp_all [dbQuery_fst]
        · split_ifs <;> simp [dbQuery_conn]
      · simp [h3, hl, hk, dbUnlockTables, erSpiderRemoteServerGoneAway]
  · by_cases h0 : (st.conn c).tableLock = 0
    · simp [h0]
    · simp [h3, h0]

theorem endTrx_fst : (endTrx p env c st).1 = endTrxCode p env c (st.conn c) := by
  obtain ⟨hcode, hconn⟩ := endTrxLock_spec p env c st
  unfold endTrx endTrxIsolation endTrxCode
  rw [hconn]
  by_cases hr : restoresIsolation ((st.conn c).unlocked (env.reply c .unlockTables)) = true
  · have hl : ((endTrxLock p env c st).2.conn c).serverLost = false := by
      rw [hconn]
      simp only [restoresIsolation, Bool.and_eq_true, Bool.not_eq_true'] at hr
      exact hr.1.2
    have hd : ((dbQuery p env c .setTrxIsolation (endTrxLock p env c st).2).2.conn c).disableReconnect =
        ((st.conn c).unlocked (env.reply c .unlockTables)).disableReconnect := by
      rw [dbQuery_conn p env c _ _ hl, hconn]
      cases env.reply c .setTrxIsolation <;> rfl
    simp only [hr, if_true, dbQuery_fst, hconn, hd, Bool.and_eq_true, Bool.not_eq_true', beq_iff_eq]
    split_ifs <;> simp [dbQuery_fst, hconn]
  · simp [hr, hcode]

theorem restoreDastatus_fst_eq_zero {da : Bool} {r : Nat × State} :
    (restoreDastatus da c r).1 = 0 ↔ r.1 = 0 ∨ (r.2.conn c).errorMode = true := by
  unfold restoreDastatus
  by_cases h0 : r.1 = 0
  · simp [h0]
  · by_cases he : (r.2.conn c).errorMode = true <;> simp [h0, he]

end EndTrx

/-! ## Log tables -/

structure LogsOnly (st st' : State) : Prop where
  trx : st'.trx = st.trx
  conn : st'.conn = st.conn
  world : st'.world = st.world
  pool : st'.pool = st.pool
  nullDeref : st'.nullDeref = st.nullDeref
  trace : ∃ tr, st'.trace = st.trace ++ tr ∧ ∀ e ∈ tr, e.action = .logWrite ∧ e.world = st.world

section Log
variable (p : Params) (env : Env) (a : LogAccess) (st : State)

theorem LogsOnly.refl : LogsOnly st st := ⟨rfl, rfl, rfl, rfl, rfl, [], by simp, by simp⟩

variable {st} in
theorem LogsOnly.trans {st' st'' : State} (h : LogsOnly st st') (h' : LogsOnly st' st'') : LogsOnly st st'' := by
  obtain ⟨tr, htr, hev⟩ := h.trace
  obtain ⟨tr', htr', hev'⟩ := h'.trace
  refine ⟨h'.trx.trans h.trx, h'.conn.trans h.conn, h'.world.trans h.world, h'.pool.trans h.pool,
    h'.nullDeref.trans h.nullDeref, tr ++ tr', by rw [htr', htr, List.append_assoc], fun e he => ?_⟩
  rcases List.mem_append.mp he with he | he
  · exact hev e he
  · exact ⟨(hev' e he).1, (hev' e he).2.trans h.world⟩

theorem LogsOnly.myMessage : LogsOnly st st.myMessage := { LogsOnly.refl st with }

theorem logOpen_fst : (logOpen env a st).1 = 0 ↔ env.log a = none := by
  unfold logOpen
  cases env.log a with
  | none => simp
  | some e => simp [e.ne_zero]

theorem logOpen_ok (h : env.log a = none) : logOpen env a st = (0, st) := by simp [logOpen, h]

theorem logOpen_only : LogsOnly st (logOpen env a st).2 := by
  unfold logOpen
  cases env.log a with
  | none => exact .refl _
  | some e => exact .myMessage _

theorem logOpen_log : (logOpen env a st).2.log = st.log := by
  unfold logOpen
  cases env.log a <;> rfl

theorem logAccess_fst (write : Log → Log) : (logAccess env a write st).1 = 0 ↔ env.log a = none := by
  unfold logAccess
  cases env.log a with
  | none => simp
  | some e => simp [e.ne_zero]

theorem logAccess_ok (write : Log → Log) (h : env.log a = none) :
    logAccess env a write st = (0, { st.record .logWrite with log := write st.log }) := by simp [logAccess, h]

theorem logAccess_only (write : Log → Log) : LogsOnly st (logAccess env a write st).2 := by
  unfold logAccess
  cases env.log a with
  | none => exact { LogsOnly.refl st with trace := ⟨_, rfl, by simp⟩ }
  | some e => exact .myMessage _

theorem xaNotExists_only : LogsOnly st (xaNotExists st).2 := .myMessage _

theorem andThen_only {r : Nat × State} {k : State → Nat × State} (hr : LogsOnly st r.2)
    (hk : ∀ t, LogsOnly t (k t).2) : LogsOnly st (andThen r k).2 :=
  andThen_rule hr fun _ h => h.trans (hk _)

theorem insertXa_only (status : XaStatus) : LogsOnly st (insertXa env status st).2 := by
  unfold insertXa
  cases st.log.xa st.trx.xid with
  | none => exact logAccess_only env _ st _
  | some _ => exact logOpen_only env _ st

theorem insertXaMember_only (c : ConnId) : LogsOnly st (insertXaMember env c st).2 := by
  unfold insertXaMember
  split_ifs
  · exact logOpen_only env _ st
  · exact logAccess_only env _ st _

theorem updateXa_only (status : XaStatus) : LogsOnly st (updateXa env a status st).2 := by
  unfold updateXa
  cases st.log.xa st.trx.xid with
  | none => exact andThen_only st (logOpen_only env a st) xaNotExists_only
  | some _ => exact logAccess_only env _ st _

theorem deleteXa_only : LogsOnly st (deleteXa env st).2 := by
  unfold deleteXa
  cases st.log.xa st.trx.xid with
  | none => exact andThen_only st (logOpen_only env _ st) xaNotExists_only
  | some _ => exact logAccess_only env _ st _

theorem checkXaRow_only : LogsOnly st (checkXaRow env a st).2 := by
  refine andThen_only st (logOpen_only env a st) fun t => ?_
  cases t.log.xa t.trx.xid with
  | none => exact xaNotExists_only t
  | some _ => exact .refl _

theorem checkXaStatus_only (other : XaStatus) : LogsOnly st (checkXaStatus p env a other st).2 := by
  unfold checkXaStatus
  split_ifs
  · exact .refl _
  · refine andThen_only st (logOpen_only env a st) fun t => ?_
    split_ifs
    · exact .refl _
    · exact .myMessage _

theorem restoreDastatus_only {da : Bool} {c : ConnId} {r : Nat × State} (hr : LogsOnly st r.2) :
    LogsOnly st (restoreDastatus da c r).2 := by
  unfold restoreDastatus
  split_ifs
  · exact { hr with }
  · exact hr
  · exact hr

theorem prepareLog_only : LogsOnly st (prepareLog p env st).2 := by
  unfold prepareLog
  split_ifs
  · refine andThen_only st (logOpen_only env _ st) fun t => andThen_only t (insertXa_only env t _) fun u =>
      andThen_only u (logOpen_only env _ u) fun w => ?_
    exact untilError_invariant
      (fun c _ x hx => hx.trans (restoreDastatus_only x (insertXaMember_only env x c))) (.refl _)
  · exact .refl _

theorem preparedLog_only : LogsOnly st (preparedLog p env st).2 := by
  unfold preparedLog
  split_ifs
  · exact andThen_only st (logOpen_only env _ st) fun t => updateXa_only env _ t _
  · exact .refl _

theorem commitLog_only : LogsOnly st (commitLog p env st).2 := by
  unfold commitLog
  split_ifs
  · exact andThen_only st (logOpen_only env _ st) fun t => andThen_only t (checkXaRow_only env _ t) fun u =>
      andThen_only u (checkXaStatus_only p env _ u _) fun w => updateXa_only env _ w _
  · exact .refl _

theorem deleteRows_only : LogsOnly st (deleteRows env st).2 :=
  andThen_only st (logOpen_only env _ st) fun t => andThen_only t (logAccess_only env _ t _) fun u =>
    andThen_only u (logOpen_only env _ u) fun w => deleteXa_only env w

theorem deleteLog_only : LogsOnly st (deleteLog p env st).2 := by
  unfold deleteLog
  split_ifs
  · exact deleteRows_only env st
  · exact .refl _

theorem rollbackLog_only : LogsOnly st (rollbackLog p env st).2 := by
  unfold rollbackLog
  split_ifs
  · exact andThen_only st (logOpen_only env _ st) fun t => andThen_only t (checkXaRow_only env _ t) fun u =>
      andThen_only u (checkXaStatus_only p env _ u _) fun w => updateXa_only env _ w _
  · exact .refl _

theorem rollbackDeleteLog_only (joined : List ConnId) : LogsOnly st (rollbackDeleteLog p env joined st).2 := by
  unfold rollbackDeleteLog
  split_ifs
  · exact deleteRows_only env st
  · exact .refl _

end Log

end TSpider.Xa
