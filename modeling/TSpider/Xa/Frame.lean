import TSpider.Xa.Trx
import Mathlib.Logic.Relation

/-!
# What the statements on a connection leave alone

* `Branch.Reach S` : how a branch can change while statements of `S` are sent to its connection;
* `Conn.Later` : the fields of a connection that ending a transaction keeps;
* `Touches S C st st'` : from `st` to `st'` only statements of `S` were issued, only on connections of `C`; the handle, the
  log and the pool are as before.
-/

namespace TSpider.Xa
open Lib Branch World Stmt

/-! ## Branches -/

/-- A statement of `S` is executed, the session of the branch goes away, or the shard does not know the branch. -/
inductive Branch.Step (S : Stmt → Prop) : Branch → Branch → Prop where
  | exec (b : Branch) (s : Stmt) (hs : S s) : Step S b (s.onBranch b)
  | detach (b : Branch) : Step S b b.detach
  | forget (b : Branch) : Step S b b.forget

def Branch.Reach (S : Stmt → Prop) : Branch → Branch → Prop := Relation.ReflTransGen (Step S)

section Branch
variable {S S' : Stmt → Prop} {a b b' : Branch}

theorem Branch.Reach.refl (b : Branch) : Reach S b b := Relation.ReflTransGen.refl

theorem Branch.Reach.single (h : Step S a b) : Reach S a b := Relation.ReflTransGen.single h

theorem Branch.Reach.trans (h : Reach S a b) (h' : Reach S b b') : Reach S a b' :=
  Relation.ReflTransGen.trans h h'

theorem Branch.Step.mono (hS : ∀ s, S s → S' s) (h : Step S b b') : Step S' b b' := by
  cases h with
  | exec s hs => exact .exec _ s (hS s hs)
  | detach => exact .detach _
  | forget => exact .forget _

theorem Branch.Reach.mono (hS : ∀ s, S s → S' s) (h : Reach S b b') : Reach S' b b' := by
  induction h with
  | refl => exact .refl _
  | tail _ hstep ih => exact Relation.ReflTransGen.tail ih (hstep.mono hS)

theorem Branch.Reach.stays {P : Branch → Prop} (hP : ∀ a b, Step S a b → P a → P b) (h : Reach S b b') : P b → P b' := by
  intro hb
  induction h with
  | refl => exact hb
  | tail _ hstep ih => exact hP _ _ hstep ih

theorem Branch.Step.of_committed (h : Step S .committed b) : b = .committed := by
  cases h with
  | exec s _ => cases s <;> rfl
  | detach => rfl
  | forget => rfl

theorem Branch.Reach.committed (h : Reach S .committed b) : b = .committed :=
  h.stays (P := (· = .committed)) (fun _ _ hstep ha => by subst ha; exact hstep.of_committed) rfl

theorem Branch.Step.to_committed (hS : ∀ s, S s → s ≠ .xaCommit ∧ s ≠ .xaCommitOnePhase)
    (h : Branch.Step S b .committed) : b = .committed := by
  generalize ht : Branch.committed = t at h
  cases h with
  | exec s hs =>
    obtain ⟨h1, h2⟩ := hS s hs
    cases b <;> cases s <;> simp_all [onBranch]
  | detach => cases b <;> simp_all [Branch.detach]
  | forget => cases b <;> simp_all [Branch.forget]

theorem Branch.Reach.committed_of (hS : ∀ s, S s → s ≠ .xaCommit ∧ s ≠ .xaCommitOnePhase)
    (h : Reach S b b') (hb : b ≠ .committed) : b' ≠ .committed :=
  h.stays (P := (· ≠ .committed)) (fun _ _ hstep ha heq => ha (by subst heq; exact hstep.to_committed hS)) hb

theorem Branch.Step.to_prepared (hS : ∀ s, S s → s ≠ .xaEndAndPrepare) (h : Branch.Step S b .prepared) : b = .prepared := by
  generalize ht : Branch.prepared = t at h
  cases h with
  | exec s hs =>
    have h1 := hS s hs
    cases b <;> cases s <;> simp_all [onBranch]
  | detach => cases b <;> simp_all [Branch.detach]
  | forget => cases b <;> simp_all [Branch.forget]

theorem Branch.Reach.prepared_of (hS : ∀ s, S s → s ≠ .xaEndAndPrepare) (h : Reach S b b')
    (hb : b ≠ .prepared) : b' ≠ .prepared :=
  h.stays (P := (· ≠ .prepared)) (fun _ _ hstep ha heq => ha (by subst heq; exact hstep.to_prepared hS)) hb

end Branch

/-! ## Connections -/

structure Conn.Later (k k' : Conn) : Prop where
  disableXa : k'.disableXa = k.disableXa
  errorMode : k'.errorMode = k.errorMode
  openedHandlers : k'.openedHandlers = k.openedHandlers
  ignoreDupKey : k'.ignoreDupKey = k.ignoreDupKey
  queuedConnect : k'.queuedConnect = k.queuedConnect
  queuedXaStart : k'.queuedXaStart = k.queuedXaStart
  queuedTrxStart : k'.queuedTrxStart = k.queuedTrxStart
  queuedAutocommit : k'.queuedAutocommit = k.queuedAutocommit
  autocommit : k'.autocommit = k.autocommit
  serverLost : k.serverLost = true → k'.serverLost = true
  tableLock : k.tableLock = 0 → k'.tableLock = 0

theorem Conn.Later.refl (k : Conn) : Conn.Later k k := ⟨rfl, rfl, rfl, rfl, rfl, rfl, rfl, rfl, rfl, id, id⟩

theorem Conn.Later.trans {k k' k'' : Conn} (h : Conn.Later k k') (h' : Conn.Later k' k'') : Conn.Later k k'' where
  disableXa := h'.disableXa.trans h.disableXa
  errorMode := h'.errorMode.trans h.errorMode
  openedHandlers := h'.openedHandlers.trans h.openedHandlers
  ignoreDupKey := h'.ignoreDupKey.trans h.ignoreDupKey
  queuedConnect := h'.queuedConnect.trans h.queuedConnect
  queuedXaStart := h'.queuedXaStart.trans h.queuedXaStart
  queuedTrxStart := h'.queuedTrxStart.trans h.queuedTrxStart
  queuedAutocommit := h'.queuedAutocommit.trans h.queuedAutocommit
  autocommit := h'.autocommit.trans h.autocommit
  serverLost := fun hk => h'.serverLost (h.serverLost hk)
  tableLock := fun hk => h'.tableLock (h.tableLock hk)

section setConn
variable (st : State) (c d : ConnId) (k : Conn)

@[simp] theorem setConn_conn_self : (st.setConn c k).conn c = k := by simp [State.setConn]

theorem setConn_conn_ne (h : d ≠ c) : (st.setConn c k).conn d = st.conn d := by simp [State.setConn, h]

@[simp] theorem setConn_trx : (st.setConn c k).trx = st.trx := rfl
@[simp] theorem setConn_log : (st.setConn c k).log = st.log := rfl
@[simp] theorem setConn_world : (st.setConn c k).world = st.world := rfl
@[simp] theorem setConn_trace : (st.setConn c k).trace = st.trace := rfl
@[simp] theorem setConn_pool : (st.setConn c k).pool = st.pool := rfl
@[simp] theorem setConn_isError : (st.setConn c k).isError = st.isError := rfl
@[simp] theorem setConn_nullDeref : (st.setConn c k).nullDeref = st.nullDeref := rfl

end setConn

/-! ## The frame -/

structure Issued (S : Stmt → Prop) (C : ConnId → Prop) (st : State) (e : Event) : Prop where
  log : e.log = st.log
  stmt : ∃ c s r, C c ∧ S s ∧ e.action = .stmt c s r
  branch_eq : ∀ d, ¬ C d → e.world.branch d = st.world.branch d
  branch : ∀ d, Reach S (st.world.branch d) (e.world.branch d)

/-- From `st` to `st'` only statements of `S` were issued, and only on connections of `C`. -/
structure Touches (S : Stmt → Prop) (C : ConnId → Prop) (st st' : State) : Prop where
  trx : st'.trx = st.trx
  log : st'.log = st.log
  pool : st'.pool = st.pool
  nullDeref : st'.nullDeref = st.nullDeref
  conn : ∀ d, ¬ C d → st'.conn d = st.conn d
  later : ∀ d, Conn.Later (st.conn d) (st'.conn d)
  branch_eq : ∀ d, ¬ C d → st'.world.branch d = st.world.branch d
  trxOpen_eq : ∀ d, ¬ C d → st'.world.trxOpen d = st.world.trxOpen d
  branch : ∀ d, Reach S (st.world.branch d) (st'.world.branch d)
  trxOpen : ∀ d, st'.world.trxOpen d = true → st.world.trxOpen d = true
  autocommit : st'.world.autocommit = st.world.autocommit
  trace : ∃ tr, st'.trace = st.trace ++ tr ∧ ∀ e ∈ tr, Issued S C st e

section Touches
variable {S S' : Stmt → Prop} {C C' : ConnId → Prop} {st st' st'' : State}

theorem Touches.refl (st : State) : Touches S C st st where
  trx := rfl
  log := rfl
  pool := rfl
  nullDeref := rfl
  conn _ _ := rfl
  later _ := .refl _
  branch_eq _ _ := rfl
  trxOpen_eq _ _ := rfl
  branch _ := .refl _
  trxOpen _ := id
  autocommit := rfl
  trace := ⟨[], by simp, by simp⟩

theorem Issued.mono {e : Event} (h : Issued S C st e) (hS : ∀ s, S s → S' s) (hC : ∀ c, C c → C' c) : Issued S' C' st e := by
  obtain ⟨c, s, r, hc, hs, ha⟩ := h.stmt
  exact {
    log := h.log
    stmt := ⟨c, s, r, hC c hc, hS s hs, ha⟩
    branch_eq := fun d hd => h.branch_eq d fun hd' => hd (hC d hd')
    branch := fun d => (h.branch d).mono hS }

theorem Touches.mono (h : Touches S C st st') (hS : ∀ s, S s → S' s) (hC : ∀ c, C c → C' c) : Touches S' C' st st' := by
  obtain ⟨tr, htr, hev⟩ := h.trace
  exact { h with
    conn := fun d hd => h.conn d fun hd' => hd (hC d hd')
    branch_eq := fun d hd => h.branch_eq d fun hd' => hd (hC d hd')
    trxOpen_eq := fun d hd => h.trxOpen_eq d fun hd' => hd (hC d hd')
    branch := fun d => (h.branch d).mono hS
    trace := ⟨tr, htr, fun e he => (hev e he).mono hS hC⟩ }

theorem Issued.after {e : Event} (h : Touches S C st st') (he : Issued S C st' e) : Issued S C st e where
  log := he.log.trans h.log
  stmt := he.stmt
  branch_eq d hd := (he.branch_eq d hd).trans (h.branch_eq d hd)
  branch d := (h.branch d).trans (he.branch d)

theorem Touches.trans (h : Touches S C st st') (h' : Touches S C st' st'') : Touches S C st st'' := by
  obtain ⟨tr, htr, hev⟩ := h.trace
  obtain ⟨tr', htr', hev'⟩ := h'.trace
  refine {
    trx := h'.trx.trans h.trx
    log := h'.log.trans h.log
    pool := h'.pool.trans h.pool
    nullDeref := h'.nullDeref.trans h.nullDeref
    conn := fun d hd => (h'.conn d hd).trans (h.conn d hd)
    later := fun d => (h.later d).trans (h'.later d)
    branch_eq := fun d hd => (h'.branch_eq d hd).trans (h.branch_eq d hd)
    trxOpen_eq := fun d hd => (h'.trxOpen_eq d hd).trans (h.trxOpen_eq d hd)
    branch := fun d => (h.branch d).trans (h'.branch d)
    trxOpen := fun d hd => h.trxOpen d (h'.trxOpen d hd)
    autocommit := h'.autocommit.trans h.autocommit
    trace := ⟨tr ++ tr', by rw [htr', htr, List.append_assoc], fun e he => ?_⟩ }
  rcases List.mem_append.mp he with he | he
  · exact hev e he
  · exact (hev' e he).after h

theorem Touches.setIsError (st : State) (b : Bool) : Touches S C st { st with isError := b } :=
  { Touches.refl st with }

theorem Touches.myMessage (st : State) : Touches S C st st.myMessage := .setIsError st true

theorem Touches.guard {r : Nat × State} {b : Prop} [Decidable b] (h : Touches S C st r.2) :
    Touches S C st (if b then r else (0, st)).2 := by
  split_ifs
  · exact h
  · exact .refl st

theorem Touches.setConn {c : ConnId} (hc : C c) {k : Conn} (hk : Conn.Later (st.conn c) k) :
    Touches S C st (st.setConn c k) :=
  { Touches.refl st with
    conn := fun d hd => setConn_conn_ne st c d k fun h => hd (h ▸ hc)
    later := fun d => by
      by_cases h : d = c
      · subst h; simpa using hk
      · rw [setConn_conn_ne st c d k h]; exact .refl _
    trace := ⟨[], by simp, by simp⟩ }

end Touches

/-! ## The shards after a reply -/

section World
variable (w : World) {c d : ConnId} (s : Stmt) (r : Reply)

theorem after_branch_ne (h : d ≠ c) : (w.after c s r).branch d = w.branch d := by
  cases r with
  | ack => simp [after, exec, h]
  | refused e => by_cases he : e.num = erXaerNota <;> simp [after, nota, he, h]
  | lost effect => cases effect <;> simp [after, exec, disconnect, h]

theorem after_trxOpen_ne (h : d ≠ c) : (w.after c s r).trxOpen d = w.trxOpen d := by
  cases r with
  | ack => simp [after, exec, h]
  | refused e => by_cases he : e.num = erXaerNota <;> simp [after, nota, he]
  | lost effect => cases effect <;> simp [after, exec, disconnect, h]

@[simp] theorem after_ack_branch (c : ConnId) : (w.after c s .ack).branch c = s.onBranch (w.branch c) := by
  simp [after, exec]

@[simp] theorem after_lost_branch (c : ConnId) (effect : Bool) :
    (w.after c s (.lost effect)).branch c = (if effect then s.onBranch (w.branch c) else w.branch c).detach := by
  cases effect <;> simp [after, exec, disconnect]

theorem after_refused_branch (c : ConnId) (e : ShardError) :
    (w.after c s (.refused e)).branch c = if e.num = erXaerNota then (w.branch c).forget else w.branch c := by
  by_cases he : e.num = erXaerNota <;> simp [after, nota, he]

theorem after_branch_reach {S : Stmt → Prop} (hs : S s) (c d : ConnId) : Reach S (w.branch d) ((w.after c s r).branch d) := by
  by_cases h : d = c
  · subst h
    have hexec : Reach S (w.branch d) (s.onBranch (w.branch d)) := .single (.exec _ s hs)
    cases r with
    | ack => simpa using hexec
    | refused e =>
      rw [after_refused_branch]
      split
      · exact .single (.forget _)
      · exact .refl _
    | lost effect =>
      rw [after_lost_branch]
      cases effect with
      | false => exact .single (.detach _)
      | true => exact Reach.trans hexec (.single (.detach _))
  · rw [after_branch_ne w s r h]
    exact .refl _

theorem after_trxOpen (c d : ConnId) : (w.after c s r).trxOpen d = true → w.trxOpen d = true := by
  by_cases h : d = c
  · subst h
    cases r with
    | ack =>
      intro hopen
      simp only [after, exec, Function.update_self, Bool.and_eq_true] at hopen
      exact hopen.1
    | refused e => by_cases he : e.num = erXaerNota <;> simp [after, nota, he]
    | lost effect => cases effect <;> simp [after, exec, disconnect]
  · rw [after_trxOpen_ne w s r h]
    exact id

theorem after_autocommit (c : ConnId) : (w.after c s r).autocommit = w.autocommit := by
  cases r with
  | ack => rfl
  | refused e => by_cases he : e.num = erXaerNota <;> simp [after, nota, he]
  | lost effect => cases effect <;> rfl

end World

/-! ## The functions -/

section Functions
variable {S : Stmt → Prop} {C : ConnId → Prop} (p : Params) (env : Env) {c : ConnId} (hc : C c) (st : State)
include hc

theorem touches_record {s : Stmt} (hs : S s) (r : Option Reply) : Touches S C st (st.record (.stmt c s r)) := by
  have hrefl : Touches S C st st := .refl st
  have hevent : Issued S C st ⟨st.world, st.log, .stmt c s r⟩ :=
    ⟨rfl, ⟨c, s, r, hc, hs, rfl⟩, fun _ _ => rfl, fun _ => .refl _⟩
  exact { hrefl with trace := ⟨_, rfl, by simpa using hevent⟩ }

theorem touches_issue {s : Stmt} (hs : S s) (r : Reply) : Touches S C st (st.issue c s r) :=
  { touches_record hc st hs (some r) with
    branch_eq := fun _ hd => after_branch_ne _ _ _ fun h => hd (h ▸ hc)
    trxOpen_eq := fun _ hd => after_trxOpen_ne _ _ _ fun h => hd (h ▸ hc)
    branch := fun d => after_branch_reach _ _ _ hs _ d
    trxOpen := fun d => after_trxOpen _ _ _ _ d
    autocommit := after_autocommit _ _ _ c }

theorem touches_loseConn : Touches S C st (st.loseConn c) := by
  have hset : Touches S C st (st.setConn c { st.conn c with serverLost := true }) :=
    .setConn hc { Conn.Later.refl (st.conn c) with serverLost := fun _ => rfl }
  unfold State.loseConn
  split_ifs
  · exact hset.trans (.myMessage _)
  · exact hset

omit hc in
theorem dbErrorno_touches (k : Conn) (e : ShardError) : Touches S C st (dbErrorno p k e st).2 := by
  unfold dbErrorno
  split_ifs
  · exact .refl _
  · exact .refl _
  · exact .myMessage _
  · exact .myMessage _

theorem dbQuery_touches {s : Stmt} (hs : S s) : Touches S C st (dbQuery p env c s st).2 := by
  unfold dbQuery
  split_ifs with hlost
  · exact (touches_record hc st hs none).trans (.myMessage _)
  · cases env.reply c s with
    | ack => exact touches_issue hc st hs .ack
    | refused e => exact (touches_issue hc st hs _).trans (dbErrorno_touches p _ _ e)
    | lost effect => exact (touches_issue hc st hs _).trans (touches_loseConn hc _)

theorem dbPacket_touches {s : Stmt} (hs : S s) : Touches S C st (dbPacket p env c s st).2 := by
  unfold dbPacket
  dsimp only
  split_ifs
  · exact (dbQuery_touches p env hc st hs).trans (.myMessage _)
  · exact dbQuery_touches p env hc st hs

theorem dbXaEnd_touches (hs : S .xaEnd) : Touches S C st (dbXaEnd p env c st).2 :=
  (dbQuery_touches p env hc st hs).guard

theorem dbXaEndAndPrepare_touches (hs : S .xaEndAndPrepare) : Touches S C st (dbXaEndAndPrepare p env c st).2 := by
  unfold dbXaEndAndPrepare
  split_ifs
  · exact .myMessage _
  · exact dbPacket_touches p env hc st hs
  · exact .refl _

theorem dbXaCommit_touches (hs : S .xaCommit) : Touches S C st (dbXaCommit p env c st).2 :=
  (dbQuery_touches p env hc st hs).guard

theorem dbXaCommitOnePhase_touches (hs : S .xaCommitOnePhase) : Touches S C st (dbXaCommitOnePhase p env c st).2 := by
  have hset : Touches S C st (st.setConn c { st.conn c with isXaCommitOnePhase := true }) :=
    .setConn hc { Conn.Later.refl (st.conn c) with }
  exact (hset.trans (dbPacket_touches p env hc _ hs)).guard

theorem dbXaRollback_touches (hs : S .xaRollback) : Touches S C st (dbXaRollback p env c st).2 :=
  (dbQuery_touches p env hc st hs).guard

theorem dbTrxEnded_touches {r : Nat × State} (hr : Touches S C st r.2) : Touches S C st (dbTrxEnded c r).2 := by
  unfold dbTrxEnded
  split_ifs
  · exact hr.trans (.setConn hc { Conn.Later.refl (r.2.conn c) with })
  · exact hr

theorem dbCommit_touches (hs : S .commit) : Touches S C st (dbCommit p env c st).2 := by
  unfold dbCommit
  split_ifs
  · exact .myMessage _
  · exact dbTrxEnded_touches hc st (dbQuery_touches p env hc st hs)
  · exact dbTrxEnded_touches hc st (.refl _)
  · exact dbTrxEnded_touches hc st (.refl _)

theorem dbRollback_touches {s : Stmt} (hs : S s) : Touches S C st (dbRollback p env c s st).2 := by
  unfold dbRollback
  split_ifs
  · refine dbTrxEnded_touches hc st ?_
    unfold mysqlRollback
    dsimp only
    split_ifs
    · exact (dbQuery_touches p env hc st hs).trans (.setIsError _ false)
    · exact dbQuery_touches p env hc st hs
  · exact dbTrxEnded_touches hc st (.refl _)

theorem dbUnlockTables_touches (hs : S .unlockTables) : Touches S C st (dbUnlockTables p env c st).2 := by
  have hset : Touches S C st (st.setConn c { st.conn c with tableLocked := false }) :=
    .setConn hc { Conn.Later.refl (st.conn c) with }
  exact (hset.trans (dbQuery_touches p env hc _ hs)).guard

theorem endTrxLock_touches (hs : S .unlockTables) : Touches S C st (endTrxLock p env c st).2 := by
  unfold endTrxLock
  have hset : Touches S C st (st.setConn c { st.conn c with tableLock := 0, disableReconnect := false }) :=
    .setConn hc { Conn.Later.refl (st.conn c) with tableLock := fun _ => rfl }
  dsimp only
  split_ifs
  · exact hset
  · exact hset.trans (dbUnlockTables_touches p env hc _ hs)
  · exact hset.trans (dbUnlockTables_touches p env hc _ hs)
  · exact .setConn hc { Conn.Later.refl (st.conn c) with }
  · exact .refl _

theorem endTrx_touches (hu : S .unlockTables) (hi : S .setTrxIsolation) : Touches S C st (endTrx p env c st).2 := by
  have hlock := endTrxLock_touches p env hc st hu
  have hiso : Touches S C st (endTrxIsolation p env c (endTrxLock p env c st)).2 := by
    unfold endTrxIsolation
    dsimp only
    split_ifs
    · exact hlock.trans (dbQuery_touches p env hc _ hi)
    · exact hlock.trans (dbQuery_touches p env hc _ hi)
    · exact hlock
  exact hiso.trans (.setConn hc { Conn.Later.refl _ with })

omit hc in
theorem restoreDastatus_touches {da : Bool} {r : Nat × State} (hr : Touches S C st r.2) :
    Touches S C st (restoreDastatus da c r).2 := by
  unfold restoreDastatus
  split_ifs
  · exact hr.trans (.setIsError _ false)
  · exact hr
  · exact hr

theorem leaveTrx_touches : Touches S C st (st.leaveTrx c) := .setConn hc { Conn.Later.refl _ with }

theorem endVisit_touches {da : Bool} {t : State} (h : Touches S C st t) (hu : S .unlockTables) (hi : S .setTrxIsolation) :
    Touches S C st ((restoreDastatus da c (endTrx p env c t)).2.leaveTrx c) :=
  (h.trans (restoreDastatus_touches _ (endTrx_touches p env hc _ hu hi))).trans (leaveTrx_touches hc _)

end Functions

/-! ## The loops -/

variable (s : Stmt)

def Stmt.ofPrepare : Prop := s ∈ [.xaEndAndPrepare, .rollbackAtPrepare, .unlockTables, .setTrxIsolation]

/-- The statements of the prepare loop for a connection that takes no part in XA. -/
def Stmt.outsideXa : Prop := s ∈ [.rollbackAtPrepare, .unlockTables, .setTrxIsolation]

def Stmt.ofCommit : Prop := s ∈ [.xaCommit, .unlockTables, .setTrxIsolation]

def Stmt.ofOnePhase : Prop := s ∈ [.xaCommitOnePhase, .unlockTables, .setTrxIsolation]

def Stmt.ofRollback : Prop := s ∈ [.xaEnd, .xaRollback, .rollback, .unlockTables, .setTrxIsolation]

def Stmt.ofPlain : Prop := s ∈ [.commit, .rollback, .unlockTables, .setTrxIsolation]

instance : DecidablePred ofPrepare := fun s => inferInstanceAs (Decidable (s ∈ _))
instance : DecidablePred outsideXa := fun s => inferInstanceAs (Decidable (s ∈ _))
instance : DecidablePred ofCommit := fun s => inferInstanceAs (Decidable (s ∈ _))
instance : DecidablePred ofOnePhase := fun s => inferInstanceAs (Decidable (s ∈ _))
instance : DecidablePred ofRollback := fun s => inferInstanceAs (Decidable (s ∈ _))
instance : DecidablePred ofPlain := fun s => inferInstanceAs (Decidable (s ∈ _))

theorem ofPrepare_not_commit (hs : s.ofPrepare) : s ≠ .xaCommit ∧ s ≠ .xaCommitOnePhase := by
  revert hs
  cases s <;> decide

theorem ofRollback_not_commit (hs : s.ofRollback) : s ≠ .xaCommit ∧ s ≠ .xaCommitOnePhase := by
  revert hs
  cases s <;> decide

theorem outsideXa_not_prepare (hs : s.outsideXa) : s ≠ .xaEndAndPrepare := by
  revert hs
  cases s <;> decide

theorem ofCommit_not_prepare (hs : s.ofCommit) : s ≠ .xaEndAndPrepare := by
  revert hs
  cases s <;> decide

theorem ofOnePhase_not_prepare (hs : s.ofOnePhase) : s ≠ .xaEndAndPrepare := by
  revert hs
  cases s <;> decide

theorem ofRollback_not_prepare (hs : s.ofRollback) : s ≠ .xaEndAndPrepare := by
  revert hs
  cases s <;> decide

section Loops
variable {S : Stmt → Prop} {C : ConnId → Prop} (p : Params) (env : Env) (da : Bool) {c : ConnId} (hc : C c) (e : Nat)
  (st : State)

theorem andThen_touches {r : Nat × State} {k : State → Nat × State} (hr : Touches S C st r.2)
    (hk : ∀ t, Touches S C t (k t).2) : Touches S C st (andThen r k).2 :=
  andThen_rule hr fun _ h => h.trans (hk _)

theorem untilError_touches {body : ConnId → State → Nat × State} {cs : List ConnId}
    (hbody : ∀ c ∈ cs, ∀ t, Touches S C t (body c t).2) : Touches S C st (untilError body cs st).2 :=
  untilError_invariant (fun c hc t ht => ht.trans (hbody c hc t)) (.refl st)

theorem forEach_touches {body : ConnId → Nat → State → Nat × State} {cs : List ConnId}
    (hbody : ∀ c ∈ cs, ∀ e t, Touches S C t (body c e t).2) : Touches S C st (forEach body cs e st).2 :=
  forEach_invariant (I := fun _ => Touches S C st) (fun c hc e t ht => ht.trans (hbody c hc e t)) (.refl st)

include hc

theorem prepareConn_disabled_touches (hx : (st.conn c).disableXa = true) :
    Touches outsideXa C st (prepareConn p env da c st).2 := by
  unfold prepareConn
  rw [if_pos hx]
  refine andThen_touches st ?_ fun t => andThen_touches t ?_ fun u => leaveTrx_touches hc u
  · split_ifs
    · exact restoreDastatus_touches st (dbRollback_touches p env hc st (by decide))
    · exact .refl _
  · exact restoreDastatus_touches t (endTrx_touches p env hc t (by decide) (by decide))

theorem prepareConn_touches : Touches ofPrepare C st (prepareConn p env da c st).2 := by
  by_cases hx : (st.conn c).disableXa = true
  · refine (prepareConn_disabled_touches p env da hc st hx).mono (fun s hs => ?_) fun _ h => h
    exact List.mem_cons_of_mem _ hs
  · unfold prepareConn
    rw [if_neg hx]
    exact dbXaEndAndPrepare_touches p env hc st (by decide)

omit hc in
theorem sysLogXaFailed_touches : Touches S C st (sysLogXaFailed env c st) := by
  unfold sysLogXaFailed
  split_ifs
  · exact .myMessage _
  · exact .refl _

theorem commitBranch_touches : Touches ofCommit C st (commitBranch p env da c e st).2 := by
  have hcommit : Touches ofCommit C st (dbXaCommit p env c st).2 :=
    dbXaCommit_touches p env hc st (by decide)
  unfold commitBranch
  dsimp only
  split_ifs
  · exact hcommit
  · exact (restoreDastatus_touches st hcommit).trans (sysLogXaFailed_touches env _)
  · exact hcommit.trans (sysLogXaFailed_touches env _)

theorem commitConn_touches : Touches ofCommit C st (commitConn p env da c e st).2 := by
  unfold commitConn
  split_ifs
  · exact endVisit_touches p env hc st (commitBranch_touches p env da hc e st) (by decide) (by decide)
  · exact .refl _

theorem onePhaseConn_touches : Touches ofOnePhase C st (onePhaseConn p env c e st).2 := by
  unfold onePhaseConn
  split_ifs
  · have hphase : Touches ofOnePhase C st (dbXaCommitOnePhase p env c st).2 :=
      dbXaCommitOnePhase_touches p env hc st (by decide)
    exact (hphase.trans (endTrx_touches p env hc _ (by decide) (by decide))).trans (leaveTrx_touches hc _)
  · exact .refl _

theorem rollbackXaEnd_touches : Touches ofRollback C st (rollbackXaEnd p env da c e st).2 := by
  have hend : Touches ofRollback C st (dbXaEnd p env c st).2 := dbXaEnd_touches p env hc st (by decide)
  unfold rollbackXaEnd
  dsimp only
  split_ifs
  · exact .refl _
  · exact restoreDastatus_touches st hend
  · exact hend

theorem rollbackXa_touches : Touches ofRollback C st (rollbackXa p env da c e st).2 := by
  have hroll : Touches ofRollback C st (dbXaRollback p env c st).2 := dbXaRollback_touches p env hc st (by decide)
  unfold rollbackXa
  dsimp only
  split_ifs
  · exact restoreDastatus_touches st hroll
  · exact hroll

theorem rollbackBranch_touches : Touches ofRollback C st (rollbackBranch p env da c e st).2 := by
  unfold rollbackBranch
  split_ifs
  · exact restoreDastatus_touches st (dbRollback_touches p env hc st (by decide))
  · exact .refl _
  · exact .refl _
  · exact (rollbackXaEnd_touches p env da hc e st).trans (rollbackXa_touches p env da hc _ _)

theorem rollbackConn_touches : Touches ofRollback C st (rollbackConn p env da c e st).2 := by
  unfold rollbackConn
  split_ifs
  · exact endVisit_touches p env hc st (rollbackBranch_touches p env da hc e st) (by decide) (by decide)
  · exact .refl _

theorem commitPlainConn_touches : Touches ofPlain C st (commitPlainConn p env da c e st).2 := by
  refine endVisit_touches p env hc st ?_ (by decide) (by decide)
  split_ifs
  · exact restoreDastatus_touches st (dbCommit_touches p env hc st (by decide))
  · exact .refl _

theorem rollbackPlainConn_touches : Touches ofPlain C st (rollbackPlainConn p env da c e st).2 := by
  refine endVisit_touches p env hc st ?_ (by decide) (by decide)
  split_ifs
  · exact restoreDastatus_touches st (dbRollback_touches p env hc st (by decide))
  · exact .refl _

end Loops

end TSpider.Xa
