import TSpider.Xa.Holding

/-!
# A finished transaction leaves nothing behind

* `Base`: what holds of a session in every run, `SameTrx` the steps that leave its transaction alone;
* `Call`: the calls of `spider_commit` and `spider_rollback` that end a transaction, and their exits;
* `Sound`: a started transaction is registered with the server and its xid is new.
-/

namespace TSpider.Xa
open Lib Session

/-! ## The session between its calls -/

structure Base (s : Session) : Prop where
  holding : Holding s.nextConn s.st
  multi : s.all = true → s.multi = true
  held : ∀ c ∈ s.held, c ∈ s.st.trx.joinTrxTop
  joined : s.st.trx.trxStart = true → s.all = true ∨ s.stmt = true → s.st.trx.joinTrxTop ≠ []

theorem Base.init : Base .init where
  holding := by
    refine ⟨⟨?_, ?_, ?_, ?_, ?_, ?_, ?_, rfl⟩, ?_, ?_⟩ <;> simp [Session.init]
  multi := by simp [Session.init]
  held := by simp [Session.init]
  joined := by simp [Session.init]

structure SameTrx (s t : Session) : Prop where
  trxStart : t.st.trx.trxStart = s.st.trx.trxStart
  trxXa : t.st.trx.trxXa = s.st.trx.trxXa
  xid : t.st.trx.xid = s.st.trx.xid
  joinTrxTop : t.st.trx.joinTrxTop = s.st.trx.joinTrxTop
  notAutocommit : t.notAutocommit = s.notAutocommit
  begun : t.begun = s.begun
  stmt : t.stmt = s.stmt
  all : t.all = s.all
  nextXid : t.nextXid = s.nextXid
  finished : t.finished = s.finished

section SameTrx
variable {s t r : Session}

theorem SameTrx.multi (h : SameTrx s t) : t.multi = s.multi := by
  unfold Session.multi
  rw [h.notAutocommit, h.begun]

theorem SameTrx.of_marks (s : Session) {st : State} (h : Marks s.st st) : SameTrx s { s with st } :=
  ⟨h.tree.2.2.1, h.tree.2.2.2.1, h.tree.2.2.2.2, h.tree.1, rfl, rfl, rfl, rfl, rfl, rfl⟩

theorem SameTrx.base (h : SameTrx s t) (hs : Base s) (hold : Holding t.nextConn t.st)
    (hheld : ∀ c ∈ t.held, c ∈ s.st.trx.joinTrxTop) : Base t where
  holding := hold
  multi := by rw [h.all, h.multi]; exact hs.multi
  held := by rw [h.joinTrxTop]; exact hheld
  joined := by rw [h.trxStart, h.all, h.stmt, h.joinTrxTop]; exact hs.joined

theorem Base.of_marks (hs : Base s) {st : State} (h : Marks s.st st) : Base { s with st } :=
  (SameTrx.of_marks s h).base hs (h.holding hs.holding) hs.held

end SameTrx

/-! ## Getting a connection -/

section Get
variable {v : Vars} {q : Request} {c : ConnId} {s t : Session}

theorem getConn_base (hs : Base s) (h : getConn v q c s = some t) :
    Base t ∧ SameTrx s t ∧ c ∈ t.st.trx.trxConnHash := by
  unfold getConn at h
  split_ifs at h with hin hpool hnew <;> cases h
  · exact ⟨hs, ⟨rfl, rfl, rfl, rfl, rfl, rfl, rfl, rfl, rfl, rfl⟩, hin⟩
  · have hpooled : s.st.pooled c = true := by simp_all
    have hsame : SameTrx s { s with
        st := (s.st.takeConn c).hold c, priority := Function.update s.priority c q.priority } :=
      ⟨rfl, rfl, rfl, rfl, rfl, rfl, rfl, rfl, rfl, rfl⟩
    exact ⟨hsame.base hs (holding_takeConn hs.holding hpooled hin) hs.held, hsame, List.mem_cons_self⟩
  · subst hnew
    have hsame : SameTrx s { s with
        st := (s.st.setConn s.nextConn (.new q.server)).hold s.nextConn
        priority := Function.update s.priority s.nextConn q.priority, nextConn := s.nextConn + 1 } :=
      ⟨rfl, rfl, rfl, rfl, rfl, rfl, rfl, rfl, rfl, rfl⟩
    exact ⟨hsame.base hs (holding_new hs.holding q.server) hs.held, hsame, List.mem_cons_self⟩

theorem adopt_marks (q : Request) (c : ConnId) (st : State) : Marks st (st.setConn c ((st.conn c).adopt q)) :=
  .setConn st c _ ⟨rfl, rfl, rfl, rfl, rfl⟩

theorem queueIsolation_marks (q : Request) (c : ConnId) (st : State) :
    Marks st (st.setConn c ((st.conn c).queueIsolation q)) := by
  refine .setConn st c _ ?_
  unfold Conn.queueIsolation
  split_ifs <;> exact ⟨rfl, rfl, rfl, rfl, rfl⟩

end Get

/-! ## Joining -/

/-- Registered with the server as the transaction that a later call ends. -/
def Session.Registered (s : Session) : Prop := if s.multi then s.all = true else s.stmt = true

theorem register_registered (s : Session) : s.register.Registered := by
  unfold Registered
  split_ifs with hm
  · exact (Bool.or_eq_true _ _).mpr (.inr hm)
  · rfl

theorem not_registered {s : Session} (hstmt : s.stmt = false) (hall : s.all = false) : ¬ s.Registered := by
  unfold Registered
  rw [hstmt, hall]
  split_ifs <;> exact id

theorem Session.Registered.endStmt {s : Session} (h : s.Registered) (hmulti : s.multi = true) (st : State) :
    ({ s with stmt := false, st } : Session).Registered := by
  unfold Registered at h ⊢
  rw [if_pos hmulti] at h
  rwa [if_pos (show ({ s with stmt := false, st } : Session).multi = true from hmulti)]

structure Sound (s : Session) : Prop where
  base : Base s
  registered : s.st.trx.trxStart = true → s.Registered
  used : ∀ x ∈ s.finished, x < s.nextXid
  xid : s.st.trx.trxStart = true → s.st.trx.trxXa = true → s.st.trx.xid < s.nextXid ∧ s.st.trx.xid ∉ s.finished

section Join
variable {v : Vars} {q : Request} {c : ConnId} {s t : Session}

theorem SameTrx.sound (h : SameTrx s t) (hs : Sound s) (ht : Base t) : Sound t where
  base := ht
  registered := by
    unfold Registered
    rw [h.trxStart, h.multi, h.all, h.stmt]
    exact hs.registered
  used := by rw [h.finished, h.nextXid]; exact hs.used
  xid := by rw [h.trxStart, h.trxXa, h.xid, h.nextXid, h.finished]; exact hs.xid

theorem queueTrx_unlocked {k : Conn} (hk : k.Unlocked) (xa begun : Bool) :
    (k.queueTrx v xa begun).Unlocked ∧ (xa = true → (k.queueTrx v xa begun).disableXa = false) := by
  have hlock : k.tableLock ≠ 3 := by simp [hk.tableLock]
  unfold Conn.queueTrx Conn.queueStart
  rw [if_neg hlock]
  split_ifs with hxa <;> refine ⟨⟨hk.tableLock, hk.openedHandlers, hk.twoPhase⟩, fun h => ?_⟩
  · rfl
  all_goals exact absurd h hxa

theorem queueAutocommit_unlocked {k : Conn} (hk : k.Unlocked) (notAutocommit : Bool) :
    (k.queueAutocommit v notAutocommit).Unlocked := by
  unfold Conn.queueAutocommit
  split_ifs <;> exact ⟨hk.tableLock, hk.openedHandlers, hk.twoPhase⟩

theorem beginTrx_holding (hs : Holding s.nextConn s.st) (hstart : s.st.trx.trxStart = false) :
    Holding s.nextConn (s.beginTrx v q).st := by
  have htree := hs.tidy.idle hstart
  exact {
    tidy := {
      hs.tidy with
      xa := fun hxa => ⟨rfl, hxa, rfl, fun d hd => absurd hd (by simp [beginTrx, htree])⟩
      idle := fun h => absurd h (by simp [beginTrx]) }
    fresh := hs.fresh
    pool := hs.pool }

theorem join_holding (hs : Holding s.nextConn s.st) (hstart : s.st.trx.trxStart = true)
    (hc : c ∈ s.st.trx.trxConnHash) (hj : (s.st.conn c).joinTrx = false) : Holding (s.join v c).nextConn (s.join v c).st := by
  have hun := queueAutocommit_unlocked (v := v) (hs.tidy.unlocked' hc) s.notAutocommit
  have hk : ({ (s.st.conn c).queueAutocommit v s.notAutocommit with disableReconnect := true } : Conn).Unlocked :=
    ⟨hun.tableLock, hun.openedHandlers, hun.twoPhase⟩
  obtain ⟨hun', hxa⟩ := queueTrx_unlocked (v := v) hk s.st.trx.trxXa s.begun
  exact holding_join hs hstart hc hj s.priority rfl ⟨hun'.tableLock, hun'.openedHandlers, hun'.twoPhase⟩ hxa

theorem join_joinTrxTop : (s.join v c).st.trx.joinTrxTop = treeInsert s.priority c s.st.trx.joinTrxTop := rfl

theorem join_base (hs : Holding s.nextConn s.st) (hmulti : s.all = true → s.multi = true)
    (hheld : ∀ d ∈ s.held, d ∈ s.st.trx.joinTrxTop) (hstart : s.st.trx.trxStart = true)
    (hc : c ∈ s.st.trx.trxConnHash) (hj : (s.st.conn c).joinTrx = false) : Base (s.join v c) where
  holding := join_holding hs hstart hc hj
  multi := hmulti
  held d hd := by rw [join_joinTrxTop, mem_treeInsert]; exact .inr (hheld d hd)
  joined _ _ := by
    have hmem : c ∈ (s.join v c).st.trx.joinTrxTop := by rw [join_joinTrxTop, mem_treeInsert]; exact .inl rfl
    exact List.ne_nil_of_mem hmem

theorem startTrx_base (hs : Base s) (hc : c ∈ s.st.trx.trxConnHash) (hj : (s.st.conn c).joinTrx = false) :
    Base (startTrx v q c s) := by
  unfold startTrx
  split_ifs with hstart
  · exact join_base hs.holding hs.multi hs.held hstart hc hj
  · have hstart' : s.st.trx.trxStart = false := by simpa using hstart
    refine join_base (beginTrx_holding hs.holding hstart') ?_ hs.held rfl hc hj
    exact fun h => (Bool.or_eq_true _ _).mp h |>.elim hs.multi id

theorem startTrx_sound (hs : Sound s) (hc : c ∈ s.st.trx.trxConnHash) (hj : (s.st.conn c).joinTrx = false) :
    Sound (startTrx v q c s) := by
  have hbase := startTrx_base (v := v) (q := q) hs.base hc hj
  unfold startTrx at hbase ⊢
  split_ifs at hbase ⊢ with hstart
  · exact ⟨hbase, hs.registered, hs.used, hs.xid⟩
  · refine ⟨hbase, fun _ => register_registered s, fun x hx => ?_, fun _ hxa => ?_⟩
    · have hlt := hs.used x hx
      change x < (if _ then s.nextXid + 1 else s.nextXid)
      split_ifs
      exacts [hlt.trans (Nat.lt_succ_self _), hlt]
    · have hxa' : (v.internalXa && (s.multi || (q.partitions && q.update))) = true := hxa
      have hnext : ((s.beginTrx v q).join v c).nextXid = s.nextXid + 1 := by
        change (if _ then s.nextXid + 1 else s.nextXid) = _
        rw [if_pos hxa']
      have hxid : ((s.beginTrx v q).join v c).st.trx.xid = s.nextXid := by
        change (if _ then s.nextXid else s.st.trx.xid) = _
        rw [if_pos hxa']
      rw [hnext, hxid]
      exact ⟨Nat.lt_succ_self _, fun hmem => lt_irrefl _ (hs.used _ hmem)⟩

theorem setUpdated_marks (st : State) (update : Bool) :
    Marks st (if st.trx.trxStart && update then { st with trx := { st.trx with updatedInThisTrx := true } } else st) := by
  split_ifs
  · exact ⟨rfl, rfl, rfl, fun _ => .refl _⟩
  · exact .refl st

theorem setTrxStatusInfo_eq (v : Vars) (q : Request) (c : ConnId) (s : Session) :
    ∃ st, Marks (if (s.st.conn c).joinTrx then s else startTrx v q c s).st st ∧
      setTrxStatusInfo v q c s = { (if (s.st.conn c).joinTrx then s else startTrx v q c s) with st } :=
  ⟨_, (queueIsolation_marks q c _).trans (setUpdated_marks _ q.update), rfl⟩

theorem joined_or_start (hs : Base s) (hc : c ∈ s.st.trx.trxConnHash) :
    Base (if (s.st.conn c).joinTrx then s else startTrx v q c s) ∧
      c ∈ (if (s.st.conn c).joinTrx then s else startTrx v q c s).st.trx.joinTrxTop := by
  split_ifs with hj
  · exact ⟨hs, (hs.holding.tidy.joined c hc).mp hj⟩
  · refine ⟨startTrx_base hs hc (by simpa using hj), ?_⟩
    unfold startTrx
    rw [join_joinTrxTop, mem_treeInsert]
    exact .inl rfl

theorem joined_or_start_sound (hs : Sound s) (hc : c ∈ s.st.trx.trxConnHash) :
    Sound (if (s.st.conn c).joinTrx then s else startTrx v q c s) := by
  split_ifs with hj
  · exact hs
  · exact startTrx_sound hs hc (by simpa using hj)

/-- **A handler gets a connection**, which takes part in the transaction from then on. -/
theorem useConn_base (hs : Base s) (h : useConn v q c s = some t) : Base t := by
  obtain ⟨r, hr, rfl⟩ := Option.map_eq_some_iff.mp h
  obtain ⟨hbase, -, hc⟩ := getConn_base hs hr
  have hadopt := hbase.of_marks (adopt_marks q c r.st)
  obtain ⟨hjoin, hmem⟩ := joined_or_start hadopt hc
  obtain ⟨st, hmarks, heq⟩ := setTrxStatusInfo_eq v q c { r with st := r.st.setConn c ((r.st.conn c).adopt q) }
  have hfinal := hjoin.of_marks hmarks
  dsimp only
  rw [heq]
  refine { hfinal with held := fun d hd => ?_ }
  rcases List.mem_cons.mp hd with rfl | hd
  · rw [hmarks.tree.1]; exact hmem
  · exact hfinal.held d hd

theorem useConn_sound (hs : Sound s) (h : useConn v q c s = some t) : Sound t := by
  have ht := useConn_base hs.base h
  obtain ⟨r, hr, rfl⟩ := Option.map_eq_some_iff.mp h
  obtain ⟨hbase, hsame, hc⟩ := getConn_base hs.base hr
  have hmarks := adopt_marks q c r.st
  have hadopt := (SameTrx.of_marks r hmarks).sound (hsame.sound hs hbase) (hbase.of_marks hmarks)
  obtain ⟨st, hmarks', heq⟩ := setTrxStatusInfo_eq v q c { r with st := r.st.setConn c ((r.st.conn c).adopt q) }
  dsimp only at ht ⊢
  rw [heq] at ht ⊢
  have hjoin := joined_or_start_sound (v := v) (q := q) hadopt hc
  refine SameTrx.sound ?_ hjoin ht
  exact ⟨hmarks'.tree.2.2.1, hmarks'.tree.2.2.2.1, hmarks'.tree.2.2.2.2, hmarks'.tree.1, rfl, rfl, rfl, rfl, rfl, rfl⟩

end Join

/-! ## What a step does -/

inductive Call (v : Vars) (s : Session) : Op → Nat × State → Prop where
  | commit (env : Env) (hall : s.all = true) :
    Call v s (.commit env) (spiderCommit (s.params v) env true (s.st.atCall false))
  | rollback (afterError : Bool) (env : Env) (hall : s.all = true) :
    Call v s (.rollback afterError env) (spiderRollback (s.params v) env true (s.st.atCall (afterError && s.st.isError)))
  | stmtCommit (env : Env) (hstmt : s.stmt = true) (hmulti : s.multi = false) (herr : s.st.isError = false) :
    Call v s (.endStmt env) (spiderCommit (s.params v) env false (s.st.atCall false))
  | stmtRollback (env : Env) (hstmt : s.stmt = true) (hmulti : s.multi = false) (herr : s.st.isError = true) :
    Call v s (.endStmt env) (spiderRollback (s.params v) env false (s.st.atCall true))

inductive Move (v : Vars) (s : Session) : Op → Session → Prop where
  | call {op : Op} {r : Nat × State} (begun : Bool) (h : Call v s op r) :
    Move v s op (({ s with stmt := false, all := false, begun } : Session).ended r)
  | option (op : Op) (notAutocommit begun : Bool) (hstmt : s.stmt = false) (hall : s.all = false) :
    Move v s op { s with notAutocommit, begun }
  | error (op : Op) (isError : Bool) (hop : op = .startStmt ∨ op = .raise) :
    Move v s op { s with st := { s.st with isError } }
  | useConn (c : ConnId) (q : Request) (t : Session) (h : useConn v q c s = some t) : Move v s (.useConn c q) t
  | again (c : ConnId) (hc : c ∈ s.held) : Move v s (.again c) s.register
  | query (c : ConnId) (q : Query) (hc : c ∈ s.held) (hq : q.possible c s.st = true) :
    Move v s (.query c q) { s with st := remoteQuery v (s.params v).transmit q c s.st }
  | endStmt (env : Env) (hmulti : s.multi = true) :
    Move v s (.endStmt env) { s with stmt := false, st := s.st.atCall s.st.isError }
  | nothing (env : Env) (hstmt : s.stmt = false) : Move v s (.endStmt env) s

section Step
variable {v : Vars} {s t : Session} {op : Op}

theorem end_move {r : Nat × State} (hstmt : ¬ s.stmt = true) (hcall : s.all = true → Call v s op r) :
    Move v s op (if s.all then ({ s with all := false, begun := false } : Session).ended r
      else { s with all := false, begun := false }) := by
  have hstmt' : s.stmt = false := by simpa using hstmt
  split_ifs with hall
  · have heq : ({ s with all := false, begun := false } : Session) =
        { s with stmt := false, all := false, begun := false } := by rw [← hstmt']
    rw [heq]
    exact .call false (hcall hall)
  · have hall' : s.all = false := by simpa using hall
    have heq : ({ s with all := false, begun := false } : Session) =
        { s with notAutocommit := s.notAutocommit, begun := false } := by rw [← hall']
    rw [heq]
    exact .option op s.notAutocommit false hstmt' hall'

variable (hkill : v.params.lastKilled ≠ .killConnection)
include hkill

theorem endStmt_move (hs : Base s) (env : Env) : Move v s (.endStmt env) (endStmt v env s) := by
  unfold endStmt
  cases hstmt : s.stmt with
  | false =>
    have heq : { s with stmt := false } = s := by rw [← hstmt]
    simpa [heq] using Move.nothing env hstmt
  | true =>
    cases hmulti : s.multi with
    | true =>
      have hcommit : (spiderCommit (s.params v) env false (s.st.atCall s.st.isError)).2 = s.st.atCall s.st.isError := by
        simp [spiderCommit, params, hmulti]
      have hrollback : (spiderRollback (s.params v) env false (s.st.atCall s.st.isError)).2 =
          s.st.atCall s.st.isError := by
        simp [spiderRollback, params, hmulti, hkill]
      have hmove := Move.endStmt (v := v) env hmulti
      rw [if_pos rfl, if_pos rfl]
      split_ifs
      · rwa [hrollback]
      · rwa [hcommit]
    | false =>
      have hall : s.all = false := by
        cases hall : s.all with
        | false => rfl
        | true => rw [hs.multi hall] at hmulti; cases hmulti
      have heq : { s with stmt := false } = { s with stmt := false, all := false } := by rw [← hall]
      rw [if_pos rfl, if_neg (by simp), heq]
      split_ifs with herr
      · rw [herr]
        exact .call s.begun (.stmtRollback env hstmt hmulti herr)
      · have herr' : s.st.isError = false := by simpa using herr
        rw [herr']
        exact .call s.begun (.stmtCommit env hstmt hmulti herr')

theorem step_move (hs : Base s) (h : step v s op = some t) : Move v s op t := by
  cases op with
  | useConn c q => exact .useConn c q t h
  | raise => cases h; exact .error _ true (.inr rfl)
  | endStmt env => cases h; exact endStmt_move hkill hs env
  | setAutocommit on =>
    simp only [step] at h
    split_ifs at h with hreg
    cases h
    simp only [Bool.or_eq_true, not_or, Bool.not_eq_true] at hreg
    exact .option _ (!on) s.begun hreg.1 hreg.2
  | begin =>
    simp only [step] at h
    split_ifs at h with hreg
    cases h
    simp only [Bool.or_eq_true, not_or, Bool.not_eq_true] at hreg
    exact .option _ s.notAutocommit true hreg.1 hreg.2
  | startStmt =>
    simp only [step] at h
    split_ifs at h
    cases h
    exact .error _ false (.inl rfl)
  | again c =>
    simp only [step] at h
    split_ifs at h with hc
    cases h
    exact .again c hc
  | query c q =>
    simp only [step] at h
    split_ifs at h with hc
    cases h
    exact .query c q hc.1 hc.2
  | commit env =>
    simp only [step] at h
    split_ifs at h with hstmt
    cases h
    exact end_move hstmt fun hall => .commit env hall
  | rollback afterError env =>
    simp only [step] at h
    split_ifs at h with hstmt
    cases h
    exact end_move hstmt fun hall => .rollback afterError env hall

end Step

/-! ## The calls -/

def OnCommit (P : Params → Env → State → Prop) (v : Vars) (s : Session) : Op → Prop
  | .commit env => s.all = true → P (s.params v) env (s.st.atCall false)
  | .endStmt env =>
    s.stmt = true → s.multi = false → s.st.isError = false → P (s.params v) env (s.st.atCall false)
  | _ => True

/-- The prepare phase has a known outcome, and the log lets the commit phase begin if the connections are kept. -/
def Settled (p : Params) (env : Env) (st : State) : Prop :=
  LogKept p env st ∧ (st.several → OutcomeKnown p env st)

instance (st : State) : Decidable st.several := by unfold State.several; infer_instance

instance (p : Params) (env : Env) (st : State) : Decidable (Settled p env st) := by
  unfold Settled LogKept; infer_instance

instance (P : Params → Env → State → Prop) [∀ p env st, Decidable (P p env st)] (v : Vars) (s : Session) :
    DecidablePred (OnCommit P v s) := fun op => by
  unfold OnCommit; cases op <;> infer_instance

inductive Exit (p : Params) (env : Env) (st : State) (P : Prop) : State → Prop where
  | finish {u : State} (h : Ends p env st u) (hP : u = st.rolledBack p env ∨ P) : Exit p env st P (finishTrx p env u)
  | unknown (hP : P) (hsev : st.several) (hcode : (internalXaPrepare p env st).1 = erSpiderXaTimeout) :
    Exit p env st P (freePreparedTrx (internalXaPrepare p env st).2)

section Calls
variable {v : Vars} {s t : Session} {op : Op} {r : Nat × State} {P : Params → Env → State → Prop} {p : Params}
  {n : ConnId} {env : Env}

theorem setError_marks (st : State) (isError : Bool) : Marks st { st with isError } := ⟨rfl, rfl, rfl, fun _ => .refl _⟩

theorem atCall_marks (st : State) (isError : Bool) : Marks st (st.atCall isError) := ⟨rfl, rfl, rfl, fun _ => .refl _⟩

theorem Call.registered (h : Call v s op r) : s.all = true ∨ s.stmt = true := by
  cases h with
  | commit env hall => exact .inl hall
  | rollback afterError env hall => exact .inl hall
  | stmtCommit env hstmt _ _ => exact .inr hstmt
  | stmtRollback env hstmt _ _ => exact .inr hstmt

theorem Base.participants (hs : Base s) (hreg : s.all = true ∨ s.stmt = true) (hxa : s.st.trx.trxXa = true) :
    s.st.trx.joinTrxTop ≠ [] :=
  hs.joined (hs.holding.tidy.xa hxa).1 hreg

section
variable {st : State} {all : Bool} {P : Prop} (hcall : all = true ∨ p.multiStmt = false)
  (hkill : p.lastKilled ≠ .killConnection) (hst : Holding n st)
include hcall hkill hst

theorem spiderCommit_exit
    (hne : st.trx.trxXa = true → st.trx.joinTrxTop ≠ []) (hP : P) : Exit p env st P (spiderCommit p env all st).2 := by
  rcases spiderCommit_ends p env all hcall hkill hst.tidy hne with ⟨u, hu, heq⟩ | ⟨hsev, hcode, heq⟩
  · rw [heq]; exact .finish hu (.inr hP)
  · rw [heq]; exact .unknown hP hsev hcode

theorem spiderRollback_exit :
    Exit p env st P (spiderRollback p env all st).2 := by
  rw [spiderRollback_ends p env all hcall hkill fun hxa => (hst.tidy.xa hxa).2.2.1]
  exact .finish .rollback (.inl rfl)

end

theorem Exit.holding {st u : State} {P : Prop} (h : Exit p env st P u)
    (hst : Holding n st) (hne : st.trx.trxXa = true → st.trx.joinTrxTop ≠ []) (hP : P → LogKept p env st) : Holding n u := by
  cases h with
  | finish h hP' => exact (h.holding hst hne (hP'.imp_right hP)).1
  | unknown _ hsev _ => exact freePreparedTrx_holding hst hsev

theorem Exit.settled {st u : State} (h : Exit p env st (Settled p env st) u)
    (hst : Holding n st) (hne : st.trx.trxXa = true → st.trx.joinTrxTop ≠ []) :
    ∃ w, Ends p env st w ∧ u = finishTrx p env w ∧ u.trx.trxStart = false := by
  cases h with
  | finish h hP => exact ⟨_, h, rfl, (h.holding hst hne (hP.imp_right (·.1))).2⟩
  | unknown hP hsev hcode =>
    have htidy := hst.tidy
    exact absurd hcode (internalXaPrepare_ne_timeout p env htidy.nodup hsev.2 (htidy.xa hsev.1).2.2.2
      (fun c hc => (htidy.unlocked c (htidy.sub c hc)).2.2) (hP.2 hsev))

theorem ended_marks (s : Session) (r : Nat × State) : Marks r.2 (s.ended r).st := by
  unfold ended
  dsimp only
  split_ifs
  · exact ⟨rfl, rfl, rfl, fun _ => .refl _⟩
  · exact .refl _

theorem ended_trace (s : Session) (r : Nat × State) : (s.ended r).st.trace = r.2.trace := by
  unfold ended
  split_ifs <;> rfl

theorem OnCommit.imp {P Q : Params → Env → State → Prop} (h : ∀ p env st, P p env st → Q p env st)
    (hP : OnCommit P v s op) : OnCommit Q v s op := by
  cases op with
  | commit env => exact fun hall => h _ _ _ (hP hall)
  | endStmt env => exact fun hstmt hmulti herr => h _ _ _ (hP hstmt hmulti herr)
  | _ => trivial

theorem OnCommit.logKept (h : OnCommit Settled v s op) : OnCommit LogKept v s op := h.imp fun _ _ _ h => h.1

theorem Sound.init : Sound .init := ⟨.init, by simp [Session.init], by simp [Session.init], by simp [Session.init]⟩

variable (hkill : v.params.lastKilled ≠ .killConnection)
include hkill

/-- **The calls leave through these exits.** -/
theorem Call.exit (h : Call v s op r) (hs : Base s) (hP : OnCommit P v s op) :
    ∃ env isError, Exit (s.params v) env (s.st.atCall isError) (P (s.params v) env (s.st.atCall isError)) r.2 := by
  have hold : ∀ b, Holding s.nextConn (s.st.atCall b) := fun b => (atCall_marks s.st b).holding hs.holding
  have hne := hs.participants h.registered
  cases h with
  | commit env hall => exact ⟨env, _, spiderCommit_exit (.inl rfl) hkill (hold _) hne (hP hall)⟩
  | rollback afterError env hall => exact ⟨env, _, spiderRollback_exit (.inl rfl) hkill (hold _)⟩
  | stmtCommit env hstmt hmulti herr =>
    exact ⟨env, _, spiderCommit_exit (.inr hmulti) hkill (hold _) hne (hP hstmt hmulti herr)⟩
  | stmtRollback env hstmt hmulti herr => exact ⟨env, _, spiderRollback_exit (.inr hmulti) hkill (hold _)⟩

theorem Call.base (h : Call v s op r) (hs : Base s)
    (hlog : OnCommit LogKept v s op) (begun : Bool) :
    Base (({ s with stmt := false, all := false, begun } : Session).ended r) where
  holding := by
    obtain ⟨env, b, hexit⟩ := h.exit hkill hs hlog
    exact (ended_marks _ r).holding
      (hexit.holding ((atCall_marks s.st b).holding hs.holding) (hs.participants h.registered) id)
  multi := fun h => absurd h (by simp [ended])
  held := by simp [ended]
  joined := by simp [ended]

/-- **Every step keeps the session in order** while the log does not fail under connections that are kept. -/
theorem step_base (hs : Base s) (hlog : OnCommit LogKept v s op) (hstep : step v s op = some t) : Base t := by
  cases step_move hkill hs hstep with
  | call begun h => exact h.base hkill hs hlog begun
  | option op notAutocommit begun hstmt hall =>
    exact {
      hs with
      multi := fun h => absurd h (by simp [hall])
      joined := fun _ h => absurd h (by simp [hall, hstmt]) }
  | error op isError _ => exact hs.of_marks (setError_marks s.st isError)
  | useConn c q t h => exact useConn_base hs h
  | again c hc =>
    exact {
      hs with
      multi := fun h => (Bool.or_eq_true _ _).mp h |>.elim hs.multi id
      joined := fun _ _ => List.ne_nil_of_mem (hs.held c hc) }
  | query c q hc hq => exact hs.of_marks (remoteQuery_marks v _ q c s.st)
  | endStmt env hmulti =>
    have hbase := hs.of_marks (atCall_marks s.st s.st.isError)
    exact { hbase with joined := fun hstart h => hbase.joined hstart (.inl (h.resolve_right (by simp))) }
  | nothing => exact hs

/-! ## Registration and xids -/

theorem Call.settled (h : Call v s op r) (hs : Base s) (hok : OnCommit Settled v s op) :
    ∃ env b w, Ends (s.params v) env (s.st.atCall b) w ∧ r.2 = finishTrx (s.params v) env w ∧ r.2.trx.trxStart = false := by
  obtain ⟨env, b, hexit⟩ := h.exit hkill hs hok
  exact ⟨env, b, hexit.settled ((atCall_marks s.st b).holding hs.holding) (hs.participants h.registered)⟩

theorem Call.sound (h : Call v s op r) (hs : Sound s) (hok : OnCommit Settled v s op) (begun : Bool) :
    Sound (({ s with stmt := false, all := false, begun } : Session).ended r) := by
  obtain ⟨env, b, w, -, -, hstart⟩ := h.settled hkill hs.base hok
  have hstart' : (({ s with stmt := false, all := false, begun } : Session).ended r).st.trx.trxStart = false := by
    rw [(ended_marks _ r).tree.2.2.1, hstart]
  refine ⟨h.base hkill hs.base hok.logKept begun, ?_, fun x hx => ?_, ?_⟩
  · rw [hstart']; simp
  · unfold ended at hx
    dsimp only at hx
    split_ifs at hx with hxa
    · rcases List.mem_cons.mp hx with rfl | hx
      · rw [Bool.and_eq_true] at hxa
        exact (hs.xid hxa.1 hxa.2).1
      · exact hs.used x hx
    · exact hs.used x hx
  · rw [hstart']; simp

/-- **Every settled step** keeps started transactions registered, under an xid that no finished one had. -/
theorem step_sound (hs : Sound s) (hok : OnCommit Settled v s op) (hstep : step v s op = some t) : Sound t := by
  have hbase := step_base hkill hs.base hok.logKept hstep
  cases step_move hkill hs.base hstep with
  | call begun h => exact h.sound hkill hs hok begun
  | option op notAutocommit begun hstmt hall =>
    exact ⟨hbase, fun h => absurd (hs.registered h) (not_registered hstmt hall), hs.used, hs.xid⟩
  | error op isError _ => exact (SameTrx.of_marks s (setError_marks s.st isError)).sound hs hbase
  | useConn c q t h => exact useConn_sound hs h
  | again c hc => exact ⟨hbase, fun _ => register_registered s, hs.used, hs.xid⟩
  | query c q hc hq => exact (SameTrx.of_marks s (remoteQuery_marks v _ q c s.st)).sound hs hbase
  | endStmt env hmulti =>
    exact ⟨hbase, fun h => (hs.registered h).endStmt hmulti _, hs.used, hs.xid⟩
  | nothing => exact hs

end Calls

/-! ## Runs -/

def Vars.default : Vars where
  params := .default
  internalXa := true
  syncAutocommit := true
  ignoreAutocommit := false
  semiTrx := true
  connRecycleStrict := false
  remoteAutocommit := -1
  remoteTrxIsolation := -1

def Request.ofUpdate : Request where
  errorMode := false
  update := true
  partitions := true
  activeStandby := false
  semiIsolation := false
  priority := 0
  server := ⟨0, 0⟩

def Query.acked : Query where
  connects := true
  queue := .ack
  reply := .ack
  told := true
  ignoreDupKey := false
  trxIsolation := 2
  semiTrxIsolation := -1

def updating (cs : List ConnId) : List Op :=
  [.begin, .startStmt] ++ cs.flatMap (fun c => [.useConn c .ofUpdate, .query c .acked]) ++ [.endStmt .quiet]

def refusingLast : Env := { Env.quiet with
  reply := fun c k => if c = 1 ∧ k = .xaCommitOnePhase then .refused ⟨1402, by decide, by decide⟩ else .ack }

/-! ## The main result -/

def Session.Idle (s : Session) : Prop :=
  s.st.trx.trxStart = false ∧ s.st.trx.joinTrxTop = [] ∧ ∀ c ∈ s.st.trx.trxConnHash, (s.st.conn c).joinTrx = false

def Session.Ending (s : Session) : Op → Prop
  | .commit _ => s.all = true
  | .rollback _ _ => s.all = true
  | .endStmt _ => s.stmt = true ∧ s.multi = false
  | _ => False

section Main
variable {v : Vars} {s t : Session} {op : Op}

theorem Base.idle (hs : Base s) (hstart : s.st.trx.trxStart = false) : s.Idle := by
  have htree := hs.holding.tidy.idle hstart
  refine ⟨hstart, htree, fun c hc => ?_⟩
  have hj := hs.holding.tidy.joined c hc
  rw [htree] at hj
  simpa using hj

variable (hkill : v.params.lastKilled ≠ .killConnection)
include hkill

/-- **The call reaches the shards of the transaction.** -/
theorem Call.reached {r : Nat × State} (h : Call v s op r) (hs : Base s)
    (hok : OnCommit Settled v s op) (hxa : s.st.trx.trxXa = true) {c : ConnId} (hc : c ∈ s.held)
    (hstarted : (s.st.conn c).started = true) (hlost : (s.st.conn c).serverLost = false) : Reached r.2.trace c := by
  obtain ⟨env, b, w, hends, heq, -⟩ := h.settled hkill hs hok
  have hst := (atCall_marks s.st b).holding hs.holding
  have hreached := hends.reached (s.params v) env hst.tidy hxa (hs.held c hc) hstarted hlost
  have htrace := (hends.released hst.tidy (hs.participants h.registered)).1.trace
  rw [heq]
  exact hreached.mono c fun e he => (congrArg (e ∈ ·) htrace).mpr he

theorem ending_move (hs : Base s) (hstep : step v s op = some t) (hend : s.Ending op) : ∃ begun r, Call v s op r ∧
      t = ({ s with stmt := false, all := false, begun } : Session).ended r := by
  cases step_move hkill hs hstep with
  | call begun h => exact ⟨begun, _, h, rfl⟩
  | option op notAutocommit begun hstmt hall =>
    cases op <;> simp_all [Ending]
  | error op isError hop => rcases hop with rfl | rfl <;> cases hend
  | useConn c q t h => cases hend
  | again c hc => cases hend
  | query c q hc hq => cases hend
  | endStmt env hmulti => simp_all [Ending]
  | nothing env hstmt => simp_all [Ending]

omit hkill

/-- **A finished transaction leaves nothing behind**: if all calls of `spider_commit` are settled, a session without a
registered transaction is idle, and the step that ends one has reached every started, live connection. -/
theorem finished_leaves_nothing {v : Vars} {ops : List Op} {s : Session}
    (hkill : v.params.lastKilled ≠ .killConnection) (hrun : runOps (step v) .init ops = some s)
    (hok : Along (step v) (OnCommit Settled v) .init ops) : (s.all = false → s.stmt = false → s.Idle) ∧
    (s.st.trx.trxStart = true → s.Registered) ∧ (s.st.trx.trxStart = true → s.st.trx.trxXa = true →
      s.st.trx.xid ∉ s.finished) ∧
    ∀ op t, OnCommit Settled v s op → step v s op = some t → s.Ending op →
      t.Idle ∧ (s.st.trx.trxXa = true → ∀ c ∈ s.held, (s.st.conn c).started = true → (s.st.conn c).serverLost = false →
        Reached t.st.trace c) := by
  have hs : Sound s := Along.invariant Sound (fun _ _ _ hs hok hstep => step_sound hkill hs hok hstep) .init hok hrun
  refine ⟨fun hall hstmt => hs.base.idle ?_, hs.registered, fun hstart hxa => (hs.xid hstart hxa).2,
    fun op t hop hstep hend => ?_⟩
  · exact Bool.eq_false_iff.mpr fun hstart => not_registered hstmt hall (hs.registered hstart)
  · have ht := step_base hkill hs.base hop.logKept hstep
    obtain ⟨begun, r, hcall, rfl⟩ := ending_move hkill hs.base hstep hend
    obtain ⟨env, b, w, -, -, hstart⟩ := hcall.settled hkill hs.base hop
    refine ⟨ht.idle ?_, fun hxa c hc hstarted hlost => ?_⟩
    · rw [(ended_marks _ r).tree.2.2.1, hstart]
    · have hreached := hcall.reached hkill hs.base hop hxa hc hstarted hlost
      rwa [ended_trace]

/-- A transaction over two shards commits, the next one updates a third. -/
theorem finished_leaves_nothing_two :
    ∃ s t, runOps (step .default) .init (updating [0, 1] ++ [.commit .quiet] ++ updating [2]) = some s ∧
      step .default s (.commit .quiet) = some t ∧ s.held = [2] ∧ s.st.trx.xid = 2 ∧ s.finished = [1] ∧ t.Idle ∧
      Reached t.st.trace 2 := by
  have hview : (runOps (step .default) .init (updating [0, 1] ++ [.commit .quiet] ++ updating [2])).map (fun s =>
      (s.held, s.st.trx.xid, s.finished, s.stmt, s.all)) = some ([2], 2, [1], false, true) := by decide +kernel
  have hconn : (runOps (step .default) .init (updating [0, 1] ++ [.commit .quiet] ++ updating [2])).map (fun s =>
      (s.st.trx.trxXa, (s.st.conn 2).started, (s.st.conn 2).serverLost,
        decide (OnCommit Settled .default s (.commit .quiet)))) = some (true, true, false, true) := by decide +kernel
  obtain ⟨s, hrun, hs⟩ := Option.map_eq_some_iff.mp hview
  rw [hrun] at hconn
  simp only [Prod.mk.injEq] at hs
  simp only [Option.map_some, Option.some.injEq, Prod.mk.injEq, decide_eq_true_eq] at hconn
  obtain ⟨hheld, hxid, hfinished, hstmt, hall⟩ := hs
  obtain ⟨hxa, hstarted, hlost, hok⟩ := hconn
  have hstep : step .default s (.commit .quiet) = some (commitTrx .default .quiet s) := by simp [step, hstmt]
  obtain ⟨-, -, -, hend⟩ := finished_leaves_nothing (by decide) hrun (by decide +kernel)
  obtain ⟨hidle, hreached⟩ := hend _ _ hok hstep hall
  exact ⟨s, _, hrun, hstep, hheld, hxid, hfinished, hidle, hreached hxa 2 (by simp [hheld]) hstarted hlost⟩

/-- After a refused one-phase commit the transaction is still started. The next one runs under its xid, and its `COMMIT` sends
nothing. -/
theorem refusedOnePhase_leaves_started : (runOps (step .default) .init (updating [0, 1] ++ [.commit refusingLast])).map
      (fun s => (s.all, s.stmt, s.st.trx.trxStart, s.st.trx.xid, s.finished)) = some (false, false, true, 1, [1]) ∧
    (runOps (step .default) .init (updating [0, 1] ++ [.commit refusingLast] ++ updating [2])).map
      (fun s => (s.all, s.stmt, s.held, s.st.trx.trxStart, s.st.trx.xid)) = some (false, false, [2], true, 1) ∧
    (runOps (step .default) .init (updating [0, 1] ++ [.commit refusingLast] ++ updating [2] ++ [.commit .quiet])).map
      (fun s => (s.begun, s.st.world.branch 2, decide (Reached s.st.trace 2))) = some (false, .active, false) := by
  refine ⟨?_, ?_, ?_⟩ <;> decide +kernel

end Main

end TSpider.Xa
