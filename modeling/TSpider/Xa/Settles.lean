import TSpider.Xa.Holding

/-!
# What a call leaves open on a shard

`Settles (st.see c)`: the connection is lost, or neither a transaction nor a branch is open in its remote session. A call
that ends the transaction brings every joined connection there, or the session has an error (`Ends.settles`), when

* a connection in error mode fails in nothing (`Calm`), as its error is taken back from the session;
* no refusal goes unheard (`Heard`): `spider_db_errorno` gives some errors without a message.
-/

namespace TSpider.Xa
open Lib State

/-! ## Open and closed -/

def Branch.Closed (b : Branch) : Prop := b ≠ .active ∧ b ≠ .prepared

theorem Branch.Reach.closed {S : Stmt → Prop} {b b' : Branch} (h : Branch.Reach S b b') (hb : b.Closed) : b'.Closed := by
  refine h.stays (fun a a' hstep ha => ?_) hb
  cases hstep with
  | exec s hs => cases a <;> cases s <;> simp_all [Stmt.onBranch, Branch.Closed]
  | detach => cases a <;> simp_all [Branch.detach, Branch.Closed]
  | forget => cases a <;> simp_all [Branch.forget, Branch.Closed]

def Settles (x : Conn × Branch × Bool) : Prop := x.1.serverLost = true ∨ (x.2.1.Closed ∧ x.2.2 = false)

theorem Settles.sessionOpen {st : State} {c : ConnId} (h : Settles (st.see c)) (hl : (st.conn c).serverLost = false) :
    st.world.sessionOpen c = false := by
  rcases h with h | ⟨⟨h1, h2⟩, h3⟩
  · exact absurd (hl.symm.trans h) Bool.false_ne_true
  · have h1 : st.world.branch c ≠ .active := h1
    have h2 : st.world.branch c ≠ .prepared := h2
    have h3 : st.world.trxOpen c = false := h3
    simp [World.sessionOpen, h1, h2, h3]

def SettledOr (st : State) (c : ConnId) : Prop := Settles (st.see c) ∨ st.isError = true

def Told (r : Nat × State) : Prop := r.2.isError = true

def Noted (r : Nat × State) : Prop := r.1 ≠ 0 ∨ r.2.isError = true

/-- A visit of `c` in a loop: `Flag` is not taken back, and the connection settles or the flag is raised. -/
def Visit (Flag : Nat × State → Prop) (c : ConnId) (r r' : Nat × State) : Prop :=
  (Flag r → Flag r') ∧ (Settles (r'.2.see c) ∨ Flag r')

def Stmt.all : List Stmt :=
  [.xaEndAndPrepare, .xaCommitOnePhase, .xaCommit, .xaEnd, .xaRollback, .commit, .rollback, .rollbackAtPrepare,
    .setTrxIsolation, .unlockTables]

theorem Stmt.mem_all (s : Stmt) : s ∈ Stmt.all := by cases s <;> decide

/-- A connection in error mode is not lost and every statement on it is acknowledged. -/
def Calm (env : Env) (c : ConnId) (k : Conn) : Prop :=
  k.errorMode = true → k.serverLost = false ∧ ∀ s ∈ Stmt.all, env.reply c s = .ack

instance (env : Env) (c : ConnId) (k : Conn) : Decidable (Calm env c k) := by unfold Calm; infer_instance

/-- A refusal after which neither the session nor the loop has an error although the transaction stays open. -/
def unheard (p : Params) (k : Conn) (e : ShardError) : Stmt → Bool
  | .commit => silentError p k e
  | .rollback => silentError p k e || e.num == erSpiderRemoteServerGoneAway
  | .xaRollback => silentError p k e && e.num != erXaerNota
  | .xaCommit => p.forceCommit != 0 && p.forceCommit != 1 && k.ignoreDupKey && isDupEntryError e.num
  | _ => false

def Reply.heard (p : Params) (k : Conn) (s : Stmt) : Reply → Bool
  | .refused e => !unheard p k e s
  | _ => true

def Heard (p : Params) (env : Env) (c : ConnId) (k : Conn) : Prop := ∀ s ∈ Stmt.all, (env.reply c s).heard p k s = true

instance (p : Params) (env : Env) (c : ConnId) (k : Conn) : Decidable (Heard p env c k) := by
  unfold Heard; infer_instance

theorem Heard.unheard {p : Params} {env : Env} {c : ConnId} {k : Conn} (h : Heard p env c k) {s : Stmt} {e : ShardError}
    (hr : env.reply c s = .refused e) : unheard p k e s = false := by
  have := h s s.mem_all
  rw [hr] at this
  simpa [Reply.heard] using this

theorem Heard.congr {p : Params} {env : Env} {c : ConnId} {k k' : Conn} (h : Heard p env c k)
    (hk : k'.ignoreDupKey = k.ignoreDupKey) : Heard p env c k' := by
  have hsame : ∀ e s, Xa.unheard p k' e s = Xa.unheard p k e s := fun e s => by
    cases s <;> simp [Xa.unheard, silentError, hk]
  intro s hs
  have := h s hs
  cases hr : env.reply c s with
  | refused e =>
    rw [hr] at this
    simpa [Reply.heard, hsame] using this
  | _ => rfl

/-! ## Work on one connection -/

/-- What a call keeps of the connection `c` while it goes from `t` to `u`. -/
structure Stays (env : Env) (c : ConnId) (t u : State) : Prop where
  calm : Calm env c (t.conn c) → Calm env c (u.conn c)
  later : Conn.Later (t.conn c) (u.conn c)
  closed : (t.world.branch c).Closed → (u.world.branch c).Closed
  trxOpen : u.world.trxOpen c = true → t.world.trxOpen c = true

theorem Stays.refl (env : Env) (c : ConnId) (t : State) : Stays env c t t := ⟨id, .refl _, id, id⟩

theorem Stays.trans {env : Env} {c : ConnId} {t u w : State} (h : Stays env c t u) (h' : Stays env c u w) : Stays env c t w :=
  ⟨fun hc => h'.calm (h.calm hc), h.later.trans h'.later, fun hb => h'.closed (h.closed hb),
    fun ho => h.trxOpen (h'.trxOpen ho)⟩

theorem Stays.of_see {env : Env} {c : ConnId} {t u : State} (h : u.see c = t.see c) : Stays env c t u where
  calm := by rw [see_conn h]; exact id
  later := by rw [see_conn h]; exact .refl _
  closed := by rw [see_branch h]; exact id
  trxOpen := by rw [see_trxOpen h]; exact id

/-- A function on `c` has no error on a calm connection in error mode, and does not take back an error of the session. -/
structure Works (env : Env) (c : ConnId) (t : State) (r : Nat × State) : Prop extends Stays env c t r.2 where
  quiet : Calm env c (t.conn c) → (t.conn c).errorMode = true → r.1 = 0
  isError : t.isError = true → r.2.isError = true

section Works
variable {p : Params} {env : Env} {c : ConnId} {t : State} {r q : Nat × State} {S : Stmt → Prop}

theorem Works.settles (h : Works env c t r) (hs : Settles (t.see c)) : Settles (r.2.see c) := by
  rcases hs with hs | ⟨hb, ho⟩
  · exact .inl (h.later.serverLost hs)
  · refine .inr ⟨h.closed hb, ?_⟩
    have hopen : t.world.trxOpen c = false := ho
    exact Bool.eq_false_iff.mpr fun h' => by simp [h.trxOpen h'] at hopen

theorem Works.trans (h : Works env c t r) (h' : Works env c r.2 q) : Works env c t q where
  toStays := h.toStays.trans h'.toStays
  quiet hcalm hmode := h'.quiet (h.calm hcalm) (h.later.errorMode.trans hmode)
  isError herr := h'.isError (h.isError herr)

theorem Touches.works (h : Touches S (· = c) t r.2)
    (hack : (t.conn c).serverLost = false → (∀ s, env.reply c s = .ack) → r.1 = 0 ∧ (r.2.conn c).serverLost = false)
    (herr : t.isError = true → r.2.isError = true) : Works env c t r where
  quiet hcalm hmode := (hack (hcalm hmode).1 fun s => (hcalm hmode).2 s s.mem_all).1
  calm hcalm hmode := by
    have hmode' : (t.conn c).errorMode = true := (h.later c).errorMode.symm.trans hmode
    exact ⟨(hack (hcalm hmode').1 fun s => (hcalm hmode').2 s s.mem_all).2, (hcalm hmode').2⟩
  later := h.later c
  isError := herr
  closed := (h.branch c).closed
  trxOpen := h.trxOpen c

theorem Works.setConn {k : Conn} (e : Nat) (h : Works env c t r) (hk : Conn.Later (r.2.conn c) k)
    (hlost : k.serverLost = (r.2.conn c).serverLost) (he : r.1 = 0 → e = 0) : Works env c t (e, r.2.setConn c k) where
  quiet hcalm hmode := he (h.quiet hcalm hmode)
  calm hcalm hmode := by
    rw [setConn_conn_self] at hmode ⊢
    rw [hlost]
    exact h.calm hcalm (hk.errorMode ▸ hmode)
  later := by
    rw [setConn_conn_self]
    exact h.later.trans hk
  isError := h.isError
  closed := h.closed
  trxOpen := h.trxOpen

theorem Works.refl (env : Env) (c : ConnId) (t : State) : Works env c t (0, t) :=
  ⟨.refl env c t, fun _ _ => rfl, id⟩

theorem Works.guard {b : Prop} [Decidable b] (h : Works env c t r) : Works env c t (if b then r else (0, t)) := by
  split_ifs
  · exact h
  · exact .refl env c t

/-- Only a connection that is not lost and has something open needs an argument. -/
theorem Works.settles_or {Q : Prop} (h : Works env c t r)
    (hq : (t.conn c).serverLost = false → ¬ Settles (t.see c) → Settles (r.2.see c) ∨ Q) : Settles (r.2.see c) ∨ Q := by
  by_cases hs : Settles (t.see c)
  · exact .inl (h.settles hs)
  · exact hq (Bool.eq_false_iff.mpr fun hl => hs (.inl hl)) hs

theorem Works.restoreDastatus (h : Works env c t r) (hcalm : Calm env c (t.conn c)) (da : Bool) :
    restoreDastatus da c r = r := by
  refine if_neg fun ⟨hne, hmode⟩ => hne ?_
  exact h.quiet hcalm (h.later.errorMode.symm.trans hmode)

variable (p env c t)

theorem dbErrorno_isError (k : Conn) (e : ShardError) (st : State) (h : st.isError = true) :
    (dbErrorno p k e st).2.isError = true := by
  unfold dbErrorno
  split_ifs <;> first | exact h | rfl

theorem dbErrorno_heard {k : Conn} {e : ShardError} (h : silentError p k e = false) (st : State) :
    (dbErrorno p k e st).2.isError = true := by
  obtain ⟨hdup, hnota⟩ : (k.ignoreDupKey && isDupEntryError e.num) = false ∧
      (isXaNotaError e.num && p.forceCommit == 1) = false := by simpa [silentError, Bool.or_eq_false_iff] using h
  unfold dbErrorno
  rw [if_neg (by simp [hdup]), if_neg (by simp [hnota])]
  split_ifs <;> rfl

theorem dbQuery_works (s : Stmt) : Works env c t (dbQuery p env c s t) := by
  refine (dbQuery_touches (S := fun _ => True) (C := (· = c)) p env rfl t trivial).works (fun hl hack => ?_) fun h => ?_
  · rw [dbQuery_ack p env c s t hl (hack s)]
    exact ⟨rfl, hl⟩
  · unfold dbQuery
    split_ifs
    · rfl
    · cases env.reply c s with
      | ack => exact h
      | refused e => exact dbErrorno_isError p _ e _ h
      | lost effect =>
        unfold loseConn
        dsimp only
        split_ifs
        · rfl
        · exact h

theorem dbPacket_works (s : Stmt) : Works env c t (dbPacket p env c s t) := by
  have h := dbQuery_works p env c t s
  unfold dbPacket
  dsimp only
  split_ifs
  · exact { h with isError := fun _ => rfl }
  · exact h

theorem dbXaEnd_works : Works env c t (dbXaEnd p env c t) := (dbQuery_works p env c t _).guard

theorem dbXaRollback_works : Works env c t (dbXaRollback p env c t) := (dbQuery_works p env c t _).guard

theorem dbXaCommit_works : Works env c t (dbXaCommit p env c t) := (dbQuery_works p env c t _).guard

theorem dbXaCommitOnePhase_works : Works env c t (dbXaCommitOnePhase p env c t) := by
  have hset : Works env c t (0, t.setConn c { t.conn c with isXaCommitOnePhase := true }) :=
    (Works.refl env c t).setConn 0 { Conn.Later.refl _ with } rfl id
  exact (hset.trans (dbPacket_works p env c _ _)).guard

theorem works_failover (h : (t.conn c).serverLost = true) : Works env c t (erSpiderLinkIsFailover, t.myMessage) where
  quiet hcalm hmode := absurd ((hcalm hmode).1.symm.trans h) Bool.false_ne_true
  calm := id
  later := .refl _
  isError _ := rfl
  closed := id
  trxOpen := id

theorem dbXaEndAndPrepare_works : Works env c t (dbXaEndAndPrepare p env c t) := by
  unfold dbXaEndAndPrepare
  split_ifs with hs hl
  · rw [Bool.and_eq_true] at hl
    exact works_failover env c t hl.2
  · exact dbPacket_works p env c t _
  · exact .refl env c t

variable {t} in
theorem dbTrxEnded_works (h : Works env c t r) : Works env c t (dbTrxEnded c r) := by
  unfold dbTrxEnded
  split_ifs
  · exact h.setConn 0 { Conn.Later.refl _ with } rfl fun _ => rfl
  · exact h

theorem dbTrxEnded_settledOr (env : Env) (h : Settles (r.2.see c) ∨ r.1 ≠ 0 ∧ r.2.isError = true) :
    SettledOr (dbTrxEnded c r).2 c := by
  have hended := dbTrxEnded_works env c (.refl env c r.2)
  unfold dbTrxEnded
  split_ifs with hzero
  · exact .inl (hended.settles (h.resolve_right fun hn => hn.1 hzero))
  · exact h.imp id And.right

theorem dbCommit_works : Works env c t (dbCommit p env c t) := by
  unfold dbCommit
  split_ifs with hs hl
  · rw [Bool.and_eq_true] at hl
    exact works_failover env c t hl.2
  · refine dbTrxEnded_works env c ?_
    exact dbQuery_works p env c t _
  · exact dbTrxEnded_works env c (.refl env c t)
  · exact dbTrxEnded_works env c (.refl env c t)

theorem mysqlRollback_works (s : Stmt) : Works env c t (mysqlRollback p env c s t) := by
  have h := dbQuery_works p env c t s
  unfold mysqlRollback
  dsimp only
  split_ifs with hgone
  · exact { h with quiet := fun _ _ => rfl, isError := fun h' => absurd (h'.symm.trans hgone.2) (by simp) }
  · exact h

theorem dbRollback_works (s : Stmt) : Works env c t (dbRollback p env c s t) := by
  unfold dbRollback
  split_ifs
  · exact dbTrxEnded_works env c (mysqlRollback_works p env c t s)
  · exact dbTrxEnded_works env c (.refl env c t)

theorem endTrx_works (hlock : (t.conn c).tableLock = 0) : Works env c t (endTrx p env c t) := by
  have hfirst : endTrxLock p env c t = (0, t.setConn c { t.conn c with disableReconnect := false }) := by
    simp [endTrxLock, hlock]
  have hset : Works env c t (0, t.setConn c { t.conn c with disableReconnect := false }) :=
    (Works.refl env c t).setConn 0 { Conn.Later.refl _ with } rfl id
  have hiso : Works env c t (endTrxIsolation p env c (endTrxLock p env c t)) := by
    rw [hfirst]
    unfold endTrxIsolation
    split_ifs
    · have hq := hset.trans (dbQuery_works p env c (t.setConn c { t.conn c with disableReconnect := false }) .setTrxIsolation)
      dsimp only
      split_ifs
      · exact { hq with quiet := fun _ _ => rfl }
      · exact hq
    · exact hset
  exact hiso.setConn _ { Conn.Later.refl _ with } rfl id

end Works

/-! ## Statements that close -/

section Close
variable (p : Params) (env : Env) (c : ConnId) (t : State)

theorem forget_closed (b : Branch) : b.forget.Closed := by cases b <;> exact ⟨by decide, by decide⟩

theorem dbQuery_outcome {s : Stmt} (hl : (t.conn c).serverLost = false) (hexec : (s.onBranch (t.world.branch c)).Closed)
    (hend : t.world.trxOpen c = true → s.endsTrx = true) :
    Settles ((dbQuery p env c s t).2.see c) ∨ ∃ e, env.reply c s = .refused e ∧
      (e.num = erXaerNota → t.world.trxOpen c = true) ∧
      (silentError p (t.conn c) e = false → (dbQuery p env c s t).2.isError = true) := by
  obtain ⟨hconn, hworld, -⟩ := dbQuery_sent p env c s t hl
  unfold see
  rw [hconn, hworld]
  cases hr : env.reply c s with
  | ack =>
    refine .inl (.inr ⟨by simpa using hexec, ?_⟩)
    cases ho : t.world.trxOpen c with
    | false => simp [World.after, World.exec, ho]
    | true => simp [World.after, World.exec, hend ho]
  | lost effect => exact .inl (.inl rfl)
  | refused e =>
    by_cases hnota : e.num = erXaerNota ∧ t.world.trxOpen c = false
    · refine .inl (.inr ⟨?_, ?_⟩)
      · simpa [after_refused_branch, hnota.1] using forget_closed _
      · simpa [World.after, hnota.1, World.nota] using hnota.2
    · refine .inr ⟨e, rfl, fun h => by simpa using fun ho => hnota ⟨h, ho⟩, fun hsilent => ?_⟩
      have hquery : dbQuery p env c s t = dbErrorno p (t.conn c) e (t.issue c s (.refused e)) := by simp [dbQuery, hl, hr]
      rw [hquery]
      exact dbErrorno_heard p hsilent _

theorem xaQuery_outcome {s : Stmt} (hl : (t.conn c).serverLost = false) (hexec : (s.onBranch (t.world.branch c)).Closed)
    (ho : t.world.trxOpen c = false) :
    Settles ((dbQuery p env c s t).2.see c) ∨ ∃ e, env.reply c s = .refused e ∧ e.num ≠ erXaerNota ∧
      (dbQuery p env c s t).1 ≠ 0 ∧ (dbQuery p env c s t).1 ≠ erXaerNota ∧
      (silentError p (t.conn c) e = false → (dbQuery p env c s t).2.isError = true) := by
  refine (dbQuery_outcome p env c t hl hexec fun h => absurd (ho.symm.trans h) Bool.false_ne_true).imp id ?_
  rintro ⟨e, hr, hnota, hisError⟩
  have hne : e.num ≠ erXaerNota := fun h => absurd (ho.symm.trans (hnota h)) Bool.false_ne_true
  rw [dbQuery_fst]
  refine ⟨e, hr, hne, ?_, fun hn => ?_, hisError⟩
  · rw [hr, Ne, queryCode_eq_zero]
    simp
  · obtain ⟨-, ⟨e', hr', he'⟩, -⟩ := queryCode_eq_nota hn
    obtain rfl := Reply.refused.inj (hr.symm.trans hr')
    exact hne he'

theorem begun_of_open {Q : Prop} (ho : t.world.trxOpen c = false)
    (h : (t.world.branch c).Closed ∨ Q ∨ (t.conn c).serverLost = true) (hopen : ¬ Settles (t.see c)) : Q :=
  (h.resolve_left fun hb => hopen (.inr ⟨hb, ho⟩)).resolve_right fun hl => hopen (.inl hl)

theorem endVisit {r : Nat × State} (hworks : Works env c t r) (hlock : (t.conn c).tableLock = 0)
    (hcalm : Calm env c (t.conn c)) (da : Bool) : restoreDastatus da c (endTrx p env c r.2) = endTrx p env c r.2 ∧
      (r.2.isError = true → ((endTrx p env c r.2).2.leaveTrx c).isError = true) ∧
      (Settles (r.2.see c) → Settles (((endTrx p env c r.2).2.leaveTrx c).see c)) := by
  have hend := endTrx_works p env c r.2 (hworks.later.tableLock hlock)
  refine ⟨hend.restoreDastatus (hworks.calm hcalm) da, hend.isError, fun hs => ?_⟩
  rcases hend.settles hs with hl | hopen
  · refine .inl ?_
    simpa [see, leaveTrx] using hl
  · exact .inr hopen

end Close

/-! ## Plain transactions -/

/-- A connection of a plain transaction as the loops find it: what is open will be sent `COMMIT` or `ROLLBACK`. -/
structure PlainReady (p : Params) (env : Env) (c : ConnId) (x : Conn × Branch × Bool) : Prop where
  lock : x.1.tableLock = 0
  calm : Calm env c x.1
  heard : Heard p env c x.1
  branch : x.2.1.Closed
  ends : x.2.2 = true → (x.1.autocommit ≠ 1 ∨ x.1.trxStart = true) ∧ x.1.queuedConnect = false ∧
    x.1.queuedTrxStart = false ∧ p.transmit = true

section Plain
variable {p : Params} {env : Env} {c : ConnId} {t : State} (da : Bool) (e : Nat)

theorem onBranch_closed {s : Stmt} {b : Branch} (h : b.Closed) : (s.onBranch b).Closed :=
  Branch.Reach.closed (S := fun _ => True) (.single (.exec b s trivial)) h

theorem PlainReady.trxOpen (h : PlainReady p env c (t.see c)) (hs : ¬ Settles (t.see c)) : t.world.trxOpen c = true := by
  by_contra ho
  exact hs (.inr ⟨h.branch, Bool.eq_false_iff.mpr ho⟩)

theorem dbCommit_settles (h : PlainReady p env c (t.see c)) : SettledOr (dbCommit p env c t).2 c := by
  refine (dbCommit_works p env c t).settles_or fun hl hopen => ?_
  obtain ⟨-, hq, htrx, htransmit⟩ := h.ends (h.trxOpen hopen)
  have hq : (t.conn c).queuedConnect = false := hq
  have htrx : (t.conn c).queuedTrxStart = false := htrx
  have hsent : dbCommit p env c t = dbTrxEnded c (dbQuery p env c .commit t) := by
    simp [dbCommit, hq, htrx, hl, htransmit]
  rw [hsent]
  refine dbTrxEnded_settledOr c env
    ((dbQuery_outcome p env c t hl (onBranch_closed h.branch) fun _ => rfl).imp id ?_)
  rintro ⟨e, hr, -, hheard⟩
  refine ⟨?_, hheard (h.heard.unheard hr)⟩
  rw [dbQuery_fst, hr]
  simp [queryCode_eq_zero]

theorem dbRollback_settles (h : PlainReady p env c (t.see c)) : SettledOr (dbRollback p env c .rollback t).2 c := by
  refine (dbRollback_works p env c t .rollback).settles_or fun hl hopen => ?_
  obtain ⟨-, hq, htrx, -⟩ := h.ends (h.trxOpen hopen)
  have hq : (t.conn c).queuedConnect = false := hq
  have htrx : (t.conn c).queuedTrxStart = false := htrx
  have hsent : dbRollback p env c .rollback t = dbTrxEnded c (mysqlRollback p env c .rollback t) := by
    simp [dbRollback, hq, htrx]
  rw [hsent]
  refine dbTrxEnded_settledOr c env
    ((dbQuery_outcome p env c t hl (s := .rollback) (onBranch_closed h.branch) fun _ => rfl).imp (fun hs => ?_) ?_)
  · unfold mysqlRollback
    dsimp only
    split_ifs <;> exact hs
  · rintro ⟨e, hr, -, hheard⟩
    have hunheard : unheard p (t.conn c) e .rollback = false := h.heard.unheard hr
    obtain ⟨hsilent, hgone⟩ : silentError p (t.conn c) e = false ∧ e.num ≠ erSpiderRemoteServerGoneAway := by
      simpa [unheard] using hunheard
    have hcode : (dbQuery p env c .rollback t).1 = errorCode p (t.conn c) e := by
      rw [dbQuery_fst, hr]
      simp [queryCode, hl]
    have hne : (dbQuery p env c .rollback t).1 ≠ erSpiderRemoteServerGoneAway := by
      rw [hcode]
      unfold errorCode
      split_ifs <;> first | exact hgone | decide
    have hsame : mysqlRollback p env c .rollback t = dbQuery p env c .rollback t := if_neg fun hg => hne hg.1
    rw [hsame, hcode]
    exact ⟨errorCode_ne_zero p _ e, hheard hsilent⟩

theorem told_visit {r u : Nat × State} (hworks : Works env c t r) (hlock : (t.conn c).tableLock = 0)
    (hcalm : Calm env c (t.conn c)) (hr : SettledOr r.2 c)
    (hu : u.2 = (restoreDastatus da c (endTrx p env c r.2)).2.leaveTrx c) : Visit Told c (e, t) u := by
  obtain ⟨hrestore, herr, hsettles⟩ := endVisit p env c t hworks hlock hcalm da
  rw [hrestore] at hu
  unfold Visit Told
  rw [hu]
  exact ⟨fun ht => herr (hworks.isError ht), hr.imp hsettles herr⟩

theorem commitPlainConn_visit (h : PlainReady p env c (t.see c)) : Visit Told c (e, t) (commitPlainConn p env da c e t) := by
  by_cases hsend : (t.conn c).autocommit ≠ 1 ∨ (t.conn c).trxStart = true
  · have hworks := dbCommit_works p env c t
    refine told_visit (p := p) da e hworks h.lock h.calm (dbCommit_settles h) ?_
    unfold commitPlainConn
    rw [if_pos hsend, hworks.restoreDastatus h.calm da]
  · have hs : Settles (t.see c) := by_contra fun hs => hsend (h.ends (h.trxOpen hs)).1
    refine told_visit (p := p) da e (.refl env c t) h.lock h.calm (.inl hs) ?_
    unfold commitPlainConn
    rw [if_neg hsend]

theorem rollbackPlainConn_visit (h : PlainReady p env c (t.see c)) :
    Visit Told c (e, t) (rollbackPlainConn p env da c e t) := by
  by_cases hsend : (t.conn c).serverLost = false ∧ ((t.conn c).autocommit ≠ 1 ∨ (t.conn c).trxStart = true)
  · have hworks := dbRollback_works p env c t .rollback
    refine told_visit (p := p) da e hworks h.lock h.calm (dbRollback_settles h) ?_
    unfold rollbackPlainConn
    rw [if_pos hsend, hworks.restoreDastatus h.calm da]
  · have hs : Settles (t.see c) := by_contra fun hs =>
      hsend ⟨Bool.eq_false_iff.mpr fun hl => hs (.inl hl), (h.ends (h.trxOpen hs)).1⟩
    refine told_visit (p := p) da e (.refl env c t) h.lock h.calm (.inl hs) ?_
    unfold rollbackPlainConn
    rw [if_neg hsend]

end Plain

/-! ## Internal XA transactions -/

/-- A connection of an internal XA transaction as the loops find it: an open branch was begun by the connection. -/
structure XaReady (p : Params) (env : Env) (c : ConnId) (x : Conn × Branch × Bool) : Prop where
  joinTrx : x.1.joinTrx = true
  disableXa : x.1.disableXa = false
  lock : x.1.tableLock = 0
  calm : Calm env c x.1
  heard : Heard p env c x.1
  trxOpen : x.2.2 = false
  started : x.2.1.Closed ∨ x.1.started = true ∨ x.1.serverLost = true

section XaLoops
variable {p : Params} {env : Env} {c : ConnId} {t : State} (da : Bool) (e : Nat)

theorem Conn.Later.started {k k' : Conn} (h : Conn.Later k k') : k'.started = k.started := by
  unfold Conn.started
  rw [h.queuedConnect, h.queuedXaStart]

theorem rollbackXaEnd_works (hcalm : Calm env c (t.conn c)) :
    ∃ r, Works env c t r ∧ (rollbackXaEnd p env da c e t).2 = r.2 := by
  have hworks := dbXaEnd_works p env c t
  unfold rollbackXaEnd
  dsimp only
  rw [hworks.restoreDastatus hcalm da]
  split_ifs
  · exact ⟨_, .refl env c t, rfl⟩
  · exact ⟨_, hworks, rfl⟩
  · exact ⟨_, hworks, rfl⟩

theorem rollbackXa_snd (hcalm : Calm env c (t.conn c)) : (rollbackXa p env da c e t).2 = (dbXaRollback p env c t).2 := by
  unfold rollbackXa
  dsimp only
  rw [(dbXaRollback_works p env c t).restoreDastatus hcalm da]
  split_ifs <;> rfl

theorem dbXaRollback_settles (hheard : Heard p env c (t.conn c)) (ho : t.world.trxOpen c = false)
    (hstarted : (t.world.branch c).Closed ∨ (t.conn c).started = true ∨ (t.conn c).serverLost = true) :
    SettledOr (dbXaRollback p env c t).2 c := by
  refine (dbXaRollback_works p env c t).settles_or fun hl hopen => ?_
  have hs := begun_of_open c t ho hstarted hopen
  have hsent : dbXaRollback p env c t = dbQuery p env c .xaRollback t := by
    unfold Conn.started at hs
    simp [dbXaRollback, hs]
  have hexec : (Stmt.onBranch .xaRollback (t.world.branch c)).Closed := by
    cases t.world.branch c <;> exact ⟨by decide, by decide⟩
  rw [hsent]
  refine (xaQuery_outcome p env c t hl hexec ho).imp id ?_
  rintro ⟨e, hr, hne, -, -, hisError⟩
  have hunheard := hheard.unheard hr
  exact hisError (by simpa [unheard, hne] using hunheard)

theorem rollbackBranch_visit (h : XaReady p env c (t.see c)) :
    ∃ r, Works env c t r ∧ (rollbackBranch p env da c e t).2 = r.2 ∧ SettledOr r.2 c := by
  have hx : (t.conn c).disableXa = false := h.disableXa
  unfold rollbackBranch
  rw [if_neg (by simp [hx])]
  split_ifs with hl
  · exact ⟨_, .refl env c t, rfl, .inl (.inl hl)⟩
  · obtain ⟨r, hworks, heq⟩ := rollbackXaEnd_works da e h.calm
    have hcalm := hworks.calm h.calm
    have ho : r.2.world.trxOpen c = false := Bool.eq_false_iff.mpr fun ho =>
      absurd (h.trxOpen.symm.trans (hworks.trxOpen ho)) Bool.false_ne_true
    refine ⟨_, hworks.trans (dbXaRollback_works p env c r.2), ?_, dbXaRollback_settles ?_ ho ?_⟩
    · dsimp only
      rw [heq, rollbackXa_snd da _ hcalm]
    · exact h.heard.congr hworks.later.ignoreDupKey
    · rw [hworks.later.started]
      exact h.started.imp hworks.closed (Or.imp id hworks.later.serverLost)

theorem rollbackConn_visit (h : XaReady p env c (t.see c)) : Visit Told c (e, t) (rollbackConn p env da c e t) := by
  have hj : (t.conn c).joinTrx = true := h.joinTrx
  obtain ⟨r, hworks, heq, hr⟩ := rollbackBranch_visit da e h
  refine told_visit (p := p) da e hworks h.lock h.calm hr ?_
  unfold rollbackConn
  rw [if_pos hj]
  dsimp only
  rw [heq]

/-- A connection as the commit loop finds it: an open branch is prepared and will be sent `XA COMMIT`. -/
structure CommitReady (p : Params) (env : Env) (c : ConnId) (x : Conn × Branch × Bool) : Prop where
  joinTrx : x.1.joinTrx = true
  lock : x.1.tableLock = 0
  calm : Calm env c x.1
  heard : Heard p env c x.1
  trxOpen : x.2.2 = false
  branch : x.2.1.Closed ∨ (x.2.1 = .prepared ∧ x.1.commits = true) ∨ x.1.serverLost = true

theorem firstError_ne_zero {e tmp : Nat} (h : e ≠ 0 ∨ tmp ≠ 0) : firstError e tmp erSpiderXaTimeout ≠ 0 := by
  rw [Ne, firstError_eq_zero fun _ => timeout_ne_zero]
  omega

theorem dbXaCommit_settles (h : CommitReady p env c (t.see c)) : Settles ((dbXaCommit p env c t).2.see c) ∨
      (dbXaCommit p env c t).1 ≠ 0 ∧ (commitErrorCounts p (dbXaCommit p env c t).1 = true ∨
        (dbXaCommit p env c t).2.isError = true) := by
  refine (dbXaCommit_works p env c t).settles_or fun hl hopen => ?_
  obtain ⟨hb, hs⟩ := begun_of_open c t h.trxOpen h.branch hopen
  have hb : t.world.branch c = .prepared := hb
  rw [dbXaCommit_sent p env c hs]
  have hexec : (Stmt.onBranch .xaCommit (t.world.branch c)).Closed := by
    rw [hb]
    exact ⟨by decide, by decide⟩
  refine (xaQuery_outcome p env c t hl hexec h.trxOpen).imp id ?_
  rintro ⟨e, hr, -, hzero, hcode, hisError⟩
  refine ⟨hzero, ?_⟩
  by_cases hforce : p.forceCommit = 0 ∨ p.forceCommit = 1
  · rcases hforce with hf | hf <;> simp [commitErrorCounts, hf, hcode]
  · right
    rw [not_or] at hforce
    have hunheard : unheard p (t.conn c) e .xaCommit = false := h.heard.unheard hr
    refine hisError ?_
    simpa [unheard, silentError, hforce.1, hforce.2] using hunheard

theorem sysLogXaFailed_works {r : Nat × State} (h : Works env c t r) (n : Nat) (hn : r.1 = 0 → n = 0) :
    Works env c t (n, sysLogXaFailed env c r.2) := by
  unfold sysLogXaFailed
  split_ifs
  · exact { h with quiet := fun hc hm => hn (h.quiet hc hm), isError := fun _ => rfl }
  · exact { h with quiet := fun hc hm => hn (h.quiet hc hm) }

theorem commitBranch_visit (h : CommitReady p env c (t.see c)) :
    ∃ r, Works env c t r ∧ (commitBranch p env da c e t).2 = r.2 ∧ (e ≠ 0 → (commitBranch p env da c e t).1 ≠ 0) ∧
      (Settles (r.2.see c) ∨ Noted ((commitBranch p env da c e t).1, r.2)) := by
  have hworks := dbXaCommit_works p env c t
  have hsettles := dbXaCommit_settles h
  unfold commitBranch
  dsimp only
  rw [hworks.restoreDastatus h.calm da]
  by_cases hzero : (dbXaCommit p env c t).1 = 0
  · rw [if_pos hzero]
    exact ⟨_, hworks, rfl, id, .inl (hsettles.resolve_right fun hn => hn.1 hzero)⟩
  · rw [if_neg hzero]
    have hlog := sysLogXaFailed_works hworks (dbXaCommit p env c t).1 id
    have hsee : (sysLogXaFailed env c (dbXaCommit p env c t).2).see c = (dbXaCommit p env c t).2.see c := by
      unfold sysLogXaFailed
      split_ifs <;> rfl
    have herr : (dbXaCommit p env c t).2.isError = true →
        (sysLogXaFailed env c (dbXaCommit p env c t).2).isError = true := by
      unfold sysLogXaFailed
      split_ifs
      · exact fun _ => rfl
      · exact id
    by_cases hcount : commitErrorCounts p (dbXaCommit p env c t).1 = true
    · rw [if_pos hcount]
      exact ⟨_, hlog, rfl, fun he => firstError_ne_zero (.inl he), .inr (.inl (firstError_ne_zero (.inr hzero)))⟩
    · rw [if_neg hcount]
      refine ⟨_, hlog, rfl, fun he => firstError_ne_zero (.inl he), ?_⟩
      rw [hsee]
      exact hsettles.imp id fun hn => .inr (herr (hn.2.resolve_left hcount))

theorem commitConn_visit (h : CommitReady p env c (t.see c)) : Visit Noted c (e, t) (commitConn p env da c e t) := by
  have hj : (t.conn c).joinTrx = true := h.joinTrx
  obtain ⟨r, hworks, heq, hcode, hr⟩ := commitBranch_visit da e h
  obtain ⟨hrestore, herr, hsettles⟩ := endVisit p env c t hworks h.lock h.calm da
  have hvisit : commitConn p env da c e t =
      (firstError (commitBranch p env da c e t).1 (endTrx p env c r.2).1 erSpiderXaTimeout,
        (endTrx p env c r.2).2.leaveTrx c) := by
    unfold commitConn
    rw [if_pos hj]
    dsimp only
    rw [heq, hrestore]
  have hnoted : Noted ((commitBranch p env da c e t).1, r.2) → Noted (commitConn p env da c e t) := by
    rw [hvisit]
    exact Or.imp (fun he => firstError_ne_zero (.inl he)) herr
  refine ⟨fun hn => hnoted (hn.imp hcode hworks.isError), hr.imp (fun hs => ?_) hnoted⟩
  rw [hvisit]
  exact hsettles hs

theorem dbXaCommitOnePhase_settles (h : XaReady p env c (t.see c)) (hprep : t.world.branch c ≠ .prepared) :
    Settles ((dbXaCommitOnePhase p env c t).2.see c) ∨
      (dbXaCommitOnePhase p env c t).1 ≠ 0 ∧ (dbXaCommitOnePhase p env c t).1 ≠ erXaerNota := by
  refine (dbXaCommitOnePhase_works p env c t).settles_or fun hl hopen => ?_
  rw [onePhase_started p env c (begun_of_open c t h.trxOpen h.started hopen)]
  generalize hu : t.setConn c { t.conn c with isXaCommitOnePhase := true } = u
  have hconn : (u.conn c).serverLost = false := by rw [← hu]; simpa using hl
  have hworld : u.world = t.world := by rw [← hu]; rfl
  obtain ⟨hsee1, hsee2, -⟩ := dbPacket_eq p env c .xaCommitOnePhase u
  have hexec : (Stmt.onBranch .xaCommitOnePhase (u.world.branch c)).Closed := by
    rw [hworld]
    cases hb : t.world.branch c <;> first | exact absurd hb hprep | exact ⟨by decide, by decide⟩
  have hsame : (dbPacket p env c .xaCommitOnePhase u).2.see c = (dbQuery p env c .xaCommitOnePhase u).2.see c := by
    unfold see
    rw [hsee1, hsee2]
  rw [hsame, dbPacket_fst, ← dbQuery_fst]
  refine (xaQuery_outcome p env c u hconn hexec (hworld ▸ h.trxOpen)).imp id ?_
  rintro ⟨-, -, -, hzero, hnota, -⟩
  exact ⟨hzero, hnota⟩

theorem onePhaseConn_visit (h : XaReady p env c (t.see c)) (hprep : t.world.branch c ≠ .prepared) :
    Visit Noted c (e, t) (onePhaseConn p env c e t) := by
  have hj : (t.conn c).joinTrx = true := h.joinTrx
  have hworks := dbXaCommitOnePhase_works p env c t
  obtain ⟨-, herr, hsettles⟩ := endVisit p env c t hworks h.lock h.calm true
  unfold onePhaseConn
  rw [if_pos hj]
  dsimp only
  refine ⟨fun hn => hn.imp (fun he => ?_) fun ht => herr (hworks.isError ht),
    (dbXaCommitOnePhase_settles h hprep).imp hsettles fun hn => .inl ?_⟩
  · refine firstError_ne_zero (.inl ?_)
    split_ifs
    · exact he
    · exact firstError_ne_zero (.inl he)
  · rw [if_neg hn.2]
    exact firstError_ne_zero (.inl (firstError_ne_zero (.inr hn.1)))

end XaLoops

/-! ## The prepare phase -/

section PreparePhase
variable {p : Params} {env : Env} {st : State} {c : ConnId}

theorem internalXaPrepare_stays (hlen : 2 ≤ st.trx.joinTrxTop.length) (hx : (st.conn c).disableXa = false) :
    Stays env c st (internalXaPrepare p env st).2 := by
  -- a step on one connection leaves the others alone
  have hwork : ∀ {d : ConnId} {t : State} {r : Nat × State} {S : Stmt → Prop}, Touches S (· = d) t r.2 →
      (d = c → Works env c t r) → Stays env c st t → Stays env c st r.2 := by
    intro d t r S htouch hworks h
    by_cases hd : c = d
    · exact h.trans (hworks hd.symm).toStays
    · exact h.trans (.of_see (htouch.see_eq hd))
  refine internalXaPrepare_rule p env hlen
    (fun h ht => ht.trans (.of_see (by simp only [see, h.conn, h.world]))) (fun da d _ t _ ht => ?_) (fun t ht => ?_)
    (.refl env c st)
  · refine hwork (prepareConn_touches (C := (· = d)) p env da rfl t) (fun hd => ?_) ht
    subst hd
    rw [prepareConn_eq p env (ht.later.disableXa.trans hx)]
    exact dbXaEndAndPrepare_works p env d t
  · refine hwork (onePhase_touches p env st.trx.last t) (fun hd => ?_) ht
    rw [hd]
    exact dbXaCommitOnePhase_works p env c t

theorem XaReady.stays (h : XaReady p env c (st.see c)) {u : State} (hu : Stays env c st u)
    (hj : (u.conn c).joinTrx = (st.conn c).joinTrx) : XaReady p env c (u.see c) where
  joinTrx := hj.trans h.joinTrx
  disableXa := hu.later.disableXa.trans h.disableXa
  lock := hu.later.tableLock h.lock
  calm := hu.calm h.calm
  heard := h.heard.congr hu.later.ignoreDupKey
  trxOpen := Bool.eq_false_iff.mpr fun ho => absurd (h.trxOpen.symm.trans (hu.trxOpen ho)) Bool.false_ne_true
  started := by
    have hstarted : (u.conn c).started = (st.conn c).started := hu.later.started
    refine h.started.imp hu.closed (Or.imp (fun hs => ?_) hu.later.serverLost)
    exact hstarted.trans hs

theorem dbXaEndAndPrepare_ready (h : XaReady p env c (st.see c)) (hprep : st.world.branch c ≠ .prepared)
    (hone : (st.conn c).isXaCommitOnePhase = false) (hok : (dbXaEndAndPrepare p env c st).1 = 0) :
    CommitReady p env c ((dbXaEndAndPrepare p env c st).2.see c) := by
  have hworks := dbXaEndAndPrepare_works p env c st
  have hj := dbXaEndAndPrepare_onlyLoses p env c st c
  have hready := h.stays hworks.toStays (by rw [hj])
  refine ⟨hready.joinTrx, hready.lock, hready.calm, hready.heard, hready.trxOpen, ?_⟩
  by_cases hopen : Settles (st.see c)
  · exact (hworks.settles hopen).elim (fun hl => .inr (.inr hl)) fun hb => .inl hb.1
  · have hs : (st.conn c).started = true := begun_of_open c st h.trxOpen h.started hopen
    have hl : (st.conn c).serverLost = false := Bool.eq_false_iff.mpr fun hl => hopen (.inl hl)
    have hsent : dbXaEndAndPrepare p env c st = dbPacket p env c .xaEndAndPrepare st := by
      unfold Conn.started at hs
      simp [dbXaEndAndPrepare, hs, hl]
    rw [hsent, dbPacket_fst, queryCode_eq_zero] at hok
    rw [hsent, dbPacket_ack p env c _ st hl hok.2]
    have hcommits : (st.conn c).commits = true := by simp [Conn.commits, hone, hs]
    simp only [see, issue_conn, issue_world, after_ack_branch]
    cases hb : st.world.branch c with
    | active => exact .inr (.inl ⟨rfl, hcommits⟩)
    | prepared => exact absurd hb hprep
    | _ => exact .inl ⟨by decide, by decide⟩

theorem internalXaPrepare_commitReady (hnodup : st.trx.joinTrxTop.Nodup) (hlen : 2 ≤ st.trx.joinTrxTop.length)
    (hok : (internalXaPrepare p env st).1 = 0) (hready : ∀ d ∈ st.trx.joinTrxTop, XaReady p env d (st.see d))
    (hprep : ∀ d ∈ st.trx.joinTrxTop, st.world.branch d ≠ .prepared)
    (hone : ∀ d ∈ st.trx.joinTrxTop, (st.conn d).isXaCommitOnePhase = false) (hc : c ∈ st.trx.joinTrxTop) :
    CommitReady p env c ((internalXaPrepare p env st).2.see c) := by
  have hne : st.trx.joinTrxTop ≠ [] := List.ne_nil_of_mem hc
  obtain ⟨t, u, ht, hloop, hu, hlast, -, heq⟩ := internalXaPrepare_steps p env hlen hok
  have honly : LogsOnly st t := ht ▸ prepareLog_only p env st
  have hlog := preparedLog_only p env (dbXaCommitOnePhase p env st.trx.last u).2
  have hsee : (internalXaPrepare p env st).2.see c = (dbXaCommitOnePhase p env st.trx.last u).2.see c := by
    rw [heq]
    simp only [see, hlog.conn, hlog.world]
  have hsee0 : t.see c = st.see c := by simp only [see, honly.conn, honly.world]
  rw [hsee]
  rcases (mem_joined_iff hne).mp hc with hother | rfl
  · -- one of the others: its visit in the loop, and the one-phase commit leaves it alone
    have hdiff : c ≠ st.trx.last := fun h => last_notMem_others hne hnodup (h ▸ hother)
    obtain ⟨w, hw, hcode, -, hend⟩ := prepareLoop_visit p env (by rw [honly.trx]; exact hnodup) hloop
      (by rw [honly.trx]; exact hother)
    rw [hsee0] at hw
    have hready' : XaReady p env c (w.see c) := by rw [hw]; exact hready c hc
    rw [(onePhase_touches p env st.trx.last u).see_eq hdiff, hu, hend]
    rw [prepareConn_eq p env hready'.disableXa] at hcode ⊢
    refine dbXaEndAndPrepare_ready hready' ?_ ?_ hcode
    · rw [see_branch hw]
      exact hprep c hc
    · rw [see_conn hw]
      exact hone c hc
  · -- the last one was not touched by the loop
    have huntouched : u.see st.trx.last = st.see st.trx.last := by
      have htouch := prepareLoop_touches p env t
      have hout : st.trx.last ∉ t.trx.others := by
        rw [honly.trx]
        exact last_notMem_others hne hnodup
      rw [hu, ← hsee0]
      simp only [see, htouch.conn _ hout, htouch.branch_eq _ hout, htouch.trxOpen_eq _ hout]
    have hready' : XaReady p env st.trx.last (u.see st.trx.last) := by rw [huntouched]; exact hready _ hc
    have hworks := dbXaCommitOnePhase_works p env st.trx.last u
    have hfinal := hready'.stays hworks.toStays (onePhase_joinTrx p env st.trx.last u st.trx.last)
    refine ⟨hfinal.joinTrx, hfinal.lock, hfinal.calm, hfinal.heard, hfinal.trxOpen, ?_⟩
    have hprep' : u.world.branch st.trx.last ≠ .prepared := by
      rw [see_branch huntouched]
      exact hprep _ hc
    rcases dbXaCommitOnePhase_settles hready' hprep' with (hl | ⟨hb, -⟩) | hno
    · exact .inr (.inr hl)
    · exact .inl hb
    · exact absurd hlast hno.1

end PreparePhase

/-! ## The log tables and the error of the session -/

def KeepsError (st : State) (r : Nat × State) : Prop := st.isError = true → r.2.isError = true

section KeepsError
variable (p : Params) (env : Env) {st : State}

theorem KeepsError.andThen' {r : Nat × State} {k : State → Nat × State} (h : KeepsError st r)
    (hk : r.1 = 0 → KeepsError r.2 (k r.2)) : KeepsError st (Lib.andThen r k) := by
  unfold Lib.andThen
  split_ifs with hzero
  · exact fun herr => hk hzero (h herr)
  · exact h

theorem KeepsError.andThen {r : Nat × State} {k : State → Nat × State} (h : KeepsError st r)
    (hk : ∀ s, KeepsError s (k s)) : KeepsError st (Lib.andThen r k) := h.andThen' fun _ => hk _

theorem logOpen_keepsError (a : LogAccess) (st : State) : KeepsError st (logOpen env a st) := by
  unfold logOpen
  cases env.log a with
  | none => exact id
  | some e => exact fun _ => rfl

theorem logAccess_keepsError (a : LogAccess) (write : Log → Log) (st : State) : KeepsError st (logAccess env a write st) := by
  unfold logAccess
  cases env.log a with
  | none => exact id
  | some e => exact fun _ => rfl

theorem updateXa_keepsError (a : LogAccess) (status : XaStatus) (st : State) : KeepsError st (updateXa env a status st) := by
  unfold updateXa
  split
  · exact (logOpen_keepsError env a st).andThen fun _ _ => rfl
  · exact logAccess_keepsError env a _ st

theorem commitLog_keepsError (st : State) : KeepsError st (commitLog p env st) := by
  unfold commitLog
  split_ifs
  · refine (logOpen_keepsError env _ st).andThen fun s => KeepsError.andThen ?_ fun s => KeepsError.andThen ?_ fun s =>
      updateXa_keepsError env _ _ s
    · refine (logOpen_keepsError env _ s).andThen fun s => ?_
      split
      · exact fun _ => rfl
      · exact id
    · unfold checkXaStatus
      split_ifs
      · exact id
      · refine (logOpen_keepsError env _ s).andThen fun s => ?_
        split_ifs
        · exact id
        · exact fun _ => rfl
  · exact id

theorem deleteLog_keepsError (st : State) : KeepsError st (deleteLog p env st) := by
  unfold deleteLog
  split_ifs
  · refine (logOpen_keepsError env _ st).andThen fun s => KeepsError.andThen (logAccess_keepsError env _ _ s) fun s =>
      (logOpen_keepsError env _ s).andThen fun s => ?_
    unfold deleteXa
    split
    · exact (logOpen_keepsError env _ s).andThen fun _ _ => rfl
    · exact logAccess_keepsError env _ _ s
  · exact id

theorem reportTimeout_noted {r : Nat × State} (h : Noted r) : (reportTimeout (r.1, r.2.clearTree)).2.isError = true := by
  unfold reportTimeout
  split_ifs with hzero
  · rfl
  · exact h.resolve_left hzero

theorem reportTimeout_see (r : Nat × State) (c : ConnId) : (reportTimeout (r.1, r.2.clearTree)).2.see c = r.2.see c := by
  unfold reportTimeout
  split_ifs <;> rfl

end KeepsError

/-! ## The calls -/

structure Closable (p : Params) (env : Env) (st : State) : Prop where
  xa : st.trx.trxXa = true → ∀ c ∈ st.trx.joinTrxTop, XaReady p env c (st.see c) ∧ st.world.branch c ≠ .prepared
  plain : st.trx.trxXa = false → ∀ c ∈ st.trx.joinTrxTop, PlainReady p env c (st.see c)

section Calls
variable {p : Params} {env : Env} {st u : State} {c : ConnId}

theorem rolledBack_settles (hnodup : st.trx.joinTrxTop.Nodup) (hidle : st.trx.trxStart = false → st.trx.joinTrxTop = [])
    (hxa : st.trx.trxXa = true → ∀ c ∈ st.trx.joinTrxTop, XaReady p env c (st.see c))
    (hplain : st.trx.trxXa = false → ∀ c ∈ st.trx.joinTrxTop, PlainReady p env c (st.see c))
    (hc : c ∈ st.trx.joinTrxTop) : SettledOr (st.rolledBack p env) c := by
  unfold rolledBack
  split_ifs with hstart hx
  · exact (forEach_settles (XaReady p env) (fun _ => Settles) Told
      (fun d e t b hb => (rollbackConn_touches (C := (· = d)) p env st.isError rfl e t).see_eq hb)
      (fun d e t h => rollbackConn_visit st.isError e h)
      hnodup (hxa hx)).2 c hc
  · exact (forEach_settles (PlainReady p env) (fun _ => Settles) Told
      (fun d e t b hb => (rollbackPlainConn_touches (C := (· = d)) p env st.isError rfl e t).see_eq hb)
      (fun d e t h => rollbackPlainConn_visit st.isError e h)
      hnodup (hplain (by simpa using hx))).2 c hc
  · rw [hidle (by simpa using hstart)] at hc
    cases hc

theorem internalXaCommit_settles (hnodup : st.trx.joinTrxTop.Nodup)
    (hready : ∀ c ∈ st.trx.joinTrxTop, CommitReady p env c (st.see c)) (hc : c ∈ st.trx.joinTrxTop) :
    SettledOr (internalXaCommit p env st).2 c := by
  by_cases hlog : (commitLog p env st).1 = 0
  · have honly := commitLog_only p env st
    have hsee : ∀ d, (commitLog p env st).2.see d = st.see d := fun d => by simp only [see, honly.conn, honly.world]
    have hloop := (forEach_settles (CommitReady p env) (fun _ => Settles) Noted
      (fun d e t b hb => (commitConn_touches (C := (· = d)) p env (commitLog p env st).2.isError rfl e t).see_eq hb)
      (fun d e t h => commitConn_visit _ e h)
      (s := (commitLog p env st).2) (e := 0) (show (commitLog p env st).2.trx.joinTrxTop.Nodup
        by rw [honly.trx]; exact hnodup)
      (fun d hd => by rw [hsee]; exact hready d (honly.trx ▸ hd))).2 c (by rw [honly.trx]; exact hc)
    unfold internalXaCommit
    rw [andThen_of_zero hlog]
    refine andThen_rule (P := fun t => SettledOr t c) ?_ fun _ h => ?_
    · refine hloop.imp (fun hs => ?_) reportTimeout_noted
      rw [commitConns_eq]
      rwa [reportTimeout_see]
    · have hdelete := deleteLog_only p env (commitConns p env (commitLog p env st).2).2
      refine h.imp (fun hs => ?_) (deleteLog_keepsError p env _)
      simpa only [see, hdelete.conn, hdelete.world] using hs
  · rw [internalXaCommit_of_log p env hlog]
    exact .inr (commitLog_tells p env st hlog)

theorem internalXaCommit_keepsError (htree : st.trx.joinTrxTop = []) : KeepsError st (internalXaCommit p env st) := by
  have htrx := (commitLog_only p env st).trx
  refine (commitLog_keepsError p env st).andThen' fun hzero => ?_
  refine KeepsError.andThen (fun herr => ?_) (deleteLog_keepsError p env)
  unfold commitConns
  rw [htrx, htree]
  exact herr

theorem commitOne_settles (hnodup : st.trx.joinTrxTop.Nodup)
    (hready : ∀ c ∈ st.trx.joinTrxTop, XaReady p env c (st.see c) ∧ st.world.branch c ≠ .prepared)
    (hc : c ∈ st.trx.joinTrxTop) : SettledOr (internalXaCommit p env (internalXaCommitOnePhase p env st).2).2 c := by
  have hloop := (forEach_settles (fun d x => XaReady p env d x ∧ x.2.1 ≠ .prepared) (fun _ => Settles) Noted
    (fun d e t b hb => (onePhaseConn_touches (C := (· = d)) p env rfl e t).see_eq hb)
    (fun d e t h => onePhaseConn_visit e h.1 h.2)
    hnodup hready (e := 0)).2 c hc
  have htree := internalXaCommitOnePhase_tree p env st
  have hsame := (internalXaCommit_keepsTree p env (internalXaCommitOnePhase p env st).2).same c (by rw [htree]; simp)
  have hone : SettledOr (internalXaCommitOnePhase p env st).2 c := by
    refine hloop.imp (fun hs => ?_) reportTimeout_noted
    unfold internalXaCommitOnePhase
    rwa [reportTimeout_see]
  refine hone.imp (fun hs => ?_) (internalXaCommit_keepsError htree)
  unfold see
  rwa [hsame.conn, hsame.branch, hsame.trxOpen]

/-- **A call that ends the transaction settles every joined connection, or the session has an error.** -/
theorem Ends.settles (h : Ends p env st u) (htidy : Tidy st) (hclose : Closable p env st)
    (hc : c ∈ st.trx.joinTrxTop) : SettledOr u c := by
  cases h with
  | rollback =>
    exact rolledBack_settles htidy.nodup htidy.idle (fun hx d hd => (hclose.xa hx d hd).1) hclose.plain hc
  | failed h _ =>
    obtain ⟨-, htrx⟩ := internalXaPrepare_keeps p env h.2
    obtain ⟨-, -, -, hdisable⟩ := htidy.xa h.1
    refine rolledBack_settles ?_ ?_ ?_ ?_ ?_ <;> rw [htrx]
    · exact htidy.nodup
    · exact htidy.idle
    · intro hx d hd
      have hready := (hclose.xa hx d hd).1
      exact hready.stays (internalXaPrepare_stays h.2 hready.disableXa) (internalXaPrepare_joinTrx p env h.2 hdisable d)
    · exact fun hx => absurd (hx.symm.trans h.1) Bool.false_ne_true
    · exact hc
  | commit h =>
    unfold committed
    split_ifs with hstart hxa hone
    · exact commitOne_settles htidy.nodup (hclose.xa hxa) hc
    · have hlen : 2 ≤ st.trx.joinTrxTop.length := by
        have := List.length_pos_of_mem hc
        omega
      obtain ⟨-, htrx⟩ := internalXaPrepare_keeps p env hlen
      have hready : ∀ d ∈ st.trx.joinTrxTop, CommitReady p env d ((internalXaPrepare p env st).2.see d) := fun d hd =>
        internalXaPrepare_commitReady htidy.nodup hlen (h ⟨hxa, hlen⟩) (fun d hd => (hclose.xa hxa d hd).1)
          (fun d hd => (hclose.xa hxa d hd).2) (fun d hd => (htidy.unlocked d (htidy.sub d hd)).2.2) hd
      refine internalXaCommit_settles ?_ ?_ ?_ <;>
        rw [markPrepared_joinTrxTop, htrx]
      · exact htidy.nodup
      · exact hready
      · exact hc
    · exact (forEach_settles (PlainReady p env) (fun _ => Settles) Told
        (fun d e t b hb => (commitPlainConn_touches (C := (· = d)) p env st.isError rfl e t).see_eq hb)
        (fun d e t h => commitPlainConn_visit st.isError e h)
        htidy.nodup (hclose.plain (by simpa using hxa))).2 c hc
    · rw [htidy.idle (by simpa using hstart)] at hc
      cases hc

end Calls

end TSpider.Xa
