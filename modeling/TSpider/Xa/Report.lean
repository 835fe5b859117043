import TSpider.Xa.Commit
import TSpider.Xa.Atomic

/-!
# What `spider_commit` reports

No false success: when it returns zero, every participant has acknowledged its commit, up to the cases in which
`force_commit` 1 takes `XAER_NOTA` for a success and the connections that are not asked. No false failure: with every
statement acknowledged and every log access successful it returns zero and leaves no row, unless the one participant of
the transaction meets the log.
-/

namespace TSpider.Xa
open Lib

def Acked (tr : List Event) (c : ConnId) : Prop :=
  ∃ e ∈ tr, e.action = .stmt c .xaCommit (some .ack) ∨ e.action = .stmt c .xaCommitOnePhase (some .ack)

def AnsweredNota (env : Env) (tr : List Event) (c : ConnId) : Prop :=
  ∃ e ∈ tr, ∃ s, (s = .xaCommit ∨ s = .xaCommitOnePhase) ∧ e.action = .stmt c s (some (env.reply c s)) ∧
    ∃ err, env.reply c s = .refused err ∧ err.num = erXaerNota

instance (tr : List Event) (c : ConnId) : Decidable (Acked tr c) := by unfold Acked; infer_instance

/-- The participant acknowledged its commit, or its `XAER_NOTA` was taken for a success. -/
def Answered (p : Params) (env : Env) (tr : List Event) (c : ConnId) : Prop :=
  Acked tr c ∨ (p.forceCommit = 1 ∧ AnsweredNota env tr c)

theorem Answered.mono {p : Params} {env : Env} {tr tr' : List Event} {c : ConnId} (hsub : ∀ e ∈ tr, e ∈ tr')
    (h : Answered p env tr c) : Answered p env tr' c :=
  h.imp (fun ⟨e, he, ha⟩ => ⟨e, hsub e he, ha⟩) fun ⟨h1, e, he, ha⟩ => ⟨h1, e, hsub e he, ha⟩

section Keep
variable (p : Params) (env : Env) {st : State} {e : Event}

theorem internalXaCommit_keeps (he : e ∈ st.trace) : e ∈ (internalXaCommit p env st).2.trace := by
  refine andThen_rule (P := fun t : State => e ∈ t.trace) ((commitLog_only p env st).mem_trace he) fun _ h => ?_
  refine andThen_rule (P := fun t : State => e ∈ t.trace) ?_ fun _ h => (deleteLog_only p env _).mem_trace h
  rw [commitConns_eq, reportTimeout_trace]
  exact (commitLoop_touches p env _).mem_trace h

theorem commitLoop_keeps (h : (internalXaCommit p env st).1 = 0)
    (he : e ∈ (commitLoop p env (commitLog p env st).2).2.trace) : e ∈ (internalXaCommit p env st).2.trace := by
  obtain ⟨hlog, hloop⟩ := internalXaCommit_fst p env h
  rw [internalXaCommit_eq p env hlog hloop]
  exact (deleteLog_only p env _).mem_trace he

end Keep

/-! ## After the prepare phase -/

section Prepared
variable {p : Params} {env : Env} {st t : State}

theorem commitLog_see (c : ConnId) : (commitLog p env t.markPrepared).2.see c = t.see c :=
  (commitLog_only p env _).see_eq c

variable (hdone : PrepareDone p env st t)
include hdone

theorem PrepareDone.xid : t.markPrepared.trx.xid = st.trx.xid := by rw [markPrepared_xid, hdone.trx]

theorem PrepareDone.logged : t.markPrepared.logged p = st.logged p := by
  rw [markPrepared_logged, logged_congr hdone.trx]

theorem PrepareDone.commitLog_joined : (commitLog p env t.markPrepared).2.trx.joinTrxTop = st.trx.joinTrxTop := by
  rw [(commitLog_only p env _).trx, markPrepared_joinTrxTop, hdone.trx]

/-- The commit loop sends `XA COMMIT` to a participant that was prepared. -/
theorem PrepareDone.visit (hready : Ready st) (hok : (commitLoop p env (commitLog p env t.markPrepared).2).1 = 0)
    {c : ConnId} (hmem : c ∈ st.trx.others) (hx : (st.conn c).disableXa = false) (hs : (st.conn c).started = true) :
    ∃ u da, (u.conn c).joinTrx = true ∧ (u.conn c).commits = true ∧ u.conn c = st.conn c ∧
      (commitConn p env da c 0 u).1 = 0 ∧ Touches Stmt.ofCommit (fun _ => True) (commitConn p env da c 0 u).2
        (commitLoop p env (commitLog p env t.markPrepared).2).2 ∧
      (commitLoop p env (commitLog p env t.markPrepared).2).2.see c = (commitConn p env da c 0 u).2.see c := by
  have hjoined : c ∈ st.trx.joinTrxTop := List.dropLast_subset _ hmem
  obtain ⟨u, hu, hcode⟩ := commitLoop_visit p env (by rw [hdone.commitLog_joined]; exact hready.nodup) hok
    (by rw [hdone.commitLog_joined]; exact hjoined)
  have hconn : u.conn c = st.conn c := by
    rw [see_conn hu, see_conn (commitLog_see c)]
    exact congrArg (fun x => x.1) (hdone.others c hmem hx)
  refine ⟨u, _, ?_, ?_, hconn, hcode⟩
  · rw [hconn]; exact hready.joinTrx c hjoined
  · rw [hconn]; simp [Conn.commits, hready.twoPhase c hjoined, hs]

theorem PrepareDone.alive {c : ConnId} (hmem : c ∈ st.trx.others) (hx : (st.conn c).disableXa = false)
    (hs : (st.conn c).started = true) : (st.conn c).serverLost = false := by
  have h := hdone.prepares c hmem
  unfold Conn.prepares at h
  rw [if_neg (by simp [hx])] at h
  exact (h hs).1

end Prepared

/-! ## No false success -/

section Success
variable (p : Params) (env : Env) (all : Bool) {st : State}

theorem commitConn_answer (hforce : p.forceCommit = 0 ∨ p.forceCommit = 1) (da : Bool) (c : ConnId)
    (hj : (st.conn c).joinTrx = true) (hc : (st.conn c).commits = true) (hmode : (st.conn c).errorMode = false)
    (h : (commitConn p env da c 0 st).1 = 0) : Answered p env (commitConn p env da c 0 st).2.trace c := by
  obtain ⟨hl, hr⟩ := commitConn_reply p env da c 0 hforce hj hc hmode h
  obtain ⟨e, he, ha⟩ := commitConn_event p env da c 0 hj hc hl
  rcases hr with hack | ⟨hone, hnota⟩
  · exact .inl ⟨e, he, .inl (hack ▸ ha)⟩
  · exact .inr ⟨hone, e, he, .xaCommit, .inl rfl, ha, hnota⟩

/-- The connections that `spider_commit` asks to commit: those with a branch, but no earlier participants outside XA or in
error mode. -/
def State.asked (st : State) (c : ConnId) : Prop :=
  (st.conn c).started = true ∧ (c ∈ st.trx.others → (st.conn c).disableXa = false ∧ (st.conn c).errorMode = false)

theorem onePhaseConn_answer (c : ConnId) (hj : (st.conn c).joinTrx = true) (hs : (st.conn c).started = true)
    (h : (onePhaseConn p env c 0 st).1 = 0) : Answered p env (onePhaseConn p env c 0 st).2.trace c := by
  have hcode : (dbXaCommitOnePhase p env c st).1 = 0 ∨ (dbXaCommitOnePhase p env c st).1 = erXaerNota := by
    unfold onePhaseConn at h
    rw [if_pos hj] at h
    rw [firstError_eq_zero fun _ => timeout_ne_zero] at h
    by_cases hnota : (dbXaCommitOnePhase p env c st).1 = erXaerNota
    · exact .inr hnota
    · rw [if_neg hnota, firstError_eq_zero fun _ => timeout_ne_zero] at h
      exact .inl h.1.2
  have hend : Touches (fun _ => True) (fun _ => True) (dbXaCommitOnePhase p env c st).2 (onePhaseConn p env c 0 st).2 := by
    unfold onePhaseConn
    rw [if_pos hj]
    exact (endTrx_touches p env trivial _ trivial trivial).trans (leaveTrx_touches trivial _)
  rcases hcode with hzero | hnota
  · obtain ⟨e, he, ha⟩ := onePhase_event p env c hs hzero
    exact .inl ⟨e, hend.mem_trace he, .inr ha⟩
  · rw [onePhase_started p env c hs, dbPacket_fst] at hnota
    obtain ⟨hl, ⟨err, hr, hnum⟩, hone⟩ := queryCode_eq_nota hnota
    refine .inr ⟨hone (by simp), ?_⟩
    refine ⟨⟨st.world, st.log, .stmt c .xaCommitOnePhase (some (env.reply c .xaCommitOnePhase))⟩, hend.mem_trace ?_,
      .xaCommitOnePhase, .inr rfl, rfl, err, hr, hnum⟩
    rw [onePhase_started p env c hs, (dbPacket_eq p env c _ _).2.2, (dbQuery_sent p env c _ _ hl).2.2]
    simp

theorem commitXa_one (hone : st.trx.joinTrxTop.length = 1) : commitXa p env all st =
    (if (internalXaCommit p env (internalXaCommitOnePhase p env st).2).1 ≠ 0
      then (internalXaCommit p env (internalXaCommitOnePhase p env st).2).1 else (internalXaCommitOnePhase p env st).1,
      (internalXaCommit p env (internalXaCommitOnePhase p env st).2).2, false) := by
  unfold commitXa
  rw [if_pos hone]

theorem commitXa_prepared (hready : Ready st) (hlen : 2 ≤ st.trx.joinTrxTop.length)
    (hok : (internalXaPrepare p env st).1 = 0) : commitXa p env all st =
    ((internalXaCommit p env (internalXaPrepare p env st).2.markPrepared).1,
      (internalXaCommit p env (internalXaPrepare p env st).2.markPrepared).2, false) := by
  have hone : st.trx.joinTrxTop.length ≠ 1 := by omega
  unfold commitXa
  rw [if_neg hone]
  rw [if_neg (by simp [(internalXaPrepare_trx p env hlen).2, hready.nullDeref]),
    if_neg (by rw [hok]; exact zero_ne_timeout), if_neg (by simp [hok])]

theorem commitXa_zero (hready : Ready st) (h : (commitXa p env all st).1 = 0) :
    (st.trx.joinTrxTop.length = 1 ∧ (internalXaCommitOnePhase p env st).1 = 0 ∧
        (internalXaCommit p env (internalXaCommitOnePhase p env st).2).1 = 0) ∨
      (2 ≤ st.trx.joinTrxTop.length ∧ (internalXaPrepare p env st).1 = 0 ∧
        (internalXaCommit p env (internalXaPrepare p env st).2.markPrepared).1 = 0) := by
  by_cases hone : st.trx.joinTrxTop.length = 1
  · rw [commitXa_one p env all hone] at h
    split_ifs at h with hne
    · exact absurd h hne
    · exact .inl ⟨hone, h, not_not.mp hne⟩
  · have hlen := hready.two_le hone
    by_cases hok : (internalXaPrepare p env st).1 = 0
    · rw [commitXa_prepared p env all hready hlen hok] at h
      exact .inr ⟨hlen, hok, h⟩
    · unfold commitXa at h
      dsimp only at h
      split_ifs at h <;> exact absurd h hok

theorem spiderCommit_fst (hready : Ready st) (hcall : all = true ∨ p.multiStmt = false) :
    (spiderCommit p env all st).1 = (commitXa p env all st).1 := by
  rw [spiderCommit_eq p env all hready hcall]
  split_ifs <;> rfl

/-- **No false success**: every connection asked to commit acknowledged it, or answered `XAER_NOTA` under `force_commit` 1. -/
theorem commit_zero_acked (hready : Ready st) (hcall : all = true ∨ p.multiStmt = false)
    (hforce : p.forceCommit = 0 ∨ p.forceCommit = 1) (hzero : (spiderCommit p env all st).1 = 0) :
    ∀ c ∈ st.trx.joinTrxTop, st.asked c → Acked (spiderCommit p env all st).2.trace c ∨
      (p.forceCommit = 1 ∧ AnsweredNota env (spiderCommit p env all st).2.trace c) := by
  intro c hc ⟨hs, hothers⟩
  rw [spiderCommit_fst p env all hready hcall] at hzero
  rw [spiderCommit_trace p env all hready hcall]
  obtain ⟨hone, hphase, -⟩ | ⟨hlen, hprep, hcommit⟩ := commitXa_zero p env all hready hzero
  · -- the one participant
    rw [commitXa_one p env all hone]
    refine Answered.mono (fun e he => internalXaCommit_keeps p env he) ?_
    obtain ⟨d, hd⟩ := List.length_eq_one_iff.mp hone
    obtain rfl : c = d := by simpa [hd] using hc
    unfold internalXaCommitOnePhase at hphase ⊢
    rw [reportTimeout_fst, hd] at hphase
    rw [reportTimeout_trace, hd]
    exact onePhaseConn_answer p env c (hready.joinTrx c hc) hs hphase
  · rw [commitXa_prepared p env all hready hlen hprep]
    have hdone := prepareDone p env hready hlen hprep
    obtain ⟨-, hloop⟩ := internalXaCommit_fst p env hcommit
    rcases (mem_joined_iff hready.joined_ne).mp hc with hmem | rfl
    · -- a participant that was prepared answers in the commit loop
      obtain ⟨hx, hmode⟩ := hothers hmem
      obtain ⟨t, da, hj, hc, ht, hcode, hafter, -⟩ := hdone.visit hready hloop hmem hx hs
      exact Answered.mono (fun e he => commitLoop_keeps p env hcommit (hafter.mem_trace he))
        (commitConn_answer p env hforce da c hj hc (ht ▸ hmode) hcode)
    · obtain ⟨e, he, ha⟩ := hdone.lastSent hs
      exact .inl ⟨e, internalXaCommit_keeps p env he, .inr ha⟩

/-- Three participants that acknowledge everything. -/
theorem commit_zero_acked_three :
    (spiderCommit { Params.default with forceCommit := 0 } .quiet true (.updatedOn [1, 2, 3])).1 = 0 ∧
      (Acked (spiderCommit { Params.default with forceCommit := 0 } .quiet true (.updatedOn [1, 2, 3])).2.trace 2 ∨
        ((0 : Nat) = 1 ∧ AnsweredNota .quiet
          (spiderCommit { Params.default with forceCommit := 0 } .quiet true (.updatedOn [1, 2, 3])).2.trace 2)) :=
  ⟨rfl, commit_zero_acked _ _ true (updatedOn_ready (by simp) (by simp)) (.inl rfl) (.inl rfl) rfl 2 (by decide)
    ⟨rfl, fun _ => ⟨rfl, rfl⟩⟩⟩

end Success

def Env.notaOnCommit : Env :=
  { Env.quiet with
    reply := fun c s => if c = 1 ∧ s = .xaCommit then .refused ⟨erXaerNota, by decide, by decide⟩ else .ack }

/-- The commit returns zero and shard 1 has acknowledged no commit: with `force_commit` 1, in error mode, and without XA. -/
theorem notaOnCommit_reported_zero :
    let errorMode : State := { State.updatedOn [1, 2] with conn := fun c => { Conn.inBranch c with errorMode := true } }
    let disableXa : State := { State.updatedOn [1, 2] with conn := fun c => { Conn.inBranch c with disableXa := c = 1 } }
    let unacked (r : Nat × State) : Prop := r.1 = 0 ∧ ¬ Acked r.2.trace 1
    unacked (spiderCommit { Params.default with forceCommit := 1 } .notaOnCommit true (.updatedOn [1, 2])) ∧
      unacked (spiderCommit { Params.default with forceCommit := 0 } .notaOnCommit true errorMode) ∧
        unacked (spiderCommit { Params.default with forceCommit := 0 } .quiet true disableXa) := by
  decide

/-! ## No false failure -/

def Stmt.isXa (s : Stmt) : Prop := s ∈ [.xaEndAndPrepare, .xaCommitOnePhase, .xaCommit, .xaEnd, .xaRollback]

instance : DecidablePred Stmt.isXa := fun s => inferInstanceAs (Decidable (s ∈ _))

/-- Every participant acknowledges every XA statement, and every log access succeeds. -/
structure AllAnswered (env : Env) (st : State) : Prop where
  live : ∀ c ∈ st.trx.joinTrxTop, (st.conn c).serverLost = false
  acks : ∀ c ∈ st.trx.joinTrxTop, ∀ s : Stmt, s.isXa → env.reply c s = .ack
  log : ∀ a, env.log a = none

def State.connAtEnd (st : State) (c : ConnId) : Conn :=
  { st.conn c with
    isXaCommitOnePhase := (st.conn c).isXaCommitOnePhase || (c == st.trx.last && (st.conn c).started) }

def EndsQuietly (p : Params) (env : Env) (st : State) (c : ConnId) : Prop :=
  endTrxCode p env c (st.connAtEnd c) = 0 ∨ (2 ≤ st.trx.joinTrxTop.length ∧ (st.conn c).errorMode = true)

section Failure
variable (p : Params) (env : Env) (all : Bool) {st : State}

theorem commitConn_acked (da : Bool) (c : ConnId) (hj : (st.conn c).joinTrx = true)
    (hack : (st.conn c).commits = true → (st.conn c).serverLost = false ∧ env.reply c .xaCommit = .ack) :
    (commitConn p env da c 0 st).1 = 0 ↔ endTrxCode p env c (st.conn c) = 0 ∨ (st.conn c).errorMode = true := by
  have hcommit : (dbXaCommit p env c st).1 = 0 ∧ (dbXaCommit p env c st).2.conn c = st.conn c := by
    cases hc : (st.conn c).commits with
    | false => rw [dbXaCommit_not_sent p env c hc]; exact ⟨rfl, rfl⟩
    | true =>
      obtain ⟨hl, hr⟩ := hack hc
      rw [dbXaCommit_sent p env c hc, dbQuery_ack p env c _ st hl hr]
      exact ⟨rfl, rfl⟩
  have hbranch : commitBranch p env da c 0 st = (0, (dbXaCommit p env c st).2) := by
    unfold commitBranch
    rw [if_pos hcommit.1]
  rw [commitConn_fst p env da c 0 hj, hbranch, hcommit.2]
  simp

theorem internalXaPrepare_fst (hready : Ready st) (hlen : 2 ≤ st.trx.joinTrxTop.length) :
    (internalXaPrepare p env st).1 = 0 ↔ LogWritable p env st ∧ (∀ c ∈ st.trx.others, (st.conn c).prepares p env c) ∧
      ((st.conn st.trx.last).started = true →
        (st.conn st.trx.last).serverLost = false ∧ env.reply st.trx.last .xaCommitOnePhase = .ack) ∧
      ¬ UpdateFails p env st := by
  constructor
  · intro hok
    have hdone := prepareDone p env hready hlen hok
    exact ⟨hdone.writable, hdone.prepares, hdone.lastAck, hdone.updates⟩
  · rintro ⟨hwrite, hprep, hlast, hupdate⟩
    obtain ⟨hno, -⟩ | ⟨-, hno, -⟩ | ⟨t, ht, ⟨hne, -⟩ | ⟨-, heq⟩⟩ := internalXaPrepare_cases p env hready hlen
    · exact absurd hwrite hno
    · exact absurd hprep hno
    · have hsee := ht.untouched _ (last_notMem_others hready.joined_ne hready.nodup)
      rw [ne_eq, onePhase_fst, see_conn hsee] at hne
      exact absurd hlast hne
    · rw [heq]
      by_contra hne
      exact hupdate (ht.preparedLog_fst.mp hne)

theorem connAtEnd_other (hready : Ready st) {c : ConnId} (hc : c ∈ st.trx.others) : st.connAtEnd c = st.conn c := by
  have hne : c ≠ st.trx.last := fun h => last_notMem_others hready.joined_ne hready.nodup (h ▸ hc)
  have hbeq : (c == st.trx.last) = false := beq_eq_false_iff_ne.mpr hne
  simp [State.connAtEnd, hbeq]

theorem connAtEnd_last (b : Branch) (o : Bool) : ((st.conn st.trx.last).afterOnePhase b o).1 = st.connAtEnd st.trx.last := by
  unfold Conn.afterOnePhase State.connAtEnd
  cases hs : (st.conn st.trx.last).started with
  | false => simp
  | true => simp

theorem freeTrxConn_log (st : State) : (freeTrxConn p env st).log = st.log := by
  unfold freeTrxConn
  generalize st.trx.trxConnHash = cs
  induction cs generalizing st with
  | nil => rfl
  | cons c cs ih =>
    rw [List.foldl_cons, ih]
    unfold freeTrxConnOne freeConnFromTrx
    dsimp only
    split_ifs <;> rfl

theorem spiderCommit_log (hready : Ready st) (hcall : all = true ∨ p.multiStmt = false) :
    (spiderCommit p env all st).2.log = (commitXa p env all st).2.1.log := by
  rw [spiderCommit_eq p env all hready hcall]
  split_ifs
  · rfl
  · exact freeTrxConn_log p env _

def State.unlisted (st : State) (xid : Xid) : Prop := st.log.xa xid = none ∧ st.log.member xid = []

section Several
variable (hready : Ready st) (hlen : 2 ≤ st.trx.joinTrxTop.length) (hall : AllAnswered env st)
include hready hlen hall

theorem PrepareDone.commitConn_fst {t u : State} (hdone : PrepareDone p env st t) (da : Bool) {c : ConnId}
    (hc : c ∈ st.trx.joinTrxTop) (hsee : u.see c = t.see c) : (commitConn p env da c 0 u).1 = 0 ↔ EndsQuietly p env st c := by
  rcases (mem_joined_iff hready.joined_ne).mp hc with hmem | rfl
  · cases hx : (st.conn c).disableXa with
    | true =>
      -- it has left the transaction, and its end was reported by the prepare loop
      have hj : (u.conn c).joinTrx = false := by rw [see_conn hsee]; exact (hdone.disabled c hmem hx).1
      have hprep := hdone.prepares c hmem
      unfold Conn.prepares at hprep
      rw [if_pos hx] at hprep
      unfold EndsQuietly
      rw [connAtEnd_other hready hmem]
      simp only [commitConn, hj, Bool.false_eq_true, if_false, true_iff]
      exact hprep.imp_right fun h => ⟨hlen, h⟩
    | false =>
      have hconn : u.conn c = st.conn c := by
        rw [see_conn hsee]
        exact congrArg (fun x => x.1) (hdone.others c hmem hx)
      rw [commitConn_acked p env da c (by rw [hconn]; exact hready.joinTrx c hc)
        (fun _ => ⟨by rw [hconn]; exact hall.live c hc, hall.acks c hc _ (by simp [Stmt.isXa])⟩), hconn, EndsQuietly,
        connAtEnd_other hready hmem]
      simp [hlen]
  · have hconn : u.conn st.trx.last = st.connAtEnd st.trx.last := by
      rw [see_conn hsee, ← connAtEnd_last]
      exact congrArg (fun x => x.1) hdone.last
    rw [commitConn_acked p env da _ (by rw [hconn]; exact hready.joinTrx _ hc)
      (fun _ => ⟨by rw [hconn]; exact hall.live _ hc, hall.acks _ hc _ (by simp [Stmt.isXa])⟩), hconn, EndsQuietly]
    simp [hlen, State.connAtEnd]

theorem PrepareDone.commitLoop_fst {t : State} (hdone : PrepareDone p env st t) :
    (commitLoop p env (commitLog p env t.markPrepared).2).1 = 0 ↔ ∀ c ∈ st.trx.joinTrxTop, EndsQuietly p env st c := by
  have hlist := hdone.commitLog_joined
  constructor
  · intro hok c hc
    obtain ⟨u, hu, hcode, -⟩ := commitLoop_visit p env (by rw [hlist]; exact hready.nodup) hok (by rw [hlist]; exact hc)
    exact (hdone.commitConn_fst p env hready hlen hall _ hc (hu.trans (commitLog_see c))).mp hcode
  · intro hends
    unfold commitLoop
    rw [hlist]
    exact forEach_eq_zero (I := fun _ => True) (fun _ _ _ _ => trivial)
      (commitConn_see_other p env _) hready.nodup (fun c hc u _ hu => (hdone.commitConn_fst p env hready hlen hall _ hc
        (hu.trans (commitLog_see c))).mpr (hends c hc)) trivial

theorem prepare_answered (hends : ∀ c ∈ st.trx.joinTrxTop, EndsQuietly p env st c) : (internalXaPrepare p env st).1 = 0 := by
  refine (internalXaPrepare_fst p env hready hlen).mpr ⟨?_, ?_, ?_, ?_⟩
  · exact fun _ => ⟨hall.log _, hall.log _, hall.log _, fun c _ => .inl (hall.log _)⟩
  · intro c hmem
    have hc : c ∈ st.trx.joinTrxTop := List.dropLast_subset _ hmem
    have hquiet := hends c hc
    rw [EndsQuietly, connAtEnd_other hready hmem] at hquiet
    unfold Conn.prepares
    split_ifs
    · exact hquiet.imp_right And.right
    · exact fun _ => ⟨hall.live c hc, hall.acks c hc _ (by simp [Stmt.isXa])⟩
  · have hc := (mem_joined_iff hready.joined_ne).mpr (.inr rfl)
    exact fun _ => ⟨hall.live _ hc, hall.acks _ hc _ (by simp [Stmt.isXa])⟩
  · rintro ⟨-, h | h⟩
    · exact h (hall.log _)
    · exact h (hall.log _)

theorem commitXa_several : (commitXa p env all st).1 = 0 ∧ (commitXa p env all st).2.1.unlisted st.trx.xid ↔
      ∀ c ∈ st.trx.joinTrxTop, EndsQuietly p env st c := by
  constructor
  · rintro ⟨hzero, -⟩
    obtain ⟨hone, -⟩ | ⟨-, hprep, hcommit⟩ := commitXa_zero p env all hready hzero
    · omega
    have hdone := prepareDone p env hready hlen hprep
    exact (hdone.commitLoop_fst p env hready hlen hall).mp (internalXaCommit_fst p env hcommit).2
  · intro hends
    have hprep := prepare_answered p env hready hlen hall hends
    have hdone := prepareDone p env hready hlen hprep
    rw [commitXa_prepared p env all hready hlen hprep]
    generalize (internalXaPrepare p env st).2 = t at hdone
    have honly := commitLog_only p env t.markPrepared
    have hlog : (commitLog p env t.markPrepared).1 = 0 := commitLog_fst p env (.of_free hall.log) fun h => by
      rw [markPrepared_log, hdone.xid]
      exact hdone.row (hdone.logged ▸ h)
    have hloop := (hdone.commitLoop_fst p env hready hlen hall).mpr hends
    have htouch := commitLoop_touches p env (commitLog p env t.markPrepared).2
    have hxid : (commitLoop p env (commitLog p env t.markPrepared).2).2.trx.xid = st.trx.xid := by
      rw [htouch.trx, honly.trx, hdone.xid]
    have hlogged' : (commitLoop p env (commitLog p env t.markPrepared).2).2.logged p = st.logged p := by
      rw [logged_congr htouch.trx, logged_congr honly.trx, hdone.logged]
    rw [internalXaCommit_eq p env hlog hloop]
    unfold deleteLog
    rw [clearTree_logged, hlogged']
    cases hl : st.logged p with
    | false =>
      simp only [Bool.false_eq_true, if_false, true_and]
      rw [State.unlisted, clearTree_log, htouch.log, commitLog_unlogged p env (hdone.logged.trans hl),
        markPrepared_log, hdone.unlogged hl]
      exact ⟨hready.noRow, hready.noMember⟩
    | true =>
      have hrow := (commitLog_done p env (hdone.logged.trans hl) hlog).1
      rw [hdone.xid] at hrow
      have hthere : (commitLoop p env (commitLog p env t.markPrepared).2).2.clearTree.log.xa
          (commitLoop p env (commitLog p env t.markPrepared).2).2.clearTree.trx.xid ≠ none := by
        rw [clearTree_log, clearTree_xid, hxid, htouch.log, hrow]
        simp
      have hdel := deleteRows_fst env hall.log hthere
      rw [clearTree_xid, hxid] at hdel
      simpa [State.unlisted] using hdel

end Several

theorem onePhase_answered (hready : Ready st) (hone : st.trx.joinTrxTop.length = 1) (hall : AllAnswered env st) :
    (internalXaCommitOnePhase p env st).1 = 0 ↔ EndsQuietly p env st st.trx.last := by
  obtain ⟨c, hc⟩ := List.length_eq_one_iff.mp hone
  have hlast : st.trx.last = c := by simp [Trx.last, hc]
  have hmem : c ∈ st.trx.joinTrxTop := by simp [hc]
  have hphase : (dbXaCommitOnePhase p env c st).1 = 0 :=
    (onePhase_fst p env c).mpr fun _ => ⟨hall.live c hmem, hall.acks c hmem _ (by simp [Stmt.isXa])⟩
  have hconn : (dbXaCommitOnePhase p env c st).2.conn c = st.connAtEnd c := by
    rw [← hlast, ← connAtEnd_last (st.world.branch c) (st.world.trxOpen c), hlast]
    unfold Conn.afterOnePhase
    cases hs : (st.conn c).started with
    | false => rw [onePhase_queued p env c hs]; rfl
    | true => rw [onePhase_ack p env c hs hphase]; simp
  unfold internalXaCommitOnePhase
  rw [reportTimeout_fst, hc]
  change (onePhaseConn p env c 0 st).1 = 0 ↔ _
  unfold onePhaseConn
  rw [if_pos (hready.joinTrx c hmem), hlast]
  rw [firstError_eq_zero fun _ => timeout_ne_zero, endTrx_fst, hconn, hphase, if_neg (by decide),
    firstError_eq_zero fun _ => timeout_ne_zero]
  simp [EndsQuietly, hone]

theorem commitXa_single (hready : Ready st) (hone : st.trx.joinTrxTop.length = 1) (hall : AllAnswered env st) :
    (commitXa p env all st).1 = 0 ∧ (commitXa p env all st).2.1.unlisted st.trx.xid ↔
      st.logged p = false ∧ EndsQuietly p env st st.trx.last := by
  have htouch : Touches Stmt.ofOnePhase (fun _ => True) st
      (forEach (onePhaseConn p env) st.trx.joinTrxTop 0 st).2 :=
    forEach_touches 0 st fun c _ e t => onePhaseConn_touches p env trivial e t
  -- the commit phase finds no joined connection and the log as it was
  have hstate : (internalXaCommitOnePhase p env st).2.log = st.log ∧
      (internalXaCommitOnePhase p env st).2.trx = st.clearTree.trx := by
    unfold internalXaCommitOnePhase reportTimeout
    dsimp only
    unfold State.clearTree
    split_ifs <;> simp [State.myMessage, htouch.log, htouch.trx]
  have hphase := onePhase_answered p env hready hone hall
  rw [commitXa_one p env all hone]
  generalize internalXaCommitOnePhase p env st = r at hstate hphase
  have hlogged : r.2.logged p = st.logged p := by rw [logged_congr hstate.2, clearTree_logged]
  have hopen (a : LogAccess) (s : State) : logOpen env a s = (0, s) := logOpen_ok env a s (hall.log a)
  cases hl : st.logged p with
  | true =>
    -- no row was ever inserted
    have hcommit : (internalXaCommit p env r.2).1 = erSpiderXaNotExists := by
      have hrow : r.2.log.xa r.2.trx.xid = none := by rw [hstate.1, hstate.2, clearTree_xid]; exact hready.noRow
      unfold internalXaCommit commitLog
      rw [if_pos (by rw [hlogged, hl]), hopen, andThen_pair_zero]
      simp [checkXaRow, hopen, hrow, xaNotExists, andThen, erSpiderXaNotExists]
    simp [hcommit, erSpiderXaNotExists]
  | false =>
    have hclog := commitLog_unlogged p env (hlogged.trans hl)
    have hloop : commitLoop p env (commitLog p env r.2).2 = (0, r.2) := by
      rw [hclog]
      unfold commitLoop
      rw [hstate.2]
      rfl
    have hcommit : internalXaCommit p env r.2 = (0, r.2.clearTree) := by
      rw [internalXaCommit_eq p env (by rw [hclog]) (by rw [hloop]), hloop]
      unfold deleteLog
      rw [if_neg (by rw [clearTree_logged, hlogged, hl]; simp)]
    rw [hcommit]
    simp only [ne_eq, not_true_eq_false, if_false, true_and]
    rw [hphase, State.unlisted, clearTree_log, hstate.1]
    exact and_iff_left ⟨hready.noRow, hready.noMember⟩

/-- **No false failure**, exactly unless a single participant meets the log or ending one reports an error. -/
theorem commit_answered_iff (hready : Ready st) (hcall : all = true ∨ p.multiStmt = false) (hall : AllAnswered env st) :
    ((spiderCommit p env all st).1 = 0 ∧ (spiderCommit p env all st).2.unlisted st.trx.xid) ↔
      ¬ (st.trx.joinTrxTop.length = 1 ∧ st.logged p = true) ∧ ∀ c ∈ st.trx.joinTrxTop, EndsQuietly p env st c := by
  have hlog : (spiderCommit p env all st).2.unlisted st.trx.xid ↔ (commitXa p env all st).2.1.unlisted st.trx.xid := by
    unfold State.unlisted
    rw [spiderCommit_log p env all hready hcall]
  rw [spiderCommit_fst p env all hready hcall, hlog]
  by_cases hone : st.trx.joinTrxTop.length = 1
  · obtain ⟨c, hc⟩ := List.length_eq_one_iff.mp hone
    have hlast : st.trx.last = c := by simp [Trx.last, hc]
    rw [commitXa_single p env all hready hone hall, hlast, hc]
    simp
  · rw [commitXa_several p env all hready (hready.two_le hone) hall]
    simp [hone]

theorem commit_answered_iff_two :
    (spiderCommit { Params.default with ignoreXaLog := false } .quiet true (.updatedOn [1, 2])).1 = 0 ∧
      (spiderCommit { Params.default with ignoreXaLog := false } .quiet true (.updatedOn [1, 2])).2.unlisted 1 :=
  (commit_answered_iff { Params.default with ignoreXaLog := false } .quiet true (updatedOn_ready (by simp) (by simp))
    (.inl rfl) ⟨fun _ _ => rfl, fun _ _ _ _ => rfl, fun _ => rfl⟩).mpr
    ⟨by simp [State.updatedOn], fun _ _ => .inl rfl⟩

end Failure

/-- One participant acknowledges everything, with the log on: the commit reports that there is no transaction. -/
theorem singleParticipant_not_exists : AllAnswered .quiet (.updatedOn [1]) ∧
    (spiderCommit { Params.default with ignoreXaLog := false } .quiet true (.updatedOn [1])).1 = erSpiderXaNotExists :=
  ⟨⟨fun _ _ => rfl, fun _ _ _ _ => rfl, fun _ => rfl⟩, rfl⟩

end TSpider.Xa
