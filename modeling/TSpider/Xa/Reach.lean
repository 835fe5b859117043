import TSpider.Xa.Ends

/-!
# Every shard of the transaction is reached

A call that ends an internal XA transaction sends an XA statement to every participant that has a branch, and it ends
otherwise than with the code for an unknown outcome unless the last participant refuses its one-phase commit.
-/

namespace TSpider.Xa
open Lib

def Event.reaches (c : ConnId) (e : Event) : Bool :=
  match e.action with
  | .stmt d s (some _) => d == c && decide s.isXa
  | _ => false

def Reached (tr : List Event) (c : ConnId) : Prop := ∃ e ∈ tr, e.reaches c = true

instance (tr : List Event) (c : ConnId) : Decidable (Reached tr c) := by unfold Reached; infer_instance

section Statement
variable (p : Params) (env : Env) (c : ConnId) {st t : State}

theorem Reached.mono {tr tr' : List Event} (h : Reached tr c) (hsub : ∀ e ∈ tr, e ∈ tr') : Reached tr' c := by
  obtain ⟨e, he, hr⟩ := h
  exact ⟨e, hsub e he, hr⟩

theorem dbQuery_reached {s : Stmt} (hs : s.isXa) (hl : (st.conn c).serverLost = false) :
    Reached (dbQuery p env c s st).2.trace c := by
  refine ⟨⟨st.world, st.log, .stmt c s (some (env.reply c s))⟩, ?_, ?_⟩
  · rw [(dbQuery_sent p env c s st hl).2.2]
    simp
  · simpa [Event.reaches] using hs

variable (hs : (st.conn c).started = true) (hl : (st.conn c).serverLost = false)
include hs hl

theorem dbXaEndAndPrepare_reached : Reached (dbXaEndAndPrepare p env c st).2.trace c := by
  have hsent : dbXaEndAndPrepare p env c st = dbPacket p env c .xaEndAndPrepare st := by
    unfold Conn.started at hs
    simp [dbXaEndAndPrepare, hs, hl]
  rw [hsent, (dbPacket_eq p env c _ st).2.2]
  exact dbQuery_reached p env c (by decide) hl

theorem onePhase_reached : Reached (dbXaCommitOnePhase p env c st).2.trace c := by
  rw [onePhase_started p env c hs, (dbPacket_eq p env c _ _).2.2]
  exact dbQuery_reached p env c (by decide) (by simpa using hl)

theorem dbXaEnd_reached : Reached (dbXaEnd p env c st).2.trace c := by
  have hsent : dbXaEnd p env c st = dbQuery p env c .xaEnd st := by
    unfold Conn.started at hs
    simp [dbXaEnd, hs]
  rw [hsent]
  exact dbQuery_reached p env c (by decide) hl

end Statement

/-! ## The records of the connections in the prepare phase -/

/-- From `st` to `t` connections were lost, and their records are otherwise the same. -/
def OnlyLoses (st t : State) : Prop := ∀ d, t.conn d = { st.conn d with serverLost := (t.conn d).serverLost }

section OnlyLoses
variable (p : Params) (env : Env) {st t u : State}

theorem OnlyLoses.refl (st : State) : OnlyLoses st st := fun _ => rfl

theorem OnlyLoses.trans (h : OnlyLoses st t) (h' : OnlyLoses t u) : OnlyLoses st u := fun d => by rw [h' d, h d]

theorem dbQuery_onlyLoses (c : ConnId) (s : Stmt) (st : State) : OnlyLoses st (dbQuery p env c s st).2 := by
  intro d
  by_cases hd : d = c
  · subst hd
    cases hl : (st.conn d).serverLost with
    | true => rw [(dbQuery_not_sent p env d s st hl).1]
    | false =>
      rw [(dbQuery_sent p env d s st hl).1]
      cases env.reply d s <;> rfl
  · rw [(dbQuery_touches (S := fun _ => True) (C := (· = c)) p env rfl st trivial).conn d hd]

theorem dbXaEndAndPrepare_onlyLoses (c : ConnId) (st : State) : OnlyLoses st (dbXaEndAndPrepare p env c st).2 := by
  unfold dbXaEndAndPrepare
  split_ifs
  · exact .refl st
  · intro d
    rw [(dbPacket_eq p env c _ st).1]
    exact dbQuery_onlyLoses p env c _ st d
  · exact .refl st

theorem prepareConn_eq {da : Bool} {c : ConnId} (hx : (st.conn c).disableXa = false) :
    prepareConn p env da c st = dbXaEndAndPrepare p env c st := by simp [prepareConn, hx]

theorem prepareConn_onlyLoses {da : Bool} {c : ConnId} (h : OnlyLoses st t) (hx : (st.conn c).disableXa = false) :
    OnlyLoses st (prepareConn p env da c t).2 := by
  rw [prepareConn_eq p env (by rw [h c]; exact hx)]
  exact h.trans (dbXaEndAndPrepare_onlyLoses p env c t)

theorem onePhase_joinTrx (c : ConnId) (st : State) (d : ConnId) :
    ((dbXaCommitOnePhase p env c st).2.conn d).joinTrx = (st.conn d).joinTrx := by
  unfold dbXaCommitOnePhase
  split_ifs
  · rw [(dbPacket_eq p env c _ _).1, dbQuery_onlyLoses p env c _ _ d]
    by_cases hd : d = c
    · subst hd; simp
    · rw [setConn_conn_ne _ _ _ _ hd]
  · rfl

theorem internalXaPrepare_joinTrx (hlen : 2 ≤ st.trx.joinTrxTop.length)
    (hx : ∀ c ∈ st.trx.joinTrxTop, (st.conn c).disableXa = false) (d : ConnId) :
    ((internalXaPrepare p env st).2.conn d).joinTrx = (st.conn d).joinTrx := by
  refine internalXaPrepare_rule p env hlen
    (fun h ht => h.conn ▸ ht) (fun da c hc t hlater ht => ?_) (fun t ht => (onePhase_joinTrx p env _ t d).trans ht) rfl
  rw [prepareConn_eq p env ((hlater c).disableXa.trans (hx c (List.dropLast_subset _ hc))),
    dbXaEndAndPrepare_onlyLoses p env c t d]
  exact ht

end OnlyLoses

/-! ## Lost connections -/

def LossSeen (st t : State) : Prop := ∀ d, (t.conn d).serverLost = true → (st.conn d).serverLost = true ∨ Reached t.trace d

section Loss
variable (p : Params) (env : Env) {st t u : State}

theorem LossSeen.refl (st : State) : LossSeen st st := fun _ h => .inl h

theorem LossSeen.step {S : Stmt → Prop} {c : ConnId} (h : LossSeen st t) (htouch : Touches S (· = c) t u)
    (hc : (t.conn c).serverLost = false → Reached u.trace c ∨ u.conn c = t.conn c) : LossSeen st u := by
  intro d hd
  have hkeep : Reached t.trace d → Reached u.trace d := fun hr => hr.mono d fun e he => htouch.mem_trace he
  by_cases hdc : d = c
  · subst hdc
    cases hl : (t.conn d).serverLost with
    | true => exact (h d hl).imp_right hkeep
    | false =>
      rcases hc hl with hr | hsame
      · exact .inr hr
      · simp [hsame, hl] at hd
  · rw [htouch.conn d hdc] at hd
    exact (h d hd).imp_right hkeep

theorem LossSeen.logs (h : LossSeen st t) (honly : LogsOnly t u) : LossSeen st u := by
  intro d hd
  rw [honly.conn] at hd
  exact (h d hd).imp_right fun hr => hr.mono d fun e he => honly.mem_trace he

theorem prepareConn_lossSeen (da : Bool) (c : ConnId) (hx : (t.conn c).disableXa = false) (h : LossSeen st t) :
    LossSeen st (prepareConn p env da c t).2 := by
  refine h.step (prepareConn_touches (C := (· = c)) p env da rfl t) fun hl => ?_
  cases hs : (t.conn c).started with
  | true =>
    rw [prepareConn_eq p env hx]
    exact .inl (dbXaEndAndPrepare_reached p env c hs hl)
  | false => exact .inr (by rw [prepareConn_queued p env da c hx hs])

theorem internalXaPrepare_lossSeen (hlen : 2 ≤ st.trx.joinTrxTop.length)
    (hx : ∀ c ∈ st.trx.joinTrxTop, (st.conn c).disableXa = false) : LossSeen st (internalXaPrepare p env st).2 := by
  refine internalXaPrepare_rule p env hlen (fun h ht => ht.logs h) (fun da c hc t hlater ht => ?_)
    (fun t ht => ?_) (.refl st)
  · exact prepareConn_lossSeen p env da c ((hlater c).disableXa.trans (hx c (List.dropLast_subset _ hc))) ht
  · refine ht.step (onePhase_touches p env st.trx.last t) fun hl => ?_
    cases hs : (t.conn st.trx.last).started with
    | true => exact .inl (onePhase_reached p env _ hs hl)
    | false => exact .inr (by rw [onePhase_queued p env _ hs])

end Loss

/-! ## The calls -/

section Calls
variable (p : Params) (env : Env) {st u : State} {c : ConnId}

theorem rollbackConn_reached (da : Bool) (e : Nat) (hprep : st.trx.trxXaPrepared = false)
    (hj : (st.conn c).joinTrx = true) (hx : (st.conn c).disableXa = false) (hs : (st.conn c).started = true)
    (hl : (st.conn c).serverLost = false) : Reached (rollbackConn p env da c e st).2.trace c := by
  have hend : Touches Stmt.ofRollback (fun _ => True) (dbXaEnd p env c st).2 (rollbackXaEnd p env da c e st).2 := by
    unfold rollbackXaEnd
    rw [if_neg (by simp [hprep])]
    dsimp only
    split_ifs
    · exact restoreDastatus_touches _ (.refl _)
    · exact .refl _
  have hbranch : rollbackBranch p env da c e st =
      rollbackXa p env da c (rollbackXaEnd p env da c e st).1 (rollbackXaEnd p env da c e st).2 := by
    unfold rollbackBranch
    simp [hx, hl]
  have hafter : Touches Stmt.ofRollback (fun _ => True) (rollbackBranch p env da c e st).2
      (rollbackConn p env da c e st).2 := by
    unfold rollbackConn
    rw [if_pos hj]
    exact Touches.trans (restoreDastatus_touches _ (endTrx_touches p env trivial _ (by decide) (by decide)))
      (leaveTrx_touches trivial _)
  have hxa : Touches Stmt.ofRollback (fun _ => True) (rollbackXaEnd p env da c e st).2
      (rollbackBranch p env da c e st).2 := by
    rw [hbranch]
    exact rollbackXa_touches p env da trivial _ _
  exact (dbXaEnd_reached p env c hs hl).mono c fun e he => (hend.trans (hxa.trans hafter)).mem_trace he

structure Joined (st : State) (c : ConnId) : Prop where
  mem : c ∈ st.trx.joinTrxTop
  joinTrx : (st.conn c).joinTrx = true
  disableXa : (st.conn c).disableXa = false
  started : (st.conn c).started = true

theorem rolledBack_reached (hnodup : st.trx.joinTrxTop.Nodup) (hstart : st.trx.trxStart = true)
    (hxa : st.trx.trxXa = true) (hprep : st.trx.trxXaPrepared = false) (hc : Joined st c)
    (hl : (st.conn c).serverLost = false) : Reached (st.rolledBack p env).trace c := by
  obtain ⟨e, t, htouch, hsee, hafter, -⟩ := rollbackLoop_visit p env hnodup hc.mem
  have hconn := see_conn hsee
  have hvisit : Reached (rollbackConn p env st.isError c e t).2.trace c :=
    rollbackConn_reached p env _ e (by rw [htouch.trx]; exact hprep) (by rw [hconn]; exact hc.joinTrx)
      (by rw [hconn]; exact hc.disableXa) (by rw [hconn]; exact hc.started) (by rw [hconn]; exact hl)
  unfold State.rolledBack
  rw [if_pos hstart, if_pos hxa]
  exact hvisit.mono c fun e he => hafter.mem_trace he

theorem onePhaseConn_reached (e : Nat) (hj : (st.conn c).joinTrx = true) (hs : (st.conn c).started = true)
    (hl : (st.conn c).serverLost = false) : Reached (onePhaseConn p env c e st).2.trace c := by
  have hend : Touches (fun _ => True) (fun _ => True) (dbXaCommitOnePhase p env c st).2 (onePhaseConn p env c e st).2 := by
    unfold onePhaseConn
    rw [if_pos hj]
    exact (endTrx_touches p env trivial _ trivial trivial).trans (leaveTrx_touches trivial _)
  exact (onePhase_reached p env c hs hl).mono c fun e he => hend.mem_trace he

theorem internalXaCommitOnePhase_reached (hnodup : st.trx.joinTrxTop.Nodup) (hc : Joined st c)
    (hl : (st.conn c).serverLost = false) : Reached (internalXaCommitOnePhase p env st).2.trace c := by
  obtain ⟨e, t, -, hsee, hafter, -⟩ := forEach_visit
    Touches.refl (fun _ _ _ => Touches.trans)
    (fun c e t => onePhaseConn_touches p env trivial e t)
    (fun c e t d hd => Touches.see_eq (onePhaseConn_touches (C := (· = c)) p env rfl e t) hd) hnodup hc.mem
  have hconn := see_conn hsee
  have hvisit : Reached (onePhaseConn p env c e t).2.trace c :=
    onePhaseConn_reached p env e (by rw [hconn]; exact hc.joinTrx) (by rw [hconn]; exact hc.started)
      (by rw [hconn]; exact hl)
  have hloop := hvisit.mono c fun e he => hafter.mem_trace he
  unfold internalXaCommitOnePhase
  rw [reportTimeout_trace]
  exact hloop

theorem internalXaPrepare_reached (hnodup : st.trx.joinTrxTop.Nodup) (hlen : 2 ≤ st.trx.joinTrxTop.length)
    (hok : (internalXaPrepare p env st).1 = 0) (hc : Joined st c) (hl : (st.conn c).serverLost = false) :
    Reached (internalXaPrepare p env st).2.trace c := by
  have hne : st.trx.joinTrxTop ≠ [] := List.length_pos_iff.mp (by omega)
  obtain ⟨t, u, ht, hloop, hu, -, -, heq⟩ := internalXaPrepare_steps p env hlen hok
  have honly := prepareLog_only p env st
  rw [← ht] at honly
  have hone := onePhase_touches p env st.trx.last u
  have hlog := preparedLog_only p env (dbXaCommitOnePhase p env st.trx.last u).2
  rw [heq]
  refine Reached.mono c ?_ fun e he => hlog.mem_trace he
  rcases (mem_joined_iff hne).mp hc.mem with hother | rfl
  · refine Reached.mono c ?_ fun e he => hone.mem_trace he
    obtain ⟨e, he, ha⟩ := prepareLoop_sent p env (by rw [honly.trx]; exact hnodup) hloop (by rw [honly.trx]; exact hother)
      (by rw [honly.conn]; exact hc.disableXa) (by rw [honly.conn]; exact hc.started)
    exact ⟨e, hu ▸ he, by simp [Event.reaches, ha, Stmt.isXa]⟩
  · have hconn : u.conn st.trx.last = st.conn st.trx.last := by
      have hloop := prepareLoop_touches p env t
      rw [honly.trx] at hloop
      rw [hu, hloop.conn _ (last_notMem_others hne hnodup), honly.conn]
    exact onePhase_reached p env _ (by rw [hconn]; exact hc.started) (by rw [hconn]; exact hl)

/-- **Every participant is reached.** -/
theorem Ends.reached (h : Ends p env st u) (htidy : Tidy st) (hxa : st.trx.trxXa = true) (hc : c ∈ st.trx.joinTrxTop)
    (hs : (st.conn c).started = true) (hl : (st.conn c).serverLost = false) : Reached u.trace c := by
  obtain ⟨hstart, -, hprep, hdisable⟩ := htidy.xa hxa
  have hjoined : Joined st c := ⟨hc, (htidy.joined c (htidy.sub c hc)).mpr hc, hdisable c hc, hs⟩
  cases h with
  | rollback => exact rolledBack_reached p env htidy.nodup hstart hxa hprep hjoined hl
  | commit h =>
    unfold State.committed
    split_ifs with hone
    · exact (internalXaCommitOnePhase_reached p env htidy.nodup hjoined hl).mono c fun e he =>
        (internalXaCommit_keepsTree p env _).trace e he
    · have hlen : 2 ≤ st.trx.joinTrxTop.length := by
        have := List.length_pos_of_mem hc
        omega
      exact (internalXaPrepare_reached p env htidy.nodup hlen (h ⟨hxa, hlen⟩) hjoined hl).mono c fun e he =>
        (internalXaCommit_keepsTree p env _).trace e he
  | failed h _ =>
    obtain ⟨hkeeps, htrx⟩ := internalXaPrepare_keeps p env h.2
    cases hlost : ((internalXaPrepare p env st).2.conn c).serverLost with
    | true =>
      have hseen := (internalXaPrepare_lossSeen p env h.2 hdisable c hlost).resolve_left (by simp [hl])
      exact hseen.mono c fun e he => (rolledBack_keeps p env _).trace e he
    | false =>
      have hlater := hkeeps.later c
      have hjoined' : Joined (internalXaPrepare p env st).2 c :=
        ⟨by rw [htrx]; exact hc, by rw [internalXaPrepare_joinTrx p env h.2 hdisable]; exact hjoined.joinTrx,
          hlater.disableXa.trans hjoined.disableXa, (started_later hlater).trans hs⟩
      refine rolledBack_reached p env ?_ ?_ ?_ ?_ hjoined' hlost <;> rw [htrx]
      · exact htidy.nodup
      · exact hstart
      · exact hxa
      · exact hprep

end Calls

/-! ## The code for an unknown outcome -/

/-- `spider_db_errorno` passes the code of the shard on without a message. -/
def silentError (p : Params) (k : Conn) (e : ShardError) : Bool :=
  (k.ignoreDupKey && isDupEntryError e.num) || (isXaNotaError e.num && p.forceCommit == 1)

def Reply.isTimeout : Reply → Bool
  | .refused e => e.num == erSpiderXaTimeout
  | _ => false

/-- A refusal of the one-phase commit that Spider takes for an unknown outcome. -/
def Reply.leavesUnknown (p : Params) (k : Conn) : Reply → Bool
  | .refused e => !silentError p k e
  | _ => false

/-- The prepare phase ends with a known outcome: no participant answers `XA PREPARE` with that code, and the last does not
refuse its one-phase commit. -/
def OutcomeKnown (p : Params) (env : Env) (st : State) : Prop :=
  (∀ c ∈ st.trx.others, (env.reply c .xaEndAndPrepare).isTimeout = false) ∧
  (LogWritable p env st → (∀ c ∈ st.trx.others, (st.conn c).prepares p env c) →
    (st.conn st.trx.last).started = true → (st.conn st.trx.last).serverLost = false →
    (env.reply st.trx.last .xaCommitOnePhase).leavesUnknown p (st.conn st.trx.last) = false)

instance (p : Params) (env : Env) (st : State) : Decidable (OutcomeKnown p env st) := by
  unfold OutcomeKnown; infer_instance

section Timeout
variable (p : Params) (env : Env) {st : State}

theorem errorCode_ne_timeout {k : Conn} {e : ShardError} (he : e.num ≠ erSpiderXaTimeout)
    (hk : k.isXaCommitOnePhase = true → silentError p k e = true) : errorCode p k e ≠ erSpiderXaTimeout := by
  unfold errorCode
  split_ifs with hdup hnota hone
  · decide
  · exact he
  · have hsilent := hk hone
    simp [silentError, hdup, hnota] at hsilent
  · exact he

theorem goneAway_ne_timeout : erSpiderRemoteServerGoneAway ≠ erSpiderXaTimeout := by decide

theorem queryCode_ne_timeout {k : Conn} {r : Reply} (hr : ∀ e, r = .refused e → errorCode p k e ≠ erSpiderXaTimeout) :
    queryCode p k r ≠ erSpiderXaTimeout := by
  unfold queryCode
  split_ifs
  · exact goneAway_ne_timeout
  · cases r with
    | ack => exact zero_ne_timeout
    | refused e => exact hr e rfl
    | lost effect => exact goneAway_ne_timeout

theorem dbXaEndAndPrepare_ne_timeout {c : ConnId} (hone : (st.conn c).isXaCommitOnePhase = false)
    (hr : (env.reply c .xaEndAndPrepare).isTimeout = false) : (dbXaEndAndPrepare p env c st).1 ≠ erSpiderXaTimeout := by
  unfold dbXaEndAndPrepare
  split_ifs
  · exact show erSpiderLinkIsFailover ≠ erSpiderXaTimeout by decide
  · rw [dbPacket_fst]
    refine queryCode_ne_timeout p fun e he => errorCode_ne_timeout p ?_ (by simp [hone])
    simpa [he, Reply.isTimeout] using hr
  · exact zero_ne_timeout

theorem onePhase_ne_timeout {c : ConnId} (hr : (st.conn c).started = true → (st.conn c).serverLost = false →
    (env.reply c .xaCommitOnePhase).leavesUnknown p (st.conn c) = false) :
    (dbXaCommitOnePhase p env c st).1 ≠ erSpiderXaTimeout := by
  cases hs : (st.conn c).started with
  | false => rw [onePhase_queued p env c hs]; exact zero_ne_timeout
  | true =>
    rw [onePhase_started p env c hs, dbPacket_fst, setConn_conn_self]
    cases hl : (st.conn c).serverLost with
    | true => simpa [queryCode, hl] using goneAway_ne_timeout
    | false =>
      refine queryCode_ne_timeout p fun e he => ?_
      have hsilent : silentError p (st.conn c) e = true := by simpa [he, Reply.leavesUnknown] using hr hs hl
      have hcodes : isDupEntryError e.num = true ∨ isXaNotaError e.num = true := by
        simp only [silentError, Bool.or_eq_true, Bool.and_eq_true] at hsilent
        exact hsilent.imp And.right And.left
      refine errorCode_ne_timeout p (fun h => ?_) fun _ => hsilent
      rw [h] at hcodes
      revert hcodes
      decide

theorem prepareLog_ne_timeout (st : State) : (prepareLog p env st).1 ≠ erSpiderXaTimeout := by
  unfold prepareLog
  split_ifs
  · refine andThen_ne (logOpen_ne_timeout env _) (andThen_ne ?_ (andThen_ne (logOpen_ne_timeout env _) ?_))
    · unfold insertXa
      split
      · exact logOpen_ne_timeout env _
      · exact logAccess_ne_timeout env _ _
    · refine untilError_ne (I := fun _ => True) (by decide) (fun c _ t _ => ⟨?_, trivial⟩) trivial
      unfold prepareMember restoreDastatus insertXaMember
      split_ifs
      all_goals first
        | exact zero_ne_timeout
        | exact logOpen_ne_timeout env _
        | exact logAccess_ne_timeout env _ _
  · exact zero_ne_timeout

/-- **The prepare phase ends with a known outcome.** -/
theorem internalXaPrepare_ne_timeout (hnodup : st.trx.joinTrxTop.Nodup) (hlen : 2 ≤ st.trx.joinTrxTop.length)
    (hx : ∀ c ∈ st.trx.joinTrxTop, (st.conn c).disableXa = false)
    (hphase : ∀ c ∈ st.trx.joinTrxTop, (st.conn c).isXaCommitOnePhase = false) (hknown : OutcomeKnown p env st) :
    (internalXaPrepare p env st).1 ≠ erSpiderXaTimeout := by
  have hne : st.trx.joinTrxTop ≠ [] := List.length_pos_iff.mp (by omega)
  have honly := prepareLog_only p env st
  rw [internalXaPrepare_eq p env hlen]
  by_cases hlog : (prepareLog p env st).1 = 0
  swap
  · rw [andThen_of_ne hlog]; exact prepareLog_ne_timeout p env st
  rw [andThen_of_zero hlog]
  generalize (prepareLog p env st).2 = t at honly
  by_cases hloop : (prepareLoop p env t).1 = 0
  swap
  · rw [andThen_of_ne hloop]
    refine untilError_ne (I := OnlyLoses t) (by decide) (fun c hc u hu => ?_) (.refl t)
    rw [honly.trx] at hc
    have hmem : c ∈ st.trx.joinTrxTop := List.dropLast_subset _ hc
    have hxt : (t.conn c).disableXa = false := by rw [honly.conn]; exact hx c hmem
    refine ⟨?_, prepareConn_onlyLoses p env hu hxt⟩
    rw [prepareConn_eq p env (by rw [hu c]; exact hxt)]
    refine dbXaEndAndPrepare_ne_timeout p env ?_ (hknown.1 c hc)
    rw [hu c, honly.conn]
    exact hphase c hmem
  rw [andThen_of_zero hloop]
  have hprep := (prepareLoop_fst p env (by rw [honly.trx]; exact hnodup)
    (by rw [honly.trx, honly.conn]; exact fun c hc h => absurd h (by simp [hx c hc]))).mp hloop
  rw [honly.trx, honly.conn] at hprep
  have hconn : (prepareLoop p env t).2.conn st.trx.last = st.conn st.trx.last := by
    have htouch := prepareLoop_touches p env t
    rw [honly.trx] at htouch
    rw [htouch.conn _ (last_notMem_others hne hnodup), honly.conn]
  by_cases hone : (dbXaCommitOnePhase p env st.trx.last (prepareLoop p env t).2).1 = 0
  · rw [andThen_of_zero hone]; exact preparedLog_ne_timeout p env
  · rw [andThen_of_ne hone]
    refine onePhase_ne_timeout p env fun hs hl => ?_
    rw [hconn] at hs hl ⊢
    exact hknown.2 ((prepareLog_fst p env hnodup).mp hlog) hprep hs hl

end Timeout

end TSpider.Xa
