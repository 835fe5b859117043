import TSpider.Xa.Prepare

/-!
# The commit phase

`PrepareDone` is what a prepare phase without error leaves: every participant but the last is prepared, the last one has
committed, the row says `PREPARED`. From there the commit loop visits every participant once; a code that comes back as
zero tells what each shard answered.
-/

namespace TSpider.Xa
open Lib

def Conn.afterOnePhase (k : Conn) (b : Branch) (o : Bool) : Conn × Branch × Bool :=
  if k.started then ({ k with isXaCommitOnePhase := true }, Stmt.xaCommitOnePhase.onBranch b, o) else (k, b, o)

structure PrepareDone (p : Params) (env : Env) (st t : State) : Prop where
  writable : LogWritable p env st
  prepares : ∀ c ∈ st.trx.others, (st.conn c).prepares p env c
  updates : ¬ UpdateFails p env st
  lastAck : (st.conn st.trx.last).started = true →
    (st.conn st.trx.last).serverLost = false ∧ env.reply st.trx.last .xaCommitOnePhase = .ack
  trx : t.trx = st.trx
  others : ∀ c ∈ st.trx.others, (st.conn c).disableXa = false →
    t.see c = (st.conn c).afterPrepare (st.world.branch c) (st.world.trxOpen c)
  disabled : ∀ c ∈ st.trx.others, (st.conn c).disableXa = true →
    (t.conn c).joinTrx = false ∧ t.world.branch c ≠ .prepared
  last : t.see st.trx.last =
    (st.conn st.trx.last).afterOnePhase (st.world.branch st.trx.last) (st.world.trxOpen st.trx.last)
  prepared : ∀ c, t.world.branch c = .prepared → c ∈ st.trx.others ∧ (st.conn c).disableXa = false ∧
    (st.conn c).started = true ∧ st.world.branch c = .active
  row : st.logged p = true → t.log.xa st.trx.xid = some .prepared
  member : st.logged p = true → ∀ c ∈ st.trx.joinTrxTop, env.log (.insertMember c) = none →
    st.namesHost t.log c
  unlogged : st.logged p = false → t.log = st.log
  lastSent : (st.conn st.trx.last).started = true →
    ∃ e ∈ t.trace, e.action = .stmt st.trx.last .xaCommitOnePhase (some .ack)
  preparesXa : ∀ e ∈ t.trace, PreparesXa st e

section PrepareDone
variable (p : Params) (env : Env) {st : State}

theorem preparedLog_done {t : State} (hok : (preparedLog p env t).1 = 0)
    (hrow : t.logged p = true → t.log.xa t.trx.xid ≠ none) :
    (t.logged p = true → (preparedLog p env t).2.log.xa t.trx.xid = some .prepared) ∧
      (preparedLog p env t).2.log.member = t.log.member ∧ (t.logged p = false → (preparedLog p env t).2.log = t.log) := by
  cases hl : t.logged p with
  | false => simp [preparedLog, hl]
  | true =>
    have hnot : ¬ UpdateFails p env t := fun h => (preparedLog_fst p env hrow).mpr h hok
    obtain ⟨hopen, hupdate⟩ : env.log .reopenXa = none ∧ env.log .updatePrepared = none := by
      simpa [UpdateFails, hl] using hnot
    obtain ⟨s, hs⟩ := Option.ne_none_iff_exists'.mp (hrow hl)
    simp [preparedLog, hl, logOpen, hopen, updateXa, hs, logAccess, hupdate]

theorem prepareDone (hready : Ready st) (hlen : 2 ≤ st.trx.joinTrxTop.length)
    (hok : (internalXaPrepare p env st).1 = 0) : PrepareDone p env st (internalXaPrepare p env st).2 := by
  obtain ⟨-, hne, heq⟩ | ⟨hne, -, -, heq⟩ | ⟨t, ht, ⟨hne, heq⟩ | ⟨hone, heq⟩⟩ := internalXaPrepare_cases p env hready hlen
  · exact absurd (heq ▸ hok) hne
  · exact absurd (heq ▸ hok) hne
  · exact absurd (heq ▸ hok) hne
  rw [heq] at hok ⊢
  have hnotMem := last_notMem_others hready.joined_ne hready.nodup
  have hsee := ht.untouched _ hnotMem
  have htouch := onePhase_touches p env st.trx.last t
  have hlastSee : (dbXaCommitOnePhase p env st.trx.last t).2.see st.trx.last =
      (st.conn st.trx.last).afterOnePhase (st.world.branch st.trx.last) (st.world.trxOpen st.trx.last) := by
    rw [← see_conn hsee, ← see_branch hsee, ← see_trxOpen hsee]
    unfold Conn.afterOnePhase
    cases hs : (t.conn st.trx.last).started with
    | false => rw [onePhase_queued p env _ hs]; rfl
    | true =>
      rw [onePhase_ack p env _ hs hone]
      simp [State.see, World.after, World.exec, Stmt.endsTrx]
  have htrx := htouch.trx.trans ht.trx
  have hlogged : (dbXaCommitOnePhase p env st.trx.last t).2.logged p = st.logged p := by unfold State.logged; rw [htrx]
  have honly := preparedLog_only p env (dbXaCommitOnePhase p env st.trx.last t).2
  obtain ⟨hrow, hmember, hunlogged⟩ := preparedLog_done p env hok (fun h => by
    rw [htrx, htouch.log, ht.row (hlogged ▸ h)]; simp)
  rw [htrx, hlogged] at hrow
  rw [hlogged] at hunlogged
  rw [onePhase_fst, see_conn hsee] at hone
  exact {
    writable := ht.writable
    prepares := ht.prepares
    updates := fun h => ht.preparedLog_fst.mpr h hok
    lastAck := hone
    trx := honly.trx.trans htrx
    others := fun c hc hx => by
      rw [honly.see_eq, htouch.see_eq fun h => hnotMem (h ▸ hc), ht.others c hc hx]
    disabled := fun c hc hx => by
      have hne : c ≠ st.trx.last := fun h => hnotMem (h ▸ hc)
      rw [honly.conn, honly.world, htouch.conn c hne, htouch.branch_eq c hne]
      exact ht.disabled c hc hx
    last := by rw [honly.see_eq, hlastSee]
    prepared := fun c hc => by
      refine ht.prepared_inv p env hready (by_contra fun hne => ?_)
      rw [honly.world] at hc
      exact (htouch.branch c).prepared_of ofOnePhase_not_prepare hne hc
    row := hrow
    member := fun h c hc hfree => by
      unfold State.namesHost
      rw [hmember, htouch.log]
      exact ht.member h c hc hfree
    unlogged := fun h => by rw [hunlogged h, htouch.log, ht.unlogged h]
    lastSent := fun hs => by
      have hs' : (t.conn st.trx.last).started = true := by rw [see_conn hsee]; exact hs
      obtain ⟨e, he, ha⟩ := onePhase_event p env _ hs' (by rw [onePhase_fst, see_conn hsee]; exact hone)
      exact ⟨e, honly.mem_trace he, ha⟩
    preparesXa := honly.preparesXa (htouch.preparesXa (by decide) ht.preparesXa) }

end PrepareDone

/-! ## One connection in the commit loop -/

theorem firstError_eq_zero {e tmp code : Nat} (h : tmp ≠ 0 → code ≠ 0) : firstError e tmp code = 0 ↔ e = 0 ∧ tmp = 0 := by
  unfold firstError
  split_ifs with hc
  · simp [hc.2, h hc.2]
  · constructor
    · intro he
      exact ⟨he, by_contra fun ht => hc ⟨he, ht⟩⟩
    · exact And.left

theorem timeout_ne_zero : erSpiderXaTimeout ≠ 0 := by decide

/-- `ER_XAER_NOTA` comes from a shard that answers it; in a one-phase commit only `force_commit` 1 lets it through. -/
theorem queryCode_eq_nota {p : Params} {k : Conn} {r : Reply} (h : queryCode p k r = erXaerNota) :
    k.serverLost = false ∧ (∃ e, r = .refused e ∧ e.num = erXaerNota) ∧
    (k.isXaCommitOnePhase = true → p.forceCommit = 1) := by
  unfold queryCode at h
  cases hl : k.serverLost with
  | true => simp [hl, erSpiderRemoteServerGoneAway, erXaerNota] at h
  | false =>
    simp only [hl, Bool.false_eq_true, if_false] at h
    cases r with
    | ack => simp [erXaerNota] at h
    | lost effect => simp [erSpiderRemoteServerGoneAway, erXaerNota] at h
    | refused e =>
      simp only [errorCode] at h
      split_ifs at h with hdup hnota hone
      · simp [haErrFoundDuppKey, erXaerNota] at h
      · simp only [Bool.and_eq_true, beq_iff_eq] at hnota
        exact ⟨rfl, ⟨e, rfl, h⟩, fun _ => hnota.2⟩
      · simp [erSpiderXaTimeout, erXaerNota] at h
      · exact ⟨rfl, ⟨e, rfl, h⟩, fun hk => absurd hk hone⟩

/-- A prepared branch is still prepared after this reply to its `XA COMMIT`. -/
def Reply.leavesPrepared : Reply → Bool
  | .ack => false
  | .refused e => e.num != erXaerNota
  | .lost effect => !effect

theorem after_xaCommit_branch (w : World) (c : ConnId) {r : Reply} (hr : r.leavesPrepared = false) :
    (w.after c .xaCommit r).branch c ≠ .prepared := by
  cases r with
  | ack =>
    rw [after_ack_branch]
    cases w.branch c <;> simp [Stmt.onBranch]
  | refused e =>
    rw [after_refused_branch, if_pos (by simpa [Reply.leavesPrepared] using hr)]
    cases w.branch c <;> simp [Branch.forget]
  | lost effect =>
    rw [after_lost_branch, if_pos (by simpa [Reply.leavesPrepared] using hr)]
    cases w.branch c <;> simp [Stmt.onBranch, Branch.detach]

section CommitConn
variable (p : Params) (env : Env) (da : Bool) (c : ConnId) (e : Nat) {st : State}

def Conn.commits (k : Conn) : Bool := !k.isXaCommitOnePhase && k.started

theorem dbXaCommit_sent (h : (st.conn c).commits = true) : dbXaCommit p env c st = dbQuery p env c .xaCommit st := by
  unfold Conn.commits Conn.started at h
  simp only [Bool.and_eq_true, Bool.not_eq_true'] at h
  simp [dbXaCommit, h]

theorem dbXaCommit_not_sent (h : (st.conn c).commits = false) : dbXaCommit p env c st = (0, st) := by
  unfold Conn.commits Conn.started at h
  have : ¬ ((!(st.conn c).isXaCommitOnePhase && !(st.conn c).queuedConnect && !(st.conn c).queuedXaStart) = true) := by
    rw [Bool.and_assoc, h]; simp
  rw [dbXaCommit, if_neg this]

theorem commitBranch_fst : (commitBranch p env da c e st).1 = 0 ↔ e = 0 ∧ ((dbXaCommit p env c st).1 = 0 ∨
    commitErrorCounts p (dbXaCommit p env c st).1 = false ∨ (st.conn c).errorMode = true) := by
  have hmode : ((dbXaCommit p env c st).2.conn c).errorMode = (st.conn c).errorMode :=
    ((dbXaCommit_touches (S := fun _ => True) (C := fun _ => True) p env trivial st trivial).later c).errorMode
  unfold commitBranch
  by_cases h0 : (dbXaCommit p env c st).1 = 0
  · simp [h0]
  · rw [if_neg h0]
    rw [firstError_eq_zero fun _ => timeout_ne_zero]
    by_cases hcount : commitErrorCounts p (dbXaCommit p env c st).1 = true
    · rw [if_pos hcount, restoreDastatus_fst_eq_zero, hmode]
      simp [h0, hcount]
    · simp [hcount]

theorem commitConn_fst (hj : (st.conn c).joinTrx = true) : (commitConn p env da c e st).1 = 0 ↔
    (commitBranch p env da c e st).1 = 0 ∧
      (endTrxCode p env c ((commitBranch p env da c e st).2.conn c) = 0 ∨ (st.conn c).errorMode = true) := by
  have hmode : ((endTrx p env c (commitBranch p env da c e st).2).2.conn c).errorMode = (st.conn c).errorMode := by
    have h1 := (endTrx_touches (S := fun _ => True) (C := fun _ => True) (c := c) p env trivial
      (commitBranch p env da c e st).2 trivial trivial).later c
    have h2 := (commitBranch_touches (C := fun _ => True) (c := c) p env da trivial e st).later c
    rw [h1.errorMode, h2.errorMode]
  unfold commitConn
  rw [if_pos hj]
  rw [firstError_eq_zero fun _ => timeout_ne_zero, restoreDastatus_fst_eq_zero, endTrx_fst, hmode]

theorem commitConn_keep (h : (commitConn p env da c e st).1 = 0) : e = 0 := by
  cases hj : (st.conn c).joinTrx with
  | true => exact ((commitBranch_fst p env da c e).mp ((commitConn_fst p env da c e hj).mp h).1).1
  | false => simpa [commitConn, hj] using h

theorem commitConn_after (hj : (st.conn c).joinTrx = true) :
    Touches Stmt.outsideXa (fun _ => True) (dbXaCommit p env c st).2 (commitConn p env da c e st).2 := by
  have hbranch : Touches Stmt.outsideXa (fun _ => True) (dbXaCommit p env c st).2 (commitBranch p env da c e st).2 := by
    unfold commitBranch
    dsimp only
    split_ifs
    · exact .refl _
    · exact (restoreDastatus_touches _ (.refl _)).trans (sysLogXaFailed_touches env _)
    · exact sysLogXaFailed_touches env _
  refine hbranch.trans ?_
  unfold commitConn
  rw [if_pos hj]
  exact (restoreDastatus_touches _ (endTrx_touches p env trivial _ (by decide) (by decide))).trans
    (leaveTrx_touches trivial _)

theorem commitConn_event (hj : (st.conn c).joinTrx = true) (hc : (st.conn c).commits = true)
    (hl : (st.conn c).serverLost = false) :
    ∃ ev ∈ (commitConn p env da c e st).2.trace, ev.action = .stmt c .xaCommit (some (env.reply c .xaCommit)) := by
  refine ⟨⟨st.world, st.log, .stmt c .xaCommit (some (env.reply c .xaCommit))⟩, ?_, rfl⟩
  refine (commitConn_after p env da c e hj).mem_trace ?_
  rw [dbXaCommit_sent p env c hc, (dbQuery_sent p env c _ st hl).2.2]
  simp

theorem commitConn_not_prepared (hj : (st.conn c).joinTrx = true) (hc : (st.conn c).commits = true)
    (hl : (st.conn c).serverLost = false) (hr : (env.reply c .xaCommit).leavesPrepared = false) :
    (commitConn p env da c e st).2.world.branch c ≠ .prepared := by
  refine ((commitConn_after p env da c e hj).branch c).prepared_of outsideXa_not_prepare ?_
  rw [dbXaCommit_sent p env c hc, (dbQuery_sent p env c _ st hl).2.1]
  exact after_xaCommit_branch _ c hr

theorem commitConn_reply (hforce : p.forceCommit = 0 ∨ p.forceCommit = 1) (hj : (st.conn c).joinTrx = true)
    (hc : (st.conn c).commits = true) (hmode : (st.conn c).errorMode = false) (h : (commitConn p env da c e st).1 = 0) :
    (st.conn c).serverLost = false ∧ (env.reply c .xaCommit = .ack ∨
      (p.forceCommit = 1 ∧ ∃ err, env.reply c .xaCommit = .refused err ∧ err.num = erXaerNota)) := by
  have hbranch := ((commitBranch_fst p env da c e).mp ((commitConn_fst p env da c e hj).mp h).1).2
  rw [dbXaCommit_sent p env c hc, dbQuery_fst, hmode] at hbranch
  rcases hbranch with hzero | hcount | hmode
  · obtain ⟨hl, hack⟩ := (queryCode_eq_zero p).mp hzero
    exact ⟨hl, .inl hack⟩
  · -- the error does not count only as `XAER_NOTA` with `force_commit` 1
    simp only [commitErrorCounts, Bool.or_eq_false_iff, beq_eq_false_iff_ne, Bool.and_eq_false_iff,
      bne_eq_false_iff_eq] at hcount
    have h1 := hforce.resolve_left hcount.1
    obtain ⟨hl, hnota, -⟩ := queryCode_eq_nota (hcount.2.resolve_left fun h => h h1)
    exact ⟨hl, .inr ⟨h1, hnota⟩⟩
  · cases hmode

end CommitConn

/-! ## The commit loop -/

section Mark
variable (st : State)

@[simp] theorem markPrepared_joinTrxTop : st.markPrepared.trx.joinTrxTop = st.trx.joinTrxTop := rfl
@[simp] theorem markPrepared_xid : st.markPrepared.trx.xid = st.trx.xid := rfl
@[simp] theorem markPrepared_logged (p : Params) : st.markPrepared.logged p = st.logged p := rfl
@[simp] theorem markPrepared_log : st.markPrepared.log = st.log := rfl
@[simp] theorem clearTree_xid : st.clearTree.trx.xid = st.trx.xid := rfl
@[simp] theorem clearTree_logged (p : Params) : st.clearTree.logged p = st.logged p := rfl
@[simp] theorem clearTree_log : st.clearTree.log = st.log := rfl

end Mark

theorem logged_congr {p : Params} {st st' : State} (h : st'.trx = st.trx) : st'.logged p = st.logged p := by
  unfold State.logged
  rw [h]


def commitLoop (p : Params) (env : Env) (st : State) : Nat × State :=
  forEach (commitConn p env st.isError) st.trx.joinTrxTop 0 st

section CommitLoop
variable (p : Params) (env : Env) {st : State}

theorem commitLoop_touches (st : State) : Touches Stmt.ofCommit (· ∈ st.trx.joinTrxTop) st (commitLoop p env st).2 :=
  forEach_touches 0 st fun _ hc e t => commitConn_touches p env st.isError hc e t

theorem commitConn_see_other (da : Bool) (c : ConnId) (e : Nat) (t : State) (d : ConnId) (hd : d ≠ c) :
    (commitConn p env da c e t).2.see d = t.see d :=
  Touches.see_eq (commitConn_touches (C := (· = c)) p env da rfl e t) hd

theorem commitLoop_visit (hnodup : st.trx.joinTrxTop.Nodup) (hok : (commitLoop p env st).1 = 0) {c : ConnId}
    (hc : c ∈ st.trx.joinTrxTop) : ∃ t, t.see c = st.see c ∧ (commitConn p env st.isError c 0 t).1 = 0 ∧
      Touches Stmt.ofCommit (fun _ => True) (commitConn p env st.isError c 0 t).2 (commitLoop p env st).2 ∧
      (commitLoop p env st).2.see c = (commitConn p env st.isError c 0 t).2.see c := by
  obtain ⟨t, h⟩ := forEach_visit_zero Touches.refl
    (fun _ _ _ => Touches.trans) (fun c e t => commitConn_touches p env st.isError trivial e t)
    (commitConn_see_other p env st.isError) (fun c e t => commitConn_keep p env st.isError c e) hnodup hok hc
  exact ⟨t, h⟩

theorem reportTimeout_fst (r : Nat × State) : (reportTimeout r).1 = r.1 := by
  unfold reportTimeout
  split_ifs <;> rfl

theorem reportTimeout_of_zero {r : Nat × State} (h : r.1 = 0) : reportTimeout r = r := if_neg (not_not.mpr h)

theorem commitConns_eq (st : State) : commitConns p env st =
    reportTimeout ((commitLoop p env st).1, (commitLoop p env st).2.clearTree) := rfl

theorem internalXaCommit_eq (hlog : (commitLog p env st).1 = 0) (hloop : (commitLoop p env (commitLog p env st).2).1 = 0) :
    internalXaCommit p env st = deleteLog p env (commitLoop p env (commitLog p env st).2).2.clearTree := by
  unfold internalXaCommit
  have hquiet : reportTimeout ((commitLoop p env (commitLog p env st).2).1,
      (commitLoop p env (commitLog p env st).2).2.clearTree) = _ := reportTimeout_of_zero hloop
  rw [andThen_of_zero hlog, commitConns_eq, hquiet]
  exact andThen_of_zero hloop

theorem internalXaCommit_fst (h : (internalXaCommit p env st).1 = 0) :
    (commitLog p env st).1 = 0 ∧ (commitLoop p env (commitLog p env st).2).1 = 0 := by
  obtain ⟨hlog, h⟩ := andThen_fst_eq_zero.mp h
  obtain ⟨hloop, -⟩ := andThen_fst_eq_zero.mp h
  rw [commitConns_eq, reportTimeout_fst] at hloop
  exact ⟨hlog, hloop⟩

end CommitLoop

/-! ## The log around the commit loop -/

section CommitLog
variable (p : Params) (env : Env) {st : State}

theorem updateXa_done {a : LogAccess} {status : XaStatus} (h : (updateXa env a status st).1 = 0) :
    (updateXa env a status st).2.log.xa st.trx.xid = some status ∧ (updateXa env a status st).2.log.member =
      st.log.member := by
  unfold updateXa at h ⊢
  cases hrow : st.log.xa st.trx.xid with
  | none =>
    simp only [hrow, andThen_fst_eq_zero] at h
    exact absurd h.2 (by simp [xaNotExists, erSpiderXaNotExists])
  | some s =>
    simp only [hrow] at h
    have ha := (logAccess_fst env a st _).mp h
    simp [logAccess_ok env a st _ ha]

theorem checkXaRow_log (a : LogAccess) : (checkXaRow env a st).2.log = st.log := by
  refine andThen_rule (P := fun t : State => t.log = st.log) (logOpen_log env a st) fun _ h => ?_
  split
  · exact h
  · exact h

theorem checkXaStatus_log (a : LogAccess) (other : XaStatus) : (checkXaStatus p env a other st).2.log = st.log := by
  unfold checkXaStatus
  split_ifs
  · rfl
  · refine andThen_rule (P := fun t : State => t.log = st.log) (logOpen_log env a st) fun _ h => ?_
    split_ifs
    · exact h
    · exact h

theorem commitLog_unlogged (h : st.logged p = false) : commitLog p env st = (0, st) := by simp [commitLog, h]

theorem commitLog_done (hlog : st.logged p = true) (h : (commitLog p env st).1 = 0) :
    (commitLog p env st).2.log.xa st.trx.xid = some .commit ∧ (commitLog p env st).2.log.member = st.log.member := by
  unfold commitLog at h ⊢
  rw [if_pos hlog] at h ⊢
  obtain ⟨h1, h⟩ := andThen_fst_eq_zero.mp h
  rw [andThen_of_zero h1]
  obtain ⟨h2, h⟩ := andThen_fst_eq_zero.mp h
  rw [andThen_of_zero h2]
  obtain ⟨h3, h⟩ := andThen_fst_eq_zero.mp h
  rw [andThen_of_zero h3]
  have honly := ((logOpen_only env .commitOpenXa st).trans (checkXaRow_only env .commitCheckXa _)).trans
    (checkXaStatus_only p env .commitStatus _ .commit)
  obtain ⟨hrow, hmember⟩ := updateXa_done env h
  rw [honly.trx] at hrow
  refine ⟨hrow, hmember.trans ?_⟩
  rw [checkXaStatus_log, checkXaRow_log, logOpen_log]

def CommitLogged (p : Params) (env : Env) (st : State) : Prop :=
  st.logged p = true → env.log .commitOpenXa = none ∧ env.log .commitCheckXa = none ∧
    (p.forceCommit ≠ 2 → env.log .commitStatus = none) ∧ env.log .updateCommit = none

instance (p : Params) (env : Env) (st : State) : Decidable (CommitLogged p env st) := by
  unfold CommitLogged; infer_instance

variable {p env} in
theorem CommitLogged.of_free (h : ∀ a, env.log a = none) : CommitLogged p env st :=
  fun _ => ⟨h _, h _, fun _ => h _, h _⟩

theorem commitLog_fst (hfree : CommitLogged p env st)
    (hrow : st.logged p = true → st.log.xa st.trx.xid = some .prepared) : (commitLog p env st).1 = 0 := by
  cases hlog : st.logged p with
  | false => rw [commitLog_unlogged p env hlog]
  | true =>
    obtain ⟨hopen, hcheck, hstatus, hupdate⟩ := hfree hlog
    have hcheck : checkXaRow env .commitCheckXa st = (0, st) := by
      simp [checkXaRow, logOpen_ok env _ st hcheck, hrow hlog]
    have hstatus : checkXaStatus p env .commitStatus .commit st = (0, st) := by
      unfold checkXaStatus
      split_ifs with hforce
      · rfl
      · rw [logOpen_ok env _ st (hstatus hforce), andThen_pair_zero, if_pos (.inl (hrow hlog))]
    unfold commitLog
    rw [if_pos hlog, logOpen_ok env _ st hopen, andThen_pair_zero, hcheck, andThen_pair_zero, hstatus, andThen_pair_zero,
      updateXa_fst env _ _ (by simp [hrow hlog])]
    exact hupdate

theorem deleteRows_fst (hfree : ∀ a, env.log a = none) (hrow : st.log.xa st.trx.xid ≠ none) :
    (deleteRows env st).1 = 0 ∧ (deleteRows env st).2.log.xa st.trx.xid = none ∧
      (deleteRows env st).2.log.member st.trx.xid = [] := by
  have hopen (a : LogAccess) (s : State) : logOpen env a s = (0, s) := logOpen_ok env a s (hfree a)
  obtain ⟨s, hs⟩ := Option.ne_none_iff_exists'.mp hrow
  unfold deleteRows deleteXaMember
  rw [hopen, andThen_pair_zero, logAccess_ok env _ _ _ (hfree _), andThen_pair_zero, hopen, andThen_pair_zero]
  simp only [deleteXa, State.record, hs, logAccess_ok env _ _ _ (hfree _), Function.update_self, and_self]

end CommitLog

end TSpider.Xa
