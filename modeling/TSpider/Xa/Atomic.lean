import TSpider.Xa.Prepare

/-!
# Atomic commit

`spider_commit` prepares all participants but the last, commits the last one in one phase, and starts a rollback when this
fails. The rollback must not reach a prepared branch once another branch has committed. It does exactly when the one-phase
commit took effect and still counts as a failed prepare: the connection was lost before the answer, or the log could not
be set to `PREPARED` afterwards.
-/

namespace TSpider.Xa
open Lib Stmt

/-- `XA ROLLBACK` was sent to a prepared branch after another branch had committed. -/
def RollsBackAfterCommit (tr : List Event) : Prop :=
  ∃ e ∈ tr, ∃ c d r, e.action = .stmt c .xaRollback (some r) ∧ e.world.branch c = .prepared ∧ d ≠ c ∧
    e.world.branch d = .committed

/-- After this reply to `XA END` the connection is there and the shard knows the branch. -/
def Reply.keepsBranch : Reply → Bool
  | .ack => true
  | .refused e => e.num != erXaerNota
  | .lost _ => false

/-- The commit of the last participant takes effect and counts as a failed prepare. -/
def CommitMistaken (p : Params) (env : Env) (st : State) : Prop :=
  (st.conn st.trx.last).started = true ∧ (st.conn st.trx.last).serverLost = false ∧
  st.world.branch st.trx.last = .active ∧
  (env.reply st.trx.last .xaCommitOnePhase = .lost true ∨
    env.reply st.trx.last .xaCommitOnePhase = .ack ∧ UpdateFails p env st)

/-- A participant that is prepared and stays reachable for a rollback. -/
def RollbackReaches (env : Env) (st : State) (c : ConnId) : Prop :=
  (st.conn c).disableXa = false ∧ (st.conn c).started = true ∧ st.world.branch c = .active ∧
  (env.reply c .xaEnd).keepsBranch = true

/-- The commit of the last participant is mistaken for a failed prepare, and the rollback reaches one of the others. -/
structure Stranded (p : Params) (env : Env) (all : Bool) (st : State) : Prop where
  call : all = true ∨ p.multiStmt = false
  killed : p.lastKilled ≠ .killConnection
  writable : LogWritable p env st
  prepares : ∀ c ∈ st.trx.others, (st.conn c).prepares p env c
  mistaken : CommitMistaken p env st
  reaches : ∃ c ∈ st.trx.others, RollbackReaches env st c

/-! ## One connection in the rollback loop -/

def Justified (env : Env) (e : Event) : Prop :=
  ∀ c r, e.action = .stmt c .xaRollback (some r) → e.world.branch c = .prepared → (env.reply c .xaEnd).keepsBranch = true

section Rollback
variable (p : Params) (env : Env) (da : Bool) (c : ConnId) (code : Nat) {st : State} {e : Event}

theorem Touches.justified {S : Stmt → Prop} {C : ConnId → Prop} {st st' : State} (h : Touches S C st st')
    (hS : ¬ S .xaRollback) (he : e ∈ st'.trace) : e ∈ st.trace ∨ Justified env e := by
  obtain ⟨tr, htr, hev⟩ := h.trace
  rw [htr] at he
  refine (List.mem_append.mp he).imp_right fun he c r ha => ?_
  obtain ⟨c', s, r', -, hs, ha'⟩ := (hev e he).stmt
  rw [ha] at ha'
  injection ha' with _ hs'
  exact absurd (hs' ▸ hs) hS

theorem restoreDastatus_state (r : Nat × State) : (restoreDastatus da c r).2.conn = r.2.conn ∧
    (restoreDastatus da c r).2.world = r.2.world ∧ (restoreDastatus da c r).2.trace = r.2.trace := by
  unfold restoreDastatus
  split_ifs <;> exact ⟨rfl, rfl, rfl⟩

theorem rollbackXaEnd_state (hprep : st.trx.trxXaPrepared = false) (hs : (st.conn c).started = true)
    (hl : (st.conn c).serverLost = false) :
    (rollbackXaEnd p env da c code st).2.conn c = (st.conn c).queried (env.reply c .xaEnd) ∧
      (rollbackXaEnd p env da c code st).2.world = st.world.after c .xaEnd (env.reply c .xaEnd) := by
  have hend : dbXaEnd p env c st = dbQuery p env c .xaEnd st := by
    unfold Conn.started at hs
    simp [dbXaEnd, hs]
  obtain ⟨hconn, hworld, -⟩ := dbQuery_sent p env c .xaEnd st hl
  unfold rollbackXaEnd
  rw [if_neg (by simp [hprep]), hend]
  dsimp only
  split_ifs
  · rw [(restoreDastatus_state da c _).1, (restoreDastatus_state da c _).2.1]
    exact ⟨hconn, hworld⟩
  · exact ⟨hconn, hworld⟩

theorem rollbackXa_trace (hs : (st.conn c).started = true) (hl : (st.conn c).serverLost = false) :
    (rollbackXa p env da c code st).2.trace =
      st.trace ++ [⟨st.world, st.log, .stmt c .xaRollback (some (env.reply c .xaRollback))⟩] := by
  have hroll : dbXaRollback p env c st = dbQuery p env c .xaRollback st := by
    unfold Conn.started at hs
    simp [dbXaRollback, hs]
  unfold rollbackXa
  rw [hroll]
  dsimp only
  split_ifs
  · rw [(restoreDastatus_state da c _).2.2, (dbQuery_sent p env c _ st hl).2.2]
  · exact (dbQuery_sent p env c _ st hl).2.2

theorem rollbackXa_justified (h : (st.conn c).started = true → (st.conn c).serverLost = false →
      st.world.branch c = .prepared → (env.reply c .xaEnd).keepsBranch = true)
    (he : e ∈ (rollbackXa p env da c code st).2.trace) : e ∈ st.trace ∨ Justified env e := by
  have htrace : (rollbackXa p env da c code st).2.trace = (dbXaRollback p env c st).2.trace := by
    unfold rollbackXa
    dsimp only
    split_ifs
    · exact (restoreDastatus_state da c _).2.2
    · rfl
  rw [htrace] at he
  unfold dbXaRollback at he
  split_ifs at he with hs
  · cases hl : (st.conn c).serverLost with
    | true =>
      rw [(dbQuery_not_sent p env c _ st hl).2.2] at he
      refine (List.mem_append.mp he).imp_right fun he c' r ha => ?_
      rw [List.mem_singleton.mp he] at ha
      simp at ha
    | false =>
      rw [(dbQuery_sent p env c _ st hl).2.2] at he
      refine (List.mem_append.mp he).imp_right fun he c' r ha hb => ?_
      rw [List.mem_singleton.mp he] at ha hb
      obtain ⟨rfl, -⟩ := Action.stmt.inj ha
      exact h hs hl hb
  · exact .inl he

theorem keepsBranch_of_prepared {k : Conn} {w : World} {r : Reply} (hl : (k.queried r).serverLost = false)
    (hb : (w.after c .xaEnd r).branch c = .prepared) : r.keepsBranch = true := by
  cases r with
  | ack => rfl
  | refused e =>
    rw [after_refused_branch] at hb
    by_cases hnota : e.num = erXaerNota
    · rw [if_pos hnota] at hb
      cases hbr : w.branch c <;> simp [hbr, Branch.forget] at hb
    · simpa [Reply.keepsBranch] using hnota
  | lost effect => simp [Conn.queried] at hl

theorem started_queried (k : Conn) (r : Reply) : (k.queried r).started = k.started := by cases r <;> rfl

theorem rollbackXaEnd_started (hs : (st.conn c).started = false) : rollbackXaEnd p env da c code st = (code, st) := by
  unfold Conn.started at hs
  simp [rollbackXaEnd, dbXaEnd, hs]

theorem rollbackBranch_justified (hprep : st.trx.trxXaPrepared = false)
    (he : e ∈ (rollbackBranch p env da c code st).2.trace) : e ∈ st.trace ∨ Justified env e := by
  unfold rollbackBranch at he
  split_ifs at he with hx hsend hlost
  · have h : Touches (fun s => s = .rollback) (fun _ => True) st
        (restoreDastatus da c (dbRollback p env c .rollback st)).2 :=
      restoreDastatus_touches st (dbRollback_touches p env trivial st rfl)
    exact h.justified env (by decide) he
  · exact .inl he
  · exact .inl he
  · cases hs : (st.conn c).started with
    | false =>
      rw [rollbackXaEnd_started p env da c code hs] at he
      exact rollbackXa_justified p env da c _ (fun h => absurd h (by simp [hs])) he
    | true =>
      obtain ⟨hconn, hworld⟩ := rollbackXaEnd_state p env da c code hprep hs (by simpa using hlost)
      have hend : Touches (fun s => s = .xaEnd) (fun _ => True) st (rollbackXaEnd p env da c code st).2 := by
        have h : Touches (fun s => s = .xaEnd) (fun _ => True) st (dbXaEnd p env c st).2 :=
          dbXaEnd_touches p env trivial st rfl
        unfold rollbackXaEnd
        dsimp only
        split_ifs
        · exact .refl _
        · exact restoreDastatus_touches st h
        · exact h
      refine Or.elim (rollbackXa_justified p env da c _ (fun _ hl hb => ?_) he) (hend.justified env (by decide)) .inr
      rw [hconn] at hl
      rw [hworld] at hb
      exact keepsBranch_of_prepared c hl hb

theorem rollbackConn_justified (hprep : st.trx.trxXaPrepared = false)
    (he : e ∈ (rollbackConn p env da c code st).2.trace) : e ∈ st.trace ∨ Justified env e := by
  unfold rollbackConn at he
  split_ifs at he
  · have hend : Touches outsideXa (fun _ => True) (rollbackBranch p env da c code st).2
        ((restoreDastatus da c (endTrx p env c (rollbackBranch p env da c code st).2)).2.leaveTrx c) :=
      Touches.trans (restoreDastatus_touches _ (endTrx_touches p env trivial _ (by decide) (by decide)))
        (leaveTrx_touches trivial _)
    exact Or.elim (hend.justified env (by decide) he) (rollbackBranch_justified p env da c code hprep) .inr
  · exact .inl he

theorem rollbackConn_rollsBack (hprep : st.trx.trxXaPrepared = false) (hj : (st.conn c).joinTrx = true)
    (hx : (st.conn c).disableXa = false) (hl : (st.conn c).serverLost = false) (hs : (st.conn c).started = true)
    (hb : st.world.branch c = .prepared) (hr : (env.reply c .xaEnd).keepsBranch = true) :
    ∃ e ∈ (rollbackConn p env da c code st).2.trace, ∃ r, e.action = .stmt c .xaRollback (some r) ∧
      e.world.branch c = .prepared ∧ ∀ d, d ≠ c → e.world.branch d = st.world.branch d := by
  obtain ⟨hconn, hworld⟩ := rollbackXaEnd_state p env da c code hprep hs hl
  have hs' : ((rollbackXaEnd p env da c code st).2.conn c).started = true := by rw [hconn, started_queried, hs]
  have hl' : ((rollbackXaEnd p env da c code st).2.conn c).serverLost = false := by
    rw [hconn]
    cases h : env.reply c .xaEnd with
    | ack => exact hl
    | refused e => exact hl
    | lost effect => simp [h, Reply.keepsBranch] at hr
  have hb' : (st.world.after c .xaEnd (env.reply c .xaEnd)).branch c = .prepared := by
    cases h : env.reply c .xaEnd with
    | ack => rw [after_ack_branch, hb]; rfl
    | refused e =>
      rw [after_refused_branch, if_neg (by simpa [h, Reply.keepsBranch] using hr)]
      exact hb
    | lost effect => simp [h, Reply.keepsBranch] at hr
  have hbranch : rollbackBranch p env da c code st =
      rollbackXa p env da c (rollbackXaEnd p env da c code st).1 (rollbackXaEnd p env da c code st).2 := by
    unfold rollbackBranch
    simp [hx, hl]
  have htouch : Touches ofRollback (fun _ => True) (rollbackBranch p env da c code st).2
      (rollbackConn p env da c code st).2 := by
    unfold rollbackConn
    rw [if_pos hj]
    exact Touches.trans (restoreDastatus_touches _ (endTrx_touches p env trivial _ (by decide) (by decide)))
      (leaveTrx_touches trivial _)
  refine ⟨⟨(rollbackXaEnd p env da c code st).2.world, (rollbackXaEnd p env da c code st).2.log,
    .stmt c .xaRollback (some (env.reply c .xaRollback))⟩, htouch.mem_trace ?_, env.reply c .xaRollback, rfl, ?_, ?_⟩
  · rw [hbranch, rollbackXa_trace p env da c _ hs' hl']
    simp
  · rw [hworld]; exact hb'
  · intro d hd
    rw [hworld]
    exact after_branch_ne _ _ _ hd

end Rollback

/-! ## The whole rollback -/

section WholeRollback
variable (p : Params) (env : Env) (all : Bool) {st : State}

theorem freeConnFromTrx_trace (c : ConnId) : (freeConnFromTrx p env c st).trace = st.trace := by
  unfold freeConnFromTrx
  dsimp only
  split_ifs <;> rfl

theorem freeTrxConn_trace : (freeTrxConn p env st).trace = st.trace := by
  unfold freeTrxConn
  generalize st.trx.trxConnHash = cs
  induction cs generalizing st with
  | nil => rfl
  | cons c cs ih =>
    rw [List.foldl_cons, ih]
    unfold freeTrxConnOne
    dsimp only
    split_ifs
    · rfl
    · rw [freeConnFromTrx_trace]; rfl
    · rfl

theorem finishTrx_trace : (finishTrx p env st).trace = st.trace := freeTrxConn_trace p env

theorem rollbackLoop_touches (st : State) (e : Nat) : Touches ofRollback (· ∈ st.trx.joinTrxTop) st
    (forEach (rollbackConn p env st.isError) st.trx.joinTrxTop e st).2 :=
  forEach_touches e st fun _ hc e t => rollbackConn_touches p env st.isError hc e t

theorem internalXaRollback_unprepared (hprep : st.trx.trxXaPrepared = false) :
    internalXaRollback p env st = ((forEach (rollbackConn p env st.isError) st.trx.joinTrxTop 0 st).1,
      (forEach (rollbackConn p env st.isError) st.trx.joinTrxTop 0 st).2.clearTree) := by
  have hlog : rollbackLog p env st = (0, st) := by simp [rollbackLog, State.loggedPrepared, hprep]
  have htrx := (rollbackLoop_touches p env st 0).trx
  unfold internalXaRollback
  rw [hlog, andThen_pair_zero]
  dsimp only
  generalize forEach (rollbackConn p env st.isError) st.trx.joinTrxTop 0 st = r at htrx
  by_cases h0 : r.1 = 0
  · rw [h0, andThen_pair_zero]
    simp [rollbackDeleteLog, State.loggedPrepared, State.clearTree, htrx, hprep]
  · exact andThen_of_ne h0

theorem spiderRollback_xa (hstart : st.trx.trxStart = true) (hxa : st.trx.trxXa = true)
    (hprep : st.trx.trxXaPrepared = false) (hcall : all = true ∨ p.multiStmt = false)
    (hkill : p.lastKilled ≠ .killConnection) :
    spiderRollback p env all st = ((forEach (rollbackConn p env st.isError) st.trx.joinTrxTop 0 st).1, finishTrx p env
        (forEach (rollbackConn p env st.isError) st.trx.joinTrxTop 0 st).2.clearTree.leaveXa.endStarted) := by
  unfold spiderRollback
  rw [if_neg hkill, if_pos (by simpa using hcall), if_pos hstart, if_pos hxa, internalXaRollback_unprepared p env hprep]

theorem rollbackLoop_visit (hnodup : st.trx.joinTrxTop.Nodup) {c : ConnId} (hc : c ∈ st.trx.joinTrxTop) :
    ∃ e t, Touches ofRollback (fun _ => True) st t ∧ t.see c = st.see c ∧
      Touches ofRollback (fun _ => True) (rollbackConn p env st.isError c e t).2
        (forEach (rollbackConn p env st.isError) st.trx.joinTrxTop 0 st).2 ∧
      (forEach (rollbackConn p env st.isError) st.trx.joinTrxTop 0 st).2.see c =
        (rollbackConn p env st.isError c e t).2.see c :=
  forEach_visit (v := State.see) (M := Touches ofRollback (fun _ => True)) Touches.refl
    (fun _ _ _ => Touches.trans) (fun c e t => rollbackConn_touches (c := c) p env st.isError trivial e t)
    (fun c e t _ hd => Touches.see_eq (rollbackConn_touches (C := (· = c)) p env st.isError rfl e t) hd) hnodup hc

theorem rollbackLoop_justified (hprep : st.trx.trxXaPrepared = false) (hst : ∀ e ∈ st.trace, Justified env e) :
    ∀ e ∈ (forEach (rollbackConn p env st.isError) st.trx.joinTrxTop 0 st).2.trace, Justified env e := by
  refine (forEach_invariant (I := fun _ (t : State) => t.trx.trxXaPrepared = false ∧ ∀ e ∈ t.trace, Justified env e)
    (fun c _ code t ht => ⟨?_, fun e he => ?_⟩) ⟨hprep, hst⟩).2
  · rw [(rollbackConn_touches (C := fun _ => True) p env st.isError (c := c) trivial code t).trx]
    exact ht.1
  · exact (rollbackConn_justified p env st.isError c code ht.1 he).elim (ht.2 e) id

end WholeRollback

/-! ## Commits send no rollback -/

def Stmt.notRollback (s : Stmt) : Prop := s ≠ .xaRollback

section Commit
variable (p : Params) (env : Env) {st : State}

theorem ofPrepare_notRollback (s : Stmt) (hs : s.ofPrepare) : s.notRollback := by
  rintro rfl
  exact absurd hs (by decide)

theorem ofCommit_notRollback (s : Stmt) (hs : s.ofCommit) : s.notRollback := by
  rintro rfl
  exact absurd hs (by decide)

theorem ofOnePhase_notRollback (s : Stmt) (hs : s.ofOnePhase) : s.notRollback := by
  rintro rfl
  exact absurd hs (by decide)

theorem reportTimeout_trace (r : Nat × State) : (reportTimeout r).2.trace = r.2.trace := by
  unfold reportTimeout
  split_ifs <;> rfl

theorem internalXaCommit_only (h : Only notRollback st.trace) : Only notRollback (internalXaCommit p env st).2.trace := by
  refine andThen_rule (P := fun t : State => Only notRollback t.trace) ((commitLog_only p env st).only h) fun _ h => ?_
  refine andThen_rule (P := fun t : State => Only notRollback t.trace) ?_ fun _ h => (deleteLog_only p env _).only h
  unfold commitConns
  rw [reportTimeout_trace]
  exact (forEach_touches 0 _ fun c _ e t =>
    commitConn_touches p env _ trivial e t).only ofCommit_notRollback h

theorem internalXaCommitOnePhase_only (h : Only notRollback st.trace) :
    Only notRollback (internalXaCommitOnePhase p env st).2.trace := by
  unfold internalXaCommitOnePhase
  rw [reportTimeout_trace]
  exact (forEach_touches 0 _ fun c _ e t =>
    onePhaseConn_touches p env trivial e t).only ofOnePhase_notRollback h

theorem Ready.only (hready : Ready st) : Only notRollback st.trace := by
  rw [hready.trace]
  exact fun e he => absurd he List.not_mem_nil

theorem internalXaPrepare_only (hready : Ready st) (hlen : 2 ≤ st.trx.joinTrxTop.length) :
    Only notRollback (internalXaPrepare p env st).2.trace :=
  internalXaPrepare_rule p env hlen (fun h => h.only)
    (fun da c _ t _ => (prepareConn_touches (C := (· = c)) p env da rfl t).only ofPrepare_notRollback)
    (fun t => (onePhase_touches p env _ t).only ofOnePhase_notRollback) hready.only

theorem Only.notRollsBack {tr : List Event} (h : Only notRollback tr) : ¬ RollsBackAfterCommit tr := by
  rintro ⟨e, he, c, d, r, ha, -⟩
  rcases h e he with hlog | ⟨c', s, r', hs, ha'⟩
  · rw [hlog] at ha
    cases ha
  · rw [ha] at ha'
    obtain ⟨-, rfl, -⟩ := Action.stmt.inj ha'
    exact hs rfl

end Commit

/-! ## The main result -/

section Main
variable (p : Params) (env : Env) (all : Bool) {st : State}

/-- A failed prepare leaves a committed branch only if the last participant's commit was mistaken for a failure. -/
theorem prepare_failed_committed (hready : Ready st) (hlen : 2 ≤ st.trx.joinTrxTop.length)
    (hfail : (internalXaPrepare p env st).1 ≠ 0) {d : ConnId}
    (hd : (internalXaPrepare p env st).2.world.branch d = .committed) :
    CommitMistaken p env st ∧ ∃ t, LoopDone p env st t ∧ ∀ c, (internalXaPrepare p env st).2.world.branch c = .prepared →
      t.world.branch c = .prepared := by
  have hbefore : ∀ c, (prepareLog p env st).2.world.branch c ≠ .committed := fun c => by
    rw [(prepareLog_only p env st).world]; exact (hready.undecided c).2
  obtain ⟨-, -, heq⟩ | ⟨-, -, -, heq⟩ | ⟨t, ht, h⟩ := internalXaPrepare_cases p env hready hlen
  · rw [heq] at hd
    exact absurd hd (hbefore d)
  · rw [heq] at hd
    exact absurd hd (((prepareLoop_touches p env _).branch d).committed_of ofPrepare_not_commit (hbefore d))
  · have hnotMem := last_notMem_others hready.joined_ne hready.nodup
    have hsee := ht.untouched _ hnotMem
    have htouch := onePhase_touches p env st.trx.last t
    have hworld : (internalXaPrepare p env st).2.world = (dbXaCommitOnePhase p env st.trx.last t).2.world := by
      obtain ⟨-, heq⟩ | ⟨-, heq⟩ := h
      · rw [heq]
      · rw [heq, (preparedLog_only p env _).world]
    rw [hworld] at hd ⊢
    -- only the last participant can have committed
    obtain rfl : d = st.trx.last := by
      by_contra hne
      rw [htouch.branch_eq d hne] at hd
      exact ht.noCommit d hd
    rw [onePhase_committed p env _ (ht.noCommit _), see_conn hsee, see_branch hsee] at hd
    obtain ⟨hs, hl, hb, hr⟩ := hd
    refine ⟨⟨hs, hl, hb, ?_⟩, t, ht, fun c hc => by_contra fun hne =>
      (htouch.branch c).prepared_of ofOnePhase_not_prepare hne hc⟩
    obtain ⟨hone, -⟩ | ⟨hone, heq⟩ := h
    · refine .inl (hr.resolve_left fun hack => hone ?_)
      rw [onePhase_fst, see_conn hsee]
      exact fun _ => ⟨hl, hack⟩
    · rw [onePhase_fst, see_conn hsee] at hone
      rw [heq] at hfail
      exact .inr ⟨(hone hs).2, ht.preparedLog_fst.mp hfail⟩

theorem zero_ne_timeout : (0 : Nat) ≠ erSpiderXaTimeout := by decide

theorem logOpen_ne_timeout (a : LogAccess) : (logOpen env a st).1 ≠ erSpiderXaTimeout := by
  unfold logOpen
  cases env.log a with
  | none => exact zero_ne_timeout
  | some e => exact e.ne_timeout

theorem logAccess_ne_timeout (a : LogAccess) (write : Log → Log) : (logAccess env a write st).1 ≠ erSpiderXaTimeout := by
  unfold logAccess
  cases env.log a with
  | none => exact zero_ne_timeout
  | some e => exact e.ne_timeout

theorem xaNotExists_ne_timeout : (xaNotExists st).1 ≠ erSpiderXaTimeout := by
  change erSpiderXaNotExists ≠ erSpiderXaTimeout
  decide

theorem andThen_ne {r : Nat × State} {k : State → Nat × State} {n : Nat} (hr : r.1 ≠ n) (hk : (k r.2).1 ≠ n) :
    (andThen r k).1 ≠ n := by
  unfold andThen
  split_ifs
  · exact hk
  · exact hr

theorem preparedLog_ne_timeout : (preparedLog p env st).1 ≠ erSpiderXaTimeout := by
  unfold preparedLog
  split_ifs
  · refine andThen_ne (logOpen_ne_timeout env _) ?_
    unfold updateXa
    split
    · exact andThen_ne (logOpen_ne_timeout env _) xaNotExists_ne_timeout
    · exact logAccess_ne_timeout env _ _
  · exact zero_ne_timeout

theorem prepare_mistaken (hready : Ready st) (hlen : 2 ≤ st.trx.joinTrxTop.length) (hwrite : LogWritable p env st)
    (hprep : ∀ c ∈ st.trx.others, (st.conn c).prepares p env c) (hm : CommitMistaken p env st) :
    (internalXaPrepare p env st).1 ≠ 0 ∧ (internalXaPrepare p env st).1 ≠ erSpiderXaTimeout ∧
      (internalXaPrepare p env st).2.world.branch st.trx.last = .committed ∧
      ∀ c ∈ st.trx.others, (st.conn c).disableXa = false → (internalXaPrepare p env st).2.see c =
        (st.conn c).afterPrepare (st.world.branch c) (st.world.trxOpen c) := by
  obtain ⟨hs, hl, hb, hr⟩ := hm
  obtain ⟨hno, -⟩ | ⟨-, hno, -⟩ | ⟨t, ht, h⟩ := internalXaPrepare_cases p env hready hlen
  · exact absurd hwrite hno
  · exact absurd hprep hno
  have hnotMem := last_notMem_others hready.joined_ne hready.nodup
  have hsee := ht.untouched _ hnotMem
  have htouch := onePhase_touches p env st.trx.last t
  have hcommitted : (dbXaCommitOnePhase p env st.trx.last t).2.world.branch st.trx.last = .committed := by
    rw [onePhase_committed p env _ (ht.noCommit _), see_conn hsee, see_branch hsee]
    exact ⟨hs, hl, hb, hr.symm.imp And.left id⟩
  have hothers : ∀ c ∈ st.trx.others, (st.conn c).disableXa = false →
      (dbXaCommitOnePhase p env st.trx.last t).2.see c =
        (st.conn c).afterPrepare (st.world.branch c) (st.world.trxOpen c) := fun c hc hx => by
    rw [htouch.see_eq fun h => hnotMem (h ▸ hc), ht.others c hc hx]
  obtain ⟨hone, heq⟩ | ⟨hone, heq⟩ := h
  · rw [heq]
    refine ⟨hone, ?_, hcommitted, hothers⟩
    rw [ne_eq, onePhase_fst, see_conn hsee] at hone
    have hlost := hr.resolve_right fun h => hone fun _ => ⟨hl, h.1⟩
    rw [onePhase_started p env _ (by rw [see_conn hsee]; exact hs), dbPacket_fst, setConn_conn_self, see_conn hsee, hlost]
    simp [queryCode, hl, erSpiderRemoteServerGoneAway, erSpiderXaTimeout]
  · have honly := preparedLog_only p env (dbXaCommitOnePhase p env st.trx.last t).2
    rw [heq]
    refine ⟨?_, preparedLog_ne_timeout p env, ?_, ?_⟩
    · rw [onePhase_fst, see_conn hsee] at hone
      exact ht.preparedLog_fst.mpr (hr.resolve_left fun h => by simp [(hone hs).2] at h).2
    · rw [honly.world]; exact hcommitted
    · intro c hc hx
      rw [honly.see_eq c]; exact hothers c hc hx

def rollbackAfterPrepare (p : Params) (env : Env) (st : State) : Nat × State :=
  let t := (internalXaPrepare p env st).2
  forEach (rollbackConn p env t.isError) t.trx.joinTrxTop 0 t

theorem freePreparedTrx_trace : (freePreparedTrx st).trace = st.trace := by
  unfold freePreparedTrx State.clearTree
  generalize st.trx.joinTrxTop = cs
  induction cs generalizing st with
  | nil => rfl
  | cons c cs ih => rw [List.foldl_cons]; exact ih

theorem spiderCommit_xa (hstart : st.trx.trxStart = true) (hxa : st.trx.trxXa = true) (hinternal : st.trx.internalXa = true)
    (hprep : st.trx.trxXaPrepared = false) (hcall : all = true ∨ p.multiStmt = false) : spiderCommit p env all st =
      if (commitXa p env all st).2.2 then ((commitXa p env all st).1, (commitXa p env all st).2.1)
      else ((commitXa p env all st).1, finishTrx p env (commitXa p env all st).2.1.leaveXa.endStarted) := by
  have hnot : (st.trx.internalXa && !st.trx.trxXaPrepared) = true := by simp [hinternal, hprep]
  unfold spiderCommit
  rw [if_pos (by simpa using hcall), if_pos hstart, if_pos hxa, if_pos hnot]

theorem spiderCommit_eq (hready : Ready st) (hcall : all = true ∨ p.multiStmt = false) : spiderCommit p env all st =
      if (commitXa p env all st).2.2 then ((commitXa p env all st).1, (commitXa p env all st).2.1)
      else ((commitXa p env all st).1, finishTrx p env (commitXa p env all st).2.1.leaveXa.endStarted) :=
  spiderCommit_xa p env all hready.trxStart hready.trxXa hready.internalXa hready.notPrepared hcall

theorem spiderCommit_trace (hready : Ready st) (hcall : all = true ∨ p.multiStmt = false) :
    (spiderCommit p env all st).2.trace = (commitXa p env all st).2.1.trace := by
  rw [spiderCommit_eq p env all hready hcall]
  split_ifs
  · rfl
  · exact finishTrx_trace p env

theorem internalXaPrepare_trx (hlen : 2 ≤ st.trx.joinTrxTop.length) :
    (internalXaPrepare p env st).2.trx = st.trx ∧ (internalXaPrepare p env st).2.nullDeref = st.nullDeref :=
  internalXaPrepare_rule (P := fun t => t.trx = st.trx ∧ t.nullDeref = st.nullDeref) p env hlen
    (fun h ht => ⟨h.trx.trans ht.1, h.nullDeref.trans ht.2⟩)
    (fun da c _ t _ ht =>
      have h := prepareConn_touches (C := (· = c)) p env da rfl t
      ⟨h.trx.trans ht.1, h.nullDeref.trans ht.2⟩)
    (fun t ht =>
      have h := onePhase_touches p env st.trx.last t
      ⟨h.trx.trans ht.1, h.nullDeref.trans ht.2⟩) ⟨rfl, rfl⟩

/-- The rollback after the prepare phase. -/
theorem rollback_ready (hready : Ready st) {u : State} (htrx : u.trx = st.trx) (hcall : all = true ∨ p.multiStmt = false)
    (hkill : p.lastKilled ≠ .killConnection) :
    spiderRollback p env all u = ((forEach (rollbackConn p env u.isError) u.trx.joinTrxTop 0 u).1, finishTrx p env
        (forEach (rollbackConn p env u.isError) u.trx.joinTrxTop 0 u).2.clearTree.leaveXa.endStarted) := by
  refine spiderRollback_xa p env all ?_ ?_ ?_ hcall hkill <;> rw [htrx]
  exacts [hready.trxStart, hready.trxXa, hready.notPrepared]

theorem Ready.two_le (hready : Ready st) (hone : st.trx.joinTrxTop.length ≠ 1) : 2 ≤ st.trx.joinTrxTop.length := by
  have := List.length_pos_iff.mpr hready.joined_ne
  omega

theorem rollsBack_in_loop (hready : Ready st) (h : RollsBackAfterCommit (spiderCommit p env all st).2.trace) :
    (all = true ∨ p.multiStmt = false) ∧ p.lastKilled ≠ .killConnection ∧ 2 ≤ st.trx.joinTrxTop.length ∧
      (internalXaPrepare p env st).1 ≠ 0 ∧ RollsBackAfterCommit (rollbackAfterPrepare p env st).2.trace := by
  by_cases hcall : all = true ∨ p.multiStmt = false
  swap
  · unfold spiderCommit at h
    rw [if_neg (by simpa using hcall)] at h
    exact absurd h hready.only.notRollsBack
  rw [spiderCommit_trace p env all hready hcall] at h
  unfold commitXa at h
  by_cases hone : st.trx.joinTrxTop.length = 1
  · rw [if_pos hone] at h
    exact absurd h (internalXaCommit_only p env (internalXaCommitOnePhase_only p env hready.only)).notRollsBack
  have hlen := hready.two_le hone
  have honly := internalXaPrepare_only p env hready hlen
  have htrx := (internalXaPrepare_trx p env hlen).1
  dsimp only at h
  split_ifs at h with hnull htime hfail
  · exact absurd h honly.notRollsBack
  · rw [freePreparedTrx_trace] at h
    exact absurd h honly.notRollsBack
  · by_cases hkill : p.lastKilled = .killConnection
    · unfold spiderRollback at h
      rw [if_pos hkill] at h
      exact absurd h honly.notRollsBack
    · rw [rollback_ready p env all hready htrx hcall hkill, finishTrx_trace] at h
      exact ⟨hcall, hkill, hlen, hfail, h⟩
  · have hmarked : Only notRollback (internalXaPrepare p env st).2.markPrepared.trace := honly
    exact absurd h (internalXaCommit_only p env hmarked).notRollsBack

theorem Only.justified {tr : List Event} (h : Only notRollback tr) {e : Event} (he : e ∈ tr) : Justified env e := by
  intro c r ha
  rcases h e he with hlog | ⟨c', s, r', hs, ha'⟩
  · rw [hlog] at ha
    cases ha
  · rw [ha] at ha'
    obtain ⟨-, rfl, -⟩ := Action.stmt.inj ha'
    exact absurd rfl hs

theorem stranded_of_rollsBack (hready : Ready st) (h : RollsBackAfterCommit (spiderCommit p env all st).2.trace) :
    Stranded p env all st := by
  obtain ⟨hcall, hkill, hlen, hfail, e, he, c, d, r, ha, hc, hdc, hd⟩ := rollsBack_in_loop p env all hready h
  have honly := internalXaPrepare_only p env hready hlen
  have htrx := (internalXaPrepare_trx p env hlen).1
  have hjust := rollbackLoop_justified p env (by rw [htrx]; exact hready.notPrepared)
    (fun e he => honly.justified env he) e he
  obtain ⟨tr, htr, hissued⟩ := (rollbackLoop_touches p env (internalXaPrepare p env st).2 0).trace
  unfold rollbackAfterPrepare at he
  rw [htr] at he
  rcases List.mem_append.mp he with he | he
  · exact absurd ⟨e, he, c, d, r, ha, hc, hdc, hd⟩ honly.notRollsBack
  · -- what the event shows was so before the rollback: nothing is prepared or committed in it
    have hd' : (internalXaPrepare p env st).2.world.branch d = .committed := by
      by_contra hne
      exact ((hissued e he).branch d).committed_of ofRollback_not_commit hne hd
    have hc' : (internalXaPrepare p env st).2.world.branch c = .prepared := by
      by_contra hne
      exact ((hissued e he).branch c).prepared_of ofRollback_not_prepare hne hc
    obtain ⟨hmistaken, t, ht, hprepared⟩ := prepare_failed_committed p env hready hlen hfail hd'
    obtain ⟨hmem, hx, hs, hb⟩ := ht.prepared_inv p env hready (hprepared c hc')
    exact {
      call := hcall
      killed := hkill
      writable := ht.writable
      prepares := ht.prepares
      mistaken := hmistaken
      reaches := ⟨c, hmem, hx, hs, hb, hjust c r ha hc⟩ }

theorem rollsBack_of_stranded (hready : Ready st) (h : Stranded p env all st) :
    RollsBackAfterCommit (spiderCommit p env all st).2.trace := by
  obtain ⟨c, hmem, hx, hs, hb, hkeeps⟩ := h.reaches
  have hlen : 2 ≤ st.trx.joinTrxTop.length := others_ne_nil.mp (List.ne_nil_of_mem hmem)
  obtain ⟨hfail, htime, hlast, hothers⟩ := prepare_mistaken p env hready hlen h.writable h.prepares h.mistaken
  obtain ⟨htrx, hnull⟩ := internalXaPrepare_trx p env hlen
  rw [hready.nullDeref] at hnull
  have hsee := hothers c hmem hx
  have htrace : (spiderCommit p env all st).2.trace = (rollbackAfterPrepare p env st).2.trace := by
    have hone : st.trx.joinTrxTop.length ≠ 1 := by omega
    rw [spiderCommit_trace p env all hready h.call]
    unfold commitXa
    rw [if_neg hone]
    rw [if_neg (by simp [hnull]), if_neg htime, if_pos hfail, rollback_ready p env all hready htrx h.call h.killed,
      finishTrx_trace]
    rfl
  rw [htrace]
  unfold rollbackAfterPrepare
  generalize internalXaPrepare p env st = r at htrx hlast hsee
  obtain ⟨code, t, hbefore, hview, hafter, -⟩ := rollbackLoop_visit p env (by rw [htrx]; exact hready.nodup)
    (show c ∈ r.2.trx.joinTrxTop by rw [htrx]; exact List.dropLast_subset _ hmem)
  have hthere : t.see c = (st.conn c, .prepared, st.world.trxOpen c) := by
    rw [hview, hsee, Conn.afterPrepare, hs, hb]
    rfl
  have hconn : t.conn c = st.conn c := congrArg (fun x => x.1) hthere
  have hbranch : t.world.branch c = .prepared := congrArg (fun x => x.2.1) hthere
  have hlive : (st.conn c).serverLost = false := by
    have := h.prepares c hmem
    unfold Conn.prepares at this
    rw [if_neg (by simp [hx])] at this
    exact (this hs).1
  obtain ⟨e, he, rep, ha, hprep, hother⟩ := rollbackConn_rollsBack p env r.2.isError c code
    (by rw [hbefore.trx, htrx]; exact hready.notPrepared)
    (by rw [hconn]; exact hready.joinTrx c (List.dropLast_subset _ hmem)) (by rw [hconn]; exact hx)
    (by rw [hconn]; exact hlive) (by rw [hconn]; exact hs) hbranch hkeeps
  have hne : st.trx.last ≠ c := fun heq => last_notMem_others hready.joined_ne hready.nodup (heq ▸ hmem)
  refine ⟨e, hafter.mem_trace he, c, st.trx.last, rep, ha, hprep, hne, ?_⟩
  rw [hother _ hne]
  have hreach := hbefore.branch st.trx.last
  rw [hlast] at hreach
  exact hreach.committed

/-- **Atomic commit**, exactly unless a one-phase commit is mistaken for a failed prepare with a prepared branch in reach. -/
theorem commit_atomic_iff (hready : Ready st) :
    ¬ RollsBackAfterCommit (spiderCommit p env all st).2.trace ↔ ¬ Stranded p env all st :=
  not_congr ⟨stranded_of_rollsBack p env all hready, rollsBack_of_stranded p env all hready⟩

/-- Two shards that answer everything. -/
theorem commit_atomic_iff_quiet : Ready (.updatedOn [1, 2]) ∧ ¬ Stranded .default .quiet true (.updatedOn [1, 2]) ∧
    ¬ RollsBackAfterCommit (spiderCommit .default .quiet true (.updatedOn [1, 2])).2.trace := by
  have hready : Ready (.updatedOn [1, 2]) := updatedOn_ready (by simp) (by simp)
  have hnot : ¬ Stranded .default .quiet true (.updatedOn [1, 2]) := fun h => by
    obtain ⟨-, -, -, hlost | ⟨-, hfails⟩⟩ := h.mistaken
    · cases hlost
    · exact absurd hfails.1 (by decide)
  exact ⟨hready, hnot, (commit_atomic_iff .default .quiet true hready).mpr hnot⟩

end Main

def Env.lostAnswer : Env :=
  { Env.quiet with reply := fun c s => if c = 2 ∧ s = .xaCommitOnePhase then .lost true else .ack }

/-- `spider_commit` reports the lost connection and rolls back: shard 2 has committed when shard 1 rolls back its branch. -/
theorem lostAnswer_rollsBack : (spiderCommit .default .lostAnswer true (.updatedOn [1, 2])).1 = erSpiderRemoteServerGoneAway ∧
      RollsBackAfterCommit (spiderCommit .default .lostAnswer true (.updatedOn [1, 2])).2.trace :=
  -- prepare 1, commit 2, end 1, roll 1 back
  ⟨rfl, _, List.mem_of_getElem? (i := 3) rfl, 1, 2, .ack, rfl, rfl, by decide, rfl⟩

end TSpider.Xa
