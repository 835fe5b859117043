import TSpider.Xa.Report

/-!
# The log and the shards

A crash point of `spider_commit` is an entry of the trace: what the shards and the log are before a statement or a log
write. Whenever one branch has committed while another is prepared, the row of the transaction is there, and it says
`COMMIT` as soon as a branch other than that of the last participant has committed. The last participant commits before the
row leaves `NOT YET`, so for its commit alone the log is behind.
-/

namespace TSpider.Xa
open Lib Params

def State.snapshots (st : State) : List (World × Log) := st.trace.map (fun e => (e.world, e.log)) ++ [(st.world, st.log)]

def World.split (w : World) : Prop := ∃ c d, w.branch c = .committed ∧ w.branch d = .prepared

/-- With a split outcome the row is there, not as `ROLLBACK`, and as `COMMIT` when a branch other than that of `last` has
committed.
-/
def LogAhead (xid : Xid) (last : ConnId) (w : World) (l : Log) : Prop :=
  w.split → ∃ s, l.xa xid = some s ∧ s ≠ .rollback ∧ ((∃ c, c ≠ last ∧ w.branch c = .committed) → s = .commit)

def Snaps (G : World → Log → Prop) (st : State) : Prop := (∀ e ∈ st.trace, G e.world e.log) ∧ G st.world st.log

section Snaps
variable {G : World → Log → Prop} {st st' : State}

theorem Snaps.mem (h : Snaps G st) {x : World × Log} (hx : x ∈ st.snapshots) : G x.1 x.2 := by
  rcases List.mem_append.mp hx with hx | hx
  · obtain ⟨e, he, rfl⟩ := List.mem_map.mp hx
    exact h.1 e he
  · rw [List.mem_singleton.mp hx]
    exact h.2

theorem Snaps.append (hst : Snaps G st) {tr : List Event} (htr : st'.trace = st.trace ++ tr)
    (hev : ∀ e ∈ tr, G e.world e.log) (hend : G st'.world st'.log) : Snaps G st' := by
  refine ⟨fun e he => ?_, hend⟩
  rw [htr] at he
  exact (List.mem_append.mp he).elim (hst.1 e) (hev e)

theorem Touches.snaps {S : Stmt → Prop} {C : ConnId → Prop} (h : Touches S C st st') (hst : Snaps G st)
    (hG : ∀ w : World, (∀ d, ¬ C d → w.branch d = st.world.branch d) →
      (∀ d, Branch.Reach S (st.world.branch d) (w.branch d)) → G w st.log) : Snaps G st' := by
  obtain ⟨tr, htr, hev⟩ := h.trace
  refine hst.append htr (fun e he => ?_) ?_
  · rw [(hev e he).log]
    exact hG _ (hev e he).branch_eq (hev e he).branch
  · rw [h.log]
    exact hG _ h.branch_eq h.branch

theorem logAccess_snaps (env : Env) (a : LogAccess) (write : Log → Log) (hst : Snaps G st)
    (hG : G st.world (write st.log)) : Snaps G (logAccess env a write st).2 := by
  unfold logAccess
  cases env.log a with
  | some e => exact hst
  | none =>
    refine hst.append rfl (fun e he => ?_) hG
    rw [List.mem_singleton.mp he]
    exact hst.2

theorem logOpen_snaps (env : Env) (a : LogAccess) (hst : Snaps G st) : Snaps G (logOpen env a st).2 := by
  unfold logOpen
  cases env.log a with
  | some e => exact hst
  | none => exact hst

theorem LogsOnly.snaps (h : LogsOnly st st') (hst : Snaps G st) (hG : ∀ l, G st.world l) : Snaps G st' := by
  obtain ⟨tr, htr, hev⟩ := h.trace
  refine hst.append htr (fun e he => ?_) ?_
  · rw [(hev e he).2]
    exact hG _
  · rw [h.world]
    exact hG _

end Snaps

section LogAhead
variable {xid : Xid} {last : ConnId} {w : World} {l : Log}

theorem logAhead_of_no_commit (h : ∀ c, w.branch c ≠ .committed) : LogAhead xid last w l :=
  fun ⟨c, _, hc, _⟩ => absurd hc (h c)

theorem logAhead_of_no_prepared (h : ∀ c, w.branch c ≠ .prepared) : LogAhead xid last w l :=
  fun ⟨_, d, _, hd⟩ => absurd hd (h d)

theorem logAhead_of_last {s : XaStatus} (hs : l.xa xid = some s) (hne : s ≠ .rollback)
    (h : ∀ c, w.branch c = .committed → c = last) : LogAhead xid last w l :=
  fun _ => ⟨s, hs, hne, fun ⟨c, hc, hb⟩ => absurd (h c hb) hc⟩

theorem logAhead_of_commit (hs : l.xa xid = some .commit) : LogAhead xid last w l :=
  fun _ => ⟨.commit, hs, by decide, fun _ => rfl⟩

end LogAhead

/-! ## The phases -/

section Phases
variable (p : Params) (env : Env) {G : World → Log → Prop} {st : State} {S : Stmt → Prop}

theorem Snaps.congr {st st' : State} (h : Snaps G st) (ht : st'.trace = st.trace) (hw : st'.world = st.world)
    (hl : st'.log = st.log) : Snaps G st' := by
  unfold Snaps
  rw [ht, hw, hl]
  exact h

theorem updateXa_snaps (a : LogAccess) (status : XaStatus) (hst : Snaps G st)
    (hG : G st.world { st.log with xa := Function.update st.log.xa st.trx.xid (some status) }) :
    Snaps G (updateXa env a status st).2 := by
  unfold updateXa
  split
  · exact andThen_rule (logOpen_snaps env a hst) fun _ h => h.congr rfl rfl rfl
  · exact logAccess_snaps env a _ hst hG

theorem checkXaRow_snaps (a : LogAccess) (hst : Snaps G st) : Snaps G (checkXaRow env a st).2 := by
  refine andThen_rule (logOpen_snaps env a hst) fun _ h => ?_
  split
  · exact h.congr rfl rfl rfl
  · exact h

theorem checkXaStatus_snaps (a : LogAccess) (other : XaStatus) (hst : Snaps G st) :
    Snaps G (checkXaStatus p env a other st).2 := by
  unfold checkXaStatus
  split_ifs
  · exact hst
  · refine andThen_rule (logOpen_snaps env a hst) fun _ h => ?_
    split_ifs
    · exact h
    · exact h.congr rfl rfl rfl

theorem preparedLog_snaps (hst : Snaps G st) (hG : ∀ l : Log, l.xa st.trx.xid = some .prepared → G st.world l) :
    Snaps G (preparedLog p env st).2 := by
  unfold preparedLog
  split_ifs
  · have honly := logOpen_only env .reopenXa st
    refine andThen_rule (logOpen_snaps env _ hst) fun _ h => updateXa_snaps env _ _ h ?_
    rw [honly.world, honly.trx]
    exact hG _ (Function.update_self ..)
  · exact hst

theorem commitLog_snaps (hst : Snaps G st) (hG : ∀ l : Log, l.xa st.trx.xid = some .commit → G st.world l) :
    Snaps G (commitLog p env st).2 := by
  unfold commitLog
  split_ifs
  · have h1 := logOpen_only env .commitOpenXa st
    have h2 := h1.trans (checkXaRow_only env .commitCheckXa _)
    have h3 := h2.trans (checkXaStatus_only p env .commitStatus _ .commit)
    refine andThen_rule (logOpen_snaps env _ hst) fun _ h => ?_
    refine andThen_rule (checkXaRow_snaps env _ h) fun _ h => ?_
    refine andThen_rule (checkXaStatus_snaps p env _ _ h) fun _ h => updateXa_snaps env _ _ h ?_
    rw [h3.world, h3.trx]
    exact hG _ (Function.update_self ..)
  · exact hst

theorem disconnect_reach (w : World) (c d : ConnId) : Branch.Reach S (w.branch d) ((w.disconnect c).branch d) := by
  by_cases h : d = c
  · subst h
    simpa [World.disconnect] using Branch.Reach.single (Branch.Step.detach (w.branch d))
  · simpa [World.disconnect, h] using Branch.Reach.refl (w.branch d)

theorem freeConnFromTrx_reach (c : ConnId) (st : State) (d : ConnId) :
    Branch.Reach S (st.world.branch d) ((freeConnFromTrx p env c st).world.branch d) := by
  unfold freeConnFromTrx
  dsimp only
  split_ifs
  all_goals first | exact .refl _ | exact disconnect_reach _ c d

theorem freeTrxConn_reach (st : State) (d : ConnId) :
    Branch.Reach S (st.world.branch d) ((freeTrxConn p env st).world.branch d) := by
  unfold freeTrxConn
  generalize st.trx.trxConnHash = cs
  induction cs generalizing st with
  | nil => exact .refl _
  | cons c cs ih =>
    refine Branch.Reach.trans ?_ (ih _)
    unfold freeTrxConnOne
    dsimp only
    split_ifs
    · exact .refl _
    · exact freeConnFromTrx_reach p env c (st.setConn c (st.conn c).clearQueueAtCommit) d
    · exact .refl _

theorem freePreparedTrx_reach (st : State) (d : ConnId) :
    Branch.Reach S (st.world.branch d) ((freePreparedTrx st).world.branch d) := by
  unfold freePreparedTrx State.clearTree
  generalize st.trx.joinTrxTop = cs
  induction cs generalizing st with
  | nil => exact .refl _
  | cons c cs ih =>
    exact Branch.Reach.trans (disconnect_reach st.world c d) (ih (st.freeConn c))

end Phases

/-! ## The rest of the call -/

/-- `G` is kept when branches leave the states prepared and committed. -/
def Shrinks (G : World → Log → Prop) : Prop :=
  ∀ w w' l, G w l → (∀ c, w'.branch c = .committed → w.branch c = .committed) →
    (∀ c, w'.branch c = .prepared → w.branch c = .prepared) → G w' l

section Rest
variable (p : Params) (env : Env) (all : Bool) {st u v : State} {G : World → Log → Prop} (hG : Shrinks G)

include hG in
theorem Shrinks.reach {S : Stmt → Prop} (hc : ∀ s, S s → s ≠ .xaCommit ∧ s ≠ .xaCommitOnePhase)
    (hp : ∀ s, S s → s ≠ .xaEndAndPrepare) {w w' : World} {l : Log} (h : G w l)
    (hreach : ∀ d, Branch.Reach S (w.branch d) (w'.branch d)) : G w' l := by
  refine hG _ _ _ h (fun c hb => by_contra fun hne => ?_) fun c hb => by_contra fun hne => ?_
  · exact (hreach c).committed_of hc hne hb
  · exact (hreach c).prepared_of hp hne hb

include hG in
theorem Snaps.freed (hst : Snaps G u) (ht : v.trace = u.trace) (hl : v.log = u.log)
    (hreach : ∀ d, Branch.Reach (fun _ => False) (u.world.branch d) (v.world.branch d)) : Snaps G v := by
  refine ⟨ht ▸ hst.1, ?_⟩
  rw [hl]
  exact hG.reach (fun _ h => h.elim) (fun _ h => h.elim) hst.2 hreach

theorem freePreparedTrx_log (u : State) : (freePreparedTrx u).log = u.log := by
  unfold freePreparedTrx
  generalize u.trx.joinTrxTop = cs
  induction cs generalizing u with
  | nil => rfl
  | cons c cs ih => rw [List.foldl_cons]; exact ih (u.freeConn c)

include hG in
theorem finishTrx_snaps (hst : Snaps G u) : Snaps G (finishTrx p env u) :=
  hst.freed hG (finishTrx_trace p env) (freeTrxConn_log p env u) (freeTrxConn_reach p env u)

include hG in
theorem rollback_snaps (hready : Ready st) (htrx : u.trx = st.trx) (hcall : all = true ∨ p.multiStmt = false)
    (hst : Snaps G u) : Snaps G (spiderRollback p env all u).2 := by
  by_cases hkill : p.lastKilled = .killConnection
  · unfold spiderRollback
    rw [if_pos hkill]
    exact hst.congr rfl rfl rfl
  · rw [rollback_ready p env all hready htrx hcall hkill]
    have hloop := (rollbackLoop_touches p env u 0).snaps hst fun w _ hreach =>
        hG.reach ofRollback_not_commit ofRollback_not_prepare hst.2 hreach
    exact finishTrx_snaps p env hG (hloop.congr rfl rfl rfl)

include hG in
/-- **Rule for the crash points of `spider_commit`**: the prepare phase and the commit phase have to be looked at. -/
theorem spiderCommit_snaps (hready : Ready st) (hlen : 2 ≤ st.trx.joinTrxTop.length) (hst : Snaps G st)
    (hprep : Snaps G (internalXaPrepare p env st).2)
    (hcommit : (internalXaPrepare p env st).1 = 0 →
      Snaps G (internalXaCommit p env (internalXaPrepare p env st).2.markPrepared).2) :
    Snaps G (spiderCommit p env all st).2 := by
  by_cases hcall : all = true ∨ p.multiStmt = false
  swap
  · unfold spiderCommit
    rw [if_neg (by simpa using hcall)]
    exact hst
  suffices h : Snaps G (commitXa p env all st).2.1 by
    rw [spiderCommit_eq p env all hready hcall]
    split_ifs
    · exact h
    · exact finishTrx_snaps p env hG (h.congr rfl rfl rfl)
  have hone : st.trx.joinTrxTop.length ≠ 1 := by omega
  by_cases hok : (internalXaPrepare p env st).1 = 0
  · rw [commitXa_prepared p env all hready hlen hok]
    exact hcommit hok
  · unfold commitXa
    rw [if_neg hone]
    dsimp only
    split_ifs
    · exact hprep
    · exact hprep.freed hG freePreparedTrx_trace (freePreparedTrx_log _) (freePreparedTrx_reach _)
    · exact rollback_snaps p env all hG hready (internalXaPrepare_trx p env hlen).1 hcall hprep

end Rest

/-! ## The log is ahead -/

section Ahead
variable (p : Params) (env : Env) (all : Bool) {st : State}

abbrev State.ahead (st u : State) : Prop := Snaps (LogAhead st.trx.xid st.trx.last) u

theorem LogAhead.shrinks (xid : Xid) (last : ConnId) : Shrinks (LogAhead xid last) := by
  rintro w w' l h hc hp ⟨c, d, hcc, hd⟩
  obtain ⟨s, hs, hne, hcommit⟩ := h ⟨c, d, hc c hcc, hp d hd⟩
  exact ⟨s, hs, hne, fun ⟨e, he, hb⟩ => hcommit ⟨e, he, hc e hb⟩⟩

theorem ready_snaps {G : World → Log → Prop} (hready : Ready st) (h : G st.world st.log) : Snaps G st := by
  refine ⟨fun e he => ?_, h⟩
  rw [hready.trace] at he
  cases he

/-- What holds while no branch has committed holds up to the end of the prepare loop. -/
theorem prepareLoop_snaps {G : World → Log → Prop} (hready : Ready st)
    (hG : ∀ w l, (∀ c, w.branch c ≠ .committed) → G w l) :
    Snaps G (prepareLog p env st).2 ∧ Snaps G (prepareLoop p env (prepareLog p env st).2).2 := by
  have honly := prepareLog_only p env st
  have hnone : ∀ c, st.world.branch c ≠ .committed := fun c => (hready.undecided c).2
  have hlog : Snaps G (prepareLog p env st).2 := honly.snaps (ready_snaps hready (hG _ _ hnone)) fun _ => hG _ _ hnone
  refine ⟨hlog, (prepareLoop_touches p env _).snaps hlog fun w _ hreach => hG _ _ fun c => ?_⟩
  refine (hreach c).committed_of ofPrepare_not_commit ?_
  rw [honly.world]
  exact hnone c

theorem onePhase_ahead {t : State} (hlog : st.logged p = true) (ht : LoopDone p env st t) (hst : st.ahead t) :
    st.ahead (dbXaCommitOnePhase p env st.trx.last t).2 := by
  refine (onePhase_touches p env st.trx.last t).snaps hst fun w hother _ => ?_
  refine logAhead_of_last (ht.row hlog) (by decide) fun c hc => by_contra fun hne => ?_
  rw [hother c hne] at hc
  exact ht.noCommit c hc

theorem prepare_ahead (hready : Ready st) (hlen : 2 ≤ st.trx.joinTrxTop.length) (hlog : st.logged p = true) :
    st.ahead (internalXaPrepare p env st).2 := by
  obtain ⟨h1, h2⟩ := prepareLoop_snaps (G := LogAhead st.trx.xid st.trx.last) p env hready fun _ _ => logAhead_of_no_commit
  obtain ⟨-, -, heq⟩ | ⟨-, -, -, heq⟩ | ⟨t, ht, h⟩ := internalXaPrepare_cases p env hready hlen
  · rw [heq]; exact h1
  · rw [heq]; exact h2
  · have hone := onePhase_ahead p env hlog ht (ht.state ▸ h2)
    have htouch := onePhase_touches p env st.trx.last t
    obtain ⟨-, heq⟩ | ⟨-, heq⟩ := h
    · rw [heq]; exact hone
    · rw [heq]
      refine preparedLog_snaps p env hone fun l hl => ?_
      rw [htouch.trx, ht.trx] at hl
      refine logAhead_of_last hl (by decide) fun c hc => by_contra fun hne => ?_
      rw [htouch.branch_eq c hne] at hc
      exact ht.noCommit c hc

/-- A failed `XA COMMIT` on the connection is reported: `force_commit` is 0 or 1, and the connection is not in error mode. -/
def Conn.commitCounts (p : Params) (k : Conn) : Prop := (p.forceCommit = 0 ∨ p.forceCommit = 1) ∧ k.errorMode = false

def Reply.settlesCommit : Reply → Bool
  | .ack => true
  | .refused e => e.num == erXaerNota
  | .lost _ => false

theorem leavesPrepared_of_settles {r : Reply} (h : r.settlesCommit = true) : r.leavesPrepared = false := by
  cases r with
  | ack => rfl
  | refused e => simpa [Reply.leavesPrepared, Reply.settlesCommit] using h
  | lost effect => cases h

section
variable (hready : Ready st) {t : State} (hdone : PrepareDone p env st t)
include hready hdone

theorem commitLoop_settles (hok : (commitLoop p env (commitLog p env t.markPrepared).2).1 = 0) {c : ConnId}
    (hmem : c ∈ st.trx.others) (hx : (st.conn c).disableXa = false) (hs : (st.conn c).started = true)
    (hcount : (st.conn c).commitCounts p) : (env.reply c .xaCommit).settlesCommit = true := by
  obtain ⟨u, da, hj, hsent, hu, hcode, -⟩ := hdone.visit hready hok hmem hx hs
  obtain ⟨-, hr⟩ := commitConn_reply p env da c 0 hcount.1 hj hsent (hu ▸ hcount.2) hcode
  rcases hr with hack | ⟨-, err, hr, hnum⟩
  · rw [hack]; rfl
  · simp [hr, Reply.settlesCommit, hnum]

variable (hkeep : ∀ c ∈ st.trx.others, (st.conn c).commitCounts p ∨ (env.reply c .xaCommit).leavesPrepared = false)
include hkeep

theorem commitLoop_not_prepared (hok : (commitLoop p env (commitLog p env t.markPrepared).2).1 = 0) (c : ConnId) :
    (commitLoop p env (commitLog p env t.markPrepared).2).2.world.branch c ≠ .prepared := by
  intro hc
  have hbefore : t.world.branch c = .prepared := by
    rw [← see_branch (commitLog_see c)]
    by_contra hne
    exact ((commitLoop_touches p env _).branch c).prepared_of ofCommit_not_prepare hne hc
  obtain ⟨hmem, hx, hs, -⟩ := hdone.prepared c hbefore
  have hreply : (env.reply c .xaCommit).leavesPrepared = false :=
    (hkeep c hmem).elim (fun h => leavesPrepared_of_settles (commitLoop_settles p env hready hdone hok hmem hx hs h)) id
  obtain ⟨u, da, hj, hsent, hu, -, -, hlast⟩ := hdone.visit hready hok hmem hx hs
  exact commitConn_not_prepared p env da c 0 hj hsent (hu ▸ hdone.alive hmem hx hs) hreply
    ((see_branch hlast).symm.trans hc)

theorem internalXaCommit_ahead (hlog : st.logged p = true) (hst : st.ahead t) :
    st.ahead (internalXaCommit p env t.markPrepared).2 := by
  have hclog : st.ahead (commitLog p env t.markPrepared).2 :=
    commitLog_snaps p env (hst.congr rfl rfl rfl) fun l hl => by
      rw [hdone.xid] at hl
      exact logAhead_of_commit hl
  unfold internalXaCommit
  by_cases h0 : (commitLog p env t.markPrepared).1 = 0
  · have hrow := (commitLog_done p env (hdone.logged.trans hlog) h0).1
    rw [hdone.xid] at hrow
    have hloop := (commitLoop_touches p env _).snaps hclog fun _ _ _ => logAhead_of_commit hrow
    have hconns : st.ahead (commitConns p env (commitLog p env t.markPrepared).2).2 := by
      rw [commitConns_eq]
      unfold reportTimeout
      split_ifs <;> exact hloop.congr rfl rfl rfl
    rw [andThen_of_zero h0]
    refine andThen_rule hconns fun hzero _ => (deleteLog_only p env _).snaps hconns fun l => ?_
    rw [commitConns_eq, reportTimeout_fst] at hzero
    rw [commitConns_eq, reportTimeout_of_zero hzero]
    exact logAhead_of_no_prepared (commitLoop_not_prepared p env hready hdone hkeep hzero)
  · rw [andThen_of_ne h0]
    exact hclog

end

/-- **The log is ahead of the shards**, up to the commit of the last participant, unless a failed commit is passed over. -/
theorem log_ahead_of_shards (hready : Ready st) (hlen : 2 ≤ st.trx.joinTrxTop.length) (hlog : st.logged p = true)
    (hkeep : ∀ c ∈ st.trx.others, (st.conn c).commitCounts p ∨ (env.reply c .xaCommit).leavesPrepared = false) :
    st.ahead (spiderCommit p env all st).2 := by
  have hprep := prepare_ahead p env hready hlen hlog
  refine spiderCommit_snaps p env all (LogAhead.shrinks _ _) hready hlen
    (ready_snaps hready (logAhead_of_no_commit fun c => (hready.undecided c).2)) hprep fun hok => ?_
  exact internalXaCommit_ahead p env hready (prepareDone p env hready hlen hok) hkeep hlog hprep

end Ahead

/-! ## The row decides -/

/-- The last participant's shard commits its branch while the branch of another one is prepared. -/
structure CommitsAhead (p : Params) (env : Env) (all : Bool) (st : State) : Prop where
  call : all = true ∨ p.multiStmt = false
  writable : LogWritable p env st
  prepares : ∀ c ∈ st.trx.others, (st.conn c).prepares p env c
  other : ∃ c ∈ st.trx.others, (st.conn c).disableXa = false ∧ (st.conn c).started = true ∧ st.world.branch c = .active
  last : (st.conn st.trx.last).started = true ∧ (st.conn st.trx.last).serverLost = false ∧
    st.world.branch st.trx.last = .active ∧
    (env.reply st.trx.last .xaCommitOnePhase = .ack ∨ env.reply st.trx.last .xaCommitOnePhase = .lost true)

/-- With a split outcome the row says `PREPARED` or `COMMIT`, so it tells how to end the other branches. -/
def Decided (xid : Xid) (w : World) (l : Log) : Prop :=
  w.split → l.xa xid = some .prepared ∨ l.xa xid = some .commit

/-- The branch of `last` is not prepared, and once it has committed no branch is. -/
structure LastAlone (last : ConnId) (w : World) : Prop where
  unprepared : w.branch last ≠ .prepared
  alone : w.branch last = .committed → ∀ d, w.branch d ≠ .prepared

theorem LastAlone.shrinks (last : ConnId) : Shrinks fun w _ => LastAlone last w :=
  fun _ _ _ h hc hp => ⟨fun hl => h.unprepared (hp _ hl), fun hl d hd => h.alone (hc _ hl) d (hp d hd)⟩

/-- `XA COMMIT` commits prepared branches only. -/
theorem Branch.Reach.committed_of_unprepared {b b' : Branch} (h : Branch.Reach Stmt.ofCommit b b') (hp : b ≠ .prepared)
    (hc : b ≠ .committed) : b' ≠ .committed := by
  refine (h.stays (P := fun b => b ≠ .prepared ∧ b ≠ .committed) (fun a b hstep ha => ?_) ⟨hp, hc⟩).2
  cases hstep with
  | exec s hs =>
    cases s <;> first | exact absurd hs (by decide) | (cases a <;> simp_all [Stmt.onBranch])
  | detach => cases a <;> simp_all [Branch.detach]
  | forget => cases a <;> simp_all [Branch.forget]

theorem LastAlone.reach_commit {last : ConnId} {w w' : World} (h : LastAlone last w)
    (hreach : ∀ d, Branch.Reach Stmt.ofCommit (w.branch d) (w'.branch d)) : LastAlone last w' := by
  have hprep (d : ConnId) (hd : w.branch d ≠ .prepared) : w'.branch d ≠ .prepared :=
    (hreach d).prepared_of ofCommit_not_prepare hd
  refine ⟨hprep _ h.unprepared, fun hl d => hprep d (h.alone (by_contra fun hne => ?_) d)⟩
  exact (hreach last).committed_of_unprepared h.unprepared hne hl

section Decides
variable (p : Params) (env : Env) (all : Bool) {st : State}

theorem onePhase_snaps {G : World → Log → Prop} (c : ConnId) {t : State} (ht : Snaps G t)
    (hG : G (dbXaCommitOnePhase p env c t).2.world t.log) : Snaps G (dbXaCommitOnePhase p env c t).2 := by
  have hlog := (onePhase_touches p env c t).log
  cases hs : (t.conn c).started with
  | false => rw [onePhase_queued p env c hs]; exact ht
  | true =>
    have htrace : ∃ a, (dbXaCommitOnePhase p env c t).2.trace = t.trace ++ [⟨t.world, t.log, a⟩] := by
      rw [onePhase_started p env c hs, (dbPacket_eq p env c _ _).2.2]
      cases hl : (t.conn c).serverLost with
      | true => exact ⟨_, (dbQuery_not_sent p env c _ _ (by simpa using hl)).2.2⟩
      | false => exact ⟨_, (dbQuery_sent p env c _ _ (by simpa using hl)).2.2⟩
    obtain ⟨a, ha⟩ := htrace
    refine ht.append ha (fun e he => ?_) (hlog ▸ hG)
    rw [List.mem_singleton.mp he]
    exact ht.2

theorem prepare_lastAlone (hready : Ready st) (hlen : 2 ≤ st.trx.joinTrxTop.length)
    (hcall : all = true ∨ p.multiStmt = false) (hnot : ¬ CommitsAhead p env all st) :
    Snaps (fun w _ => LastAlone st.trx.last w) (internalXaPrepare p env st).2 := by
  have hnotMem := last_notMem_others hready.joined_ne hready.nodup
  have honly := prepareLog_only p env st
  -- before its one-phase commit the branch of the last participant is as at the start
  have hlog : Snaps (fun w _ => LastAlone st.trx.last w) (prepareLog p env st).2 := by
    have h : LastAlone st.trx.last st.world :=
      ⟨(hready.undecided _).1, fun hl => absurd hl (hready.undecided _).2⟩
    exact honly.snaps (ready_snaps hready h) fun _ => h
  have hloop := (prepareLoop_touches p env (prepareLog p env st).2).snaps hlog fun w hother _ => by
    have hlast : w.branch st.trx.last = st.world.branch st.trx.last := by
      rw [hother _ (by rw [honly.trx]; exact hnotMem), honly.world]
    exact ⟨hlast ▸ (hready.undecided _).1, fun hl => absurd (hlast ▸ hl) (hready.undecided _).2⟩
  obtain ⟨-, -, heq⟩ | ⟨-, -, -, heq⟩ | ⟨t, ht, h⟩ := internalXaPrepare_cases p env hready hlen
  · rw [heq]; exact hlog
  · rw [heq]; exact hloop
  · have htouch := onePhase_touches p env st.trx.last t
    have hsee := ht.untouched _ hnotMem
    have hbranch := see_branch hsee
    have hone : Snaps (fun w _ => LastAlone st.trx.last w) (dbXaCommitOnePhase p env st.trx.last t).2 := by
      refine onePhase_snaps p env _ (ht.state ▸ hloop) ⟨?_, fun hl d hd => hnot ?_⟩
      · exact (htouch.branch _).prepared_of ofOnePhase_not_prepare (hbranch ▸ (hready.undecided _).1)
      · have hprep : t.world.branch d = .prepared := by_contra fun hne =>
          (htouch.branch d).prepared_of ofOnePhase_not_prepare hne hd
        obtain ⟨hmem, hx, hs, hact⟩ := ht.prepared_inv p env hready hprep
        rw [onePhase_committed p env _ (ht.noCommit _), see_conn hsee, hbranch] at hl
        exact ⟨hcall, ht.writable, ht.prepares, ⟨d, hmem, hx, hs, hact⟩, hl⟩
    obtain ⟨-, heq⟩ | ⟨-, heq⟩ := h
    · rw [heq]; exact hone
    · rw [heq]; exact (preparedLog_only p env _).snaps hone fun _ => hone.2

theorem commit_lastAlone {t : State} (ht : Snaps (fun w _ => LastAlone st.trx.last w) t) :
    Snaps (fun w _ => LastAlone st.trx.last w) (internalXaCommit p env t).2 := by
  have hlog : Snaps (fun w _ => LastAlone st.trx.last w) (commitLog p env t).2 :=
    (commitLog_only p env t).snaps ht fun _ => ht.2
  refine andThen_rule hlog fun _ h => ?_
  have hloop := (commitLoop_touches p env _).snaps h fun w _ hreach => h.2.reach_commit hreach
  refine andThen_rule ?_ fun _ h => (deleteLog_only p env _).snaps h fun _ => h.2
  rw [commitConns_eq]
  unfold reportTimeout
  split_ifs <;> exact hloop.congr rfl rfl rfl

def ShardError.lockWaitTimeout : ShardError := ⟨1205, by decide, by decide⟩

def Env.refusesLast : Env :=
  { Env.quiet with
    reply := fun c s => if c = 3 ∧ s = .xaCommitOnePhase then .refused .lockWaitTimeout else .ack }

end Decides

def Env.refusesCommit : Env :=
  { Env.quiet with reply := fun c s => if c = 1 ∧ s = .xaCommit then .refused .lockWaitTimeout else .ack }

end TSpider.Xa
