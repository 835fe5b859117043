import TSpider.Xa.LogAhead

/-!
# Transactions in doubt

When `spider_commit` has returned, the rows of a transaction with a branch in doubt must be in the log, and none may be left
once every branch has acknowledged its end. The first fails where two servers of one host share a row and where a failed
commit is passed over; the second fails after a prepare that failed and a rollback that every branch acknowledged, since
only a transaction marked as prepared has its rows deleted.
-/

namespace TSpider.Xa
open Lib Stmt Params

/-! ## The XA statements on a connection -/

def Action.xaOn (c : ConnId) : Action → Option (Stmt × Option Reply)
  | .stmt d s r => if d = c ∧ s.isXa then some (s, r) else none
  | .logWrite => none

/-- The XA statements on `c` in their order, with the replies; none if the connection was lost before. -/
def State.sent (st : State) (c : ConnId) : List (Stmt × Option Reply) := st.trace.filterMap fun e => e.action.xaOn c

def State.heard (c : ConnId) (st : State) : (Conn × Branch × Bool) × List (Stmt × Option Reply) := (st.see c, st.sent c)

section Sent
variable {S : Stmt → Prop} {C : ConnId → Prop} {st st' : State} {c : ConnId}

theorem sent_congr (h : st'.trace = st.trace) : st'.sent c = st.sent c := by
  unfold State.sent
  rw [h]

theorem sent_append {e : Event} (h : st'.trace = st.trace ++ [e]) : st'.sent c = st.sent c ++ (e.action.xaOn c).toList := by
  unfold State.sent
  rw [h, List.filterMap_append]
  cases he : e.action.xaOn c <;> simp [he]

theorem Touches.sent_mem (h : Touches S C st st') {x : Stmt × Option Reply} (hx : x ∈ st'.sent c) :
    x ∈ st.sent c ∨ S x.1 ∧ C c ∧ x.1.isXa := by
  obtain ⟨e, he, ha⟩ := List.mem_filterMap.mp hx
  rcases h.mem_cases he with he | ⟨d, s, r, hd, hs, hact⟩
  · exact .inl (List.mem_filterMap.mpr ⟨e, he, ha⟩)
  · rw [hact, Action.xaOn] at ha
    split_ifs at ha with hon
    obtain ⟨rfl, hxa⟩ := hon
    obtain rfl := Option.some.inj ha
    exact .inr ⟨hs, hd, hxa⟩

theorem Touches.sent_eq (h : Touches S C st st') (hS : ∀ s, S s → C c → ¬ s.isXa) : st'.sent c = st.sent c := by
  obtain ⟨tr, htr, hev⟩ := h.trace
  have hnone : tr.filterMap (fun e => e.action.xaOn c) = [] := by
    refine List.filterMap_eq_nil_iff.mpr fun e he => ?_
    obtain ⟨d, s, r, hd, hs, ha⟩ := (hev e he).stmt
    rw [ha, Action.xaOn, if_neg]
    rintro ⟨rfl, hxa⟩
    exact hS s hs hd hxa
  unfold State.sent
  rw [htr, List.filterMap_append, hnone, List.append_nil]

theorem Touches.heard_eq {d : ConnId} (h : Touches S (· = d) st st') (hc : c ≠ d) : st'.heard c = st.heard c :=
  Prod.ext (h.see_eq hc) (h.sent_eq fun _ _ h => absurd h hc)

theorem LogsOnly.heard_eq (h : LogsOnly st st') : st'.heard c = st.heard c := by
  refine Prod.ext (h.see_eq c) ?_
  obtain ⟨tr, htr, hev⟩ := h.trace
  have hnone : tr.filterMap (fun e => e.action.xaOn c) = [] :=
    List.filterMap_eq_nil_iff.mpr fun e he => by rw [(hev e he).1]; rfl
  unfold State.heard State.sent
  rw [htr, List.filterMap_append, hnone, List.append_nil]

theorem Ready.sent (hready : Ready st) : st.sent c = [] := by
  unfold State.sent
  rw [hready.trace]
  rfl

theorem dbQuery_xa (p : Params) (env : Env) {s : Stmt} (hs : s.isXa) :
    (dbQuery p env c s st).2.sent c =
      st.sent c ++ [(s, if (st.conn c).serverLost then none else some (env.reply c s))] := by
  cases hl : (st.conn c).serverLost with
  | true => simpa [Action.xaOn, hs] using sent_append (c := c) (dbQuery_not_sent p env c s st hl).2.2
  | false => simpa [Action.xaOn, hs] using sent_append (c := c) (dbQuery_sent p env c s st hl).2.2

theorem onePhase_xa (p : Params) (env : Env) (hs : (st.conn c).started = true) :
    (dbXaCommitOnePhase p env c st).2.sent c =
      st.sent c ++ [(.xaCommitOnePhase, if (st.conn c).serverLost then none else some (env.reply c .xaCommitOnePhase))] := by
  rw [onePhase_started p env c hs, sent_congr (dbPacket_eq p env c _ _).2.2, dbQuery_xa p env (by decide), setConn_conn_self]
  rfl

end Sent

theorem outsideXa_not_xa {s : Stmt} (hs : s.outsideXa) : ¬ s.isXa := by
  revert hs
  cases s <;> decide

/-! ## One visit -/

section Visit
variable (p : Params) (env : Env) (da : Bool) (c : ConnId) (e : Nat) {st : State}

theorem commitConn_sent (hj : (st.conn c).joinTrx = true) (hc : (st.conn c).commits = true)
    (hl : (st.conn c).serverLost = false) :
    (commitConn p env da c e st).2.sent c = st.sent c ++ [(.xaCommit, some (env.reply c .xaCommit))] := by
  rw [(commitConn_after p env da c e hj).sent_eq fun _ h _ => outsideXa_not_xa h, dbXaCommit_sent p env c hc,
    dbQuery_xa p env (by decide), hl]
  rfl

theorem commitConn_unsent (hc : (st.conn c).commits = false) : (commitConn p env da c e st).2.sent c = st.sent c := by
  cases hj : (st.conn c).joinTrx with
  | false => simp [commitConn, hj]
  | true =>
    rw [(commitConn_after p env da c e hj).sent_eq fun _ h _ => outsideXa_not_xa h, dbXaCommit_not_sent p env c hc]

/-- The shard of `c` acknowledges its rollback. -/
def RollbackAcked (env : Env) (c : ConnId) (k : Conn) : Prop :=
  k.serverLost = false ∧ (∀ effect, env.reply c .xaEnd ≠ .lost effect) ∧ env.reply c .xaRollback = .ack

theorem rollbackXa_sent (hs : (st.conn c).started = true) : (rollbackXa p env da c e st).2.sent c =
    st.sent c ++ [(.xaRollback, if (st.conn c).serverLost then none else some (env.reply c .xaRollback))] := by
  have hroll : dbXaRollback p env c st = dbQuery p env c .xaRollback st := by
    unfold Conn.started at hs
    simp [dbXaRollback, hs]
  rw [← dbQuery_xa p env (by decide), ← hroll]
  refine sent_congr ?_
  unfold rollbackXa
  dsimp only
  split_ifs
  · exact (restoreDastatus_state da c _).2.2
  · rfl

theorem rollbackXaEnd_sent (hprep : st.trx.trxXaPrepared = false) (hs : (st.conn c).started = true)
    (hl : (st.conn c).serverLost = false) :
    (rollbackXaEnd p env da c e st).2.sent c = st.sent c ++ [(.xaEnd, some (env.reply c .xaEnd))] := by
  have hend : dbXaEnd p env c st = dbQuery p env c .xaEnd st := by
    unfold Conn.started at hs
    simp [dbXaEnd, hs]
  have hquery : (dbQuery p env c .xaEnd st).2.sent c = _ := dbQuery_xa p env (by decide)
  rw [hl, ← hend] at hquery
  refine Eq.trans (sent_congr ?_) hquery
  unfold rollbackXaEnd
  rw [if_neg (by simp [hprep])]
  dsimp only
  split_ifs
  · exact (restoreDastatus_state da c _).2.2
  · rfl

theorem rollbackBranch_sent (hprep : st.trx.trxXaPrepared = false) {x : Stmt × Option Reply}
    (hx : x ∈ (rollbackBranch p env da c e st).2.sent c) (hack : x.2 = some .ack) :
    x ∈ st.sent c ∨ x.1 = .xaEnd ∨ RollbackAcked env c (st.conn c) := by
  unfold rollbackBranch at hx
  split_ifs at hx with hdis hsend hlost
  · have h : Touches (fun s => s = .rollback) (fun _ => True) st
        (restoreDastatus da c (dbRollback p env c .rollback st)).2 :=
      restoreDastatus_touches st (dbRollback_touches p env trivial st rfl)
    rw [h.sent_eq fun _ h _ => by rw [h]; decide] at hx
    exact .inl hx
  · exact .inl hx
  · exact .inl hx
  · have hl : (st.conn c).serverLost = false := by simpa using hlost
    cases hs : (st.conn c).started with
    | false =>
      rw [rollbackXaEnd_started p env da c e hs] at hx
      have hqueued : dbXaRollback p env c st = (0, st) := by
        unfold Conn.started at hs
        simp [dbXaRollback, hs]
      exact .inl (by simpa [rollbackXa, hqueued] using hx)
    | true =>
      obtain ⟨hconn, -⟩ := rollbackXaEnd_state p env da c e hprep hs hl
      rw [rollbackXa_sent p env da c _ (by rw [hconn, started_queried, hs]), rollbackXaEnd_sent p env da c e hprep hs hl,
        hconn] at hx
      rcases List.mem_append.mp hx with hx | hx
      · rcases List.mem_append.mp hx with hx | hx
        · exact .inl hx
        · exact .inr (.inl (by rw [List.mem_singleton.mp hx]))
      · -- it was sent, so the connection survived `XA END`
        rw [List.mem_singleton.mp hx] at hack
        refine .inr (.inr ⟨hl, fun effect hlost => ?_, ?_⟩)
        · simp [hlost, Conn.queried] at hack
        · simpa using (Option.ite_none_left_eq_some.mp hack).2

theorem rollbackConn_sent (hprep : st.trx.trxXaPrepared = false) {x : Stmt × Option Reply}
    (hx : x ∈ (rollbackConn p env da c e st).2.sent c) (hack : x.2 = some .ack) :
    x ∈ st.sent c ∨ x.1 = .xaEnd ∨ RollbackAcked env c (st.conn c) := by
  unfold rollbackConn at hx
  split_ifs at hx
  · have hend : Touches outsideXa (fun _ => True) (rollbackBranch p env da c e st).2
        ((restoreDastatus da c (endTrx p env c (rollbackBranch p env da c e st).2)).2.leaveTrx c) :=
      Touches.trans (restoreDastatus_touches _ (endTrx_touches p env trivial _ (by decide) (by decide)))
        (leaveTrx_touches trivial _)
    rw [hend.sent_eq fun _ h _ => outsideXa_not_xa h] at hx
    exact rollbackBranch_sent p env da c e hprep hx hack
  · exact .inl hx

end Visit

/-! ## The phases -/

/-- A participant with a branch: it was started, and all but the last take part in XA. -/
def State.hasBranch (st : State) (c : ConnId) : Prop :=
  (st.conn c).started = true ∧ (c ∈ st.trx.others → (st.conn c).disableXa = false)

def Stmt.endsBranch (s : Stmt) : Prop := s ∈ [.xaCommit, .xaCommitOnePhase, .xaRollback]

instance : DecidablePred endsBranch := fun s => inferInstanceAs (Decidable (s ∈ _))

/-- The branch of `c` acknowledged its commit or its rollback. -/
def State.ended (st : State) (c : ConnId) : Prop := ∃ x ∈ st.sent c, x.1.endsBranch ∧ x.2 = some .ack

/-- An XA statement of a branch failed. -/
def State.xaFailed (st u : State) : Prop :=
  ∃ c ∈ st.trx.joinTrxTop, st.hasBranch c ∧ ∃ x ∈ u.sent c, x.2 ≠ some .ack

section Phases
variable (p : Params) (env : Env) {st : State}

theorem internalXaCommit_sent (t : State) {c : ConnId} (hlog : (commitLog p env t).1 = 0) :
    (internalXaCommit p env t).2.sent c = (commitLoop p env (commitLog p env t).2).2.sent c := by
  unfold internalXaCommit
  rw [andThen_of_zero hlog]
  refine andThen_rule (P := fun s : State => s.sent c = _) ?_ fun _ h =>
    (congrArg Prod.snd (deleteLog_only p env _).heard_eq).trans h
  rw [commitConns_eq]
  exact sent_congr (reportTimeout_trace _)

theorem commitLoop_sent (t : State) {c : ConnId} (hnodup : t.trx.joinTrxTop.Nodup) (hmem : c ∈ t.trx.joinTrxTop) :
    ∃ e u, u.heard c = t.heard c ∧ (commitLoop p env t).2.sent c = (commitConn p env t.isError c e u).2.sent c := by
  obtain ⟨e, u, -, hu, -, hfinal⟩ := forEach_visit (v := State.heard) (M := fun _ _ => True) (e := 0) (fun _ => trivial)
    (fun _ _ _ _ _ => trivial) (fun _ _ _ => trivial)
    (fun c e t d hd => (commitConn_touches (C := (· = c)) p env _ rfl e t).heard_eq hd) hnodup hmem
  exact ⟨e, u, hu, congrArg Prod.snd hfinal⟩

theorem rollbackLoop_sent (t : State) {c : ConnId} (hnodup : t.trx.joinTrxTop.Nodup) (hmem : c ∈ t.trx.joinTrxTop) :
    ∃ e u, u.trx = t.trx ∧ u.heard c = t.heard c ∧ (forEach (rollbackConn p env t.isError) t.trx.joinTrxTop 0 t).2.sent c =
      (rollbackConn p env t.isError c e u).2.sent c := by
  obtain ⟨e, u, hm, hu, -, hfinal⟩ := forEach_visit (v := State.heard) (M := Touches ofRollback fun _ => True) (e := 0)
    Touches.refl (fun _ _ _ => Touches.trans) (fun c e t => rollbackConn_touches (c := c) p env _ trivial e t)
    (fun c e t d hd => (rollbackConn_touches (C := (· = c)) p env _ rfl e t).heard_eq hd) hnodup hmem
  exact ⟨e, u, hm.trx, hu, congrArg Prod.snd hfinal⟩

variable (hready : Ready st) (hlen : 2 ≤ st.trx.joinTrxTop.length)
include hready hlen

theorem prepared_sent (hok : (internalXaPrepare p env st).1 = 0) {c : ConnId} (hc : st.hasBranch c) :
    (c ∈ st.trx.others → (internalXaPrepare p env st).2.sent c = [(.xaEndAndPrepare, some .ack)]) ∧
      (c = st.trx.last → (internalXaPrepare p env st).2.sent c = [(.xaCommitOnePhase, some .ack)]) := by
  have hnotMem := last_notMem_others hready.joined_ne hready.nodup
  obtain ⟨-, hne, heq⟩ | ⟨hne, -, -, heq⟩ | ⟨t, ht, ⟨hne, heq⟩ | ⟨hone, heq⟩⟩ := internalXaPrepare_cases p env hready hlen
  · exact absurd (heq ▸ hok) hne
  · exact absurd (heq ▸ hok) hne
  · exact absurd (heq ▸ hok) hne
  have honly := prepareLog_only p env st
  have hstart : (prepareLog p env st).2.sent c = [] := (congrArg Prod.snd honly.heard_eq).trans hready.sent
  have hlast : (internalXaPrepare p env st).2.sent c = (dbXaCommitOnePhase p env st.trx.last t).2.sent c := by
    rw [heq]
    exact congrArg Prod.snd (preparedLog_only p env _).heard_eq
  rw [hlast]
  constructor
  · intro hmem
    rw [(onePhase_touches p env st.trx.last t).sent_eq fun _ _ h => absurd (h ▸ hmem) hnotMem, ht.state]
    have hzero : (prepareLoop p env (prepareLog p env st).2).1 = 0 := by
      rw [prepareLoop_fst p env (by rw [honly.trx]; exact hready.nodup)
        (by rw [honly.trx, honly.conn]; exact hready.disableXa),
        honly.trx, honly.conn]
      exact ht.prepares
    obtain ⟨u, -, hu, hcode, -, hfinal⟩ := untilError_visit (v := State.heard) (M := fun _ _ => True) (fun _ => trivial)
      (fun _ _ _ _ _ => trivial) (fun _ _ => trivial)
      (fun c t d hd => (prepareConn_touches (C := (· = c)) p env _ rfl t).heard_eq hd)
      (others_nodup (honly.trx ▸ hready.nodup)) hzero (by rw [honly.trx]; exact hmem)
    have hconn : u.conn c = st.conn c := by rw [see_conn (congrArg Prod.fst hu), honly.conn]
    have hbefore : u.sent c = [] := (congrArg Prod.snd hu).trans hstart
    rw [prepareConn_started p env _ c (by rw [hconn]; exact hc.2 hmem) (by rw [hconn]; exact hc.1) hcode] at hfinal
    refine (congrArg Prod.snd hfinal).trans (Eq.trans (sent_append (issue_trace c _ u .ack)) ?_)
    rw [hbefore]
    simp [Action.xaOn, Stmt.isXa]
  · rintro rfl
    have hsee := ht.untouched _ hnotMem
    have hs : (t.conn st.trx.last).started = true := by rw [see_conn hsee]; exact hc.1
    obtain ⟨hl, hr⟩ := (onePhase_fst p env _).mp hone hs
    have hloop : t.sent st.trx.last = [] := by
      rw [ht.state, ← hstart]
      refine (prepareLoop_touches p env _).sent_eq fun _ _ h => absurd h ?_
      rw [honly.trx]
      exact hnotMem
    rw [onePhase_xa p env hs, hl, hr, hloop]
    rfl

/-- After a prepare phase without error a branch is sent nothing but its `XA COMMIT`. -/
theorem committed_sent (hfree : ∀ a, env.log a = none) (hok : (internalXaPrepare p env st).1 = 0) {c : ConnId}
    (hc : st.hasBranch c) (hmem : c ∈ st.trx.joinTrxTop) :
    (internalXaCommit p env (internalXaPrepare p env st).2.markPrepared).2.sent c = if c = st.trx.last
      then [(.xaCommitOnePhase, some .ack)] else [(.xaEndAndPrepare, some .ack),
        (.xaCommit, some (env.reply c .xaCommit))] := by
  have hdone := prepareDone p env hready hlen hok
  obtain ⟨hothers, hlast⟩ := prepared_sent p env hready hlen hok hc
  generalize (internalXaPrepare p env st).2 = t at hdone hothers hlast ⊢
  have hclog : (commitLog p env t.markPrepared).1 = 0 := commitLog_fst p env (.of_free hfree) fun h => by
    rw [hdone.xid]; exact hdone.row (hdone.logged ▸ h)
  rw [internalXaCommit_sent p env _ hclog]
  obtain ⟨e, u, hu, hfinal⟩ := commitLoop_sent (c := c) p env (commitLog p env t.markPrepared).2
    (by rw [hdone.commitLog_joined]; exact hready.nodup) (by rw [hdone.commitLog_joined]; exact hmem)
  have hheard : u.heard c = t.heard c := hu.trans (commitLog_only p env _).heard_eq
  have hconn : u.conn c = t.conn c := see_conn (congrArg Prod.fst hheard)
  have hbefore : u.sent c = t.sent c := congrArg Prod.snd hheard
  rw [hfinal]
  split_ifs with heq
  · subst heq
    have hone : (t.conn st.trx.last).isXaCommitOnePhase = true := by
      have h : t.conn st.trx.last = _ := congrArg (fun x => x.1) hdone.last
      rw [h]
      simp [Conn.afterOnePhase, hc.1]
    rw [commitConn_unsent p env _ _ _ (by simp [Conn.commits, hconn, hone]), hbefore, hlast rfl]
  · have hother := ((mem_joined_iff hready.joined_ne).mp hmem).resolve_right heq
    have hsame : t.conn c = st.conn c := congrArg (fun x => x.1) (hdone.others c hother (hc.2 hother))
    rw [hsame] at hconn
    rw [commitConn_sent p env _ _ _ (by rw [hconn]; exact hready.joinTrx c hmem)
      (by simp [Conn.commits, hconn, hready.twoPhase c hmem, hc.1])
      (by rw [hconn]; exact hdone.alive hother (hc.2 hother) hc.1), hbefore, hothers hother]
    rfl

/-- A prepare phase that failed has no branch that acknowledged its end. -/
theorem prepare_failed_sent (hfree : ∀ a, env.log a = none) (hfail : (internalXaPrepare p env st).1 ≠ 0) (c : ConnId) :
    ¬ (internalXaPrepare p env st).2.ended c := by
  rintro ⟨x, hx, hends, hack⟩
  have hstart : (prepareLog p env st).2.sent c = [] :=
    (congrArg Prod.snd (prepareLog_only p env st).heard_eq).trans hready.sent
  have hloop : ∀ x ∈ (prepareLoop p env (prepareLog p env st).2).2.sent c, ¬ x.1.endsBranch := by
    intro x hx
    rcases (prepareLoop_touches p env _).sent_mem hx with hx | ⟨hs, -, -⟩
    · rw [hstart] at hx; cases hx
    · revert hs; cases x.1 <;> decide
  obtain ⟨-, -, heq⟩ | ⟨-, -, -, heq⟩ | ⟨t, ht, ⟨hone, heq⟩ | ⟨-, heq⟩⟩ := internalXaPrepare_cases p env hready hlen
  · rw [heq, hstart] at hx
    cases hx
  · rw [heq] at hx
    exact hloop x hx hends
  · rw [heq] at hx
    by_cases hc : c = st.trx.last
    · subst hc
      cases hs : (t.conn st.trx.last).started with
      | false => exact hone (by rw [onePhase_queued p env _ hs])
      | true =>
        rw [onePhase_xa p env hs] at hx
        rcases List.mem_append.mp hx with hx | hx
        · exact hloop x (ht.state ▸ hx) hends
        · rw [List.mem_singleton.mp hx] at hack
          refine hone ((onePhase_fst p env _).mpr fun _ => ?_)
          simpa using Option.ite_none_left_eq_some.mp hack
    · rw [(onePhase_touches p env st.trx.last t).sent_eq fun _ _ h => absurd h hc] at hx
      exact hloop x (ht.state ▸ hx) hends
  · rw [heq] at hfail
    obtain ⟨-, h | h⟩ := ht.preparedLog_fst.mp hfail
    · exact absurd (hfree _) h
    · exact absurd (hfree _) h

end Phases

/-! ## The rows at the end -/

def Reply.mayPrepare : Reply → Bool
  | .ack => true
  | .refused _ => false
  | .lost _ => true

def Action.mayPrepare (c : ConnId) : Action → Bool
  | .stmt d .xaEndAndPrepare (some r) => d == c && r.mayPrepare
  | _ => false

/-- A rollback or a commit of the branch of `c` was acknowledged, or its shard does not know it at the commit. -/
def Action.settles (c : ConnId) : Action → Bool
  | .stmt d .xaRollback (some .ack) => d == c
  | .stmt d .xaCommit (some r) => d == c && r.settlesCommit
  | _ => false

def MayBePrepared (tr : List Event) (c : ConnId) : Prop :=
  (∃ e ∈ tr, e.action.mayPrepare c = true) ∧ ¬ ∃ e ∈ tr, e.action.settles c = true

instance (tr : List Event) (c : ConnId) : Decidable (MayBePrepared tr c) := by unfold MayBePrepared; infer_instance

theorem mayPrepare_inv {a : Action} {c : ConnId} (h : a.mayPrepare c = true) :
    ∃ r, a = .stmt c .xaEndAndPrepare (some r) := by
  unfold Action.mayPrepare at h
  split at h
  · simp only [Bool.and_eq_true, beq_iff_eq] at h
    exact ⟨_, by rw [h.1]⟩
  · cases h

/-- The row of the transaction and a row for each of the servers. -/
def Log.lists (l : Log) (xid : Xid) (servers : List Server) : Prop := l.xa xid ≠ none ∧ ∀ s ∈ servers, s ∈ l.member xid

def State.servers (st : State) : List Server := st.trx.joinTrxTop.map fun c => (st.conn c).server

/-- The participants on one host are on one server. -/
def State.OneServer (st : State) : Prop :=
  ∀ c ∈ st.trx.joinTrxTop, ∀ d ∈ st.trx.joinTrxTop, (st.conn c).server.host = (st.conn d).server.host →
    (st.conn c).server = (st.conn d).server

/-- The prepare phase fails, and every branch acknowledges the rollback that `spider_commit` starts then. -/
structure RolledBack (p : Params) (env : Env) (all : Bool) (st : State) : Prop where
  call : all = true ∨ p.multiStmt = false
  killed : p.lastKilled ≠ .killConnection
  fails : (∃ c ∈ st.trx.others, ¬ (st.conn c).prepares p env c) ∨
    (st.conn st.trx.last).started = true ∧
      queryCode p { st.conn st.trx.last with isXaCommitOnePhase := true } (env.reply st.trx.last .xaCommitOnePhase) ∉
        [0, erSpiderXaTimeout]
  acked : ∀ c ∈ st.trx.joinTrxTop, st.hasBranch c → RollbackAcked env c (st.conn c)

section InDoubt
variable (p : Params) (env : Env) (all : Bool) {st : State}

theorem State.OneServer.lists (hone : st.OneServer) {l : Log} {s : XaStatus} (hrow : l.xa st.trx.xid = some s)
    (hmember : ∀ c ∈ st.trx.joinTrxTop, st.namesHost l c) : l.lists st.trx.xid st.servers := by
  refine ⟨by rw [hrow]; simp, fun r hr => ?_⟩
  obtain ⟨c, hc, rfl⟩ := List.mem_map.mp hr
  obtain ⟨d, hd, hhost, hmem⟩ := hmember c hc
  exact hone d hd c hc hhost ▸ hmem

theorem prepare_failed_listed (hready : Ready st) (hlen : 2 ≤ st.trx.joinTrxTop.length) (hlog : st.logged p = true)
    (hfree : ∀ a, env.log a = none) (hone : st.OneServer) (hfail : (internalXaPrepare p env st).1 ≠ 0) :
    (internalXaPrepare p env st).2.log.lists st.trx.xid st.servers := by
  have hwrite : LogWritable p env st := fun _ => ⟨hfree _, hfree _, hfree _, fun c _ => .inl (hfree _)⟩
  obtain ⟨hno, -⟩ | ⟨-, -, hok, heq⟩ | ⟨t, ht, ⟨-, heq⟩ | ⟨-, heq⟩⟩ := internalXaPrepare_cases p env hready hlen
  · exact absurd hwrite hno
  · rw [heq, (prepareLoop_touches p env _).log]
    obtain ⟨h1, h2⟩ := prepareLog_rows p env hready hlog hok
    exact hone.lists h1 fun c hc => h2 c hc (hfree _)
  · rw [heq, (onePhase_touches p env st.trx.last t).log]
    exact hone.lists (ht.row hlog) fun c hc => ht.member hlog c hc (hfree _)
  · rw [heq] at hfail
    obtain ⟨-, h | h⟩ := ht.preparedLog_fst.mp hfail
    · exact absurd (hfree _) h
    · exact absurd (hfree _) h

theorem rollback_log (hready : Ready st) {u : State} (htrx : u.trx = st.trx) (hcall : all = true ∨ p.multiStmt = false) :
    (spiderRollback p env all u).2.log = u.log := by
  by_cases hkill : p.lastKilled = .killConnection
  · unfold spiderRollback
    rw [if_pos hkill]
    rfl
  · rw [rollback_ready p env all hready htrx hcall hkill]
    exact (freeTrxConn_log p env _).trans (rollbackLoop_touches p env u 0).log

theorem commitLoop_settled (hready : Ready st)
    (hkeep : ∀ c ∈ st.trx.others, (st.conn c).commitCounts p ∨ (env.reply c .xaCommit).settlesCommit = true)
    {t : State} (hdone : PrepareDone p env st t) (hzero : (internalXaCommit p env t.markPrepared).1 = 0) (c : ConnId) :
    ¬ MayBePrepared (internalXaCommit p env t.markPrepared).2.trace c := by
  rintro ⟨⟨e, he, hprep⟩, hnot⟩
  obtain ⟨r, ha⟩ := mayPrepare_inv hprep
  obtain ⟨hlog, hloop⟩ := internalXaCommit_fst p env hzero
  have hevents : ∀ e ∈ (internalXaCommit p env t.markPrepared).2.trace, PreparesXa st e := by
    rw [internalXaCommit_eq p env hlog hloop]
    refine (deleteLog_only p env _).preparesXa ?_
    exact (commitLoop_touches p env _).preparesXa (by decide) ((commitLog_only p env _).preparesXa hdone.preparesXa)
  obtain ⟨hmem, hx, hs⟩ := hevents e he c (some r) ha
  have hreply := (hkeep c hmem).elim (commitLoop_settles p env hready hdone hloop hmem hx hs) id
  obtain ⟨u, da, hj, hc, hu, -, hafter, -⟩ := hdone.visit hready hloop hmem hx hs
  obtain ⟨e', he', ha'⟩ := commitConn_event p env da c 0 hj hc (hu ▸ hdone.alive hmem hx hs)
  refine hnot ⟨e', commitLoop_keeps p env hzero (hafter.mem_trace he'), ?_⟩
  rw [ha']
  simp [Action.settles, hreply]

theorem commit_failed_listed (hlog : st.logged p = true) (hfree : ∀ a, env.log a = none) (hone : st.OneServer) {t : State}
    (hdone : PrepareDone p env st t) (hfail : (internalXaCommit p env t.markPrepared).1 ≠ 0) :
    (internalXaCommit p env t.markPrepared).2.log.lists st.trx.xid st.servers := by
  have hxid := hdone.xid
  have hclog : (commitLog p env t.markPrepared).1 = 0 := commitLog_fst p env (.of_free hfree) fun _ => by
    rw [hxid]; exact hdone.row hlog
  obtain ⟨hrow, hmember⟩ := commitLog_done p env (hdone.logged.trans hlog) hclog
  rw [hxid] at hrow
  have hlisted : (commitLoop p env (commitLog p env t.markPrepared).2).2.log.lists st.trx.xid st.servers := by
    rw [(commitLoop_touches p env _).log]
    refine hone.lists hrow fun c hc => ?_
    unfold State.namesHost
    rw [hmember]
    exact hdone.member hlog c hc (hfree _)
  by_cases hloop : (commitLoop p env (commitLog p env t.markPrepared).2).1 = 0
  · -- the deletion itself cannot fail
    exfalso
    refine hfail ?_
    rw [internalXaCommit_eq p env hclog hloop]
    unfold deleteLog
    split_ifs
    · refine (deleteRows_fst env hfree ?_).1
      rw [clearTree_log, clearTree_xid, (commitLoop_touches p env _).log, (commitLoop_touches p env _).trx,
        (commitLog_only p env _).trx, hxid, hrow]
      simp
    · rfl
  · have hne : (commitConns p env (commitLog p env t.markPrepared).2).1 ≠ 0 := by
      rw [commitConns_eq, reportTimeout_fst]; exact hloop
    unfold internalXaCommit
    rw [andThen_of_zero hclog, andThen_of_ne hne, commitConns_eq]
    unfold reportTimeout
    split_ifs <;> exact hlisted

theorem prepare_fails (hready : Ready st) (hlen : 2 ≤ st.trx.joinTrxTop.length)
    (hfree : ∀ a, env.log a = none) (hfail : (internalXaPrepare p env st).1 ∉ [0, erSpiderXaTimeout]) :
    (∃ c ∈ st.trx.others, ¬ (st.conn c).prepares p env c) ∨ (st.conn st.trx.last).started = true ∧
      queryCode p { st.conn st.trx.last with isXaCommitOnePhase := true } (env.reply st.trx.last .xaCommitOnePhase) ∉
        [0, erSpiderXaTimeout] := by
  obtain ⟨hno, -⟩ | ⟨-, hno, -⟩ | ⟨t, ht, ⟨-, heq⟩ | ⟨-, heq⟩⟩ := internalXaPrepare_cases p env hready hlen
  · exact absurd (fun _ => ⟨hfree _, hfree _, hfree _, fun c _ => .inl (hfree _)⟩) hno
  · exact .inl (by simpa using hno)
  · have hconn := see_conn (ht.untouched _ (last_notMem_others hready.joined_ne hready.nodup))
    cases hs : (st.conn st.trx.last).started with
    | false => simp [heq, onePhase_queued p env _ (hconn ▸ hs)] at hfail
    | true =>
      rw [heq, onePhase_started p env _ (hconn ▸ hs), dbPacket_fst, setConn_conn_self, hconn] at hfail
      exact .inr ⟨rfl, hfail⟩
  · have hne : (preparedLog p env (dbXaCommitOnePhase p env st.trx.last t).2).1 ≠ 0 := fun h => hfail (by simp [heq, h])
    obtain ⟨-, h | h⟩ := ht.preparedLog_fst.mp hne
    · exact absurd (hfree _) h
    · exact absurd (hfree _) h

theorem internalXaPrepare_later (hlen : 2 ≤ st.trx.joinTrxTop.length) (d : ConnId) :
    Conn.Later (st.conn d) ((internalXaPrepare p env st).2.conn d) :=
  internalXaPrepare_rule (P := fun t => Conn.Later (st.conn d) (t.conn d)) p env hlen (fun h ht => h.conn ▸ ht)
    (fun da c _ t _ ht => ht.trans ((prepareConn_touches (C := (· = c)) p env da rfl t).later d))
    (fun t ht => ht.trans ((onePhase_touches p env _ t).later d)) (.refl _)

/-- A failed prepare after which every branch has acknowledged its end was rolled back. -/
theorem rolledBack_of_ended (hready : Ready st) (hlen : 2 ≤ st.trx.joinTrxTop.length)
    (hfree : ∀ a, env.log a = none) (hcall : all = true ∨ p.multiStmt = false) (hfail : (internalXaPrepare p env st).1 ≠ 0)
    (hbranch : ∃ c ∈ st.trx.joinTrxTop, st.hasBranch c)
    (hended : ∀ c ∈ st.trx.joinTrxTop, st.hasBranch c → (commitXa p env all st).2.1.ended c) : RolledBack p env all st := by
  obtain ⟨b, hb, hbr⟩ := hbranch
  have htrx := (internalXaPrepare_trx p env hlen).1
  have hnone := prepare_failed_sent p env hready hlen hfree hfail
  have hfailed : (commitXa p env all st).2.1 = if (internalXaPrepare p env st).1 = erSpiderXaTimeout
      then freePreparedTrx (internalXaPrepare p env st).2
        else (spiderRollback p env all (internalXaPrepare p env st).2).2 := by
    unfold commitXa
    rw [if_neg (by omega)]
    dsimp only
    rw [if_neg (by simp [(internalXaPrepare_trx p env hlen).2, hready.nullDeref]), if_pos hfail]
    split_ifs <;> rfl
  rw [hfailed] at hended
  have htimeout : (internalXaPrepare p env st).1 ≠ erSpiderXaTimeout := by
    intro h
    obtain ⟨x, hx, hends⟩ := hended b hb hbr
    rw [if_pos h, sent_congr freePreparedTrx_trace] at hx
    exact hnone b ⟨x, hx, hends⟩
  rw [if_neg htimeout] at hended
  have hkill : p.lastKilled ≠ .killConnection := by
    intro h
    obtain ⟨x, hx, hends⟩ := hended b hb hbr
    unfold spiderRollback at hx
    rw [if_pos h] at hx
    exact hnone b ⟨x, hx, hends⟩
  refine ⟨hcall, hkill, prepare_fails p env hready hlen hfree (by simp [hfail, htimeout]), fun c hc hbranch => ?_⟩
  obtain ⟨x, hx, hends, hack⟩ := hended c hc hbranch
  rw [rollback_ready p env all hready htrx hcall hkill, sent_congr (finishTrx_trace p env)] at hx
  obtain ⟨e, u, hutrx, hu, hfinal⟩ := rollbackLoop_sent (c := c) p env (internalXaPrepare p env st).2
    (by rw [htrx]; exact hready.nodup) (by rw [htrx]; exact hc)
  have hbefore : u.sent c = (internalXaPrepare p env st).2.sent c := congrArg Prod.snd hu
  have hconn : u.conn c = (internalXaPrepare p env st).2.conn c := see_conn (congrArg Prod.fst hu)
  replace hx : x ∈ (rollbackConn p env (internalXaPrepare p env st).2.isError c e u).2.sent c := by
    rw [← hfinal]
    exact hx
  rcases rollbackConn_sent p env _ c e (by rw [hutrx, htrx]; exact hready.notPrepared) hx hack with hx | hx | hx
  · exact absurd ⟨x, hbefore ▸ hx, hends, hack⟩ (hnone c)
  · rw [hx] at hends
    exact absurd hends (by decide)
  · refine ⟨Bool.eq_false_iff.mpr fun hl => ?_, hx.2⟩
    have := (internalXaPrepare_later p env hlen c).serverLost hl
    rw [← hconn, hx.1] at this
    cases this

/-- **The log lists what is in doubt**, and nothing once every branch has acknowledged its end, with or without a failed
statement before it. -/
theorem inDoubt_listed (hready : Ready st) (hlen : 2 ≤ st.trx.joinTrxTop.length) (hlog : st.logged p = true)
    (hfree : ∀ a, env.log a = none) (hone : st.OneServer)
    (hkeep : ∀ c ∈ st.trx.others, (st.conn c).commitCounts p ∨ (env.reply c .xaCommit).settlesCommit = true)
    (hroll : ¬ RolledBack p env all st) :
    ((∃ c, MayBePrepared (spiderCommit p env all st).2.trace c) →
        (spiderCommit p env all st).2.log.lists st.trx.xid st.servers) ∧
      (st.xaFailed (spiderCommit p env all st).2 →
        (∀ c ∈ st.trx.joinTrxTop, st.hasBranch c → (spiderCommit p env all st).2.ended c) →
        (spiderCommit p env all st).2.unlisted st.trx.xid) ∧
      (AllAnswered env st → (∀ c ∈ st.trx.joinTrxTop, EndsQuietly p env st c) →
        (spiderCommit p env all st).2.unlisted st.trx.xid) := by
  by_cases hcall : all = true ∨ p.multiStmt = false
  swap
  · have hnone : st.unlisted st.trx.xid := ⟨hready.noRow, hready.noMember⟩
    unfold spiderCommit
    rw [if_neg (by simpa using hcall)]
    refine ⟨fun ⟨c, ⟨e, he, _⟩, _⟩ => ?_, fun _ _ => hnone, fun _ _ => hnone⟩
    rw [hready.trace] at he
    cases he
  have htrace := spiderCommit_trace p env all hready hcall
  refine ⟨?_, ?_, fun hall hends => ?_⟩
  · rintro ⟨c, hc⟩
    rw [htrace] at hc
    rw [spiderCommit_log p env all hready hcall]
    by_cases hok : (internalXaPrepare p env st).1 = 0
    · have hdone := prepareDone p env hready hlen hok
      rw [commitXa_prepared p env all hready hlen hok] at hc ⊢
      by_cases hzero : (internalXaCommit p env (internalXaPrepare p env st).2.markPrepared).1 = 0
      · exact absurd hc (commitLoop_settled p env hready hkeep hdone hzero c)
      · exact commit_failed_listed p env hlog hfree hone hdone hzero
    · have hlisted := prepare_failed_listed p env hready hlen hlog hfree hone hok
      have htrx := (internalXaPrepare_trx p env hlen).1
      unfold commitXa
      rw [if_neg (by omega)]
      dsimp only
      split_ifs
      · exact hlisted
      · rw [freePreparedTrx_log]; exact hlisted
      · rw [rollback_log p env all hready htrx hcall]
        exact hlisted
  · rintro ⟨c, hc, hbranch, x, hx, hbad⟩ hended
    exfalso
    rw [sent_congr htrace] at hx
    by_cases hok : (internalXaPrepare p env st).1 = 0
    · -- the statement that failed is the only one that could have ended the branch
      obtain ⟨y, hy, hends, hack⟩ := hended c hc hbranch
      rw [sent_congr htrace, commitXa_prepared p env all hready hlen hok,
        committed_sent p env hready hlen hfree hok hbranch hc] at hy
      rw [commitXa_prepared p env all hready hlen hok, committed_sent p env hready hlen hfree hok hbranch hc] at hx
      split_ifs at hx hy
      · simp_all
      · simp only [List.mem_cons, List.not_mem_nil, or_false] at hx hy
        rcases hy with rfl | rfl
        · exact absurd hends (by decide)
        · rcases hx with rfl | rfl
          · exact hbad rfl
          · exact hbad hack
    · refine hroll (rolledBack_of_ended p env all hready hlen hfree hcall hok ⟨c, hc, hbranch⟩ fun d hd hbr => ?_)
      obtain ⟨y, hy, h⟩ := hended d hd hbr
      exact ⟨y, sent_congr htrace ▸ hy, h⟩
  · have h := ((commitXa_several p env all hready hlen hall).mpr hends).2
    unfold State.unlisted at h ⊢
    rwa [spiderCommit_log p env all hready hcall]

/-- Shard 1 refuses its `XA COMMIT`; its branch stays listed. -/
theorem inDoubt_listed_refused :
    MayBePrepared (spiderCommit { default with forceCommit := 0, ignoreXaLog := false } .refusesCommit true
        (.updatedOn [1, 2])).2.trace 1 ∧
      (spiderCommit { default with forceCommit := 0, ignoreXaLog := false } .refusesCommit true
        (.updatedOn [1, 2])).2.log.lists 1 [⟨1, 0⟩, ⟨2, 0⟩] := by
  have hdoubt : MayBePrepared (spiderCommit { default with forceCommit := 0, ignoreXaLog := false } .refusesCommit
      true (.updatedOn [1, 2])).2.trace 1 := by decide
  refine ⟨hdoubt, (inDoubt_listed _ _ true (updatedOn_ready (by simp) (by simp)) (by decide) rfl (fun _ => rfl) ?_
    (fun _ _ => .inl ⟨.inl rfl, rfl⟩) fun h => ?_).1 ⟨1, hdoubt⟩⟩
  · intro c _ d _ h
    exact congrArg (Server.mk · 0) h
  · obtain ⟨c, hc, hno⟩ | h := h.fails
    · obtain rfl : c = 1 := by simpa [Trx.others, State.updatedOn] using hc
      exact hno (by decide)
    · exact h.2 (by decide)

end InDoubt

def Env.refusesPrepare : Env :=
  { Env.quiet with
    reply := fun c s => if c = 1 ∧ s = .xaEndAndPrepare then .refused .lockWaitTimeout else .ack }

/-- With two servers on one host the second has no row; after a refused prepare and an acknowledged rollback the row is left;
with `force_commit` 2 the rows are deleted too early. -/
theorem doubt_not_listed :
    (MayBePrepared (spiderCommit { default with forceCommit := 0, ignoreXaLog := false } .refusesCommit true
          { State.updatedOn [1, 2] with conn := fun c => { Conn.inBranch c with server := ⟨0, c⟩ } }).2.trace 1 ∧
        ¬ (spiderCommit { default with forceCommit := 0, ignoreXaLog := false } .refusesCommit true
          { State.updatedOn [1, 2] with
            conn := fun c => { Conn.inBranch c with server := ⟨0, c⟩ } }).2.log.lists 1 [⟨0, 1⟩, ⟨0, 2⟩]) ∧
      ((State.updatedOn [1, 2]).xaFailed (spiderCommit { default with ignoreXaLog := false } .refusesPrepare true
          (.updatedOn [1, 2])).2 ∧
        (∀ c ∈ [1, 2], (spiderCommit { default with ignoreXaLog := false } .refusesPrepare true
          (.updatedOn [1, 2])).2.ended c) ∧
        (spiderCommit { default with ignoreXaLog := false } .refusesPrepare true
          (.updatedOn [1, 2])).2.log.xa 1 = some .notYet) ∧
      (MayBePrepared (spiderCommit { default with ignoreXaLog := false } .refusesCommit true
          (.updatedOn [1, 2])).2.trace 1 ∧
        (spiderCommit { default with ignoreXaLog := false } .refusesCommit true
          (.updatedOn [1, 2])).2.unlisted 1) := by
  refine ⟨⟨by decide, fun h => ?_⟩, ⟨?_, ?_, rfl⟩, by decide, rfl, rfl⟩
  · exact absurd (h.2 ⟨0, 2⟩ (by simp)) (by decide)
  · exact ⟨1, by decide, ⟨rfl, fun _ => rfl⟩, _, List.mem_of_getElem? (i := 0) rfl, by decide⟩
  · intro c hc
    rcases List.mem_pair.mp hc with rfl | rfl
    · exact ⟨(.xaRollback, some .ack), by decide, by decide, rfl⟩
    · exact ⟨(.xaRollback, some .ack), by decide, by decide, rfl⟩

end TSpider.Xa
