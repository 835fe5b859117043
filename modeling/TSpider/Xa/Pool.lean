import TSpider.Xa.Finish
import TSpider.Xa.Link

/-!
# Pooled connections are idle

`spider_free_conn_from_trx` puts a connection into the shared pool if the session has no error and the connection is not
lost (`conn_recycle_mode` 1). Over a run the pool holds only idle connections (`pooled_idle`), if at every call that ends a
transaction the error of the session tells of everything that went wrong (`Observed`), and the record of a connection knows
when the remote `autocommit` is off (`Query.knowsOff`).
-/

namespace TSpider.Xa
open Lib Session

/-! ## Without recycling -/

section Unpooled
variable {p : Params} (env : Env) (all : Bool) (st : State)

theorem freeConnFromTrx_pool (hmode : p.connRecycleMode ≠ 1) (c : ConnId) : (freeConnFromTrx p env c st).pool = st.pool := by
  unfold freeConnFromTrx
  dsimp only
  split_ifs <;> simp_all [State.freeConn, State.setConn, State.myMessage]

theorem finishTrx_pool (hmode : p.connRecycleMode ≠ 1) : (finishTrx p env st).pool = st.pool := by
  have hone (t : State) (c : ConnId) : (freeTrxConnOne p env t c).pool = t.pool := by
    unfold freeTrxConnOne
    dsimp only
    split_ifs
    · rfl
    · exact freeConnFromTrx_pool env _ hmode c
    · rfl
  suffices h : ∀ (cs : List ConnId) (t : State), (cs.foldl (freeTrxConnOne p env) t).pool = t.pool from h _ st
  intro cs
  induction cs with
  | nil => intro t; rfl
  | cons c cs ih => intro t; rw [List.foldl_cons, ih, hone]

theorem internalXaPrepare_pool : (internalXaPrepare p env st).2.pool = st.pool := by
  have hconn (da : Bool) (c : ConnId) (t : State) : (prepareConn p env da c t).2.pool = t.pool :=
    (prepareConn_touches p env da rfl t).pool
  refine andThen_rule (P := fun t : State => t.pool = st.pool) (prepareLog_only p env st).pool fun _ h0 => ?_
  refine andThen_rule (P := fun t : State => t.pool = st.pool) ?_ fun _ h1 => (preparedLog_only p env _).pool.trans h1
  unfold prepareConns
  split
  · exact h0
  · exact andThen_rule (P := fun t : State => t.pool = st.pool) ((hconn _ _ _).trans h0) fun _ h => h
  · refine andThen_rule
      (untilError_invariant (fun d _ t ht => (hconn _ d t).trans ht) h0) fun _ h => ?_
    exact (onePhase_touches p env _ _).pool.trans h

theorem internalXaRollback_pool : (internalXaRollback p env st).2.pool = st.pool := by
  refine andThen_rule (P := fun t : State => t.pool = st.pool) (rollbackLog_only p env st).pool fun _ h0 => ?_
  refine andThen_rule (P := fun t : State => t.pool = st.pool) ?_ fun _ h1 =>
    (rollbackDeleteLog_only p env _ _).pool.trans h1
  exact (rollbackLoop_touches p env _ 0).pool.trans h0

theorem spiderRollback_pool (hmode : p.connRecycleMode ≠ 1) : (spiderRollback p env all st).2.pool = st.pool := by
  unfold spiderRollback
  split_ifs
  · rfl
  · rw [finishTrx_pool env _ hmode]
    exact internalXaRollback_pool env st
  · rw [finishTrx_pool env _ hmode]
    exact (forEach_touches 0 st fun _ _ e t =>
      rollbackPlainConn_touches p env st.isError trivial e t).pool
  · exact finishTrx_pool env _ hmode
  · rfl

theorem freePreparedTrx_pool : (freePreparedTrx st).pool = st.pool := by
  obtain ⟨w, heq, -⟩ := freePreparedTrx_eq st
  rw [heq]

theorem commitXa_pool (hmode : p.connRecycleMode ≠ 1) : (commitXa p env all st).2.1.pool = st.pool := by
  have hprep := internalXaPrepare_pool (p := p) env st
  unfold commitXa
  by_cases hone : st.trx.joinTrxTop.length = 1
  · rw [if_pos hone]
    exact (internalXaCommit_keepsTree p env _).pool.trans (internalXaCommitOnePhase_keeps p env st).pool
  · dsimp only
    split_ifs
    · exact hprep
    · exact (freePreparedTrx_pool _).trans hprep
    · exact (spiderRollback_pool env all _ hmode).trans hprep
    · exact (internalXaCommit_keepsTree p env _).pool.trans hprep

theorem spiderCommit_pool (hmode : p.connRecycleMode ≠ 1) : (spiderCommit p env all st).2.pool = st.pool := by
  have hfinish (u : State) (h : u.pool = st.pool) : (finishTrx p env u).pool = st.pool := (finishTrx_pool env u hmode).trans h
  unfold spiderCommit
  by_cases hcall : (all || !p.multiStmt) = true
  swap
  · rw [if_neg hcall]
  rw [if_pos hcall]
  by_cases hstart : st.trx.trxStart = true
  swap
  · rw [if_neg hstart]
    exact hfinish st rfl
  rw [if_pos hstart]
  by_cases hxa : st.trx.trxXa = true
  · have hcommit : (if (st.trx.internalXa && !st.trx.trxXaPrepared) = true then commitXa p env all st
        else (0, st, false)).2.1.pool = st.pool := by
      split_ifs
      · exact commitXa_pool env all st hmode
      · rfl
    generalize (if (st.trx.internalXa && !st.trx.trxXaPrepared) = true then commitXa p env all st
      else (0, st, false)) = r at hcommit ⊢
    dsimp only
    split_ifs
    · exact hcommit
    · exact hfinish _ hcommit
  · rw [if_neg hxa]
    refine hfinish _ ?_
    exact (forEach_touches 0 st fun _ _ e t =>
      commitPlainConn_touches p env st.isError trivial e t).pool

end Unpooled

section Take
variable {v : Vars} {q : Request} {c : ConnId} {s t : Session}

theorem getConn_pool (h : getConn v q c s = some t) : t.st.pool ⊆ s.st.pool := by
  unfold getConn at h
  split_ifs at h <;> cases h
  · exact List.Subset.refl _
  · exact List.filter_subset_self _
  · exact List.Subset.refl _

theorem startTrx_pool (q : Request) (c : ConnId) (s : Session) : (startTrx v q c s).st.pool = s.st.pool := by
  unfold startTrx
  split_ifs <;> rfl

theorem useConn_pool (h : useConn v q c s = some t) : t.st.pool ⊆ s.st.pool := by
  obtain ⟨r, hr, rfl⟩ := Option.map_eq_some_iff.mp h
  obtain ⟨st, hmarks, heq⟩ := setTrxStatusInfo_eq v q c { r with st := r.st.setConn c ((r.st.conn c).adopt q) }
  have hsub : r.st.pool ⊆ s.st.pool := getConn_pool hr
  dsimp only
  rw [heq]
  rw [hmarks.pool]
  split_ifs
  · exact hsub
  · rw [startTrx_pool]
    exact hsub

theorem ended_pool (s : Session) (r : Nat × State) : (s.ended r).st.pool = r.2.pool := (ended_marks s r).pool

theorem step_pool (hmode : v.params.connRecycleMode ≠ 1) {op : Op} (hstep : step v s op = some t) :
    t.st.pool ⊆ s.st.pool := by
  have hcommit (env : Env) (all b : Bool) : (spiderCommit (s.params v) env all (s.st.atCall b)).2.pool = s.st.pool :=
    spiderCommit_pool env all _ hmode
  have hrollback (env : Env) (all b : Bool) : (spiderRollback (s.params v) env all (s.st.atCall b)).2.pool = s.st.pool :=
    spiderRollback_pool env all _ hmode
  by_cases huse : ∃ c q, op = .useConn c q
  · obtain ⟨c, q, rfl⟩ := huse
    exact useConn_pool hstep
  suffices h : t.st.pool = s.st.pool by rw [h]; exact List.Subset.refl _
  cases op with
  | useConn c q => exact absurd ⟨c, q, rfl⟩ huse
  | raise => cases hstep; rfl
  | endStmt env =>
    cases hstep
    unfold endStmt
    dsimp only
    split_ifs
    · exact hrollback env false _
    · exact hcommit env false _
    · rw [ended_pool]; exact hrollback env false _
    · rw [ended_pool]; exact hcommit env false _
    · rfl
  | setAutocommit _ | begin | startStmt | again _ =>
    simp only [step] at hstep
    split_ifs at hstep
    cases hstep
    rfl
  | query c q =>
    simp only [step] at hstep
    split_ifs at hstep
    cases hstep
    exact (remoteQuery_marks v _ q c s.st).pool
  | commit env =>
    simp only [step] at hstep
    split_ifs at hstep
    cases hstep
    unfold commitTrx
    split_ifs
    · rw [ended_pool]; exact hcommit env true _
    · rfl
  | rollback afterError env =>
    simp only [step] at hstep
    split_ifs at hstep
    cases hstep
    unfold rollbackTrx
    split_ifs
    · rw [ended_pool]; exact hrollback env true _
    · rfl

end Take

/-! ## The condition -/

/-- When the transaction ends no refusal goes unheard, and no statement fails on a connection in error mode. -/
def Observed (p : Params) (env : Env) (st : State) : Prop :=
  ∀ c ∈ st.trx.joinTrxTop, Calm env c (st.conn c) ∧ Heard p env c (st.conn c)

instance (p : Params) (env : Env) (st : State) : Decidable (Observed p env st) := by unfold Observed; infer_instance

/-- With `conn_recycle_mode` 1: calls are observed, and queries do not hide that `autocommit` is off. -/
def Noticed (v : Vars) (s : Session) : Op → Prop
  | .commit env => v.params.connRecycleMode = 1 → s.all = true → Observed (s.params v) env s.st
  | .rollback _ env => v.params.connRecycleMode = 1 → s.all = true → Observed (s.params v) env s.st
  | .endStmt env =>
    v.params.connRecycleMode = 1 → s.stmt = true → s.multi = false → Observed (s.params v) env s.st
  | .query c q => v.params.connRecycleMode = 1 → q.knowsOff (s.st.conn c)
  | _ => True

instance (v : Vars) (s : Session) : DecidablePred (Noticed v s)
  | .commit _ | .rollback _ _ | .endStmt _ | .query _ _ => by unfold Noticed; infer_instance
  | .setAutocommit _ | .begin | .startStmt | .useConn _ _ | .again _ | .raise => .isTrue trivial

section Exit
variable {v : Vars} {s : Session} {op : Op} {r : Nat × State}

theorem Call.observed (h : Call v s op r) (hkill : v.params.lastKilled ≠ .killConnection)
    (hmode : v.params.connRecycleMode = 1) (hs : Base s) (hok : Noticed v s op) :
    ∃ env b, Exit (s.params v) env (s.st.atCall b) True r.2 ∧ Observed (s.params v) env (s.st.atCall b) := by
  have hold : ∀ b, Holding s.nextConn (s.st.atCall b) := fun b => (atCall_marks s.st b).holding hs.holding
  have hne := hs.participants h.registered
  cases h with
  | commit env hall => exact ⟨env, _, spiderCommit_exit (.inl rfl) hkill (hold _) hne trivial, hok hmode hall⟩
  | rollback afterError env hall => exact ⟨env, _, spiderRollback_exit (.inl rfl) hkill (hold _), hok hmode hall⟩
  | stmtCommit env hstmt hmulti herr =>
    exact ⟨env, _, spiderCommit_exit (.inr hmulti) hkill (hold _) hne trivial, hok hmode hstmt hmulti⟩
  | stmtRollback env hstmt hmulti herr =>
    exact ⟨env, _, spiderRollback_exit (.inr hmulti) hkill (hold _), hok hmode hstmt hmulti⟩

end Exit

/-! ## The connections over a run -/

def Session.Member (v : Vars) (s : Session) (x : Link) : Prop :=
  if s.st.trx.trxXa then x.XaMember v else x.PlainMember v s.notAutocommit (s.params v).transmit

structure Link.Unused (x : Link) : Prop where
  branch : x.branch.Closed
  trxOpen : x.trxOpen = false
  autocommit : x.autocommit = true

structure Linked (v : Vars) (s : Session) : Prop where
  member : ∀ c ∈ s.st.trx.joinTrxTop, s.Member v (s.st.link c)
  registered : s.st.trx.trxStart = true → s.st.trx.trxXa = false → s.Registered
  fresh : ∀ c, s.nextConn ≤ c → (s.st.link c).Unused
  pool : ∀ e ∈ s.st.pool, e.2 = (false, false) ∧ (s.st.link e.1).Rests v

structure Pooling (v : Vars) (s : Session) : Prop extends Linked v s where
  base : Base s
  joined : ∀ c ∈ s.st.trx.trxConnHash, c ∈ s.st.trx.joinTrxTop

theorem Pooling.init (v : Vars) : Pooling v .init where
  member := by simp [Session.init]
  registered := by simp [Session.init]
  fresh c _ := ⟨⟨Branch.noConfusion, Branch.noConfusion⟩, rfl, rfl⟩
  pool := by simp [Session.init]
  base := .init
  joined := by simp [Session.init]

section Links
variable {v : Vars} {s t : Session}

theorem Linked.congr (hs : Linked v s) (htrx : t.st.trx = { s.st.trx with updatedInThisTrx := t.st.trx.updatedInThisTrx })
    (hpool : t.st.pool = s.st.pool) (hlink : t.st.link = s.st.link) (hnext : t.nextConn = s.nextConn)
    (hauto : t.notAutocommit = s.notAutocommit) (hbegun : t.begun = s.begun)
    (hreg : t.st.trx.trxStart = true → t.st.trx.trxXa = false → t.Registered) : Linked v t where
  member c hc := by
    have hparams : t.params v = s.params v := by simp [params, multi, hauto, hbegun]
    have hxa : t.st.trx.trxXa = s.st.trx.trxXa := by rw [htrx]
    have htree : t.st.trx.joinTrxTop = s.st.trx.joinTrxTop := by rw [htrx]
    have hmember := hs.member c (htree ▸ hc)
    unfold Member at hmember ⊢
    rwa [hxa, hlink, hauto, hparams]
  registered := hreg
  fresh c hc := by rw [hlink]; exact hs.fresh c (hnext ▸ hc)
  pool e he := by rw [hlink]; exact hs.pool e (hpool ▸ he)

theorem Linked.setConn (hs : Linked v s) {c : ConnId} {k : Conn} (hk : (s.st.conn c).SameQueue k) :
    Linked v { s with st := s.st.setConn c k } := by
  have hkeep {P : Link → Prop} (hP : ∀ x : Link, P x → x.conn = s.st.conn c → P { x with conn := k }) (d : ConnId)
      (h : P (s.st.link d)) : P ((s.st.setConn c k).link d) := by
    by_cases hd : d = c
    · subst hd
      rw [setConn_link_self]
      exact hP _ h rfl
    · rwa [setConn_link_ne c s.st k hd]
  refine ⟨fun d hd => ?_, hs.registered, fun d hd => ?_, fun e he => ⟨(hs.pool e he).1, ?_⟩⟩
  · have hmember := hs.member d hd
    unfold Member at hmember ⊢
    cases hxa : s.st.trx.trxXa with
    | true =>
      rw [if_pos hxa] at hmember
      rw [if_pos (show (s.st.setConn c k).trx.trxXa = true from hxa)]
      exact hkeep (fun x h hx => h.sameQueue (hx ▸ hk)) d hmember
    | false =>
      rw [if_neg (by simp [hxa])] at hmember
      rw [if_neg (show ¬ (s.st.setConn c k).trx.trxXa = true by simp [State.setConn, hxa])]
      exact hkeep (fun x h hx => h.sameQueue (hx ▸ hk)) d hmember
  · exact hkeep (fun x h _ => ⟨h.branch, h.trxOpen, h.autocommit⟩) d (hs.fresh d hd)
  · exact hkeep (fun x h hx => h.sameQueue (hx ▸ hk)) e.1 (hs.pool e he).2

theorem Link.Unused.rests {x : Link} (h : x.Unused) (v : Vars) (server : Server) :
    Link.Rests v { x with conn := .new server } where
  off ha := by simp [h.autocommit] at ha
  unsynced _ := ⟨h.autocommit, rfl⟩
  branch := h.branch
  trxOpen := h.trxOpen
  noXa := rfl
  noTrx := rfl
  noAutocommit := rfl

end Links

/-! ## Getting a connection -/

section Get
variable {v : Vars} {q : Request} {c : ConnId} {s t : Session}

theorem getConn_linked (hs : Pooling v s) (h : getConn v q c s = some t) :
    Linked v t ∧ ((t.st.conn c).joinTrx = true ∧ c ∈ t.st.trx.joinTrxTop ∨
      (t.st.conn c).joinTrx = false ∧ (t.st.link c).Rests v) ∧ c < t.nextConn ∧ (∀ e ∈ t.st.pool, e.1 ≠ c) ∧
      ∀ d ∈ t.st.trx.trxConnHash, d = c ∨ d ∈ t.st.trx.joinTrxTop := by
  have hold := hs.base.holding
  unfold getConn at h
  split_ifs at h with hin hpool hnew <;> cases h
  · have hj := hs.joined c hin
    refine ⟨hs.toLinked, .inl ⟨(hold.tidy.joined c hin).mpr hj, hj⟩, hold.fresh c hin, fun e he => ?_,
      fun d hd => .inr (hs.joined d hd)⟩
    exact fun h => (hold.pool e he).2.1 (h ▸ hin)
  · have hpooled : s.st.pooled c = true := by simp_all
    obtain ⟨e, he, heq⟩ := List.any_eq_true.mp hpooled
    obtain rfl : e.1 = c := by simpa using heq
    obtain ⟨hlt, -, hj, -⟩ := hold.pool e he
    have hlinked : Linked v { s with
        st := (s.st.takeConn e.1).hold e.1, priority := Function.update s.priority e.1 q.priority } :=
      ⟨hs.member, hs.registered, hs.fresh, fun e' he' => hs.pool e' (List.mem_of_mem_filter he')⟩
    refine ⟨hlinked, .inr ⟨hj, (hs.pool e he).2⟩, hlt, fun e' he' => ?_, fun d hd => ?_⟩
    · simpa using (List.mem_filter.mp he').2
    · exact (List.mem_cons.mp hd).imp id (hs.joined d)
  · subst hnew
    have hne {d : ConnId} (hd : d ∈ s.st.trx.trxConnHash) : d ≠ s.nextConn := (hold.fresh d hd).ne
    have hother {d : ConnId} (hd : d ≠ s.nextConn) :
        ((s.st.setConn s.nextConn (.new q.server)).hold s.nextConn).link d = s.st.link d :=
      setConn_link_ne _ _ _ hd
    refine ⟨⟨fun d hd => ?_, hs.registered, fun d hd => ?_, fun e he => ?_⟩, .inr ⟨?_, ?_⟩, Nat.lt_succ_self _,
      fun e he => (hold.pool e he).1.ne, fun d hd => (List.mem_cons.mp hd).imp id (hs.joined d)⟩
    · have hmember := hs.member d hd
      rw [← hother (hne (hold.tidy.sub d hd))] at hmember
      exact hmember
    · have hlt : s.nextConn < d := hd
      rw [hother hlt.ne']
      exact hs.fresh d hlt.le
    · have hlt := (hold.pool e he).1
      rw [hother hlt.ne]
      exact hs.pool e he
    · simp [State.hold, Conn.new]
    · have hself : ((s.st.setConn s.nextConn (.new q.server)).hold s.nextConn).link s.nextConn =
          { s.st.link s.nextConn with conn := .new q.server } := setConn_link_self _ _ _
      rw [hself]
      exact (hs.fresh s.nextConn le_rfl).rests v q.server

theorem newTrx_closed {w : World} {hash : List ConnId} {d : ConnId} (h : (w.branch d).Closed) :
    ((w.newTrx hash).branch d).Closed := by
  unfold World.newTrx
  dsimp only
  split_ifs
  · exact h
  · exact ⟨by decide, by decide⟩

theorem Link.Rests.newBranch {x : Link} (h : x.Rests v) {b : Branch} (hb : b.Closed) : Link.Rests v { x with branch := b } :=
  ⟨⟨h.off, h.unsynced⟩, hb, h.trxOpen, h.noXa, h.noTrx, h.noAutocommit⟩

theorem beginTrx_linked (hs : Linked v s) (htree : s.st.trx.joinTrxTop = []) : Linked v (s.beginTrx v q) where
  member d hd := by
    have hd : d ∈ s.st.trx.joinTrxTop := hd
    rw [htree] at hd
    cases hd
  registered _ _ := register_registered s
  fresh d hd :=
    have h := hs.fresh d hd
    ⟨newTrx_closed h.branch, h.trxOpen, h.autocommit⟩
  pool e he := ⟨(hs.pool e he).1, (hs.pool e he).2.newBranch (newTrx_closed (hs.pool e he).2.branch)⟩

def Conn.joining (v : Vars) (xa notAutocommit begun : Bool) (k : Conn) : Conn :=
  { Conn.queueTrx v xa begun { k.queueAutocommit v notAutocommit with disableReconnect := true } with joinTrx := true }

structure Conn.Joins (v : Vars) (xa notAutocommit : Bool) (k k' : Conn) : Prop where
  queuedConnect : k'.queuedConnect = k.queuedConnect
  autocommit : k'.autocommit = k.autocommit
  queuedAutocommit : k'.queuedAutocommit = if v.syncAutocommit then some (!notAutocommit) else k.queuedAutocommit
  queuedXaStart : k'.queuedXaStart = (xa || k.queuedXaStart)
  queuedTrxStart : k'.queuedTrxStart = k.queuedTrxStart ∨ xa = false ∧ k'.trxStart = true

theorem joining_joins {k : Conn} (hlock : k.tableLock = 0) (xa notAutocommit begun : Bool) :
    k.Joins v xa notAutocommit (k.joining v xa notAutocommit begun) := by
  -- `SET autocommit` first
  obtain ⟨k', hk', hauto, htrx, hlock'⟩ : ∃ k', k' = { k.queueAutocommit v notAutocommit with disableReconnect := true } ∧
      k.Joins v false notAutocommit k' ∧ k'.queuedTrxStart = k.queuedTrxStart ∧ k'.tableLock = 0 := by
    refine ⟨_, rfl, ?_⟩
    unfold Conn.queueAutocommit
    split_ifs with hsync
    · exact ⟨⟨rfl, rfl, by simp [hsync], rfl, .inl rfl⟩, rfl, hlock⟩
    · exact ⟨⟨rfl, rfl, by simp [hsync], rfl, .inl rfl⟩, rfl, hlock⟩
  unfold Conn.joining Conn.queueTrx
  rw [← hk', if_neg (by simp [hlock'])]
  cases xa with
  | true => exact ⟨hauto.queuedConnect, hauto.autocommit, hauto.queuedAutocommit, rfl, .inl htrx⟩
  | false =>
    rw [if_neg (by simp)]
    split_ifs
    · exact ⟨hauto.queuedConnect, hauto.autocommit, hauto.queuedAutocommit, hauto.queuedXaStart, .inr ⟨rfl, rfl⟩⟩
    · exact ⟨hauto.queuedConnect, hauto.autocommit, hauto.queuedAutocommit, hauto.queuedXaStart, .inr ⟨rfl, rfl⟩⟩
    · exact ⟨hauto.queuedConnect, hauto.autocommit, hauto.queuedAutocommit, hauto.queuedXaStart, .inl htrx⟩

theorem Link.Rests.xaMember {x : Link} (h : x.Rests v) {k : Conn} {notAutocommit : Bool}
    (hk : x.conn.Joins v true notAutocommit k) : Link.XaMember v { x with conn := k } where
  off ha := hk.autocommit.trans (h.off ha)
  unsynced hs := ⟨(h.unsynced hs).1, by rw [hk.queuedAutocommit, hs]; exact h.noAutocommit⟩
  trxOpen := h.trxOpen
  noTrx := (hk.queuedTrxStart.resolve_right fun h' => by simp at h').trans h.noTrx
  unopened _ := hk.queuedXaStart
  waiting _ := h.branch
  running h' := absurd (hk.queuedXaStart.symm.trans h') (by simp)

theorem Link.Rests.plainMember {x : Link} (h : x.Rests v) {k : Conn} {notAutocommit : Bool}
    (hk : x.conn.Joins v false notAutocommit k) (transmit : Bool) :
    Link.PlainMember v notAutocommit transmit { x with conn := k } where
  off ha := hk.autocommit.trans (h.off ha)
  unsynced hs := ⟨(h.unsynced hs).1, by rw [hk.queuedAutocommit, hs]; exact h.noAutocommit⟩
  branch := h.branch
  noXa := hk.queuedXaStart.trans h.noXa
  begins h' := (hk.queuedTrxStart.resolve_left fun hsame =>
    absurd (h'.symm.trans (hsame.trans h.noTrx)) (by simp)).2
  queued := by
    cases hs : v.syncAutocommit with
    | true => exact .inl ⟨by rw [hk.queuedAutocommit, hs]; rfl, h.trxOpen⟩
    | false =>
      refine .inr ⟨by rw [hk.queuedAutocommit, hs]; exact h.noAutocommit, fun ha => ?_⟩
      exact absurd ((h.unsynced hs).1.symm.trans ha) (by simp)
  ends ho := absurd (h.trxOpen.symm.trans ho) (by simp)

theorem join_linked (hs : Linked v s) (hrest : (s.st.link c).Rests v) (hlock : (s.st.conn c).tableLock = 0)
    (hlt : c < s.nextConn) (hpool : ∀ e ∈ s.st.pool, e.1 ≠ c) : Linked v (s.join v c) := by
  have hself : (s.join v c).st.link c =
      { s.st.link c with conn := (s.st.conn c).joining v s.st.trx.trxXa s.notAutocommit s.begun } := setConn_link_self _ _ _
  have hother {d : ConnId} (hd : d ≠ c) : (s.join v c).st.link d = s.st.link d := setConn_link_ne _ _ _ hd
  refine ⟨fun d hd => ?_, hs.registered, fun d hd => ?_, fun e he => ?_⟩
  · by_cases hdc : d = c
    · subst hdc
      have hjoins := joining_joins (v := v) hlock s.st.trx.trxXa s.notAutocommit s.begun
      change s.Member v _
      rw [hself]
      unfold Member
      cases hxa : s.st.trx.trxXa with
      | true =>
        rw [hxa] at hjoins
        exact hrest.xaMember hjoins
      | false =>
        rw [hxa] at hjoins
        exact hrest.plainMember hjoins _
    · rw [hother hdc]
      exact hs.member d (((mem_treeInsert s.priority c d _).mp hd).resolve_left hdc)
  · rw [hother (hlt.trans_le hd).ne']
    exact hs.fresh d hd
  · rw [hother (hpool e he)]
    exact hs.pool e he

theorem joined_or_start_linked (hs : Linked v s) (hbase : Base s) (hmem : c ∈ s.st.trx.trxConnHash)
    (hc : (s.st.conn c).joinTrx = true ∧ c ∈ s.st.trx.joinTrxTop ∨ (s.st.conn c).joinTrx = false ∧ (s.st.link c).Rests v)
    (hpool : ∀ e ∈ s.st.pool, e.1 ≠ c) (hhash : ∀ d ∈ s.st.trx.trxConnHash, d = c ∨ d ∈ s.st.trx.joinTrxTop) :
    Linked v (if (s.st.conn c).joinTrx then s else startTrx v q c s) ∧
      ∀ d ∈ (if (s.st.conn c).joinTrx then s else startTrx v q c s).st.trx.trxConnHash,
        d ∈ (if (s.st.conn c).joinTrx then s else startTrx v q c s).st.trx.joinTrxTop := by
  rcases hc with ⟨hj, hin⟩ | ⟨hj, hrest⟩
  · rw [if_pos hj]
    exact ⟨hs, fun d hd => (hhash d hd).elim (fun h => h ▸ hin) id⟩
  · rw [if_neg (by simp [hj])]
    have hlock : (s.st.conn c).tableLock = 0 := (hbase.holding.tidy.unlocked' hmem).tableLock
    have hlt := hbase.holding.fresh c hmem
    unfold startTrx
    split_ifs with hstart
    · refine ⟨join_linked hs hrest hlock hlt hpool, fun d hd => ?_⟩
      rw [join_joinTrxTop, mem_treeInsert]
      exact hhash d hd
    · have htree := hbase.holding.tidy.idle (by simpa using hstart)
      have hrest' : ((s.beginTrx v q).st.link c).Rests v := hrest.newBranch (newTrx_closed hrest.branch)
      refine ⟨join_linked (beginTrx_linked hs htree) hrest' hlock hlt hpool, fun d hd => ?_⟩
      rw [join_joinTrxTop, mem_treeInsert]
      exact hhash d hd

/-- **A handler gets a connection.** -/
theorem useConn_pooling (hs : Pooling v s) (h : useConn v q c s = some t) : Pooling v t := by
  have hbase := useConn_base hs.base h
  obtain ⟨r, hr, rfl⟩ := Option.map_eq_some_iff.mp h
  obtain ⟨hlinked, hc, hlt, hpool, hhash⟩ := getConn_linked hs hr
  obtain ⟨hrbase, -, hmem⟩ := getConn_base hs.base hr
  have hadopt : (r.st.conn c).SameQueue ((r.st.conn c).adopt q) := ⟨rfl, rfl, rfl, rfl, rfl, rfl, rfl⟩
  generalize hu : ({ r with st := r.st.setConn c ((r.st.conn c).adopt q) } : Session) = u at hbase ⊢
  have hulinked : Linked v u := hu ▸ hlinked.setConn hadopt
  have hubase : Base u := hu ▸ hrbase.of_marks (adopt_marks q c r.st)
  have huc : (u.st.conn c).joinTrx = true ∧ c ∈ u.st.trx.joinTrxTop ∨
      (u.st.conn c).joinTrx = false ∧ (u.st.link c).Rests v := by
    rw [← hu]
    rw [setConn_conn_self, setConn_link_self]
    exact hc.imp id fun h => ⟨h.1, h.2.sameQueue hadopt⟩
  obtain ⟨hjoin, hall⟩ := joined_or_start_linked hulinked hubase (by rw [← hu]; exact hmem) huc
    (by rw [← hu]; exact hpool) (by rw [← hu]; exact hhash)
  unfold setTrxStatusInfo at hbase ⊢
  dsimp only at hbase ⊢
  generalize (if (u.st.conn c).joinTrx then u else startTrx v q c u) = w at hjoin hall hbase ⊢
  have hiso : (w.st.conn c).SameQueue ((w.st.conn c).queueIsolation q) := by
    unfold Conn.queueIsolation
    split_ifs <;> exact ⟨rfl, rfl, rfl, rfl, rfl, rfl, rfl⟩
  have hset := hjoin.setConn hiso
  refine { toLinked := hset.congr ?_ ?_ ?_ rfl rfl rfl ?_, base := hbase, joined := fun d hd => ?_ }
  · split_ifs <;> rfl
  · split_ifs <;> rfl
  · split_ifs <;> rfl
  · have hreg := hset.registered
    split_ifs <;> exact hreg
  · split_ifs at hd ⊢ <;> exact hall d hd

end Get

/-! ## Statements -/

section Query
variable {v : Vars} {s : Session} {c : ConnId} {q : Query}

theorem query_linked (hs : Pooling v s) (hc : c ∈ s.held) (hok : q.knowsOff (s.st.conn c)) :
    Linked v { s with st := remoteQuery v (s.params v).transmit q c s.st } := by
  have hmarks := remoteQuery_marks v (s.params v).transmit q c s.st
  obtain ⟨htree, -, hstart, hxa, -⟩ := hmarks.tree
  have hold := hs.base.holding
  have hin : c ∈ s.st.trx.trxConnHash := hold.tidy.sub c (hs.base.held c hc)
  have hother {d : ConnId} (hd : d ≠ c) : (remoteQuery v (s.params v).transmit q c s.st).link d = s.st.link d :=
    remoteQuery_link_ne v _ q c s.st hd
  refine ⟨fun d hd => ?_, fun h1 h2 => ?_, fun d hd => ?_, fun e he => ?_⟩
  · have hmember := hs.member d (htree ▸ hd)
    unfold Member at hmember ⊢
    rw [hxa]
    by_cases hdc : d = c
    · subst hdc
      rw [remoteQuery_link]
      split_ifs at hmember ⊢
      · exact hmember.query hok
      · refine hmember.query hok fun hno => ?_
        simp [Params.transmit, params, multi, hno]
    · rw [hother hdc]
      exact hmember
  · exact hs.registered (hstart ▸ h1) (hxa ▸ h2)
  · rw [hother ((hold.fresh c hin).trans_le hd).ne']
    exact hs.fresh d hd
  · have he : e ∈ s.st.pool := hmarks.pool ▸ he
    rw [hother fun h : e.1 = c => (hold.pool e he).2.1 (h ▸ hin)]
    exact hs.pool e he

end Query

/-! ## Calls that end a transaction -/

section Calls
variable {v : Vars} {s t : Session} {op : Op} {r : Nat × State} {env : Env} {b : Bool} {u : State}

theorem Link.XaMember.branch_ne {x : Link} (h : x.XaMember v) : x.branch ≠ .prepared := by
  intro hb
  cases hx : x.conn.queuedXaStart with
  | true => exact (h.waiting hx).2 hb
  | false =>
    rcases h.running hx with ha | ⟨-, hc⟩
    · simp [ha] at hb
    · exact hc.2 hb

theorem Link.XaMember.started {x : Link} (h : x.XaMember v) : x.branch.Closed ∨ x.conn.started = true := by
  cases hx : x.conn.queuedXaStart with
  | true => exact .inl (h.waiting hx)
  | false =>
    have hc : x.conn.queuedConnect = false := Bool.eq_false_iff.mpr fun hc => by simp [h.unopened hc] at hx
    simp [Conn.started, hx, hc]

theorem Pooling.closable (hs : Pooling v s) (hobs : Observed (s.params v) env (s.st.atCall b)) :
    Closable (s.params v) env (s.st.atCall b) where
  xa hxa c hc := by
    have htidy := hs.base.holding.tidy
    have hin := htidy.sub c hc
    obtain ⟨hcalm, hheard⟩ := hobs c hc
    have hmember := hs.member c hc
    unfold Member at hmember
    rw [if_pos (show s.st.trx.trxXa = true from hxa)] at hmember
    exact ⟨{ joinTrx := (htidy.joined c hin).mpr hc, disableXa := (htidy.xa hxa).2.2.2 c hc
             lock := (htidy.unlocked' hin).tableLock, calm := hcalm, heard := hheard, trxOpen := hmember.trxOpen
             started := hmember.started.imp id .inl }, hmember.branch_ne⟩
  plain hxa c hc := by
    have hin := hs.base.holding.tidy.sub c hc
    obtain ⟨hcalm, hheard⟩ := hobs c hc
    have hmember := hs.member c hc
    unfold Member at hmember
    rw [if_neg (Bool.eq_false_iff.mp (show s.st.trx.trxXa = false from hxa))] at hmember
    exact ⟨(hs.base.holding.tidy.unlocked' hin).tableLock, hcalm, hheard, hmember.branch, hmember.ends⟩

theorem Session.Member.coherent {x : Link} (h : s.Member v x) : x.Coherent v := by
  unfold Member at h
  split_ifs at h
  · exact h.toCoherent
  · exact h.toCoherent

structure Leaves (v : Vars) (n : ConnId) (u : State) : Prop where
  tree : u.trx.joinTrxTop = []
  hash : u.trx.trxConnHash = []
  xa : u.trx.trxStart = true → u.trx.trxXa = true
  fresh : ∀ c, n ≤ c → (u.link c).Unused
  pool : ∀ e ∈ u.pool, e.2 = (false, false) ∧ (u.link e.1).Rests v

theorem Released.rests {w : State} {c : ConnId} (hconn : u.conn c = (w.conn c).released)
    (hopen : u.world.sessionOpen c = false) (hauto : u.world.autocommit c = w.world.autocommit c)
    (hcoherent : (w.link c).Coherent v) : (u.link c).Rests v := by
  simp only [World.sessionOpen, Bool.or_eq_false_iff, beq_eq_false_iff_ne] at hopen
  obtain ⟨⟨htrx, hactive⟩, hprepared⟩ := hopen
  have hlink : (u.link c).conn = (w.conn c).released := hconn
  refine ⟨⟨fun h => ?_, fun h => ⟨?_, by rw [hlink]; rfl⟩⟩, ⟨hactive, hprepared⟩, htrx, ?_, ?_, ?_⟩
  · rw [hlink]
    exact hcoherent.off (hauto.symm.trans h)
  · exact hauto.trans (hcoherent.unsynced h).1
  all_goals rw [hlink]; rfl

theorem Exit.leaves (hs : Pooling v s) (hmode : v.params.connRecycleMode = 1)
    (hne : s.st.trx.trxXa = true → s.st.trx.joinTrxTop ≠ []) (hobs : Observed (s.params v) env (s.st.atCall b))
    (h : Exit (s.params v) env (s.st.atCall b) True u) : Leaves v s.nextConn u := by
  have hold : Holding s.nextConn (s.st.atCall b) := (atCall_marks s.st b).holding hs.base.holding
  have hmode' : (s.params v).connRecycleMode = 1 := hmode
  -- connections outside of the session keep their links
  have hout {w : State} (hw : ∀ d, d ∉ s.st.trx.trxConnHash → SameConn (s.st.atCall b) w d) :
      (∀ c, s.nextConn ≤ c → (w.link c).Unused) ∧ ∀ e ∈ s.st.pool, e.2 = (false, false) ∧ (w.link e.1).Rests v := by
    refine ⟨fun c hc => ?_, fun e he => ⟨(hs.pool e he).1, ?_⟩⟩
    · rw [(hw c fun hin => (hold.fresh c hin).not_ge hc).link]
      exact hs.fresh c hc
    · rw [(hw e.1 (hold.pool e he).2.1).link]
      exact (hs.pool e he).2
  cases h with
  | finish h _ =>
    rename_i w _
    have hkeeps := h.keeps hne
    obtain ⟨hrel, htrx⟩ := h.released hold.tidy hne
    obtain ⟨hstart, -, htree⟩ := h.idle hold.tidy
    have hsame : ∀ d, d ∉ s.st.trx.trxConnHash → SameConn (s.st.atCall b) (freeTrxConn (s.params v) env w) d := fun d hd =>
      (hkeeps.same d fun hin => hd (hold.tidy.sub d hin)).trans (hrel.same d hd)
    obtain ⟨hfresh, hpool⟩ := hout hsame
    refine ⟨by rw [htrx]; exact htree, by rw [htrx]; simp [hmode'], fun h' => ?_, hfresh, fun e he => ?_⟩
    · rw [htrx] at h'
      exact absurd (hstart.symm.trans h') (by simp)
    · rcases hrel.pool e he with he | ⟨c, hc, rfl, -, herr, hlost, hconn, hopen, hauto⟩
      · exact hpool e (hkeeps.pool ▸ he)
      · -- a connection that is put into the pool has settled: the session has no error
        have hc' := hs.joined c hc
        have hsettled := (h.settles hold.tidy (hs.closable hobs) hc').resolve_right (by simp [herr])
        have hclosed := hsettled.sessionOpen hlost
        have hunjoined := (h.unjoined hold.tidy hne hc).resolve_right fun hno => by simp [herr] at hno
        have hcoherent : (w.link c).Coherent v := by
          have hc0 := (hs.member c hc').coherent
          refine ⟨fun ha => ?_, fun hsync => ⟨?_, ?_⟩⟩
          · exact (hkeeps.later c).autocommit.trans (hc0.off ((congrFun hkeeps.autocommit c).symm.trans ha))
          · exact (congrFun hkeeps.autocommit c).trans (hc0.unsynced hsync).1
          · exact (hkeeps.later c).queuedAutocommit.trans (hc0.unsynced hsync).2
        refine ⟨by rw [hclosed, hunjoined], Released.rests hconn (hopen.trans hclosed) hauto hcoherent⟩
  | unknown _ hsev _ =>
    obtain ⟨hkeeps, htrx⟩ := internalXaPrepare_keeps (s.params v) env hsev.2
    obtain ⟨w, heq, hsame⟩ := freePreparedTrx_eq (internalXaPrepare (s.params v) env (s.st.atCall b)).2
    rw [htrx] at hsame
    obtain ⟨hfresh, hpool⟩ := hout fun d hd =>
      (hkeeps.same d fun hin => hd (hold.tidy.sub d hin)).trans (hsame d fun hin => hd (hold.tidy.sub d hin))
    refine ⟨by rw [heq], ?_, fun _ => by rw [heq]; dsimp only; rw [htrx]; exact hsev.1, hfresh, fun e he => hpool e ?_⟩
    · rw [heq]
      rw [htrx]
      refine List.eq_nil_iff_forall_not_mem.mpr fun d hd => ?_
      obtain ⟨hin, hout⟩ := hold.tidy.hashNodup.mem_sdiff_iff.mp hd
      exact hout (hs.joined d hin)
    · rw [heq] at he
      exact hkeeps.pool ▸ he

theorem ended_link (s : Session) (r : Nat × State) : (s.ended r).st.link = r.2.link := by
  unfold ended
  split_ifs <;> rfl

theorem Call.pooling (h : Call v s op r) (hkill : v.params.lastKilled ≠ .killConnection)
    (hmode : v.params.connRecycleMode = 1) (hs : Pooling v s) (hok : Noticed v s op) (begun : Bool)
    (hbase : Base (({ s with stmt := false, all := false, begun } : Session).ended r)) :
    Pooling v (({ s with stmt := false, all := false, begun } : Session).ended r) := by
  obtain ⟨env, b, hexit, hobs⟩ := h.observed hkill hmode hs.base hok
  have hleaves := hexit.leaves hs hmode (hs.base.participants h.registered) hobs
  have hmarks := ended_marks ({ s with stmt := false, all := false, begun } : Session) r
  obtain ⟨htree, hhash, hstart, hxa, -⟩ := hmarks.tree
  refine { member := fun c hc => ?_, registered := fun h1 h2 => ?_, fresh := fun c hc => ?_, pool := fun e he => ?_,
           base := hbase, joined := fun c hc => ?_ }
  · rw [htree, hleaves.tree] at hc
    cases hc
  · rw [hstart] at h1
    rw [hxa] at h2
    exact absurd ((hleaves.xa h1).symm.trans h2) (by simp)
  · rw [ended_link]
    exact hleaves.fresh c hc
  · rw [ended_link]
    exact hleaves.pool e (hmarks.pool ▸ he)
  · rw [hhash, hleaves.hash] at hc
    cases hc

theorem Pooling.unregistered (hs : Pooling v s) (hstmt : s.stmt = false) (hall : s.all = false)
    (hxa : s.st.trx.trxXa = false) : s.st.trx.trxStart = false := by
  exact Bool.eq_false_iff.mpr fun hstart => not_registered hstmt hall (hs.registered hstart hxa)

/-- **Every step keeps the connections of the session in order.** -/
theorem step_pooling (hkill : v.params.lastKilled ≠ .killConnection) (hmode : v.params.connRecycleMode = 1)
    (hs : Pooling v s) (hok : Noticed v s op) (hstep : step v s op = some t) : Pooling v t := by
  have hlog : OnCommit LogKept v s op := by
    have hkept (env : Env) (st : State) : LogKept (s.params v) env st := fun h => by simp [params, hmode] at h
    cases op with
    | commit env => exact fun _ => hkept env _
    | endStmt env => exact fun _ _ _ => hkept env _
    | _ => trivial
  have hbase := step_base hkill hs.base hlog hstep
  cases step_move hkill hs.base hstep with
  | call begun h => exact h.pooling hkill hmode hs hok begun hbase
  | option op notAutocommit begun hstmt hall =>
    refine { member := fun c hc => ?_, registered := fun h1 h2 => ?_, fresh := hs.fresh, pool := hs.pool,
             base := hbase, joined := hs.joined }
    · cases hxa : s.st.trx.trxXa with
      | true =>
        have hmember := hs.member c hc
        unfold Member at hmember ⊢
        rw [if_pos hxa] at hmember ⊢
        exact hmember
      | false =>
        have htree := hs.base.holding.tidy.idle (hs.unregistered hstmt hall hxa)
        rw [show ({ s with notAutocommit, begun } : Session).st.trx.joinTrxTop = [] from htree] at hc
        cases hc
    · exact absurd ((hs.unregistered hstmt hall h2).symm.trans h1) (by simp)
  | error op isError _ =>
    exact { toLinked := hs.toLinked.congr rfl rfl rfl rfl rfl rfl hs.registered, base := hbase, joined := hs.joined }
  | useConn c q t h => exact useConn_pooling hs h
  | again c hc =>
    exact { toLinked := hs.toLinked.congr rfl rfl rfl rfl rfl rfl fun _ _ => register_registered s
            base := hbase, joined := hs.joined }
  | query c q hc hq =>
    obtain ⟨htree, hhash, -⟩ := (remoteQuery_marks v (s.params v).transmit q c s.st).tree
    exact { toLinked := query_linked hs hc (hok hmode), base := hbase
            joined := fun d hd => htree ▸ hs.joined d (hhash ▸ hd) }
  | endStmt env hmulti =>
    exact { toLinked := hs.toLinked.congr rfl rfl rfl rfl rfl rfl fun h1 h2 => (hs.registered h1 h2).endStmt hmulti _
            base := hbase, joined := hs.joined }
  | nothing => exact hs

end Calls

/-! ## The main result -/

section Main

/-- **Pooled connections are idle**, if what goes wrong at the end of a transaction is noticed. -/
theorem pooled_idle {v : Vars} {ops : List Op} {s : Session} (hkill : v.params.lastKilled ≠ .killConnection)
    (hrun : runOps (step v) .init ops = some s) (hok : Along (step v) (Noticed v) .init ops) :
    ∀ e ∈ s.st.pool, e.2 = (false, false) := by
  by_cases hmode : v.params.connRecycleMode = 1
  · have hs : Pooling v s := Along.invariant (Pooling v)
      (fun _ _ _ hs hop hstep => step_pooling hkill hmode hs hop hstep) (.init v) hok hrun
    exact fun e he => (hs.pool e he).1
  · have hempty : s.st.pool = [] := Along.invariant (fun s : Session => s.st.pool = [])
      (fun s a t hs _ hstep => List.subset_nil.mp (hs ▸ step_pool hmode hstep)) rfl hok hrun
    simp [hempty]

/-- A transaction over two shards commits, and its connections are pooled. -/
theorem pooled_idle_two :
    ∃ s, runOps (step .default) .init (updating [0, 1] ++ [.commit .quiet]) = some s ∧ s.st.pool.map Prod.fst = [1, 0] ∧
      ∀ e ∈ s.st.pool, e.2 = (false, false) := by
  have hview : (runOps (step .default) .init (updating [0, 1] ++ [.commit .quiet])).map (fun s =>
      s.st.pool.map Prod.fst) = some [1, 0] := by decide +kernel
  obtain ⟨s, hrun, hs⟩ := Option.map_eq_some_iff.mp hview
  exact ⟨s, hrun, hs, pooled_idle (by decide) hrun (by decide +kernel)⟩

def Vars.plain : Vars := { Vars.default with internalXa := false }

def Request.inErrorMode : Request := { Request.ofUpdate with errorMode := true }

def updatingInErrorMode (c : ConnId) : List Op :=
  [.begin, .startStmt, .useConn c .inErrorMode, .query c .acked, .endStmt .quiet]

def refusingCommit : Env := { Env.quiet with
  reply := fun _ k => if k = .commit then .refused ⟨1290, by decide, by decide⟩ else .ack }

/-- A refused `COMMIT` in error mode leaves the session without an error, and a connection with an open transaction goes to
the pool. -/
theorem errorMode_pools_open : (runOps (step .plain) .init (updatingInErrorMode 0 ++ [.commit .quiet] ++
        updatingInErrorMode 0 ++ [.commit refusingCommit])).map (fun s =>
      (s.st.pool, s.st.isError, s.st.world.trxOpen 0)) = some ([(0, true, false)], false, true) := by
  decide +kernel

end Main

end TSpider.Xa
