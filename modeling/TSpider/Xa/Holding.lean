import TSpider.Xa.Reach

/-!
# The connections of a session over whole runs

`Holding n st`: the session's handle is tidy, its connections and those in the pool have numbers below `n`, and a pooled
connection has left its transaction. Every step keeps this, except a log failure between the two phases when the session
keeps its connections (`conn_recycle_mode` 2).
-/

namespace TSpider.Xa
open Lib

structure Conn.Unlocked (k : Conn) : Prop where
  tableLock : k.tableLock = 0
  openedHandlers : k.openedHandlers = false
  twoPhase : k.isXaCommitOnePhase = false

structure Holding (n : ConnId) (st : State) : Prop where
  tidy : Tidy st
  fresh : ∀ c ∈ st.trx.trxConnHash, c < n
  pool : ∀ e ∈ st.pool, e.1 < n ∧ e.1 ∉ st.trx.trxConnHash ∧ (st.conn e.1).joinTrx = false ∧ (st.conn e.1).Unlocked

/-- The log lets the commit phase begin, or the session does not keep its connections. -/
def LogKept (p : Params) (env : Env) (st : State) : Prop :=
  p.connRecycleMode = 2 → st.several → CommitLogged p env st

section Calls
variable {p : Params} {env : Env} {n : ConnId} {st u : State}

theorem Tidy.unlocked' (h : Tidy st) {c : ConnId} (hc : c ∈ st.trx.trxConnHash) : (st.conn c).Unlocked :=
  ⟨(h.unlocked c hc).1, (h.unlocked c hc).2.1, (h.unlocked c hc).2.2⟩

section Ended
variable (h : Ends p env st u) (htidy : Tidy st) (hne : st.trx.trxXa = true → st.trx.joinTrxTop ≠ [])
include h htidy hne

theorem Ends.unjoined {c : ConnId} (hc : c ∈ st.trx.trxConnHash) :
    (u.conn c).joinTrx = false ∨ (u.isError = true ∧ st.several ∧ ¬ CommitLogged p env st) := by
  by_cases hj : c ∈ st.trx.joinTrxTop
  · exact (h.leaves p env htidy hne).imp_left fun h => h c hj
  · refine .inl ?_
    rw [((h.keeps hne).same c hj).conn]
    simpa using fun h => hj ((htidy.joined c hc).mp h)

theorem Ends.released :
    Released p st.trx.trxConnHash u (freeTrxConn p env u) ∧ (finishTrx p env u).trx = { u.trx with
        trxConnHash := if p.connRecycleMode = 2 then st.trx.trxConnHash else [], trxConsistentSnapshot := false } := by
  have hkeeps := h.keeps hne
  have hfree := finishTrx_released p env u (by rw [hkeeps.hash]; exact htidy.hashNodup) fun c hc => by
    rw [hkeeps.hash] at hc
    exact ⟨(hkeeps.later c).tableLock (htidy.unlocked' hc).tableLock,
      (hkeeps.later c).openedHandlers.trans (htidy.unlocked' hc).openedHandlers⟩
  rwa [hkeeps.hash] at hfree

theorem Ends.unjoined_of_kept (hlog : u = st.rolledBack p env ∨ LogKept p env st)
    (hmode : p.connRecycleMode = 2) {c : ConnId} (hc : c ∈ st.trx.trxConnHash) : (u.conn c).joinTrx = false := by
  rcases hlog with rfl | hlog
  · by_cases hj : c ∈ st.trx.joinTrxTop
    · exact rolledBack_leaves p env htidy.nodup htidy.idle hj
    · rw [((h.keeps hne).same c hj).conn]
      simpa using fun h => hj ((htidy.joined c hc).mp h)
  · exact (h.unjoined htidy hne hc).resolve_right fun hno => hno.2.2 (hlog hmode hno.2.1)

end Ended

/-- **A call that ends the transaction** leaves the handle not started, with no joined connection. -/
theorem Ends.holding (h : Ends p env st u) (hst : Holding n st) (hne : st.trx.trxXa = true → st.trx.joinTrxTop ≠ [])
    (hlog : u = st.rolledBack p env ∨ LogKept p env st) : Holding n (finishTrx p env u) ∧
    (finishTrx p env u).trx.trxStart = false := by
  have htidy := hst.tidy
  have hkeeps := h.keeps hne
  obtain ⟨hrel, htrx⟩ := h.released htidy hne
  obtain ⟨hstart, hxa, htree⟩ := h.idle htidy
  have hsub : ∀ c ∈ (finishTrx p env u).trx.trxConnHash, c ∈ st.trx.trxConnHash ∧ p.connRecycleMode = 2 := by
    by_cases hmode : p.connRecycleMode = 2 <;> simp_all
  have hlock : ∀ c ∈ st.trx.trxConnHash, (u.conn c).tableLock = 0 ∧ (u.conn c).openedHandlers = false := fun c hc =>
    ⟨(hkeeps.later c).tableLock (htidy.unlocked' hc).tableLock,
      (hkeeps.later c).openedHandlers.trans (htidy.unlocked' hc).openedHandlers⟩
  have hunjoined : p.connRecycleMode = 2 → ∀ c ∈ st.trx.trxConnHash, (u.conn c).joinTrx = false := fun hmode c hc =>
    h.unjoined_of_kept htidy hne hlog hmode hc
  refine ⟨⟨?_, fun c hc => hst.fresh c (hsub c hc).1, fun e he => ?_⟩, by rw [htrx]; exact hstart⟩
  · refine {
      nodup := by rw [htrx]; simp [htree]
      hashNodup := by rw [htrx]; dsimp only; split_ifs <;> simp [htidy.hashNodup]
      sub := by rw [htrx]; simp [htree]
      joined := fun c hc => ?_
      unlocked := fun c hc => ?_
      xa := by rw [htrx]; simp [hxa]
      idle := fun _ => by rw [htrx]; exact htree
      nullDeref := hrel.nullDeref.trans (hkeeps.nullDeref.trans htidy.nullDeref) }
    · obtain ⟨hmem, hmode⟩ := hsub c hc
      have hconn : (finishTrx p env u).conn c = _ := hrel.kept hmode c hmem
      rw [hconn, htrx]
      simp [Conn.clearQueueAtCommit, hunjoined hmode c hmem, htree]
    · obtain ⟨hmem, hmode⟩ := hsub c hc
      have hconn : (finishTrx p env u).conn c = _ := hrel.kept hmode c hmem
      rw [hconn]
      exact ⟨(hlock c hmem).1, (hlock c hmem).2, rfl⟩
  · have he' : e ∈ (freeTrxConn p env u).pool := he
    rcases hrel.pool e he' with hold | ⟨c, hc, rfl, hmode, herr, -, hconn, -⟩
    · rw [hkeeps.pool] at hold
      obtain ⟨hlt, hnot, hj, hunlocked⟩ := hst.pool e hold
      have hsame : SameConn st (freeTrxConn p env u) e.1 :=
        (hkeeps.same e.1 fun hmem => hnot (htidy.sub _ hmem)).trans (hrel.same e.1 hnot)
      have hconn : (finishTrx p env u).conn e.1 = st.conn e.1 := hsame.conn
      rw [hconn]
      exact ⟨hlt, fun hmem => hnot (hsub _ hmem).1, hj, hunlocked⟩
    · have hconn' : (finishTrx p env u).conn c = (u.conn c).released := hconn
      have hj := (h.unjoined htidy hne hc).resolve_right fun hno => by simp [herr] at hno
      rw [hconn']
      exact ⟨hst.fresh c hc, fun hmem => absurd (hsub _ hmem).2 (by omega), hj, (hlock c hc).1, (hlock c hc).2, rfl⟩

theorem freePreparedTrx_holding (hst : Holding n st) (hsev : st.several) :
    Holding n (freePreparedTrx (internalXaPrepare p env st).2) := by
  have htidy := hst.tidy
  obtain ⟨hkeeps, htrx⟩ := internalXaPrepare_keeps p env hsev.2
  obtain ⟨w, heq, hsame⟩ := freePreparedTrx_eq (internalXaPrepare p env st).2
  have htrx' : (freePreparedTrx (internalXaPrepare p env st).2).trx = { st.trx with
      joinTrxTop := [], trxConnHash := st.trx.trxConnHash.diff st.trx.joinTrxTop } := by rw [heq, htrx]
  rw [htrx] at hsame
  have hmem : ∀ c, c ∈ (freePreparedTrx (internalXaPrepare p env st).2).trx.trxConnHash ↔
      c ∈ st.trx.trxConnHash ∧ c ∉ st.trx.joinTrxTop := fun c => by
    rw [htrx']; exact htidy.hashNodup.mem_sdiff_iff
  have hconn : ∀ c, c ∉ st.trx.joinTrxTop → (freePreparedTrx (internalXaPrepare p env st).2).conn c = st.conn c :=
    fun c hc => (hsame c hc).conn.trans (hkeeps.same c hc).conn
  refine ⟨?_, fun c hc => hst.fresh c ((hmem c).mp hc).1, fun e he => ?_⟩
  · refine {
      nodup := by rw [htrx']; simp
      hashNodup := by rw [htrx']; exact htidy.hashNodup.diff
      sub := by rw [htrx']; simp
      joined := fun c hc => ?_
      unlocked := fun c hc => ?_
      xa := fun _ => ?_
      idle := fun _ => by rw [htrx']
      nullDeref := by rw [heq]; exact hkeeps.nullDeref.trans htidy.nullDeref }
    · obtain ⟨hin, hout⟩ := (hmem c).mp hc
      rw [hconn c hout, htidy.joined c hin, htrx']
      simp [hout]
    · obtain ⟨hin, hout⟩ := (hmem c).mp hc
      rw [hconn c hout]
      exact htidy.unlocked c hin
    · obtain ⟨h1, h2, h3, -⟩ := htidy.xa hsev.1
      rw [htrx']
      exact ⟨h1, h2, h3, by simp⟩
  · have he' : e ∈ st.pool := by rw [heq] at he; rwa [← hkeeps.pool]
    obtain ⟨hlt, hnot, hj, hunlocked⟩ := hst.pool e he'
    rw [hconn e.1 fun h => hnot (htidy.sub _ h)]
    exact ⟨hlt, fun h => hnot ((hmem _).mp h).1, hj, hunlocked⟩

end Calls

/-! ## The other steps -/

structure SameMarks (k k' : Conn) : Prop where
  joinTrx : k'.joinTrx = k.joinTrx
  tableLock : k'.tableLock = k.tableLock
  openedHandlers : k'.openedHandlers = k.openedHandlers
  twoPhase : k'.isXaCommitOnePhase = k.isXaCommitOnePhase
  disableXa : k'.disableXa = k.disableXa

theorem SameMarks.refl (k : Conn) : SameMarks k k := ⟨rfl, rfl, rfl, rfl, rfl⟩

theorem SameMarks.trans {k k' k'' : Conn} (h : SameMarks k k') (h' : SameMarks k' k'') : SameMarks k k'' :=
  ⟨h'.joinTrx.trans h.joinTrx, h'.tableLock.trans h.tableLock, h'.openedHandlers.trans h.openedHandlers,
    h'.twoPhase.trans h.twoPhase, h'.disableXa.trans h.disableXa⟩

theorem SameMarks.unlocked {k k' : Conn} (h : SameMarks k k') (hk : k.Unlocked) : k'.Unlocked :=
  ⟨h.tableLock.trans hk.tableLock, h.openedHandlers.trans hk.openedHandlers, h.twoPhase.trans hk.twoPhase⟩

structure Marks (st u : State) : Prop where
  trx : u.trx = { st.trx with updatedInThisTrx := u.trx.updatedInThisTrx }
  pool : u.pool = st.pool
  nullDeref : u.nullDeref = st.nullDeref
  conn : ∀ d, SameMarks (st.conn d) (u.conn d)

section Marks
variable {n : ConnId} {st t u : State}

theorem Marks.refl (st : State) : Marks st st := ⟨rfl, rfl, rfl, fun _ => .refl _⟩

theorem Marks.trans (h : Marks st t) (h' : Marks t u) : Marks st u :=
  ⟨by rw [h'.trx, h.trx], h'.pool.trans h.pool, h'.nullDeref.trans h.nullDeref, fun d => (h.conn d).trans (h'.conn d)⟩

theorem Marks.setConn (st : State) (c : ConnId) (k : Conn) (hk : SameMarks (st.conn c) k) : Marks st (st.setConn c k) where
  trx := rfl
  pool := rfl
  nullDeref := rfl
  conn d := by
    by_cases hd : d = c
    · subst hd; simpa using hk
    · rw [setConn_conn_ne st c d k hd]; exact .refl _

theorem Marks.tree (h : Marks st u) : u.trx.joinTrxTop = st.trx.joinTrxTop ∧ u.trx.trxConnHash = st.trx.trxConnHash ∧
    u.trx.trxStart = st.trx.trxStart ∧ u.trx.trxXa = st.trx.trxXa ∧ u.trx.xid = st.trx.xid := by
  rw [h.trx]
  exact ⟨rfl, rfl, rfl, rfl, rfl⟩

theorem Marks.holding (h : Marks st u) (hst : Holding n st) : Holding n u := by
  obtain ⟨htree, hhash, -⟩ := h.tree
  have htidy := hst.tidy
  refine ⟨?_, fun c hc => hst.fresh c (hhash ▸ hc), fun e he => ?_⟩
  · refine {
      nodup := by rw [htree]; exact htidy.nodup
      hashNodup := by rw [hhash]; exact htidy.hashNodup
      sub := by rw [htree, hhash]; exact htidy.sub
      joined := fun c hc => by rw [(h.conn c).joinTrx, htree]; exact htidy.joined c (hhash ▸ hc)
      unlocked := fun c hc => by
        have := (h.conn c).unlocked (htidy.unlocked' (hhash ▸ hc))
        exact ⟨this.tableLock, this.openedHandlers, this.twoPhase⟩
      xa := fun hxa => ?_
      idle := by rw [h.trx]; exact htidy.idle
      nullDeref := h.nullDeref.trans htidy.nullDeref }
    rw [h.trx] at hxa ⊢
    obtain ⟨h1, h2, h3, h4⟩ := htidy.xa hxa
    exact ⟨h1, h2, h3, fun c hc => (h.conn c).disableXa.trans (h4 c hc)⟩
  · rw [h.pool] at he
    obtain ⟨hlt, hnot, hj, hunlocked⟩ := hst.pool e he
    exact ⟨hlt, by rw [hhash]; exact hnot, (h.conn _).joinTrx.trans hj, (h.conn _).unlocked hunlocked⟩

end Marks

/-! ## Statements on a connection -/

section Query
variable (v : Vars) (transmit : Bool) (q : Query) (c : ConnId)

theorem marks_world (st : State) (w : World) : Marks st { st with world := w } := ⟨rfl, rfl, rfl, fun _ => .refl _⟩

theorem marks_setConn_world (st : State) (c : ConnId) (k : Conn) (w : World) (hk : SameMarks (st.conn c) k) :
    Marks st { st.setConn c k with world := w } :=
  (Marks.setConn st c k hk).trans (marks_world _ w)

theorem marks_fail (st : State) (told : Bool) : Marks st (st.fail told) := by
  unfold State.fail
  split_ifs
  · exact ⟨rfl, rfl, rfl, fun _ => .refl _⟩
  · exact .refl st

theorem marks_dropConn (st : State) : Marks st (st.dropConn c) :=
  marks_setConn_world st c _ _ ⟨rfl, rfl, rfl, rfl, rfl⟩

theorem openConn_marks {st u : State} (h : openConn v q c st = some u) : Marks st u := by
  unfold openConn at h
  split_ifs at h
  · cases h
    exact marks_setConn_world st c _ _ ⟨rfl, rfl, rfl, rfl, rfl⟩
  · cases h
    exact .refl st

theorem queueAction_marks (st : State) : Marks st (queueAction v transmit q c st).2 := by
  unfold queueAction
  cases q.queue with
  | ack => exact marks_setConn_world st c _ _ ⟨rfl, rfl, rfl, rfl, rfl⟩
  | refused autocommitSet =>
    dsimp only
    split_ifs
    · exact marks_world _ _
    · exact .refl st
  | lost => exact marks_dropConn c st

theorem remoteQuery_marks (st : State) : Marks st (remoteQuery v transmit q c st) := by
  unfold remoteQuery
  split
  · exact (Marks.setConn st c { st.conn c with serverLost := true } ⟨rfl, rfl, rfl, rfl, rfl⟩).trans (marks_fail _ _)
  · rename_i u hu
    refine (openConn_marks v q c hu).trans ?_
    split_ifs
    · exact marks_fail _ _
    · have hqueue : Marks u (queueAction v transmit q c (u.setConn c { u.conn c with ignoreDupKey := q.ignoreDupKey })).2 :=
        (Marks.setConn u c { u.conn c with ignoreDupKey := q.ignoreDupKey } ⟨rfl, rfl, rfl, rfl, rfl⟩).trans
          (queueAction_marks v transmit q c _)
      dsimp only
      split_ifs
      · refine hqueue.trans ?_
        split
        · exact marks_world _ _
        · exact (marks_world _ _).trans (marks_fail _ _)
        · exact (marks_dropConn c _).trans (marks_fail _ _)
      · exact hqueue.trans (marks_fail _ _)

end Query

/-! ## Taking a connection -/

section Take
variable {n : ConnId} {st : State} {c : ConnId}

theorem Tidy.hold (htidy : Tidy st) (hnot : c ∉ st.trx.trxConnHash) (hj : (st.conn c).joinTrx = false)
    (hun : (st.conn c).Unlocked) : Tidy (st.hold c) where
  nodup := htidy.nodup
  hashNodup := List.nodup_cons.mpr ⟨hnot, htidy.hashNodup⟩
  sub d hd := List.mem_cons_of_mem c (htidy.sub d hd)
  joined d hd := by
    rcases List.mem_cons.mp hd with rfl | hd
    · have hout : d ∉ st.trx.joinTrxTop := fun h => hnot (htidy.sub d h)
      simp [State.hold, hj, hout]
    · exact htidy.joined d hd
  unlocked d hd := by
    rcases List.mem_cons.mp hd with rfl | hd
    · exact ⟨hun.tableLock, hun.openedHandlers, hun.twoPhase⟩
    · exact htidy.unlocked d hd
  xa := htidy.xa
  idle := htidy.idle
  nullDeref := htidy.nullDeref

theorem holding_takeConn (hst : Holding n st) (hc : st.pooled c = true) (hnot : c ∉ st.trx.trxConnHash) :
    Holding n ((st.takeConn c).hold c) := by
  obtain ⟨e, he, heq⟩ := List.any_eq_true.mp hc
  obtain rfl : e.1 = c := by simpa using heq
  obtain ⟨hlt, -, hj, hun⟩ := hst.pool e he
  have htidy : Tidy (st.takeConn e.1) := { hst.tidy with }
  refine ⟨htidy.hold hnot hj hun, fun d hd => ?_, fun e' he' => ?_⟩
  · rcases List.mem_cons.mp hd with rfl | hd
    exacts [hlt, hst.fresh d hd]
  · obtain ⟨hmem, hne⟩ := List.mem_filter.mp he'
    obtain ⟨hlt', hnot', hrest⟩ := hst.pool e' hmem
    exact ⟨hlt', List.not_mem_cons_of_ne_of_not_mem (by simpa using hne) hnot', hrest⟩

theorem holding_new (hst : Holding n st) (server : Server) : Holding (n + 1) ((st.setConn n (.new server)).hold n) := by
  have hnot : n ∉ st.trx.trxConnHash := fun h => lt_irrefl n (hst.fresh n h)
  have hconn : ∀ d, d < n → (st.setConn n (.new server)).conn d = st.conn d := fun d hd =>
    setConn_conn_ne st n d _ hd.ne
  have htidy : Tidy (st.setConn n (.new server)) := {
    hst.tidy with
    joined := fun d hd => by rw [hconn d (hst.fresh d hd)]; exact hst.tidy.joined d hd
    unlocked := fun d hd => by rw [hconn d (hst.fresh d hd)]; exact hst.tidy.unlocked d hd
    xa := fun hxa => by
      obtain ⟨h1, h2, h3, h4⟩ := hst.tidy.xa hxa
      refine ⟨h1, h2, h3, fun d hd => ?_⟩
      rw [hconn d (hst.fresh d (hst.tidy.sub d hd))]
      exact h4 d hd }
  have hself : (st.setConn n (.new server)).conn n = .new server := by simp
  refine ⟨htidy.hold hnot (by rw [hself]; rfl) (by rw [hself]; exact ⟨rfl, rfl, rfl⟩), fun d hd => ?_, fun e he => ?_⟩
  · rcases List.mem_cons.mp hd with rfl | hd
    exacts [Nat.lt_succ_self d, (hst.fresh d hd).trans (Nat.lt_succ_self n)]
  · obtain ⟨hlt, hnot', hj, hun⟩ := hst.pool e he
    have hc : ((st.setConn n (.new server)).hold n).conn e.1 = st.conn e.1 := hconn e.1 hlt
    rw [hc]
    exact ⟨hlt.trans (Nat.lt_succ_self n), List.not_mem_cons_of_ne_of_not_mem hlt.ne hnot', hj, hun⟩

end Take

/-! ## Joining the transaction -/

section Join
variable {n : ConnId} {st : State} {c : ConnId}

theorem mem_treeInsert (priority : ConnId → Int) (c d : ConnId) (tree : List ConnId) :
    d ∈ treeInsert priority c tree ↔ d = c ∨ d ∈ tree := List.mem_orderedInsert _

theorem holding_join (hst : Holding n st) (hstart : st.trx.trxStart = true) (hc : c ∈ st.trx.trxConnHash)
    (hj : (st.conn c).joinTrx = false) (priority : ConnId → Int) {k : Conn} (hk : k.joinTrx = true)
    (hun : k.Unlocked) (hxa : st.trx.trxXa = true → k.disableXa = false) :
    Holding n { st.setConn c k with trx := { st.trx with joinTrxTop := treeInsert priority c st.trx.joinTrxTop } } := by
  have htidy := hst.tidy
  have hout : c ∉ st.trx.joinTrxTop := fun h => by simp [(htidy.joined c hc).mpr h] at hj
  have hself : (st.setConn c k).conn c = k := by simp
  refine ⟨?_, hst.fresh, fun e he => ?_⟩
  · refine {
      nodup := ((List.perm_orderedInsert _ c st.trx.joinTrxTop).nodup_iff).mpr (List.nodup_cons.mpr ⟨hout, htidy.nodup⟩)
      hashNodup := htidy.hashNodup
      sub := fun d hd => ?_
      joined := fun d hd => ?_
      unlocked := fun d hd => ?_
      xa := fun h => ?_
      idle := fun h => absurd h (by simp [hstart])
      nullDeref := htidy.nullDeref }
    · rcases (mem_treeInsert priority c d _).mp hd with rfl | hd
      exacts [hc, htidy.sub d hd]
    · rw [mem_treeInsert]
      by_cases hdc : d = c
      · subst hdc; simp [hk]
      · rw [setConn_conn_ne st c d k hdc, htidy.joined d hd]; simp [hdc]
    · by_cases hdc : d = c
      · subst hdc; rw [hself]; exact ⟨hun.tableLock, hun.openedHandlers, hun.twoPhase⟩
      · rw [setConn_conn_ne st c d k hdc]; exact htidy.unlocked d hd
    · obtain ⟨h1, h2, h3, h4⟩ := htidy.xa h
      refine ⟨h1, h2, h3, fun d hd => ?_⟩
      by_cases hdc : d = c
      · subst hdc; rw [hself]; exact hxa h
      · rw [setConn_conn_ne st c d k hdc]
        exact h4 d (((mem_treeInsert priority c d _).mp hd).resolve_left hdc)
  · obtain ⟨hlt, hnot, hj', hun'⟩ := hst.pool e he
    have hne : e.1 ≠ c := fun h => hnot (h ▸ hc)
    have hconn : (st.setConn c k).conn e.1 = st.conn e.1 := setConn_conn_ne st c e.1 k hne
    rw [hconn]
    exact ⟨hlt, hnot, hj', hun'⟩

end Join

end TSpider.Xa
