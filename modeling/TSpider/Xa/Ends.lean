import TSpider.Xa.Release
import TSpider.Xa.Report

/-!
# How a call ends the transaction

`Tidy st` is what every call of `spider_commit` or `spider_rollback` finds in a session. A call that ends the transaction
brings the connections into a state `u` with `Ends p env st u` and releases them with `finishTrx`; the only other exit is
`spider_free_prepared_trx`, after a one-phase commit whose outcome is unknown. This file says what `u` keeps of `st`.
-/

namespace TSpider.Xa
open Lib State

structure Tidy (st : State) : Prop where
  nodup : st.trx.joinTrxTop.Nodup
  hashNodup : st.trx.trxConnHash.Nodup
  sub : ∀ c ∈ st.trx.joinTrxTop, c ∈ st.trx.trxConnHash
  joined : ∀ c ∈ st.trx.trxConnHash, (st.conn c).joinTrx = true ↔ c ∈ st.trx.joinTrxTop
  unlocked : ∀ c ∈ st.trx.trxConnHash, (st.conn c).tableLock = 0 ∧ (st.conn c).openedHandlers = false ∧
    (st.conn c).isXaCommitOnePhase = false
  xa : st.trx.trxXa = true → st.trx.trxStart = true ∧ st.trx.internalXa = true ∧ st.trx.trxXaPrepared = false ∧
    ∀ c ∈ st.trx.joinTrxTop, (st.conn c).disableXa = false
  idle : st.trx.trxStart = false → st.trx.joinTrxTop = []
  nullDeref : st.nullDeref = false

/-- What a call keeps of the session while it works on the connections of `C`. -/
structure Keeps (C : ConnId → Prop) (st u : State) : Prop where
  hash : u.trx.trxConnHash = st.trx.trxConnHash
  pool : u.pool = st.pool
  nullDeref : u.nullDeref = st.nullDeref
  same : ∀ d, ¬ C d → SameConn st u d
  later : ∀ d, Conn.Later (st.conn d) (u.conn d)
  trxOpen : ∀ d, u.world.trxOpen d = true → st.world.trxOpen d = true
  autocommit : u.world.autocommit = st.world.autocommit
  trace : ∀ e ∈ st.trace, e ∈ u.trace

section Keeps
variable {C : ConnId → Prop} {st t u : State}

theorem Keeps.refl (st : State) : Keeps C st st :=
  ⟨rfl, rfl, rfl, fun d _ => .refl st d, fun _ => .refl _, fun _ => id, rfl, fun _ => id⟩

theorem Keeps.trans (h : Keeps C st t) (h' : Keeps C t u) : Keeps C st u where
  hash := h'.hash.trans h.hash
  pool := h'.pool.trans h.pool
  nullDeref := h'.nullDeref.trans h.nullDeref
  same d hd := (h.same d hd).trans (h'.same d hd)
  later d := (h.later d).trans (h'.later d)
  trxOpen d hd := h.trxOpen d (h'.trxOpen d hd)
  autocommit := h'.autocommit.trans h.autocommit
  trace e he := h'.trace e (h.trace e he)

theorem Touches.keeps {S : Stmt → Prop} {C' : ConnId → Prop} (h : Touches S C' st t) (hC : ∀ c, C' c → C c) :
    Keeps C st t where
  hash := by rw [h.trx]
  pool := h.pool
  nullDeref := h.nullDeref
  same d hd := by
    have hd' : ¬ C' d := fun h' => hd (hC d h')
    exact ⟨h.conn d hd', h.branch_eq d hd', h.trxOpen_eq d hd', by rw [h.autocommit]⟩
  later := h.later
  trxOpen := h.trxOpen
  autocommit := h.autocommit
  trace _ he := h.mem_trace he

theorem LogsOnly.keeps (h : LogsOnly st t) : Keeps C st t where
  hash := by rw [h.trx]
  pool := h.pool
  nullDeref := h.nullDeref
  same d _ := ⟨by rw [h.conn], by rw [h.world], by rw [h.world], by rw [h.world]⟩
  later d := by rw [h.conn]; exact .refl _
  trxOpen d hd := by rwa [h.world] at hd
  autocommit := by rw [h.world]
  trace _ he := h.mem_trace he

theorem Keeps.trx (x : Trx) (hx : x.trxConnHash = st.trx.trxConnHash) : Keeps C st { st with trx := x } :=
  { Keeps.refl (C := C) st with hash := hx, same := fun _ _ => ⟨rfl, rfl, rfl, rfl⟩ }

theorem Keeps.setIsError (b : Bool) : Keeps C st { st with isError := b } :=
  { Keeps.refl (C := C) st with same := fun _ _ => ⟨rfl, rfl, rfl, rfl⟩ }

theorem Keeps.clearTree (h : Keeps C st t) : Keeps C st t.clearTree := h.trans (.trx _ rfl)

theorem Keeps.markPrepared (h : Keeps C st t) : Keeps C st t.markPrepared := h.trans (.trx _ rfl)

theorem Keeps.andThen {r : Nat × State} {k : State → Nat × State} (h : Keeps C st r.2) (hk : Keeps C r.2 (k r.2).2) :
    Keeps C st (andThen r k).2 :=
  andThen_rule h fun _ h => h.trans hk

theorem Keeps.reportTimeout {r : Nat × State} (h : Keeps C st r.2) : Keeps C st (reportTimeout r).2 := by
  unfold Xa.reportTimeout
  split_ifs
  · exact h.trans (.setIsError true)
  · exact h

end Keeps

/-! ## The phases -/

def rollbackLoop (p : Params) (env : Env) (st : State) : Nat × State :=
  forEach (rollbackConn p env st.isError) st.trx.joinTrxTop 0 st

def commitPlain (p : Params) (env : Env) (st : State) : Nat × State :=
  forEach (commitPlainConn p env st.isError) st.trx.joinTrxTop 0 st

def rollbackPlain (p : Params) (env : Env) (st : State) : Nat × State :=
  forEach (rollbackPlainConn p env st.isError) st.trx.joinTrxTop 0 st

section Phases
variable (p : Params) (env : Env) {st : State}

theorem internalXaPrepare_eq (hlen : 2 ≤ st.trx.joinTrxTop.length) : internalXaPrepare p env st =
    andThen (prepareLog p env st) fun t => andThen (prepareLoop p env t) fun u =>
      andThen (dbXaCommitOnePhase p env st.trx.last u) (preparedLog p env) := by
  have htrx := (prepareLog_only p env st).trx
  unfold internalXaPrepare
  by_cases hzero : (prepareLog p env st).1 = 0
  · rw [andThen_of_zero hzero, andThen_of_zero hzero, prepareConns_eq p env (by rw [htrx]; exact hlen), andThen_assoc, htrx]
  · rw [andThen_of_ne hzero, andThen_of_ne hzero]

theorem internalXaPrepare_keeps (hlen : 2 ≤ st.trx.joinTrxTop.length) :
    Keeps (· ∈ st.trx.joinTrxTop) st (internalXaPrepare p env st).2 ∧ (internalXaPrepare p env st).2.trx = st.trx := by
  have hne : st.trx.joinTrxTop ≠ [] := List.length_pos_iff.mp (by omega)
  have hlast : st.trx.last ∈ st.trx.joinTrxTop := (mem_joined_iff hne).mpr (.inr rfl)
  refine ⟨?_, (internalXaPrepare_trx p env hlen).1⟩
  refine internalXaPrepare_rule p env hlen (fun h ht => ht.trans h.keeps)
    (fun da c hc t _ ht => ht.trans ?_) (fun t ht => ht.trans ?_) (.refl st)
  · exact (prepareConn_touches p env da rfl t).keeps fun d hd => hd ▸ List.dropLast_subset _ hc
  · exact (onePhase_touches p env _ t).keeps fun d hd => hd ▸ hlast

theorem internalXaCommit_keepsTree (st : State) : Keeps (· ∈ st.trx.joinTrxTop) st (internalXaCommit p env st).2 := by
  have honly := commitLog_only p env st
  refine Keeps.andThen honly.keeps (Keeps.andThen ?_ (deleteLog_only p env _).keeps)
  have hloop := commitLoop_touches p env (commitLog p env st).2
  rw [honly.trx] at hloop
  exact Keeps.reportTimeout (Keeps.clearTree (hloop.keeps fun _ h => h))

theorem internalXaCommitOnePhase_tree (st : State) : (internalXaCommitOnePhase p env st).2.trx.joinTrxTop = [] := by
  unfold internalXaCommitOnePhase reportTimeout
  dsimp only
  split_ifs <;> rfl

theorem internalXaCommitOnePhase_keeps (st : State) :
    Keeps (· ∈ st.trx.joinTrxTop) st (internalXaCommitOnePhase p env st).2 := by
  have hloop : Touches Stmt.ofOnePhase (· ∈ st.trx.joinTrxTop) st
      (forEach (onePhaseConn p env) st.trx.joinTrxTop 0 st).2 :=
    forEach_touches 0 st fun _ hc e t => onePhaseConn_touches p env hc e t
  exact Keeps.reportTimeout (Keeps.clearTree (hloop.keeps fun _ h => h))

end Phases

/-! ## The exits -/

def State.rolledBack (p : Params) (env : Env) (st : State) : State :=
  if st.trx.trxStart then
    (if st.trx.trxXa then (rollbackLoop p env st).2.leaveXa else (rollbackPlain p env st).2.clearTree).endStarted
  else st

def State.committed (p : Params) (env : Env) (st : State) : State :=
  if st.trx.trxStart then
    (if st.trx.trxXa then
      (if st.trx.joinTrxTop.length = 1 then (internalXaCommit p env (internalXaCommitOnePhase p env st).2).2
        else (internalXaCommit p env (internalXaPrepare p env st).2.markPrepared).2).leaveXa
      else (commitPlain p env st).2.clearTree).endStarted
  else st

def State.several (st : State) : Prop := st.trx.trxXa = true ∧ 2 ≤ st.trx.joinTrxTop.length

inductive Ends (p : Params) (env : Env) (st : State) : State → Prop where
  | rollback : Ends p env st (st.rolledBack p env)
  | commit (h : st.several → (internalXaPrepare p env st).1 = 0) : Ends p env st (st.committed p env)
  | failed (h : st.several) (hne : (internalXaPrepare p env st).1 ≠ 0) :
    Ends p env st ((internalXaPrepare p env st).2.rolledBack p env)

section Exits
variable (p : Params) (env : Env) (all : Bool) {st u : State}

theorem spiderRollback_ends (hcall : all = true ∨ p.multiStmt = false) (hkill : p.lastKilled ≠ .killConnection)
    (hprep : st.trx.trxXa = true → st.trx.trxXaPrepared = false) :
    (spiderRollback p env all st).2 = finishTrx p env (st.rolledBack p env) := by
  unfold rolledBack
  by_cases hstart : st.trx.trxStart = true
  · rw [if_pos hstart]
    by_cases hxa : st.trx.trxXa = true
    · rw [if_pos hxa, spiderRollback_xa p env all hstart hxa (hprep hxa) hcall hkill]
      rfl
    · unfold spiderRollback
      rw [if_neg hkill, if_pos (by simpa using hcall), if_pos hstart, if_neg hxa, if_neg hxa]
      rfl
  · unfold spiderRollback
    rw [if_neg hkill, if_pos (by simpa using hcall), if_neg hstart, if_neg hstart]

/-- **The exits of `spider_commit`.** -/
theorem spiderCommit_ends (hcall : all = true ∨ p.multiStmt = false) (hkill : p.lastKilled ≠ .killConnection)
    (htidy : Tidy st) (hne : st.trx.trxXa = true → st.trx.joinTrxTop ≠ []) :
    (∃ u, Ends p env st u ∧ (spiderCommit p env all st).2 = finishTrx p env u) ∨
      (st.several ∧ (internalXaPrepare p env st).1 = erSpiderXaTimeout ∧
        (spiderCommit p env all st).2 = freePreparedTrx (internalXaPrepare p env st).2) := by
  have hcall' : (all || !p.multiStmt) = true := by simpa using hcall
  by_cases hstart : st.trx.trxStart = true
  swap
  · refine .inl ⟨_, .rollback, ?_⟩
    unfold spiderCommit rolledBack
    rw [if_pos hcall', if_neg hstart, if_neg hstart]
  by_cases hxa : st.trx.trxXa = true
  swap
  · refine .inl ⟨_, .commit fun h => absurd h.1 hxa, ?_⟩
    unfold spiderCommit committed
    rw [if_pos hcall', if_pos hstart, if_neg hxa, if_pos hstart, if_neg hxa]
    rfl
  obtain ⟨-, hinternal, hprep, -⟩ := htidy.xa hxa
  have hcommit : (spiderCommit p env all st).2 = if (commitXa p env all st).2.2 then (commitXa p env all st).2.1
      else finishTrx p env (commitXa p env all st).2.1.leaveXa.endStarted := by
    rw [spiderCommit_xa p env all hstart hxa hinternal hprep hcall]
    split_ifs <;> rfl
  by_cases hone : st.trx.joinTrxTop.length = 1
  · refine .inl ⟨_, .commit fun h => absurd h.2 (by omega), ?_⟩
    rw [hcommit, commitXa_one p env all hone]
    simp [committed, hstart, hxa, hone]
  have hlen : 2 ≤ st.trx.joinTrxTop.length := by
    have := List.length_pos_iff.mpr (hne hxa)
    omega
  obtain ⟨hkeeps, htrx⟩ := internalXaPrepare_keeps p env hlen
  have hnull : (internalXaPrepare p env st).2.nullDeref = false := hkeeps.nullDeref.trans htidy.nullDeref
  have hxaCommit : commitXa p env all st =
      if (internalXaPrepare p env st).1 = erSpiderXaTimeout then
        ((internalXaPrepare p env st).1, freePreparedTrx (internalXaPrepare p env st).2, true)
      else if (internalXaPrepare p env st).1 ≠ 0 then
        ((internalXaPrepare p env st).1, (spiderRollback p env all (internalXaPrepare p env st).2).2, true)
      else ((internalXaCommit p env (internalXaPrepare p env st).2.markPrepared).1,
        (internalXaCommit p env (internalXaPrepare p env st).2.markPrepared).2, false) := by
    unfold commitXa
    rw [if_neg hone]
    simp [hnull]
  rw [hcommit, hxaCommit]
  by_cases htime : (internalXaPrepare p env st).1 = erSpiderXaTimeout
  · exact .inr ⟨⟨hxa, hlen⟩, htime, by simp [htime]⟩
  by_cases hzero : (internalXaPrepare p env st).1 = 0
  · refine .inl ⟨_, .commit fun _ => hzero, ?_⟩
    simp [hzero, zero_ne_timeout, committed, hstart, hxa, hone]
  · refine .inl ⟨_, .failed ⟨hxa, hlen⟩ hzero, ?_⟩
    have hprep' : (internalXaPrepare p env st).2.trx.trxXaPrepared = false := by rw [htrx]; exact hprep
    have hroll := spiderRollback_ends p env all hcall hkill fun _ => hprep'
    simp [htime, hzero, hroll]

end Exits

/-! ## What the exits leave -/

section Frame
variable {p : Params} {env : Env} {st u : State}

variable (p env) in
theorem rolledBack_keeps (st : State) : Keeps (· ∈ st.trx.joinTrxTop) st (st.rolledBack p env) := by
  unfold rolledBack
  split_ifs
  · exact ((rollbackLoop_touches p env st 0).keeps fun _ h => h).trans (.trx _ rfl)
  · have hloop : Touches Stmt.ofPlain (· ∈ st.trx.joinTrxTop) st (rollbackPlain p env st).2 :=
      forEach_touches 0 st fun _ hc e t => rollbackPlainConn_touches p env st.isError hc e t
    exact (hloop.keeps fun _ h => h).trans (.trx _ rfl)
  · exact .refl st

theorem committed_keeps (hne : st.trx.trxXa = true → st.trx.joinTrxTop ≠ []) :
    Keeps (· ∈ st.trx.joinTrxTop) st (st.committed p env) := by
  unfold committed
  split_ifs with hstart hxa hone
  · have hlast := internalXaCommit_keepsTree p env (internalXaCommitOnePhase p env st).2
    rw [internalXaCommitOnePhase_tree] at hlast
    have hfirst := internalXaCommitOnePhase_keeps p env st
    exact (hfirst.trans { hlast with same := fun d _ => hlast.same d (by simp) }).trans (.trx _ rfl)
  · have hlen : 2 ≤ st.trx.joinTrxTop.length := by
      have := List.length_pos_iff.mpr (hne hxa)
      omega
    obtain ⟨hprep, htrx⟩ := internalXaPrepare_keeps p env hlen
    have hcommit := internalXaCommit_keepsTree p env (internalXaPrepare p env st).2.markPrepared
    rw [markPrepared_joinTrxTop, htrx] at hcommit
    exact (hprep.markPrepared.trans hcommit).trans (.trx _ rfl)
  · have hloop : Touches Stmt.ofPlain (· ∈ st.trx.joinTrxTop) st (commitPlain p env st).2 :=
      forEach_touches 0 st fun _ hc e t => commitPlainConn_touches p env st.isError hc e t
    exact (hloop.keeps fun _ h => h).trans (.trx _ rfl)
  · exact .refl st

theorem Ends.keeps (h : Ends p env st u) (hne : st.trx.trxXa = true → st.trx.joinTrxTop ≠ []) :
    Keeps (· ∈ st.trx.joinTrxTop) st u := by
  cases h with
  | rollback => exact rolledBack_keeps p env st
  | commit h => exact committed_keeps hne
  | failed h _ =>
    obtain ⟨hprep, htrx⟩ := internalXaPrepare_keeps p env h.2
    have hroll := rolledBack_keeps p env (internalXaPrepare p env st).2
    rw [htrx] at hroll
    exact hprep.trans hroll

theorem rolledBack_idle (hxa : st.trx.trxXa = true → st.trx.trxStart = true)
    (hidle : st.trx.trxStart = false → st.trx.joinTrxTop = []) :
    (st.rolledBack p env).trx.trxStart = false ∧ (st.rolledBack p env).trx.trxXa = false ∧
      (st.rolledBack p env).trx.joinTrxTop = [] := by
  unfold rolledBack
  split_ifs with hstart hx
  · exact ⟨rfl, rfl, rfl⟩
  · have htrx : (rollbackPlain p env st).2.trx = st.trx :=
      (forEach_touches 0 st fun _ hc e t =>
        rollbackPlainConn_touches p env st.isError hc e t).trx
    exact ⟨rfl, by simpa [endStarted, clearTree, htrx] using hx, rfl⟩
  · have hstart : st.trx.trxStart = false := by simpa using hstart
    exact ⟨hstart, by simpa [hstart] using hxa, hidle hstart⟩

/-- **The transaction handle is reset.** -/
theorem Ends.idle (h : Ends p env st u) (htidy : Tidy st) :
    u.trx.trxStart = false ∧ u.trx.trxXa = false ∧ u.trx.joinTrxTop = [] := by
  have hxa := fun h => (htidy.xa h).1
  cases h with
  | rollback => exact rolledBack_idle hxa htidy.idle
  | commit h =>
    unfold committed
    split_ifs with hstart hx
    · exact ⟨rfl, rfl, rfl⟩
    · exact ⟨rfl, rfl, rfl⟩
    · have htrx : (commitPlain p env st).2.trx = st.trx :=
        (forEach_touches 0 st fun _ hc e t =>
          commitPlainConn_touches p env st.isError hc e t).trx
      exact ⟨rfl, by simpa [endStarted, clearTree, htrx] using hx, rfl⟩
    · have hstart : st.trx.trxStart = false := by simpa using hstart
      exact ⟨hstart, by simpa [hstart] using hxa, htidy.idle hstart⟩
  | failed h _ =>
    obtain ⟨-, htrx⟩ := internalXaPrepare_keeps p env h.2
    exact rolledBack_idle (by rw [htrx]; exact hxa) (by rw [htrx]; exact htidy.idle)

end Frame

/-! ## The connections leave the transaction -/

section Leave
variable (p : Params) (env : Env) {st u : State} {c : ConnId}

theorem forEach_leaves {S : Stmt → Prop} {body : ConnId → Nat → State → Nat × State}
    (hbody : ∀ c e t, Touches S (· = c) t (body c e t).2) (hleave : ∀ c e t, ((body c e t).2.conn c).joinTrx = false)
    {cs : List ConnId} (hnodup : cs.Nodup) (hc : c ∈ cs) (e : Nat) (st : State) :
    ((forEach body cs e st).2.conn c).joinTrx = false := by
  obtain ⟨e', t, -, -, -, hlast⟩ := forEach_visit
    (fun _ => trivial) (fun _ _ _ _ _ => trivial) (fun _ _ _ => trivial) (fun c e t d hd => (hbody c e t).see_eq hd) hnodup hc
  rw [see_conn hlast]
  exact hleave c e' t

theorem commitConn_leaves (da : Bool) (c : ConnId) (e : Nat) (t : State) :
    ((commitConn p env da c e t).2.conn c).joinTrx = false := by
  unfold commitConn
  split_ifs with hj
  · simp [leaveTrx]
  · simpa using hj

theorem onePhaseConn_leaves (c : ConnId) (e : Nat) (t : State) : ((onePhaseConn p env c e t).2.conn c).joinTrx = false := by
  unfold onePhaseConn
  split_ifs with hj
  · simp [leaveTrx]
  · simpa using hj

theorem rollbackConn_leaves (da : Bool) (c : ConnId) (e : Nat) (t : State) :
    ((rollbackConn p env da c e t).2.conn c).joinTrx = false := by
  unfold rollbackConn
  split_ifs with hj
  · simp [leaveTrx]
  · simpa using hj

theorem rolledBack_leaves (hnodup : st.trx.joinTrxTop.Nodup) (hidle : st.trx.trxStart = false → st.trx.joinTrxTop = [])
    (hc : c ∈ st.trx.joinTrxTop) : ((st.rolledBack p env).conn c).joinTrx = false := by
  unfold rolledBack
  split_ifs with hstart
  · exact forEach_leaves (fun c e t => rollbackConn_touches (C := (· = c)) p env st.isError rfl e t)
      (rollbackConn_leaves p env st.isError) hnodup hc 0 st
  · exact forEach_leaves (fun c e t => rollbackPlainConn_touches (C := (· = c)) p env st.isError rfl e t)
      (fun c e t => by simp [rollbackPlainConn, leaveTrx]) hnodup hc 0 st
  · simp [hidle (by simpa using hstart)] at hc

def Tells (r : Nat × State) : Prop := r.1 ≠ 0 → r.2.isError = true

theorem Tells.andThen {r : Nat × State} {k : State → Nat × State} (h : Tells r) (hk : ∀ s, Tells (k s)) :
    Tells (andThen r k) := by
  unfold Lib.andThen
  split_ifs
  · exact hk _
  · exact h

theorem logOpen_tells (a : LogAccess) (st : State) : Tells (logOpen env a st) := by
  unfold logOpen
  cases env.log a with
  | none => exact fun h => absurd rfl h
  | some e => exact fun _ => rfl

theorem logAccess_tells (a : LogAccess) (write : Log → Log) (st : State) : Tells (logAccess env a write st) := by
  unfold logAccess
  cases env.log a with
  | none => exact fun h => absurd rfl h
  | some e => exact fun _ => rfl

theorem updateXa_tells (a : LogAccess) (status : XaStatus) (st : State) : Tells (updateXa env a status st) := by
  unfold updateXa
  split
  · exact (logOpen_tells env a st).andThen fun _ _ => rfl
  · exact logAccess_tells env a _ st

theorem commitLog_tells (st : State) : Tells (commitLog p env st) := by
  unfold commitLog
  split_ifs
  · refine (logOpen_tells env _ st).andThen fun s => Tells.andThen ?_ fun s => Tells.andThen ?_ fun s =>
      updateXa_tells env _ _ s
    · refine (logOpen_tells env _ s).andThen fun s => ?_
      split
      · exact fun _ => rfl
      · exact fun h => absurd rfl h
    · unfold checkXaStatus
      split_ifs
      · exact fun h => absurd rfl h
      · refine (logOpen_tells env _ s).andThen fun s => ?_
        split_ifs
        · exact fun h => absurd rfl h
        · exact fun _ => rfl
  · exact fun h => absurd rfl h

theorem internalXaPrepare_steps (hlen : 2 ≤ st.trx.joinTrxTop.length) (hok : (internalXaPrepare p env st).1 = 0) :
    ∃ t u, t = (prepareLog p env st).2 ∧ (prepareLoop p env t).1 = 0 ∧
      u = (prepareLoop p env t).2 ∧ (dbXaCommitOnePhase p env st.trx.last u).1 = 0 ∧
      (preparedLog p env (dbXaCommitOnePhase p env st.trx.last u).2).1 = 0 ∧
      internalXaPrepare p env st = preparedLog p env (dbXaCommitOnePhase p env st.trx.last u).2 := by
  rw [internalXaPrepare_eq p env hlen] at hok ⊢
  obtain ⟨h1, hok⟩ := andThen_fst_eq_zero.mp hok
  obtain ⟨h2, hok⟩ := andThen_fst_eq_zero.mp hok
  obtain ⟨h3, h4⟩ := andThen_fst_eq_zero.mp hok
  exact ⟨_, _, rfl, h2, rfl, h3, h4, by rw [andThen_of_zero h1, andThen_of_zero h2, andThen_of_zero h3]⟩

theorem internalXaPrepare_row (hlen : 2 ≤ st.trx.joinTrxTop.length) (hok : (internalXaPrepare p env st).1 = 0)
    (hlog : st.logged p = true) : (internalXaPrepare p env st).2.log.xa st.trx.xid = some .prepared := by
  obtain ⟨t, u, ht, -, hu, -, hprep, heq⟩ := internalXaPrepare_steps p env hlen hok
  have htrx : (dbXaCommitOnePhase p env st.trx.last u).2.trx = st.trx := by
    rw [(onePhase_touches p env _ u).trx, hu, (prepareLoop_touches p env t).trx, ht, (prepareLog_only p env st).trx]
  rw [heq]
  unfold preparedLog at hprep ⊢
  rw [logged_congr htrx, if_pos hlog] at hprep ⊢
  obtain ⟨hopen, hupdate⟩ := andThen_fst_eq_zero.mp hprep
  rw [andThen_of_zero hopen]
  have hdone := (updateXa_done env hupdate).1
  rwa [(logOpen_only env .reopenXa _).trx, htrx] at hdone

theorem internalXaCommit_leaves (hnodup : st.trx.joinTrxTop.Nodup) (hlog : (commitLog p env st).1 = 0)
    (hc : c ∈ st.trx.joinTrxTop) : ((internalXaCommit p env st).2.conn c).joinTrx = false := by
  have honly := commitLog_only p env st
  have hloop : ((commitLoop p env (commitLog p env st).2).2.conn c).joinTrx = false :=
    forEach_leaves (fun c e t => commitConn_touches (C := (· = c)) p env _ rfl e t) (commitConn_leaves p env _)
      (by rw [honly.trx]; exact hnodup) (by rw [honly.trx]; exact hc) 0 _
  have hconns : ((commitConns p env (commitLog p env st).2).2.conn c).joinTrx = false := by
    rw [commitConns_eq]
    unfold reportTimeout
    split_ifs <;> exact hloop
  unfold internalXaCommit
  rw [andThen_of_zero hlog]
  refine andThen_rule (P := fun t : State => (t.conn c).joinTrx = false) hconns fun _ h => ?_
  rw [(deleteLog_only p env _).conn]
  exact h

theorem internalXaCommit_of_log (hlog : (commitLog p env st).1 ≠ 0) : internalXaCommit p env st = commitLog p env st :=
  andThen_of_ne hlog

/-- The joined connections have left the transaction, unless the log failed between the two phases. -/
theorem Ends.leaves (h : Ends p env st u) (htidy : Tidy st) (hne : st.trx.trxXa = true → st.trx.joinTrxTop ≠ []) :
    (∀ c ∈ st.trx.joinTrxTop, (u.conn c).joinTrx = false) ∨ (u.isError = true ∧ st.several ∧ ¬ CommitLogged p env st) := by
  cases h with
  | rollback => exact .inl fun c hc => rolledBack_leaves p env htidy.nodup htidy.idle hc
  | failed h _ =>
    obtain ⟨-, htrx⟩ := internalXaPrepare_keeps p env h.2
    refine .inl fun c hc => rolledBack_leaves p env ?_ ?_ ?_ <;> rw [htrx]
    · exact htidy.nodup
    · exact htidy.idle
    · exact hc
  | commit h =>
    unfold committed
    split_ifs with hstart hxa hone
    · have hlast := internalXaCommit_keepsTree p env (internalXaCommitOnePhase p env st).2
      have hfirst : ∀ c ∈ st.trx.joinTrxTop, ((internalXaCommitOnePhase p env st).2.conn c).joinTrx = false := by
        intro c hc
        have hloop := forEach_leaves (fun c e t => onePhaseConn_touches (C := (· = c)) p env rfl e t)
          (onePhaseConn_leaves p env) htidy.nodup hc 0 st
        unfold internalXaCommitOnePhase reportTimeout
        dsimp only
        split_ifs <;> exact hloop
      refine .inl fun c hc => ?_
      have hsame := hlast.same c (by rw [internalXaCommitOnePhase_tree]; simp)
      have hconn : ((internalXaCommit p env (internalXaCommitOnePhase p env st).2).2.conn c).joinTrx = false := by
        rw [hsame.conn]; exact hfirst c hc
      exact hconn
    · have hlen : 2 ≤ st.trx.joinTrxTop.length := by
        have := List.length_pos_iff.mpr (hne hxa)
        omega
      obtain ⟨-, htrx⟩ := internalXaPrepare_keeps p env hlen
      have hok := h ⟨hxa, hlen⟩
      by_cases hlog : (commitLog p env (internalXaPrepare p env st).2.markPrepared).1 = 0
      · refine .inl fun c hc => internalXaCommit_leaves p env ?_ hlog ?_ <;> rw [markPrepared_joinTrxTop, htrx]
        · exact htidy.nodup
        · exact hc
      · refine .inr ⟨?_, ⟨hxa, hlen⟩, fun hfree => hlog (commitLog_fst p env ?_ fun hl => ?_)⟩
        · rw [internalXaCommit_of_log p env hlog]
          exact commitLog_tells p env _ hlog
        · unfold CommitLogged at hfree ⊢
          rw [markPrepared_logged, logged_congr htrx]
          exact hfree
        · rw [markPrepared_logged, logged_congr htrx] at hl
          rw [markPrepared_log, markPrepared_xid, htrx]
          exact internalXaPrepare_row p env hlen hok hl
    · exact .inl fun c hc => forEach_leaves (fun c e t => commitPlainConn_touches (C := (· = c)) p env st.isError rfl e t)
        (fun c e t => by simp [commitPlainConn, leaveTrx]) htidy.nodup hc 0 st
    · exact .inl fun c hc => by simp [htidy.idle (by simpa using hstart)] at hc

end Leave

end TSpider.Xa
