import TSpider.Xa.Commit
import TSpider.Xa.Session

/-!
# Releasing the connections of a transaction

What `spider_free_trx_conn` and `spider_free_prepared_trx` do with the connections of a session: they are closed, put into
the pool or kept, and nothing else changes.
-/

namespace TSpider.Xa
open Lib

structure SameConn (st u : State) (d : ConnId) : Prop where
  conn : u.conn d = st.conn d
  branch : u.world.branch d = st.world.branch d
  trxOpen : u.world.trxOpen d = st.world.trxOpen d
  autocommit : u.world.autocommit d = st.world.autocommit d

theorem SameConn.refl (st : State) (d : ConnId) : SameConn st st d := ⟨rfl, rfl, rfl, rfl⟩

theorem SameConn.trans {st t u : State} {d : ConnId} (h : SameConn st t d) (h' : SameConn t u d) : SameConn st u d :=
  ⟨h'.conn.trans h.conn, h'.branch.trans h.branch, h'.trxOpen.trans h.trxOpen, h'.autocommit.trans h.autocommit⟩

theorem SameConn.sessionOpen {st u : State} {d : ConnId} (h : SameConn st u d) :
    u.world.sessionOpen d = st.world.sessionOpen d := by
  unfold World.sessionOpen
  rw [h.branch, h.trxOpen]

def Conn.released (k : Conn) : Conn := k.clearQueueAtCommit.resetForPool false

/-- From `st` to `u` the connections `cs` were released one after another. -/
structure Released (p : Params) (cs : List ConnId) (st u : State) : Prop where
  trx : u.trx = { st.trx with trxConnHash := u.trx.trxConnHash }
  hash : u.trx.trxConnHash = if p.connRecycleMode = 2 then st.trx.trxConnHash else cs.foldl List.erase st.trx.trxConnHash
  log : u.log = st.log
  trace : u.trace = st.trace
  nullDeref : u.nullDeref = st.nullDeref
  same : ∀ d, d ∉ cs → SameConn st u d
  isError : st.isError = true → u.isError = true
  kept : p.connRecycleMode = 2 → ∀ c ∈ cs, u.conn c = { (st.conn c).clearQueueAtCommit with errorMode := true }
  /-- What is put into the pool was not lost, and the session had no error. -/
  pool : ∀ e ∈ u.pool, e ∈ st.pool ∨ ∃ c ∈ cs, e = (c, st.world.sessionOpen c, (st.conn c).joinTrx) ∧
    p.connRecycleMode = 1 ∧ st.isError = false ∧ (st.conn c).serverLost = false ∧
    u.conn c = (st.conn c).released ∧ u.world.sessionOpen c = st.world.sessionOpen c ∧
    u.world.autocommit c = st.world.autocommit c
  pool_sub : ∀ e ∈ st.pool, e ∈ u.pool

section One
variable (p : Params) (env : Env) (c : ConnId) (st : State)

theorem freeConn_same {d : ConnId} (hd : d ≠ c) : SameConn st (st.freeConn c) d where
  conn := rfl
  branch := by simp [State.freeConn, World.disconnect, hd]
  trxOpen := by simp [State.freeConn, World.disconnect, hd]
  autocommit := rfl

theorem setConn_same (k : Conn) {d : ConnId} (hd : d ≠ c) : SameConn st (st.setConn c k) d :=
  ⟨setConn_conn_ne st c d k hd, rfl, rfl, rfl⟩

theorem released_kept (hmode : p.connRecycleMode = 2) :
    Released p [c] st (st.setConn c { (st.conn c).clearQueueAtCommit with errorMode := true }) where
  trx := rfl
  hash := by simp [hmode]
  log := rfl
  trace := rfl
  nullDeref := rfl
  same d hd := setConn_same c st _ (by simpa using hd)
  isError := id
  kept _ d hd := by
    obtain rfl : d = c := by simpa using hd
    simp
  pool e he := .inl he
  pool_sub e he := he

theorem released_put (hmode : p.connRecycleMode = 1) (hlost : (st.conn c).serverLost = false) (herr : st.isError = false) :
    Released p [c] st ((st.setConn c (st.conn c).released).putConn c) where
  trx := rfl
  hash := by simp [hmode, State.putConn]
  log := rfl
  trace := rfl
  nullDeref := rfl
  same d hd := (setConn_same c st _ (by simpa using hd)).trans ⟨rfl, rfl, rfl, rfl⟩
  isError := id
  kept h := by omega
  pool e he := by
    rcases List.mem_append.mp he with he | he
    · exact .inl he
    · refine .inr ⟨c, by simp, ?_, hmode, herr, hlost, ?_, rfl, rfl⟩
      · simpa [Conn.released, Conn.resetForPool, Conn.clearQueueAtCommit] using he
      · simp [State.putConn]
  pool_sub e he := List.mem_append_left _ he

theorem released_freed {k : Conn} {b : Bool} (hmode : p.connRecycleMode ≠ 2) (hb : st.isError = true → b = true) :
    Released p [c] st (({ st.setConn c k with isError := b } : State).freeConn c) where
  trx := rfl
  hash := by simp [hmode, State.freeConn]
  log := rfl
  trace := rfl
  nullDeref := rfl
  same d hd := by
    have hd : d ≠ c := by simpa using hd
    have h := freeConn_same c { st.setConn c k with isError := b } hd
    exact ⟨h.conn.trans (setConn_conn_ne st c d k hd), h.branch, h.trxOpen, rfl⟩
  isError := hb
  kept h := absurd h hmode
  pool e he := .inl he
  pool_sub e he := he

@[simp] theorem setConn_setConn (k k' : Conn) : (st.setConn c k).setConn c k' = st.setConn c k' := by
  simp [State.setConn]

theorem freeTrxConnOne_released (hlock : (st.conn c).tableLock = 0) (hopen : (st.conn c).openedHandlers = false) :
    Released p [c] st (freeTrxConnOne p env st c) := by
  unfold freeTrxConnOne
  rw [if_neg (by simpa [Conn.clearQueueAtCommit] using hlock)]
  by_cases hmode : p.connRecycleMode = 2
  · rw [if_neg (by simpa using hmode), setConn_setConn]
    simpa using released_kept p c st hmode
  · rw [if_pos hmode]
    unfold freeConnFromTrx
    dsimp only
    rw [setConn_conn_self, setConn_setConn]
    -- the message about a changed server, if any, is the session's error
    generalize hk : (st.conn c).clearQueueAtCommit.resetForPool (env.versionChanged c) = k
    obtain ⟨b, hb, hmsg⟩ : ∃ b, (st.isError = true → b = true) ∧
        (if (env.versionChanged c && p.errorWhenFlushServer) = true then (st.setConn c k).myMessage else st.setConn c k) =
          { st.setConn c k with isError := b } := by
      split_ifs
      · exact ⟨true, fun _ => rfl, rfl⟩
      · exact ⟨st.isError, id, rfl⟩
    rw [hmsg]
    have hhandlers : k.openedHandlers = false := by rw [← hk]; exact hopen
    rw [if_pos (by simp [hmode, hhandlers])]
    split_ifs with hput
    · simp only [setConn_conn_self, Bool.and_eq_true, Bool.not_eq_true', beq_iff_eq] at hput
      obtain ⟨⟨⟨hlost, hone⟩, herr⟩, -⟩ := hput
      obtain ⟨hlost, hversion⟩ : (st.conn c).serverLost = false ∧ env.versionChanged c = false := by
        rw [← hk] at hlost
        simpa [Conn.resetForPool, Conn.clearQueueAtCommit] using hlost
      have herr' : st.isError = false := Bool.eq_false_iff.mpr fun h => by simp [hb h] at herr
      have hstate : ({ st.setConn c k with isError := b } : State) = st.setConn c (st.conn c).released := by
        rw [← hk, hversion, show b = st.isError from herr.trans herr'.symm]
        rfl
      rw [hstate]
      exact released_put p c st hone hlost herr'
    · exact released_freed p c st hmode hb

end One

/-! ## All connections -/

section All
variable (p : Params) (env : Env) {st t u : State} {c : ConnId} {cs : List ConnId}

theorem Released.nil (st : State) : Released p [] st st where
  trx := rfl
  hash := by simp
  log := rfl
  trace := rfl
  nullDeref := rfl
  same d _ := .refl st d
  isError := id
  kept _ _ h := absurd h (by simp)
  pool _ he := .inl he
  pool_sub _ he := he

variable {p} in
theorem Released.cons (h : Released p [c] st t) (h' : Released p cs t u) (hc : c ∉ cs) : Released p (c :: cs) st u where
  trx := by rw [h'.trx, h.trx]
  hash := by
    rw [h'.hash, h.hash]
    split_ifs <;> rfl
  log := h'.log.trans h.log
  trace := h'.trace.trans h.trace
  nullDeref := h'.nullDeref.trans h.nullDeref
  same d hd := by
    obtain ⟨hdc, hdcs⟩ : d ≠ c ∧ d ∉ cs := by simpa using hd
    exact (h.same d (by simpa using hdc)).trans (h'.same d hdcs)
  isError herr := h'.isError (h.isError herr)
  kept hmode d hd := by
    by_cases hdc : d = c
    · subst hdc
      rw [(h'.same d hc).conn, h.kept hmode d (by simp)]
    · rw [h'.kept hmode d ((List.mem_cons.mp hd).resolve_left hdc), (h.same d (by simpa using hdc)).conn]
  pool e he := by
    rcases h'.pool e he with he | ⟨d, hd, heq, hmode, herr, hlost, hconn, hopen, hauto⟩
    · rcases h.pool e he with he | ⟨d, hd, heq, hmode, herr, hlost, hconn, hopen, hauto⟩
      · exact .inl he
      · obtain rfl : d = c := by simpa using hd
        have hsame := h'.same d hc
        exact .inr ⟨d, by simp, heq, hmode, herr, hlost, hsame.conn.trans hconn, hsame.sessionOpen.trans hopen,
          hsame.autocommit.trans hauto⟩
    · have hsame := h.same d fun h => hc (List.mem_singleton.mp h ▸ hd)
      have herr' : st.isError = false := Bool.eq_false_iff.mpr fun h1 => by simp [h.isError h1] at herr
      rw [hsame.conn, hsame.sessionOpen] at heq
      rw [hsame.conn] at hlost hconn
      rw [hsame.sessionOpen] at hopen
      exact .inr ⟨d, by simp [hd], heq, hmode, herr', hlost, hconn, hopen, hauto.trans hsame.autocommit⟩
  pool_sub e he := h'.pool_sub e (h.pool_sub e he)

theorem foldl_released (hnodup : cs.Nodup) (hfree : ∀ c ∈ cs, (st.conn c).tableLock = 0 ∧
    (st.conn c).openedHandlers = false) :
    Released p cs st (cs.foldl (freeTrxConnOne p env) st) := by
  induction cs generalizing st with
  | nil => exact .nil p st
  | cons c cs ih =>
    obtain ⟨hc, hnodup⟩ := List.nodup_cons.mp hnodup
    obtain ⟨hlock, hopen⟩ := hfree c (by simp)
    have hone := freeTrxConnOne_released p env c st hlock hopen
    refine hone.cons (ih hnodup fun d hd => ?_) hc
    rw [(hone.same d fun h => hc (List.mem_singleton.mp h ▸ hd)).conn]
    exact hfree d (by simp [hd])

theorem foldl_erase_self (l : List ConnId) : l.foldl List.erase l = [] := by
  suffices h : ∀ cs l : List ConnId, l = cs → cs.foldl List.erase l = [] from h l l rfl
  intro cs
  induction cs with
  | nil => intro l h; simpa using h
  | cons c cs ih =>
    intro l h
    rw [List.foldl_cons, h, List.erase_cons_head]
    exact ih cs rfl

/-- **The end of `spider_commit` and `spider_rollback`** releases all connections of the session. -/
theorem finishTrx_released (st : State) (hnodup : st.trx.trxConnHash.Nodup)
    (hfree : ∀ c ∈ st.trx.trxConnHash, (st.conn c).tableLock = 0 ∧ (st.conn c).openedHandlers = false) :
    Released p st.trx.trxConnHash st (freeTrxConn p env st) ∧ (finishTrx p env st).trx = { st.trx with
        trxConnHash := if p.connRecycleMode = 2 then st.trx.trxConnHash else [], trxConsistentSnapshot := false } := by
  have h := foldl_released p env hnodup hfree
  refine ⟨h, ?_⟩
  have hhash : (freeTrxConn p env st).trx.trxConnHash = if p.connRecycleMode = 2 then st.trx.trxConnHash else [] := by
    rw [← foldl_erase_self st.trx.trxConnHash]
    exact h.hash
  unfold finishTrx
  dsimp only
  rw [show (freeTrxConn p env st).trx = _ from h.trx]
  rw [show (st.trx.trxConnHash.foldl (freeTrxConnOne p env) st).trx.trxConnHash = _ from hhash]

end All

/-! ## `spider_free_prepared_trx` -/

section Prepared
variable (st : State)

theorem foldl_freeConn (cs : List ConnId) (st : State) : ∃ w, cs.foldl State.freeConn st =
    { st with trx := { st.trx with trxConnHash := cs.foldl List.erase st.trx.trxConnHash }, world := w } ∧
      ∀ d, d ∉ cs → SameConn st (cs.foldl State.freeConn st) d := by
  induction cs generalizing st with
  | nil => exact ⟨st.world, rfl, fun d _ => .refl st d⟩
  | cons c cs ih =>
    obtain ⟨w, heq, hsame⟩ := ih (st.freeConn c)
    refine ⟨w, heq, fun d hd => ?_⟩
    obtain ⟨hdc, hdcs⟩ : d ≠ c ∧ d ∉ cs := by simpa using hd
    exact (freeConn_same c st hdc).trans (hsame d hdcs)

theorem freePreparedTrx_eq : ∃ w, freePreparedTrx st = { st with
      trx := { st.trx with joinTrxTop := [], trxConnHash := st.trx.trxConnHash.diff st.trx.joinTrxTop }, world := w } ∧
    ∀ d, d ∉ st.trx.joinTrxTop → SameConn st (freePreparedTrx st) d := by
  obtain ⟨w, heq, hsame⟩ := foldl_freeConn st.trx.joinTrxTop st
  refine ⟨w, ?_, fun d hd => ⟨(hsame d hd).conn, (hsame d hd).branch, (hsame d hd).trxOpen, (hsame d hd).autocommit⟩⟩
  unfold freePreparedTrx
  rw [heq, List.diff_eq_foldl]
  rfl

end Prepared

end TSpider.Xa
